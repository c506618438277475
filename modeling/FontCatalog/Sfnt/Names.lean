import FontCatalog.Sfnt.Directory
import FontCatalog.Sfnt.Language
import FontCatalog.Sfnt.MacRoman
import FontCatalog.Text.Utf16

/-! The name table: texts by number, platform and language. -/
namespace FontCatalog.Sfnt
set_option autoImplicit false

structure NameRecord where
  platform : Nat
  encoding : Nat
  language : Nat
  name : Nat
  length : Nat
  offset : Nat
  deriving DecidableEq, Repr

structure NameTable where
  version : Nat
  records : List NameRecord
  /-- Where the language tags lie in the storage: length and offset of each. -/
  tags : List (Nat × Nat)
  storage : ByteArray

namespace NameTable

/-- The table, none if it is too short for what it states. -/
def read? (data : ByteArray) : Option NameTable :=
  if data.size < 6 then none
  else
    let version := u16 data 0
    let count := u16 data 2
    let storage := u16 data 4
    let tail := 6 + 12 * count
    let record (i : Nat) : NameRecord :=
      let place := 6 + 12 * i
      ⟨u16 data place, u16 data (place + 2), u16 data (place + 4), u16 data (place + 6),
        u16 data (place + 8), u16 data (place + 10)⟩
    let records := (List.range count).map record
    let stored := data.extract storage data.size
    if data.size < tail then none
    else if version = 0 then some ⟨version, records, [], stored⟩
    else if data.size < tail + 2 then none
    else
      let tagCount := u16 data tail
      if data.size < tail + 2 + 4 * tagCount then none
      else
        let tags := (List.range tagCount).map fun i =>
          (u16 data (tail + 2 + 4 * i), u16 data (tail + 4 + 4 * i))
        some ⟨version, records, tags, stored⟩

/-- The bytes of a text, none of them if it does not lie in the storage. -/
def stored (t : NameTable) (offset length : Nat) : Bytes :=
  if t.storage.size < offset + length then []
  else (t.storage.extract offset (offset + length)).toList

/-- The 16-bit units of bytes; a last byte on its own is left out. -/
def unitsOf : Bytes → List Nat
  | a :: b :: rest => (a.toNat * 256 + b.toNat) :: unitsOf rest
  | _ => []

/-- The text of a record; it is empty where the encoding is not known. -/
def text (t : NameTable) (r : NameRecord) : String :=
  let bytes := t.stored r.offset r.length
  if r.platform == 0 || (r.platform == 3 && [0, 1, 10].contains r.encoding) then
    String.ofList (Text.ofUnits (unitsOf bytes))
  else if r.platform == 1 && r.encoding == 0 then String.ofList (bytes.map macRomanChar)
  else ""

/-- The language tag with this number: at most thirty characters, all of them ASCII. -/
def storedTag? (t : NameTable) (i : Nat) : Option String :=
  match t.tags[i]? with
  | none => none
  | some (length, offset) =>
    let chars := Text.ofUnits (unitsOf (t.stored offset length))
    if chars.all (·.toNat < 0x80) && chars.length ≤ 30 then some (String.ofList chars) else none

/-- The language of a record, if it is known. -/
def language? (t : NameTable) (r : NameRecord) : Option String :=
  if t.version == 1 && 0x8000 ≤ r.language then t.storedTag? (r.language - 0x8000)
  else if r.platform == 1 || r.platform == 3 then languageTag? r.language
  else none

/-- The texts under a number, with their languages. -/
def texts (t : NameTable) (name : Nat) : List (Option String × String) :=
  (t.records.filter (·.name == name)).map fun r => (t.language? r, t.text r)

end NameTable

/-! ## The best text -/

/-- How good a language is where English is wanted; the first text always counts. -/
def englishRank (isFirst : Bool) : Option String → Option Nat
  | some "en" => some 2
  | none => some 1
  | some _ => if isFirst then some 0 else none

/-- The best text that begins the list or follows the text `best`. -/
def englishAfter (best : Option (Nat × String)) (isFirst : Bool) :
    List (Option String × String) → Option String
  | [] => best.map (·.2)
  | (language, s) :: rest =>
    if language = some "en-US" then some s
    else
      match englishRank isFirst language with
      | none => englishAfter best false rest
      | some rank =>
        match best with
        | some (best, t) => englishAfter (some (if best < rank then (rank, s) else (best, t))) false rest
        | none => englishAfter (some (rank, s)) false rest

/-- American English at once, or else English, a text without language or the first text. -/
def englishOrFirst (texts : List (Option String × String)) : Option String :=
  englishAfter none true texts

end FontCatalog.Sfnt
