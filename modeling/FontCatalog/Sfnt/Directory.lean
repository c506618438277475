import FontCatalog.Text.Utf8

/-! Font containers: a single font, or a collection of fonts that share one file. A font is a
directory of tables, each a stretch of the file under a tag of four bytes. -/
namespace FontCatalog.Sfnt
set_option autoImplicit false

/-! ## Big-endian numbers -/

def u16? (data : ByteArray) (place : Nat) : Option Nat := do
  let a ← data[place]?
  let b ← data[place + 1]?
  pure (a.toNat * 256 + b.toNat)

def u32? (data : ByteArray) (place : Nat) : Option Nat := do
  let a ← u16? data place
  let b ← u16? data (place + 2)
  pure (a * 65536 + b)

/-- The number at a place that is known to lie in `data`. -/
def u16 (data : ByteArray) (place : Nat) : Nat := (u16? data place).getD 0

def u32 (data : ByteArray) (place : Nat) : Nat := (u32? data place).getD 0

/-- Four characters as a number. -/
def tag (s : String) : Nat := s.toList.foldl (fun n c => n * 256 + c.toNat) 0

/-! ## Errors -/

inductive ReadError where
  | outOfBounds
  | invalidVersion (version : Nat)
  | noSuchFont (index : Nat)
  deriving DecidableEq, Repr

/-- `n` as eight digits to base sixteen, upper case. -/
def hex8 (n : Nat) : String :=
  String.ofList ((List.range 8).reverse.map fun i => (Nat.digitChar (n / Nat.pow 16 i % 16)).toUpper)

def ReadError.message : ReadError → String
  | .outOfBounds => "An offset was out of bounds"
  | .invalidVersion version => "Invalid sfnt version 0x" ++ hex8 version
  | .noSuchFont index => "Invalid index " ++ toString index ++ " for font collection"

/-! ## Tables -/

structure TableRecord where
  tag : Nat
  offset : Nat
  length : Nat
  deriving DecidableEq, Repr

/-- A font: the file and the directory of its tables. -/
structure Font where
  data : ByteArray
  tables : List TableRecord

/-- The versions that a directory may state: TrueType outlines under two names, and PostScript
outlines. -/
def knownVersions : List Nat := [0x00010000, tag "OTTO", tag "true"]

/-- The directory at `start`. -/
def readFont (data : ByteArray) (start : Nat) : Except ReadError Font :=
  if data.size < start + 12 then .error .outOfBounds
  else
    let count := u16 data (start + 4)
    if data.size < start + 12 + 16 * count then .error .outOfBounds
    else
      let version := u32 data start
      if !knownVersions.contains version then .error (.invalidVersion version)
      else
        let record (i : Nat) : TableRecord :=
          let place := start + 12 + 16 * i
          ⟨u32 data place, u32 data (place + 8), u32 data (place + 12)⟩
        .ok ⟨data, (List.range count).map record⟩

namespace Font

def hasTable (f : Font) (t : Nat) : Bool := f.tables.any (·.tag == t)

/-- The bytes of the first table under the tag; a table at offset zero or outside the file is
missing. -/
def table? (f : Font) (t : Nat) : Option ByteArray :=
  match f.tables.find? (·.tag == t) with
  | none => none
  | some r =>
    if r.offset == 0 || f.data.size < r.offset + r.length then none
    else some (f.data.extract r.offset (r.offset + r.length))

end Font

/-! ## Containers -/

/-- The offsets of the fonts of a collection, none if `data` has no such header. -/
def collection? (data : ByteArray) : Option (List Nat) :=
  if data.size < 12 || u32 data 0 != tag "ttcf" then none
  else
    let count := u32 data 8
    let trailer := if u16 data 4 ≥ 2 then 12 else 0
    if data.size < 12 + 4 * count + trailer then none
    else some ((List.range count).map fun i => u32 data (12 + 4 * i))

inductive Container where
  | single (font : Font)
  | collection (data : ByteArray) (offsets : List Nat)

namespace Container

def read (data : ByteArray) : Except ReadError Container :=
  match collection? data with
  | some offsets => .ok (.collection data offsets)
  | none => (readFont data 0).map .single

def faceCount : Container → Nat
  | .single _ => 1
  | .collection _ offsets => offsets.length

def font (c : Container) (index : Nat) : Except ReadError Font :=
  match c with
  | .single f => if index = 0 then .ok f else .error (.noSuchFont index)
  | .collection data offsets =>
    match offsets[index]? with
    | none => .error (.noSuchFont index)
    | some start => if data.size < start then .error .outOfBounds else readFont data start

end Container

end FontCatalog.Sfnt
