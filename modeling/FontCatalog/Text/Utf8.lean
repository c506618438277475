/-! UTF-8: texts as bytes, and bytes as texts, either strictly or with each malformed piece shown
as the replacement character. The reader takes one byte at a time. -/
namespace FontCatalog

/-- A sequence of bytes. -/
abbrev Bytes := List UInt8

namespace Text
set_option autoImplicit false

/-! ## Writing -/

def encodeChars (cs : List Char) : Bytes := cs.flatMap String.utf8EncodeChar

def encode (s : String) : Bytes := encodeChars s.toList

/-! ## Reading -/

/-- A sequence that has begun: the bits so far, how many bytes are missing, and the bounds of the
next one. -/
structure Pending where
  bits : Nat
  missing : Nat
  low : UInt8
  high : UInt8

/-- What a byte means where a sequence may begin. -/
inductive Lead where
  | whole (c : Char)
  | begins (p : Pending)
  | malformed

/-- The bounds of the second byte leave no room for overlong forms, surrogates and code points above
0x10FFFF. -/
def lead (b : UInt8) : Lead :=
  let n := b.toNat
  if b < 0x80 then .whole (Char.ofNat n)
  else if b < 0xC2 then .malformed
  else if b < 0xE0 then .begins ⟨n % 32, 1, 0x80, 0xBF⟩
  else if b == 0xE0 then .begins ⟨n % 16, 2, 0xA0, 0xBF⟩
  else if b == 0xED then .begins ⟨n % 16, 2, 0x80, 0x9F⟩
  else if b < 0xF0 then .begins ⟨n % 16, 2, 0x80, 0xBF⟩
  else if b == 0xF0 then .begins ⟨n % 8, 3, 0x90, 0xBF⟩
  else if b < 0xF4 then .begins ⟨n % 8, 3, 0x80, 0xBF⟩
  else if b == 0xF4 then .begins ⟨n % 8, 3, 0x80, 0x8F⟩
  else .malformed

/-- What has been read, the last character first: `none` stands for a malformed piece, which is the
longest beginning of a sequence that was there. -/
structure Decoder where
  done : List (Option Char) := []
  pending : Option Pending := none

def Decoder.start (done : List (Option Char)) (b : UInt8) : Decoder :=
  match lead b with
  | .whole c => ⟨some c :: done, none⟩
  | .begins p => ⟨done, some p⟩
  | .malformed => ⟨none :: done, none⟩

def Decoder.feed (d : Decoder) (b : UInt8) : Decoder :=
  match d.pending with
  | none => .start d.done b
  | some p =>
    if p.low ≤ b && b ≤ p.high then
      let bits := p.bits * 64 + b.toNat % 64
      if p.missing == 1 then ⟨some (Char.ofNat bits) :: d.done, none⟩
      else ⟨d.done, some ⟨bits, p.missing - 1, 0x80, 0xBF⟩⟩
    else .start (none :: d.done) b

/-- All pieces, the last one first; a sequence cut off by the end is malformed. -/
def Decoder.finish (d : Decoder) : List (Option Char) :=
  match d.pending with
  | none => d.done
  | some _ => none :: d.done

/-- The characters and malformed pieces of `bs` in order. -/
def pieces (bs : Bytes) : List (Option Char) := (bs.foldl Decoder.feed ⟨[], none⟩).finish.reverse

/-- The text that `bs` encodes, if every piece is well formed. -/
def decode? (bs : Bytes) : Option String :=
  let ps := pieces bs
  if ps.all Option.isSome then some (String.ofList (ps.filterMap id)) else none

/-- The text that `bs` encodes, each malformed piece shown as U+FFFD. -/
def decodeLossy (bs : Bytes) : String := String.ofList ((pieces bs).map (·.getD '\ufffd'))

end Text

end FontCatalog
