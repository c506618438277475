import FontCatalog.Json.Basic
import FontCatalog.Text.Utf8

/-! The words of JSON text, read from bytes: white space, literals, strings and numbers. A reader
takes what it needs from the front and returns the rest. -/
namespace FontCatalog.Json
set_option autoImplicit false
open FontCatalog.Text

/-- Why a text is not JSON: it ends where more is needed, or a byte is wrong. -/
inductive Fault where
  | early
  | malformed
  deriving DecidableEq, Repr

/-- A fault in the text, or one of the kind `ε` in what it says. -/
inductive Trouble (ε : Type) where
  | text (f : Fault)
  | meaning (e : ε)
  deriving DecidableEq, Repr

/-- Reads from the front of the bytes and returns what is left. -/
abbrev Reading (ε α : Type) := Bytes → Except (Trouble ε) (α × Bytes)

def early {ε α : Type} : Except (Trouble ε) α := .error (.text .early)

def malformed {ε α : Type} : Except (Trouble ε) α := .error (.text .malformed)

/-- The byte of an ASCII character. -/
def byte (c : Char) : UInt8 := c.toNat.toUInt8

/-! ## White space and literals -/

def isSpace (b : UInt8) : Bool := b == 0x20 || b == 0x0A || b == 0x09 || b == 0x0D

def skipSpace : Bytes → Bytes
  | [] => []
  | b :: rest => if isSpace b then skipSpace rest else b :: rest

/-- Takes the bytes of `word`. -/
def expect {ε : Type} : List Char → Bytes → Except (Trouble ε) Bytes
  | [], bs => .ok bs
  | _ :: _, [] => early
  | c :: word, b :: rest => if b == byte c then expect word rest else malformed

/-! ## Strings -/

def hexValue? (b : UInt8) : Option Nat :=
  if byte '0' ≤ b && b ≤ byte '9' then some (b.toNat - 48)
  else if byte 'a' ≤ b && b ≤ byte 'f' then some (b.toNat - 87)
  else if byte 'A' ≤ b && b ≤ byte 'F' then some (b.toNat - 55)
  else none

/-- Four digits to base sixteen. -/
def readHex {ε : Type} : Reading ε Nat
  | a :: b :: c :: d :: rest =>
    match hexValue? a, hexValue? b, hexValue? c, hexValue? d with
    | some a, some b, some c, some d => .ok (((a * 16 + b) * 16 + c) * 16 + d, rest)
    | _, _, _, _ => malformed
  | _ => early

/-- The low surrogate that must follow the high surrogate `high`. -/
def readLow {ε : Type} (high : Nat) : Reading ε Char
  | [] => early
  | b :: rest =>
    if b != byte '\\' then malformed else
    match rest with
    | [] => early
    | b :: rest =>
      if b != byte 'u' then malformed else
      match readHex rest with
      | .error e => .error e
      | .ok (low, rest) =>
        if 0xDC00 ≤ low ∧ low ≤ 0xDFFF then
          .ok (Char.ofNat ((high - 0xD800) * 1024 + (low - 0xDC00) + 0x10000), rest)
        else malformed

/-- The character after a backslash that is not followed by `u`. -/
def simpleEscape? (b : UInt8) : Option Char :=
  if b == byte '"' then some '"'
  else if b == byte '\\' then some '\\'
  else if b == byte '/' then some '/'
  else if b == byte 'b' then some '\x08'
  else if b == byte 'f' then some '\x0c'
  else if b == byte 'n' then some '\n'
  else if b == byte 'r' then some '\r'
  else if b == byte 't' then some '\t'
  else none

/-- The character written after a backslash. -/
def readEscape {ε : Type} : Reading ε Char
  | [] => early
  | b :: rest =>
    match simpleEscape? b with
    | some c => .ok (c, rest)
    | none =>
      if b != byte 'u' then malformed else
      match readHex rest with
      | .error e => .error e
      | .ok (n, rest) =>
        if n < 0xD800 ∨ 0xDFFF < n then .ok (Char.ofNat n, rest)
        else if n < 0xDC00 then readLow n rest
        else malformed

/-- The rest of a string whose bytes so far are `acc`, last byte first. -/
def readTextOnto {ε : Type} : Nat → Bytes → Reading ε String
  | 0, _, _ => early
  | _ + 1, _, [] => early
  | fuel + 1, acc, b :: rest =>
    if b == byte '"' then
      match decode? acc.reverse with
      | some s => .ok (s, rest)
      | none => malformed
    else if b == byte '\\' then
      match readEscape rest with
      | .error e => .error e
      | .ok (c, rest) => readTextOnto fuel ((String.utf8EncodeChar c).reverse ++ acc) rest
    else if b < 0x20 then malformed
    else readTextOnto fuel (b :: acc) rest

/-- A string after its opening quote; `fuel` is at least the number of bytes. -/
def readText {ε : Type} (fuel : Nat) : Reading ε String := readTextOnto (fuel + 1) []

/-! ## Numbers -/

def isDigit (b : UInt8) : Bool := byte '0' ≤ b && b ≤ byte '9'

def digitValue (b : UInt8) : Nat := b.toNat - 48

def startsDigit : Bytes → Bool
  | b :: _ => isDigit b
  | [] => false

/-- Digits as long as the value stays below 2^64: the value, how many were taken, the rest. -/
def takeDigits (value taken : Nat) : Bytes → Nat × Nat × Bytes
  | [] => (value, taken, [])
  | b :: rest =>
    if isDigit b && value * 10 + digitValue b < 0x10000000000000000 then
      takeDigits (value * 10 + digitValue b) (taken + 1) rest
    else (value, taken, b :: rest)

/-- Drops digits and counts them. -/
def dropDigits (dropped : Nat) : Bytes → Nat × Bytes
  | [] => (dropped, [])
  | b :: rest => if isDigit b then dropDigits (dropped + 1) rest else (dropped, b :: rest)

/-- `10^n` as a double, for `n` up to 308. -/
def powerOfTen (n : Nat) : Binary64 := Binary64.ofNat (Nat.pow 10 n)

/-- `d · 10^exponent` by one product or one quotient with a power of ten, after quotients by 10^308
while the exponent is below -308. -/
def scaleTen : Nat → Binary64 → Int → Option Binary64
  | 0, d, _ => some d
  | fuel + 1, d, exponent =>
    if exponent.natAbs ≤ 308 then
      if 0 ≤ exponent then d.mul (powerOfTen exponent.natAbs)
      else d.div (powerOfTen exponent.natAbs)
    else if d.isZero then some d
    else if 0 ≤ exponent then none
    else
      match d.div (powerOfTen 308) with
      | some d => scaleTen fuel d (exponent + 308)
      | none => none

/-- A double from its digits; one that is too large is refused. -/
def double {ε : Type} (negative : Bool) (digits : Nat) (exponent : Int) (rest : Bytes) :
    Except (Trouble ε) (Number × Bytes) :=
  match scaleTen 4 (Binary64.ofNat digits) exponent with
  | some d => .ok (.double negative d, rest)
  | none => malformed

/-- The largest exponent that is counted. -/
def maxExponent : Nat := 0x7FFFFFFF

/-- The digits of an exponent, none if it is above the largest one that is counted. -/
def exponentDigits (value : Nat) : Bytes → Option Nat × Bytes
  | [] => (some value, [])
  | b :: rest =>
    if isDigit b then
      if value * 10 + digitValue b ≤ maxExponent then
        exponentDigits (value * 10 + digitValue b) rest
      else (none, (dropDigits 0 rest).2)
    else (some value, b :: rest)

/-- The sign of an exponent. -/
def exponentSign : Bytes → Bool × Bytes
  | [] => (false, [])
  | b :: rest =>
    if b == byte '-' then (true, rest) else if b == byte '+' then (false, rest)
    else (false, b :: rest)

/-- The exponent after its letter, and with it the double. -/
def readExponent {ε : Type} (negative : Bool) (digits : Nat) (base : Int) : Reading ε Number :=
  fun bs =>
  let (down, rest) := exponentSign bs
  match rest with
  | [] => early
  | b :: _ =>
    if !isDigit b then malformed else
    match exponentDigits 0 rest with
    | (some e, rest) => double negative digits (if down then base - e else base + e) rest
    | (none, rest) =>
      if digits != 0 && !down then malformed
      else .ok (.double negative Binary64.zero, rest)

def isExponentLetter (b : UInt8) : Bool := b == byte 'e' || b == byte 'E'

/-- What follows the digits of a double: an exponent or nothing. -/
def finishDouble {ε : Type} (negative : Bool) (digits : Nat) (exponent : Int) :
    Reading ε Number
  | b :: rest =>
    if isExponentLetter b then readExponent negative digits exponent rest
    else double negative digits exponent (b :: rest)
  | [] => double negative digits exponent []

/-- The digits after the point, at least one; those that no longer fit are dropped. -/
def readFraction {ε : Type} (negative : Bool) (digits : Nat) (exponent : Int) :
    Reading ε Number := fun bs =>
  match bs with
  | [] => early
  | b :: _ =>
    if !isDigit b then malformed else
    let (digits, taken, rest) := takeDigits digits 0 bs
    finishDouble negative digits (exponent - taken) (dropDigits 0 rest).2

/-- An integer that is no double: minus zero and what is below -2^63 are doubles. -/
def wholeNumber (negative : Bool) (n : Nat) : Number :=
  if !negative then .integer n
  else if n == 0 || n > 0x8000000000000000 then .double true (Binary64.ofNat n)
  else .integer (-n)

/-- What follows the digits before the point, of which `dropped` did not fit. -/
def finishNumber {ε : Type} (negative : Bool) (digits dropped : Nat) : Reading ε Number
  | b :: rest =>
    if b == byte '.' then readFraction negative digits dropped rest
    else if isExponentLetter b then readExponent negative digits dropped rest
    else if dropped == 0 then .ok (wholeNumber negative digits, b :: rest)
    else double negative digits dropped (b :: rest)
  | [] =>
    if dropped == 0 then .ok (wholeNumber negative digits, [])
    else double negative digits dropped []

/-- A number after its sign. -/
def readNumber {ε : Type} (negative : Bool) : Reading ε Number
  | [] => early
  | b :: rest =>
    if b == byte '0' then
      if startsDigit rest then malformed else finishNumber negative 0 0 rest
    else if isDigit b then
      let (digits, _, rest) := takeDigits 0 0 (b :: rest)
      let (dropped, rest) := dropDigits 0 rest
      finishNumber negative digits dropped rest
    else malformed

end FontCatalog.Json
