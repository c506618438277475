import FontCatalog.Json.Basic

/-! JSON text, compact or indented by two spaces. -/
namespace FontCatalog
set_option autoImplicit false

/-! ## Numbers -/

/-- `count` zeros. -/
def zeros (count : Nat) : String := String.ofList (List.replicate count '0')

/-- A decimal in positional notation from 10^-5 up to below 10^16, with at least one digit after the
point, and else with one digit before the point and a signed exponent. -/
def Binary64.Decimal.toText (d : Binary64.Decimal) : String :=
  let digits := toString d.digits
  let e := d.exponent
  if -5 ≤ e ∧ e ≤ 15 then
    if e < 0 then "0." ++ zeros (-e - 1).toNat ++ digits
    else if (digits.length : Int) ≤ e + 1 then
      digits ++ zeros (e.toNat + 1 - digits.length) ++ ".0"
    else
      String.ofList (digits.toList.take (e.toNat + 1)) ++ "."
        ++ String.ofList (digits.toList.drop (e.toNat + 1))
  else
    let first := String.ofList (digits.toList.take 1)
    let others := String.ofList (digits.toList.drop 1)
    first ++ (if others.isEmpty then "" else "." ++ others) ++ "e"
      ++ (if e < 0 then "-" else "+") ++ toString e.natAbs

def Number.toText : Number → String
  | .integer i => toString i
  | .double negative m => (if negative then "-" else "") ++ m.shortest.toText

namespace Json

/-! ## Strings -/

/-- The digit of `n` to base sixteen, lower case. -/
def hexDigit (n : Nat) : Char := Nat.digitChar (n % 16)

def escapeChar (c : Char) : List Char :=
  if c = '"' then ['\\', '"']
  else if c = '\\' then ['\\', '\\']
  else if c = '\x08' then ['\\', 'b']
  else if c = '\t' then ['\\', 't']
  else if c = '\n' then ['\\', 'n']
  else if c = '\x0c' then ['\\', 'f']
  else if c = '\r' then ['\\', 'r']
  else if c.toNat < 0x20 then ['\\', 'u', '0', '0', hexDigit (c.toNat / 16), hexDigit c.toNat]
  else [c]

def writeText (s : String) : List Char := '"' :: (s.toList.flatMap escapeChar ++ ['"'])

/-! ## Compact text -/

mutual
def write : Json → List Char
  | .null => ['n', 'u', 'l', 'l']
  | .bool true => ['t', 'r', 'u', 'e']
  | .bool false => ['f', 'a', 'l', 's', 'e']
  | .number n => n.toText.toList
  | .text s => writeText s
  | .list [] => ['[', ']']
  | .list (v :: rest) => '[' :: (v.write ++ writeItems rest)
  | .object [] => ['{', '}']
  | .object ((n, v) :: rest) => '{' :: (writeText n ++ ':' :: (v.write ++ writeMembers rest))

def writeItems : List Json → List Char
  | [] => [']']
  | v :: rest => ',' :: (v.write ++ writeItems rest)

def writeMembers : List (String × Json) → List Char
  | [] => ['}']
  | (n, v) :: rest => ',' :: (writeText n ++ ':' :: (v.write ++ writeMembers rest))
end

def render (v : Json) : String := String.ofList v.write

/-! ## Indented text -/

/-- A new line at this depth. -/
def newLine (depth : Nat) : List Char := '\n' :: List.replicate (2 * depth) ' '

mutual
def writePretty (depth : Nat) : Json → List Char
  | .list (v :: rest) =>
    '[' :: (newLine (depth + 1) ++ v.writePretty (depth + 1) ++ writePrettyItems depth rest)
  | .object ((n, v) :: rest) =>
    '{' :: (newLine (depth + 1) ++ writeText n ++ ':' :: ' ' ::
      (v.writePretty (depth + 1) ++ writePrettyMembers depth rest))
  | v => v.write

def writePrettyItems (depth : Nat) : List Json → List Char
  | [] => newLine depth ++ [']']
  | v :: rest =>
    ',' :: (newLine (depth + 1) ++ v.writePretty (depth + 1) ++ writePrettyItems depth rest)

def writePrettyMembers (depth : Nat) : List (String × Json) → List Char
  | [] => newLine depth ++ ['}']
  | (n, v) :: rest =>
    ',' :: (newLine (depth + 1) ++ writeText n ++ ':' :: ' ' ::
      (v.writePretty (depth + 1) ++ writePrettyMembers depth rest))
end

def renderPretty (v : Json) : String := String.ofList (v.writePretty 0)

end Json

end FontCatalog
