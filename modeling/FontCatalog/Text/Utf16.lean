/-! Text measured and read in UTF-16 code units. -/
namespace FontCatalog.Text
set_option autoImplicit false

/-- How many UTF-16 units `c` takes. -/
def unitsOf (c : Char) : Nat := if c.toNat < 0x10000 then 1 else 2

def units16 (s : String) : Nat := s.toList.foldr (fun c n => unitsOf c + n) 0

/-- The character with this code point, or U+FFFD if there is none. -/
def charOrReplacement (n : Nat) : Char := if n.isValidChar then Char.ofNat n else '\ufffd'

/-- The text of 16-bit units. A high surrogate joins with the unit after it, whatever that is; one
at the end, and every code point that is no character, is shown as U+FFFD. -/
def ofUnits : List Nat → List Char
  | [] => []
  | [u] => [if 0xD800 ≤ u ∧ u < 0xDC00 then '\ufffd' else charOrReplacement u]
  | u :: v :: rest =>
    if 0xD800 ≤ u ∧ u < 0xDC00 then
      charOrReplacement (((u &&& 0x3FF) <<< 10) + (v &&& 0x3FF) + 0x10000) :: ofUnits rest
    else charOrReplacement u :: ofUnits (v :: rest)

end FontCatalog.Text
