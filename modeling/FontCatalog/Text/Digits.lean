/-! Numbers written in decimal digits. -/
namespace FontCatalog.Text
set_option autoImplicit false

/-- The number that digits stand for, none without a digit or with anything else. -/
def number? (digits : List Char) : Option Nat :=
  if digits.isEmpty || !digits.all Char.isDigit then none
  else some (digits.foldl (fun n c => 10 * n + (c.toNat - '0'.toNat)) 0)

/-- A number that may have a plus sign in front. -/
def unsigned? : List Char → Option Nat
  | '+' :: digits => number? digits
  | digits => number? digits

/-- A number that may have a sign in front. -/
def signed? : List Char → Option Int
  | '-' :: digits => (number? digits).map fun n => - Int.ofNat n
  | digits => (unsigned? digits).map Int.ofNat

end FontCatalog.Text
