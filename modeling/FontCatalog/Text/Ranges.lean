/-! Sets of code points written as ascending lists of closed ranges. -/
namespace FontCatalog.Text
set_option autoImplicit false

/-- A set of code points: closed ranges, ascending and apart from each other. -/
abbrev Ranges := List (Nat × Nat)

namespace Ranges

/-- Whether `n` lies in a range; the search stops at the first range above `n`. -/
def holds (n : Nat) : Ranges → Bool
  | [] => false
  | (lo, hi) :: rest => if n < lo then false else if n ≤ hi then true else holds n rest

/-- The order that the search relies on. -/
def Ascending : Ranges → Bool
  | [] => true
  | [(lo, hi)] => lo ≤ hi
  | (lo, hi) :: (lo', hi') :: rest => lo ≤ hi && hi < lo' && Ascending ((lo', hi') :: rest)

end Ranges

end FontCatalog.Text
