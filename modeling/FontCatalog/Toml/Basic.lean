import FontCatalog.Binary64

/-! TOML values. A table keeps its entries in the order of the text, each name once. -/
namespace FontCatalog.Toml
set_option autoImplicit false

structure Date where
  year : Nat
  month : Nat
  day : Nat
  deriving DecidableEq, Repr

/-- A time of day; a fraction of the second has up to nine digits. -/
structure Time where
  hour : Nat
  minute : Nat
  second : Nat
  nanosecond : Nat := 0
  deriving DecidableEq, Repr

/-- A date, a time or both; only both together have an offset, in minutes. -/
structure Moment where
  date : Option Date := none
  time : Option Time := none
  offset : Option Int := none
  deriving DecidableEq, Repr

inductive Real where
  | finite (negative : Bool) (magnitude : Binary64)
  | infinite (negative : Bool)
  | notANumber (negative : Bool)
  deriving DecidableEq, Repr

inductive Value where
  | text (s : String)
  | integer (i : Int)
  | real (r : Real)
  | boolean (b : Bool)
  | moment (m : Moment)
  | array (items : List Value)
  | table (entries : List (String × Value))
  deriving Repr, Inhabited, BEq

/-- The entry with this name. -/
def lookup {α : Type} (name : String) : List (String × α) → Option α
  | [] => none
  | (k, v) :: rest => if k = name then some v else lookup name rest

/-- The least and the greatest integer. -/
def minInteger : Int := -0x8000000000000000

def maxInteger : Int := 0x7FFFFFFFFFFFFFFF

/-- How deep arrays and inline tables may be nested. -/
def maxDepth : Nat := 79

/-- How many parts a key may have. -/
def maxKeyParts : Nat := 79

end FontCatalog.Toml
