import FontCatalog.Binary64

/-! JSON values. Numbers are integers of 64 bits with or without sign, or doubles; an object keeps
its members in the order of the text, repeated names included. -/
namespace FontCatalog
set_option autoImplicit false

/-- A JSON number: an integer from -2^63 to 2^64 - 1, or a double. -/
inductive Number where
  | integer (i : Int)
  | double (negative : Bool) (magnitude : Binary64)
  deriving DecidableEq, Repr

inductive Json where
  | null
  | bool (b : Bool)
  | number (n : Number)
  | text (s : String)
  | list (items : List Json)
  | object (members : List (String × Json))
  deriving Repr, Inhabited, BEq

namespace Json

def nat (n : Nat) : Json := .number (.integer n)

/-! ## Members -/

/-- The value of the first member with this name. -/
def lookup (name : String) : List (String × Json) → Option Json
  | [] => none
  | (n, v) :: rest => if n == name then some v else lookup name rest

def get? (name : String) : Json → Option Json
  | .object members => lookup name members
  | _ => none

/-- Adds a member where its name belongs in ascending order; a member of that name gives way. -/
def insertMember (name : String) (value : Json) :
    List (String × Json) → List (String × Json)
  | [] => [(name, value)]
  | (n, v) :: rest =>
    if name == n then (name, value) :: rest
    else if name < n then (name, value) :: (n, v) :: rest
    else (n, v) :: insertMember name value rest

/-- Members in ascending order of their names; of members of one name the last stays. -/
def sortMembers (members : List (String × Json)) : List (String × Json) :=
  members.foldl (fun acc m => insertMember m.1 m.2 acc) []

mutual
/-- The value with the members of every object sorted, one of each name. -/
def keyed : Json → Json
  | .list items => .list (keyedItems items)
  | .object members => .object (sortMembers (keyedMembers members))
  | v => v

def keyedItems : List Json → List Json
  | [] => []
  | v :: rest => v.keyed :: keyedItems rest

def keyedMembers : List (String × Json) → List (String × Json)
  | [] => []
  | (n, v) :: rest => (n, v.keyed) :: keyedMembers rest
end

end Json

end FontCatalog
