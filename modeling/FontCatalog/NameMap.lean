import FontCatalog.Face
import Std.Data.TreeMap

/-! Names of faces by key. An entry keeps the first spelling that was met and the positions of the
faces that bear the name. -/
namespace FontCatalog
set_option autoImplicit false

/-- The faces of one key. -/
structure NameEntry where
  display : String
  /-- Positions of the faces, the last one first. -/
  latest : List Nat
  deriving DecidableEq, Repr, Inhabited

namespace NameEntry

/-- The positions in ascending order. -/
def positions (e : NameEntry) : List Nat := e.latest.reverse

/-- The position of the first face. -/
def first (e : NameEntry) : Nat := e.positions.headD 0

/-- One more face; positions come in ascending order, so that a repetition is at the front. -/
def add (position : Nat) (e : NameEntry) : NameEntry :=
  if e.latest.head? == some position then e else { e with latest := position :: e.latest }

end NameEntry

abbrev NameMap := Std.TreeMap String NameEntry

namespace NameMap

/-- Enters a name of the face at `position`; an empty key is left out. -/
def enter (key : String → String) (position : Nat) (m : NameMap) (name : String) : NameMap :=
  if (key name).isEmpty then m
  else m.alter (key name) fun
    | none => some ⟨name, [position]⟩
    | some e => some (e.add position)

/-- The map of the names that `names` gives for each face, `faces` standing from `position` on. -/
def enterAll (names : Face → List String) (key : String → String) (m : NameMap) (position : Nat) :
    List Face → NameMap
  | [] => m
  | f :: rest =>
    enterAll names key ((names f).foldl (enter key position) m) (position + 1) rest

def ofFaces (names : Face → List String) (key : String → String) (faces : List Face) : NameMap :=
  enterAll names key ∅ 0 faces

/-- The spellings, in the order of characters. -/
def displays (m : NameMap) : List String :=
  (m.toList.map (·.2.display)).mergeSort (fun a b => decide (a ≤ b))

/-- The entries whose keys begin with `stem`, those with the earliest face first. -/
def startingWith (stem : String) (m : NameMap) : List NameEntry :=
  ((m.toList.filter fun e => stem.toList.isPrefixOf e.1.toList).map (·.2)).mergeSort
    fun a b => decide (a.first ≤ b.first)

end NameMap

end FontCatalog
