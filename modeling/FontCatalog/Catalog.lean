import FontCatalog.Name
import FontCatalog.NameMap

/-! The catalog: faces sorted by identity, each identity once, and the maps from names to faces. All
maps are made from the list of faces. -/
namespace FontCatalog
set_option autoImplicit false

/-- The faces that bear a name. -/
structure FaceGroup where
  /-- The spelling of the first of them, empty for an empty group. -/
  name : String := ""
  faces : List Face := []
  deriving DecidableEq, Repr, Inhabited

/-- The maps of one kind of family names. -/
structure FamilyMaps where
  family : NameMap := ∅
  exact : NameMap := ∅
  loose : NameMap := ∅
  deriving Inhabited

structure Catalog where
  faces : Array Face := #[]
  typographic : FamilyMaps := {}
  win32 : FamilyMaps := {}
  fullNames : NameMap := ∅
  postscriptNames : NameMap := ∅
  deriving Inhabited

/-! ## Names of a face -/

namespace Face

def typographicNames (f : Face) : List String := f.typographicFamilies.map (·.name)

def win32Names (f : Face) : List String := [f.win32Family]

def fullNames (f : Face) : List String := [f.fullName]

def postscriptNames (f : Face) : List String := [f.postscriptName]

end Face

namespace Catalog

/-! ## Building -/

/-- Leaves out the faces whose identity is that of the face before. -/
def dropRepeats (last : Face) : List Face → List Face
  | [] => []
  | f :: rest => if last.id.same f.id then dropRepeats last rest else f :: dropRepeats f rest

/-- The faces by identity; of those with one identity the first is kept. -/
def arrange (faces : List Face) : List Face :=
  match faces.mergeSort fun f g => (compare f.id g.id).isLE with
  | [] => []
  | f :: rest => f :: dropRepeats f rest

def familyMaps (names : Face → List String) (faces : List Face) : FamilyMaps where
  family := .ofFaces names Name.familyKey faces
  exact := .ofFaces names Name.exactKey faces
  loose := .ofFaces names Name.looseKey faces

/-- The catalog of arranged faces. -/
def ofArranged (faces : List Face) : Catalog where
  faces := faces.toArray
  typographic := familyMaps Face.typographicNames faces
  win32 := familyMaps Face.win32Names faces
  fullNames := .ofFaces Face.fullNames Name.familyKey faces
  postscriptNames := .ofFaces Face.postscriptNames Name.familyKey faces

def build (faces : List Face) : Catalog := ofArranged (arrange faces)

/-- One catalog of several; of faces with one identity that of the earliest catalog is kept. -/
def merge (catalogs : List Catalog) : Catalog := build (catalogs.flatMap (·.faces.toList))

def size (c : Catalog) : Nat := c.faces.size

/-! ## Looking up -/

/-- The faces at these positions. -/
def atPositions (c : Catalog) (positions : List Nat) : List Face :=
  positions.filterMap (c.faces[·]?)

def group (c : Catalog) (m : NameMap) (key : String) : FaceGroup :=
  match m[key]? with
  | some e => ⟨e.display, c.atPositions e.positions⟩
  | none => {}

/-- Adds a position to ascending positions. -/
def insertPosition (p : Nat) : List Nat → List Nat
  | [] => [p]
  | q :: rest =>
    if p < q then p :: q :: rest else if p = q then q :: rest else q :: insertPosition p rest

/-- All faces of the names whose keys begin with `stem`, each once and in order. -/
def groupOfStem (c : Catalog) (m : NameMap) (stem : String) : FaceGroup :=
  match m.startingWith stem with
  | [] => {}
  | e :: rest =>
    let positions := (e :: rest).flatMap NameEntry.positions
    ⟨e.display, c.atPositions (positions.foldl (fun acc p => insertPosition p acc) [])⟩

/-- Faces of a typographic family, case and the amount of white space aside. -/
def lookupTypographic (c : Catalog) (name : String) : FaceGroup :=
  c.group c.typographic.family (Name.familyKey name)

def lookupWin32 (c : Catalog) (name : String) : FaceGroup :=
  c.group c.win32.family (Name.familyKey name)

/-- Faces of a typographic family, case aside. -/
def typographicExact (c : Catalog) (name : String) : FaceGroup :=
  c.group c.typographic.exact (Name.exactKey name)

def win32Exact (c : Catalog) (name : String) : FaceGroup :=
  c.group c.win32.exact (Name.exactKey name)

/-- Faces of a typographic family by letters and numbers only. -/
def typographicLoose (c : Catalog) (name : String) : FaceGroup :=
  c.group c.typographic.loose (Name.looseKey name)

def win32Loose (c : Catalog) (name : String) : FaceGroup :=
  c.group c.win32.loose (Name.looseKey name)

/-- Faces of all typographic families that begin with `stem`, case aside. -/
def typographicStem (c : Catalog) (stem : String) : FaceGroup :=
  c.groupOfStem c.typographic.exact (Name.exactKey stem)

def win32Stem (c : Catalog) (stem : String) : FaceGroup :=
  c.groupOfStem c.win32.exact (Name.exactKey stem)

def lookupFullName (c : Catalog) (name : String) : FaceGroup :=
  c.group c.fullNames (Name.familyKey name)

def lookupPostscriptName (c : Catalog) (name : String) : FaceGroup :=
  c.group c.postscriptNames (Name.familyKey name)

/-! ## Families -/

def typographicFamilies (c : Catalog) : List String := c.typographic.family.displays

def win32Families (c : Catalog) : List String := c.win32.family.displays

end Catalog

end FontCatalog
