import FontCatalog.Path

/-! Font faces: the names, the style and the place of each. A face is identified by its file and
its number in that file. -/
namespace FontCatalog
set_option autoImplicit false

/-- A family name and the language that it is in, empty if that is not known. -/
structure LocalizedName where
  language : String := ""
  name : String
  deriving DecidableEq, Repr, Inhabited

/-- The weight of a regular face. -/
def regularWeight : UInt16 := 400

/-- Faces are bold from this weight on. -/
def boldWeight : UInt16 := 600

/-- What a font file says about one of its faces. -/
structure FaceMetadata where
  fullName : String := ""
  postscriptName : String := ""
  win32Family : String := ""
  typographicFamilies : List LocalizedName := []
  weight : UInt16 := regularWeight
  italic : Bool := false
  /-- Whether the outlines are of the PostScript kind. -/
  psOutline : Bool := false
  deriving DecidableEq, Repr, Inhabited

structure Face extends FaceMetadata where
  path : Path
  index : UInt32
  deriving DecidableEq, Repr, Inhabited

/-- The identity of a face. -/
structure FaceId where
  path : Path
  index : UInt32
  deriving DecidableEq, Repr, Inhabited

namespace FaceId

/-- By path, component by component, then by number. -/
instance : Ord FaceId where
  compare a b := (compare a.path b.path).then (compare a.index b.index)

def same (a b : FaceId) : Bool := (compare a b).isEq

def display (f : FaceId) : String := f.path.display ++ "#" ++ toString f.index.toNat

end FaceId

namespace Face

def id (f : Face) : FaceId := ⟨f.path, f.index⟩

def isBold (f : Face) : Bool := boldWeight ≤ f.weight

/-- Equal in every field, paths by component. -/
def same (f g : Face) : Bool :=
  f.toFaceMetadata == g.toFaceMetadata && f.path.same g.path && f.index == g.index

end Face

end FontCatalog
