import FontCatalog.Face
import FontCatalog.Json.Shape

/-! Faces as JSON objects. A path that is not UTF-8 has no JSON form. -/
namespace FontCatalog
set_option autoImplicit false
open Json

namespace LocalizedName

def shape : Shape :=
  .record "LocalizedName" [⟨"language", .text, true⟩, ⟨"name", .text, false⟩]

def ofJson (v : Json) : LocalizedName where
  language := v.member "language" toText ""
  name := v.member "name" toText ""

def toJson (n : LocalizedName) : Json :=
  .object [("language", .text n.language), ("name", .text n.name)]

end LocalizedName

/-- A path as JSON, if it is valid UTF-8. -/
def Path.toJson? (p : Path) : Option Json := p.text?.map .text

namespace Face

def shape : Shape :=
  .record "FaceRecord" [
    ⟨"full_name", .text, false⟩,
    ⟨"postscript_name", .text, false⟩,
    ⟨"win32_family_name", .text, false⟩,
    ⟨"typographic_family_names", .list LocalizedName.shape, false⟩,
    ⟨"source_file_path", .path, false⟩,
    ⟨"face_index", .word32, false⟩,
    ⟨"weight", .word16, true⟩,
    ⟨"italic", .boolean, true⟩,
    ⟨"ps_outline", .boolean, true⟩]

/-- The face that a value of its shape stands for. -/
def ofJson (v : Json) : Face where
  fullName := v.member "full_name" toText ""
  postscriptName := v.member "postscript_name" toText ""
  win32Family := v.member "win32_family_name" toText ""
  typographicFamilies :=
    v.member "typographic_family_names" (fun w => w.toList.map LocalizedName.ofJson) []
  path := .ofString (v.member "source_file_path" toText "")
  index := (v.member "face_index" toNat 0).toUInt32
  weight := v.member "weight" (·.toNat.toUInt16) regularWeight
  italic := v.member "italic" toBool false
  psOutline := v.member "ps_outline" toBool false

/-- Reads a face from a tree with sorted members. -/
def decode (v : Json) : Except Mismatch Face := (shape.ofTree .document v).map ofJson

/-- The members in the order of the format, with `path` in the place of the path. -/
def toJsonWith (path : Json) (f : Face) : Json :=
  .object [
    ("full_name", .text f.fullName),
    ("postscript_name", .text f.postscriptName),
    ("win32_family_name", .text f.win32Family),
    ("typographic_family_names", .list (f.typographicFamilies.map LocalizedName.toJson)),
    ("source_file_path", path),
    ("face_index", .nat f.index.toNat),
    ("weight", .nat f.weight.toNat),
    ("italic", .bool f.italic),
    ("ps_outline", .bool f.psOutline)]

def toJson? (f : Face) : Option Json := f.path.toJson?.map f.toJsonWith

end Face

end FontCatalog
