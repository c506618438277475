import FontCatalog.Face.Json
import FontCatalog.FontFile

/-! Font files that are described by a JSON object: a list of faces, each with its metadata or with a
text that says why it is broken. -/
namespace FontCatalog.FontFile
set_option autoImplicit false
open Json

namespace Manifest

def faceShape : Shape :=
  .record "ManifestFace" [
    ⟨"full_name", .text, true⟩,
    ⟨"postscript_name", .text, true⟩,
    ⟨"win32_family_name", .text, true⟩,
    ⟨"typographic_family_names", .list LocalizedName.shape, true⟩,
    ⟨"weight", .word16, true⟩,
    ⟨"italic", .boolean, true⟩,
    ⟨"ps_outline", .boolean, true⟩,
    ⟨"broken", .optional .text, true⟩]

def shape : Shape := .record "Manifest" [⟨"faces", .list faceShape, false⟩]

def metadataOf (v : Json) : FaceMetadata where
  fullName := v.member "full_name" toText ""
  postscriptName := v.member "postscript_name" toText ""
  win32Family := v.member "win32_family_name" toText ""
  typographicFamilies :=
    v.member "typographic_family_names" (fun w => w.toList.map LocalizedName.ofJson) []
  weight := v.member "weight" (·.toNat.toUInt16) regularWeight
  italic := v.member "italic" toBool false
  psOutline := v.member "ps_outline" toBool false

/-- The face that an entry describes, or its text if it is broken. -/
def faceOf (v : Json) : Except String FaceMetadata :=
  match v.get? "broken" with
  | some (.text reason) => .error reason
  | _ => .ok (metadataOf v)

end Manifest

def manifest : FontFormat := fun data =>
  match Manifest.shape.parse data.toList with
  | .error _ => .error "not a stub font"
  | .ok v =>
    let faces := v.member "faces" Json.toList []
    .ok ⟨faces.length, fun i => Manifest.faceOf (faces[i]?.getD .null)⟩

end FontCatalog.FontFile
