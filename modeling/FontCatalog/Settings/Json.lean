import FontCatalog.Json.Shape
import FontCatalog.Settings

/-! Settings as a JSON tree. -/
namespace FontCatalog.Settings
set_option autoImplicit false
open Json

def scanShape : Shape :=
  .record "ScanConfig" [
    ⟨"roots", .list .path, true⟩,
    ⟨"extensions", .list .text, true⟩,
    ⟨"workers", .word64, true⟩,
    ⟨"follow_symlinks", .boolean, true⟩,
    ⟨"dedup", .boolean, true⟩,
    ⟨"precount", .boolean, true⟩]

def catalogShape : Shape := .record "IndexConfig" [⟨"paths", .list .path, true⟩]

def serverShape : Shape :=
  .record "ServerConfig" [⟨"bind", .text, true⟩, ⟨"max_frame_len", .word64, true⟩]

def shape : Shape :=
  .record "Config" [⟨"scan", scanShape, true⟩, ⟨"index", catalogShape, true⟩,
    ⟨"server", serverShape, true⟩]

def toTexts (v : Json) : List String := v.toList.map toText

def toPaths (v : Json) : List Path := (toTexts v).map .ofString

/-- The settings that a value of the shape stands for; `absent` has the standard values. -/
def ofJson (absent : Settings) (v : Json) : Settings :=
  let scan := (v.get? "scan").getD .null
  let catalog := (v.get? "index").getD .null
  let server := (v.get? "server").getD .null
  { scan := {
      roots := scan.member "roots" toPaths absent.scan.roots
      extensions := scan.member "extensions" toTexts absent.scan.extensions
      workers := scan.member "workers" toNat absent.scan.workers
      followLinks := scan.member "follow_symlinks" toBool absent.scan.followLinks
      dedup := scan.member "dedup" toBool absent.scan.dedup
      precount := scan.member "precount" toBool absent.scan.precount }
    catalog := ⟨catalog.member "paths" toPaths []⟩
    server := ⟨server.member "bind" toText defaultBind,
      server.member "max_frame_len" toNat Wire.defaultMaxFrame⟩ }

def decode (absent : Settings) (v : Json) : Except Mismatch Settings :=
  (shape.ofTree .document v).map absent.ofJson

end FontCatalog.Settings
