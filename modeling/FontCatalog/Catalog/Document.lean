import FontCatalog.Catalog
import FontCatalog.Face.Json
import FontCatalog.OsError

/-! The catalog as a JSON document: a version and the list of faces. Reading a document is all or
nothing. -/
namespace FontCatalog
set_option autoImplicit false

namespace Catalog

/-- The version of the format. -/
def formatVersion : Nat := 1

/-! ## Writing -/

/-- What is said of a path that has no JSON form. -/
def unwritablePath : String := "path contains invalid UTF-8 characters"

/-- The JSON of all faces, if every path has one. -/
def facesToJson? : List Face → Option (List Json)
  | [] => some []
  | f :: rest =>
    match f.toJson? with
    | none => none
    | some v => (facesToJson? rest).map (v :: ·)

def documentOf (faces : List Json) : Json :=
  .object [("version", .nat formatVersion), ("faces", .list faces)]

/-- The document, none if a path is not valid UTF-8. -/
def serialize? (c : Catalog) : Option Bytes :=
  (facesToJson? c.faces.toList).map fun faces => Text.encode (documentOf faces).renderPretty

/-! ## Reading -/

inductive LoadError where
  | io (path : Path) (e : OsError)
  | text (f : Json.Fault)
  | unsupportedVersion (found : Nat)
  | missingFaces
  | missingField (entry : Nat) (field : String)
  | notObject (entry : Nat)
  | malformed (entry : Nat) (m : Json.Mismatch)
  deriving Repr

def LoadError.message : LoadError → String
  | .io path e => "reading index " ++ path.display ++ ": " ++ e.message
  | .text _ => "index is not valid JSON"
  | .unsupportedVersion found =>
    "unsupported index format version " ++ toString found ++ " (expected "
      ++ toString formatVersion ++ ")"
  | .missingFaces => "index document has no `faces` array"
  | .missingField entry field =>
    "face entry " ++ toString entry ++ " is missing required field `" ++ field ++ "`"
  | .notObject entry =>
    "face entry " ++ toString entry ++ " is malformed: face entry is not an object"
  | .malformed entry m => "face entry " ++ toString entry ++ " is malformed: " ++ m.message

/-- The members that every face has, in the order in which they are missed. -/
def requiredFields : List String :=
  ["full_name", "postscript_name", "win32_family_name", "typographic_family_names",
   "source_file_path", "face_index"]

/-- The face of one entry. -/
def decodeEntry (entry : Nat) (v : Json) : Except LoadError Face :=
  match v with
  | .object members =>
    match requiredFields.find? fun name => (Json.lookup name members).isNone with
    | some name => .error (.missingField entry name)
    | none =>
      match Face.decode v with
      | .error m => .error (.malformed entry m)
      | .ok f => .ok f
  | _ => .error (.notObject entry)

/-- The faces of the entries, of which the first has the number `entry`. -/
def decodeEntries (entry : Nat) : List Json → Except LoadError (List Face)
  | [] => .ok []
  | v :: rest =>
    match decodeEntry entry v with
    | .error e => .error e
    | .ok f =>
      match decodeEntries (entry + 1) rest with
      | .error e => .error e
      | .ok fs => .ok (f :: fs)

/-- The version that a document states; what is no natural number of 64 bits counts as 0. -/
def statedVersion (v : Json) : Nat :=
  match v with
  | .number (.integer i) => i.toNat
  | _ => 0

/-- The faces in the order of the document. -/
def decodeDocument (v : Json) : Except LoadError (List Face) :=
  let entries :=
    match v.get? "faces" with
    | some (.list entries) => decodeEntries 0 entries
    | _ => .error .missingFaces
  match v.get? "version" with
  | none => entries
  | some w =>
    if statedVersion w = formatVersion then entries
    else .error (.unsupportedVersion (statedVersion w))

def deserialize (bs : Bytes) : Except LoadError Catalog :=
  match Json.parseKeyed bs with
  | .error f => .error (.text f)
  | .ok v => (decodeDocument v).map build

end Catalog

end FontCatalog
