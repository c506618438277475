import FontCatalog.FileTree
import FontCatalog.Sfnt.Metadata

/-! Font files as a scan sees them: how many faces a file has, and what it says about each. How the
bytes of a file are understood is up to the reader; one reader is for sfnt files. -/
namespace FontCatalog
set_option autoImplicit false

/-- Why a file or a face of it cannot be understood. -/
inductive DecodeError where
  | io (path : Path) (reason : String)
  | container (path : Path) (reason : String)
  | face (path : Path) (index : Nat) (reason : String)
  deriving DecidableEq, Repr

def DecodeError.message : DecodeError → String
  | .io path reason => "reading " ++ path.display ++ ": " ++ reason
  | .container path reason => path.display ++ " is not a font container: " ++ reason
  | .face path index reason =>
    "face " ++ toString index ++ " of " ++ path.display ++ ": " ++ reason

/-- A font file that has been opened. -/
structure FontFile where
  faceCount : Nat
  /-- The metadata of a face, or why there is none. -/
  metadata : Nat → Except String FaceMetadata

/-- How bytes are understood as a font file. -/
abbrev FontFormat := ByteArray → Except String FontFile

/-- How the file under a path is opened. -/
abbrev Extractor := Path → Except DecodeError FontFile

namespace FontFile

/-- Opens the files of a tree in a format. -/
def extractor (format : FontFormat) (t : FileTree) : Extractor := fun p =>
  match t.read p with
  | .error e => .error (.io p e.message)
  | .ok data =>
    match format data with
    | .error reason => .error (.container p reason)
    | .ok file => .ok file

/-- The face with a number of a file that has been opened under `p`. -/
def face (file : FontFile) (p : Path) (index : Nat) : Except DecodeError Face :=
  match file.metadata index with
  | .error reason => .error (.face p index reason)
  | .ok m => .ok { toFaceMetadata := m, path := p, index := index.toUInt32 }

/-- The format of fonts and font collections made of tables, with the best texts chosen in this way. -/
def sfntBy (choice : Sfnt.Choice) : FontFormat := fun data =>
  match Sfnt.Container.read data with
  | .error e => .error e.message
  | .ok c =>
    .ok ⟨c.faceCount, fun i => (c.metadata choice i).mapError Sfnt.FaceError.message⟩

/-- The same with English preferred. -/
def sfnt : FontFormat := sfntBy Sfnt.englishOrFirst

end FontFile

end FontCatalog
