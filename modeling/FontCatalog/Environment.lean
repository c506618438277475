import FontCatalog.Path

/-! Environment variables, and the directories of a user that follow from them. -/
namespace FontCatalog
set_option autoImplicit false

structure Environment where
  entries : List (String × Bytes) := []
  /-- The home directory that the system has noted for the user. -/
  account : Option Path := none
  deriving Inhabited

namespace Environment

def get? (e : Environment) (name : String) : Option Bytes :=
  (e.entries.find? fun v => v.1 == name).map (·.2)

/-- A variable as a text, none if it is not UTF-8. -/
def text? (e : Environment) (name : String) : Option String := (e.get? name).bind Text.decode?

/-- The home directory: the variable `HOME` unless it is empty, or else what the system has noted. -/
def home? (e : Environment) : Option Path :=
  match e.get? "HOME" with
  | some (b :: rest) => some ⟨b :: rest⟩
  | _ => e.account

/-- The directory that a variable names by an absolute path, or else one below the home directory. -/
def userDirectory? (e : Environment) (name below : String) : Option Path :=
  match e.home? with
  | none => none
  | some home =>
    match e.get? name with
    | some bytes => if (Path.mk bytes).isAbsolute then some ⟨bytes⟩ else some (home.join (.ofString below))
    | none => some (home.join (.ofString below))

/-- The name of the directories of this program. -/
def programDirectory : Path := .ofString "subfont"

def configDirectory? (e : Environment) : Option Path :=
  (e.userDirectory? "XDG_CONFIG_HOME" ".config").map (·.join programDirectory)

def dataDirectory? (e : Environment) : Option Path :=
  (e.userDirectory? "XDG_DATA_HOME" ".local/share").map (·.join programDirectory)

/-- The pieces of a list of paths that are not empty. -/
def splitPaths (separators : List Char) (bs : Bytes) : List Path :=
  let marks := separators.map fun c => c.toNat.toUInt8
  let (first, rest) := bs.foldr (fun b (s : Bytes × List Bytes) =>
    if marks.contains b then ([], s.1 :: s.2) else (b :: s.1, s.2)) ([], [])
  ((first :: rest).filter fun piece => !piece.isEmpty).map Path.mk

end Environment

end FontCatalog
