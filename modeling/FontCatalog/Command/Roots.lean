import FontCatalog.Command.Basic
import FontCatalog.Environment
import FontCatalog.FileTree

/-! Where a scan begins: the paths from the input, the paths among the arguments, and the directories in
which systems keep their fonts. -/
namespace FontCatalog.Roots
set_option autoImplicit false

/-! ## Input -/

/-- A byte read from the right: the line that it belongs to, and the lines after that one. -/
def lineStep (b : UInt8) (s : Bytes × List Bytes) : Bytes × List Bytes :=
  if b == 0x0A then ([], s.1 :: s.2) else (b :: s.1, s.2)

def lines (input : Bytes) : List Bytes :=
  let s := input.foldr lineStep ([], [])
  s.1 :: s.2

/-- One path for each line that is not blank, without the white space around it; none if a line is not
UTF-8. -/
def ofInput? (input : Bytes) : Option (List Path) :=
  ((lines input).mapM Text.decode?).map fun texts =>
    ((texts.map Text.trim).filter fun s => !s.isEmpty).map .ofString

/-- The argument that stands for the paths of the input. -/
def inputMark : Path := .ofString "-"

/-- Puts the paths of the input in the place of the first mark; the input is empty after that. -/
def splice (input : List Path) : List Path → List Path
  | [] => []
  | p :: rest => if p = inputMark then input ++ splice [] rest else p :: splice input rest

/-- Whether the input is read. -/
def readsInput (c : ScanCommand) : Bool := c.inputPaths || c.paths.contains inputMark

/-- The paths of the input, if it is to be read first, and those among the arguments. -/
def requested (c : ScanCommand) (input : List Path) : List Path :=
  if c.inputPaths then input ++ splice [] c.paths else splice input c.paths

/-! ## Directories of the system -/

/-- Where to look for fonts of the system, and whose word that is. -/
def systemPlaces (e : Environment) : List Path × String :=
  match e.get? "SUBFONT_SYSTEM_FONT_DIRS" with
  | some listed =>
    (Environment.splitPaths [':', ';'] (Text.encode (Text.decodeLossy listed)),
      "SUBFONT_SYSTEM_FONT_DIRS")
  | none =>
    let home := (e.get? "HOME").map Path.mk
    ([.ofString "/usr/share/fonts", .ofString "/usr/local/share/fonts"]
      ++ (home.map (·.join (.ofString ".local/share/fonts"))).toList
      ++ (home.map (·.join (.ofString ".fonts"))).toList, "this platform")

/-- Leaves out the paths that have the components of the path before. -/
def dropRepeats (last : Path) : List Path → List Path
  | [] => []
  | p :: rest => if last.same p then dropRepeats last rest else p :: dropRepeats p rest

/-- The paths in order, each once. -/
def arrange (paths : List Path) : List Path :=
  match paths.mergeSort fun p q => (compare p q).isLE with
  | [] => []
  | p :: rest => p :: dropRepeats p rest

/-- The directories of the system that are there, or whose word it was if there are none. -/
def ofSystem (t : FileTree) (e : Environment) : Except String (List Path) :=
  let (places, source) := systemPlaces e
  match arrange (places.filter t.isDirectory) with
  | [] => .error source
  | paths => .ok paths

end FontCatalog.Roots
