import FontCatalog.FileTree

/-! Changes of a file tree: files written, directories and links made, files renamed. -/
namespace FontCatalog.FileTree
set_option autoImplicit false

/-- The path without the slashes at its end; the root stays as it is. -/
def trimSlashes (p : Path) : Path :=
  let bytes := (p.bytes.reverse.dropWhile (· == Path.slash)).reverse
  if bytes = [] then p else ⟨bytes⟩

def endsInSlash (p : Path) : Bool := p.bytes.getLast? == some Path.slash

/-- Whether the last piece of a path stands for a directory that is already there. -/
def endsInDots (p : Path) : Bool :=
  match (Path.pieces (trimSlashes p).bytes).getLast? with
  | some piece => piece = [] || piece = [Path.dot] || piece = [Path.dot, Path.dot]
  | none => true

/-- Writes a file, which is made if there is none; a link leads to the file that it names. A path
with a slash at its end can only be a directory. -/
def write (t : FileTree) (p : Path) (data : ByteArray) : Except OsError FileTree :=
  match t.locate (!endsInSlash p) (trimSlashes p) with
  | .error e => .error e
  | .ok ⟨_, some .directory⟩ => .error .isDirectory
  | .ok ⟨l, _⟩ => if endsInSlash p then .error .isDirectory else .ok (t.insert l (.file data))

/-- Makes a directory in a directory that is there. -/
def makeDirectory (t : FileTree) (p : Path) : Except OsError FileTree :=
  match t.locate false (trimSlashes p) with
  | .error e => .error e
  | .ok ⟨_, some _⟩ => .error .exists
  | .ok ⟨l, none⟩ => .ok (t.insert l .directory)

/-- How far it has come to make a directory and those above it that are missing: upwards until there is one
to begin with, then down again. -/
inductive Making where
  /-- about to try `p`; the paths below it wait, the outermost first -/
  | up (p : Path) (waiting : List Path)
  | down (waiting : List Path)
  | failed (e : OsError)
  deriving DecidableEq, Repr

namespace Making

/-- Tries to make one directory; one that is there already will do. -/
def step (t : FileTree) : Making → FileTree × Making
  | .up p waiting =>
    if p.bytes = [] then (t, .down waiting)
    else
      match t.makeDirectory p with
      | .ok t => (t, .down waiting)
      | .error .notFound =>
        match p.parent? with
        | none => (t, .failed .notFound)
        | some parent => (t, .up parent (p :: waiting))
      | .error e => (t, if t.isDirectory p then .down waiting else .failed e)
  | .down [] => (t, .down [])
  | .down (p :: waiting) =>
    match t.makeDirectory p with
    | .ok t => (t, .down waiting)
    | .error e => (t, if t.isDirectory p then .down waiting else .failed e)
  | .failed e => (t, .failed e)

/-- Takes so many steps. -/
def run (m : Making) : Nat → FileTree → FileTree × Making
  | 0, t => (t, m)
  | n + 1, t =>
    let (t, m) := m.step t
    m.run n t

/-- How many steps are left at most. -/
def stepsLeft : Making → Nat
  | .up p waiting => 2 * p.bytes.length + waiting.length + 2
  | .down waiting => waiting.length
  | .failed _ => 0

end Making

/-- Makes a directory and those above it that are missing. What has been made stays when one of them
cannot be made. -/
def reach (t : FileTree) (p : Path) : FileTree × Except OsError Unit :=
  let m := Making.up p []
  match m.run m.stepsLeft t with
  | (t, .failed e) => (t, .error e)
  | (t, _) => (t, .ok ())

/-- The tree with a directory and those above it. -/
def makeDirectories (t : FileTree) (p : Path) : Except OsError FileTree :=
  match t.reach p with
  | (t, .ok ()) => .ok t
  | (_, .error e) => .error e

/-- Makes a link where there is nothing yet. -/
def makeLink (t : FileTree) (p target : Path) : Except OsError FileTree :=
  match t.locate false p with
  | .error e => .error e
  | .ok ⟨_, some _⟩ => .error .exists
  | .ok ⟨l, none⟩ => .ok (t.insert l (.link target))

/-- Where a file may be renamed to: a file or link there gives way, a directory does not. -/
def renameTarget (t : FileTree) (p : Path) : Except OsError Location :=
  match t.locate false (trimSlashes p) with
  | .error e => .error e
  | .ok ⟨l, n⟩ =>
    if endsInDots p then .error .busy
    else if endsInSlash p then .error .notDirectory
    else if n = some .directory then .error .isDirectory
    else .ok l

/-- Puts the file at `source` where `p` says, in one step. -/
def rename (t : FileTree) (source : Location) (p : Path) : Except OsError FileTree :=
  match t.get? source with
  | none => .error .notFound
  | some n =>
    match t.renameTarget p with
    | .error e => .error e
    | .ok l => .ok (if l = source then t else (t.erase source).insert l n)

/-- The names in the directory that a path leads to. -/
def list (t : FileTree) (p : Path) : Except OsError (List Bytes) :=
  match t.status true p with
  | .error e => .error e
  | .ok (l, .directory) => .ok (t.names l)
  | .ok _ => .error .notDirectory

end FontCatalog.FileTree
