import FontCatalog.OsError
import FontCatalog.Path

/-! A tree of files, directories and symbolic links, and where the paths in it lead. A place is named
by the names from the root down to it; a link names a path, which is followed from the directory that
holds the link. -/
namespace FontCatalog
set_option autoImplicit false

/-- The names from the root down to a place. -/
abbrev Location := List Bytes

inductive Node where
  | file (data : ByteArray)
  | link (target : Path)
  | directory
  deriving Inhabited

/-- Files are compared byte by byte. -/
instance : DecidableEq Node
  | .file a, .file b =>
    if h : a.data = b.data then .isTrue (by cases a; cases b; cases h; rfl)
    else .isFalse fun e => h (by injection e with e; rw [e])
  | .link p, .link q =>
    if h : p = q then .isTrue (h ▸ rfl) else .isFalse fun e => h (by injection e)
  | .directory, .directory => .isTrue rfl
  | .file _, .link _ | .file _, .directory | .link _, .file _ | .link _, .directory
  | .directory, .file _ | .directory, .link _ => .isFalse nofun

structure FileTree where
  /-- All places but the root, each once. -/
  nodes : List (Location × Node) := []
  /-- The directory in which relative paths begin. -/
  here : Location := []
  deriving Inhabited

namespace FileTree

/-! ## Places -/

def find (l : Location) : List (Location × Node) → Option Node
  | [] => none
  | (k, n) :: rest => if k = l then some n else find l rest

/-- What is at a place; the root is a directory. -/
def get? (t : FileTree) (l : Location) : Option Node :=
  if l = [] then some .directory else find l t.nodes

def put (l : Location) (n : Node) : List (Location × Node) → List (Location × Node)
  | [] => [(l, n)]
  | (k, m) :: rest => if k = l then (l, n) :: rest else (k, m) :: put l n rest

def insert (t : FileTree) (l : Location) (n : Node) : FileTree :=
  { t with nodes := put l n t.nodes }

def erase (t : FileTree) (l : Location) : FileTree :=
  { t with nodes := t.nodes.filter fun e => e.1 ≠ l }

/-- The names in a directory. -/
def names (t : FileTree) (l : Location) : List Bytes :=
  t.nodes.filterMap fun e => if e.1.dropLast = l then e.1.getLast? else none

def directoryCount (t : FileTree) : Nat := (t.nodes.filter fun e => e.2 == .directory).length + 1

/-- The location as an absolute path. -/
def absolute (l : Location) : Path :=
  match l with
  | [] => ⟨[Path.slash]⟩
  | names => ⟨names.flatMap (Path.slash :: ·)⟩

/-- Empty but for the directories down to `here`. -/
def startingAt (here : Location) : FileTree where
  nodes := (List.range here.length).map fun i => (here.take (i + 1), .directory)
  here := here

/-! ## Paths -/

/-- How many bytes a name may have. -/
def maxName : Nat := 255

/-- How many bytes a path may have. -/
def maxPath : Nat := 4095

/-- How many links may be followed on the way to one place. -/
def maxLinks : Nat := 40

/-- Where a path leads: nothing needs to be there, if there is a directory for it. -/
structure Place where
  location : Location
  node? : Option Node

/-- Goes down from the directory `l` piece by piece; `jump` goes on through a link. The last piece is
not followed if it is a link and `follow` is false. -/
def descend (t : FileTree) (follow : Bool) (jump : Location → List Bytes → Except OsError Place) :
    Location → List Bytes → Except OsError Place
  | l, [] => .ok ⟨l, t.get? l⟩
  | l, piece :: rest =>
    if piece = [] ∨ piece = [Path.dot] then descend t follow jump l rest
    else if piece = [Path.dot, Path.dot] then descend t follow jump l.dropLast rest
    else if maxName < piece.length then .error .nameTooLong
    else
      let next := l ++ [piece]
      match t.get? next with
      | none => if rest = [] then .ok ⟨next, none⟩ else .error .notFound
      | some .directory => descend t follow jump next rest
      | some (.file data) =>
        if rest = [] then .ok ⟨next, some (.file data)⟩ else .error .notDirectory
      | some (.link target) =>
        if rest = [] ∧ follow = false then .ok ⟨next, some (.link target)⟩
        else jump (if target.isAbsolute then [] else l) (Path.pieces target.bytes ++ rest)

/-- Goes down through at most so many links. -/
def resolve (t : FileTree) (follow : Bool) : Nat → Location → List Bytes → Except OsError Place
  | 0 => descend t follow fun _ _ => .error .tooManyLinks
  | links + 1 => descend t follow (resolve t follow links)

/-- Where a path leads. -/
def locate (t : FileTree) (follow : Bool) (p : Path) : Except OsError Place :=
  if p.bytes.contains 0 then .error .zeroByte
  else if p.bytes = [] then .error .notFound
  else if maxPath < p.bytes.length then .error .nameTooLong
  else
    resolve t follow maxLinks (if p.isAbsolute then [] else t.here) (Path.pieces p.bytes)

/-! ## Reading -/

/-- What a path leads to, through all links if `follow` is set, and where that is. -/
def status (t : FileTree) (follow : Bool) (p : Path) : Except OsError (Location × Node) :=
  match t.locate follow p with
  | .error e => .error e
  | .ok ⟨_, none⟩ => .error .notFound
  | .ok ⟨l, some n⟩ => .ok (l, n)

def exists? (t : FileTree) (p : Path) : Bool :=
  match t.status true p with
  | .ok _ => true
  | .error _ => false

def isDirectory (t : FileTree) (p : Path) : Bool :=
  match t.status true p with
  | .ok (_, .directory) => true
  | _ => false

/-- The bytes of the file that a path leads to. -/
def read (t : FileTree) (p : Path) : Except OsError ByteArray :=
  match t.status true p with
  | .error e => .error e
  | .ok (_, .file data) => .ok data
  | .ok (_, .directory) => .error .isDirectory
  | .ok (_, .link _) => .error .tooManyLinks

end FileTree

end FontCatalog
