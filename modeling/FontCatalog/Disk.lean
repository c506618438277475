import FontCatalog.FileTree

/-! File trees taken from the disk, and their changes written back. Only what is looked at is taken: the
places on the way to a path, and what is in a directory. A link is taken with the full path of what it
leads to. -/
namespace FontCatalog.Disk
set_option autoImplicit false

def nameOf (bytes : Bytes) : String := (Path.mk bytes).display

def textOf (l : Location) : String := (FileTree.absolute l).display

/-- The entry of a place in its directory. -/
def entryAt (l : Location) : IO.FS.DirEntry := ⟨textOf l.dropLast, nameOf (l.getLast?.getD [])⟩

/-- The names down to an absolute path. -/
def locationOf (p : Path) : Location := (Path.pieces p.bytes).filter fun piece => piece ≠ []

/-- A path at which there is nothing, for a link that leads nowhere. -/
def nowhere : Path := .ofString "/.nowhere"

/-- What is at a place. The bytes of a file are read if they are wanted. -/
def nodeAt? (isWanted : Path → Bool) (l : Location) : IO (Option Node) := do
  let path := (entryAt l).path
  try
    match (← path.symlinkMetadata).type with
    | .dir => return some .directory
    | .symlink =>
      let target ← try pure (Path.ofString (← IO.FS.realPath path).toString) catch _ => pure nowhere
      return some (.link target)
    | .file =>
      let isRead := isWanted (FileTree.absolute l)
      return some (.file (← if isRead then IO.FS.readBinFile path else pure .empty))
    | .other => return none
  catch _ => return none

/-- The tree with what is at a place. -/
def take (isWanted : Path → Bool) (t : FileTree) (l : Location) : IO FileTree := do
  match ← nodeAt? isWanted l with
  | some n => return t.insert l n
  | none => return t

/-- The tree with everything on the way from `l` down the pieces of a path, and where that ends. -/
partial def takeWay (isWanted : Path → Bool) (t : FileTree) (l : Location) :
    List Bytes → IO (FileTree × Location)
  | [] => return (t, l)
  | piece :: rest => do
    if piece = [] ∨ piece = [Path.dot] then takeWay isWanted t l rest
    else if piece = [Path.dot, Path.dot] then takeWay isWanted t l.dropLast rest
    else
      let next := l ++ [piece]
      let t ← take isWanted t next
      match t.get? next with
      | some .directory => takeWay isWanted t next rest
      | some (.link target) => takeWay isWanted t [] (Path.pieces target.bytes ++ rest)
      | _ => return (t, next)

/-- The tree with everything on the way to a path, and where the path ends. -/
def takePath (isWanted : Path → Bool) (t : FileTree) (p : Path) : IO (FileTree × Location) :=
  takeWay isWanted t (if p.isAbsolute then [] else t.here) (Path.pieces p.bytes)

/-- The tree with everything in and below directories, each of which is gone through once. -/
partial def takeBelow (isWanted : Path → Bool) (follow : Bool) (visited : List Location)
    (t : FileTree) : List Location → IO FileTree
  | [] => return t
  | l :: rest => do
    if visited.contains l || t.get? l ≠ some .directory then
      takeBelow isWanted follow visited t rest
    else
      let path := if l = [] then (IO.FS.DirEntry.mk "/" "").path else (entryAt l).path
      let entries ← try path.readDir catch _ => pure #[]
      let mut tree := t
      let mut more : List Location := []
      for entry in entries do
        let next := l ++ [Text.encode entry.fileName]
        tree ← take isWanted tree next
        match tree.get? next with
        | some .directory => more := next :: more
        | some (.link target) =>
          let (wider, place) ← takePath isWanted tree target
          tree := wider
          if follow then more := place :: more
        | _ => pure ()
      takeBelow isWanted follow (l :: visited) tree (more ++ rest)

/-- The tree with everything on the way to paths, and where these end. -/
def takePaths (isWanted : Path → Bool) (t : FileTree) (paths : List Path) :
    IO (FileTree × List Location) := do
  let mut tree := t
  let mut places : List Location := []
  for p in paths do
    let (wider, place) ← takePath isWanted tree p
    tree := wider
    places := place :: places
  return (tree, places.reverse)

/-- A tree that begins in the directory of the process. -/
def start : IO FileTree := do
  let l := locationOf (.ofString (← IO.currentDir).toString)
  let t : FileTree := { here := l }
  return (← takePath (fun _ => false) t (FileTree.absolute l)).1

/-! ## Writing -/

/-- Puts a node at its place; a file is there with all its bytes or as it was. -/
def put (l : Location) (n : Node) : IO Unit := do
  match n with
  | .directory => IO.FS.createDirAll (textOf l)
  | .file data =>
    let temporary := textOf (l.dropLast ++ [Text.encode ".writing-" ++ l.getLast?.getD []])
    IO.FS.writeBinFile temporary data
    IO.FS.rename temporary (textOf l)
  | .link _ => pure ()

/-- Writes what is in the second tree and not so in the first. -/
def putChanges (before after : FileTree) : IO Unit := do
  for (l, n) in after.nodes do
    if before.get? l ≠ some n then put l n

end FontCatalog.Disk
