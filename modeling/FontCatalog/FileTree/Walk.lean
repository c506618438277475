import FontCatalog.FileTree
import FontCatalog.Search.Error

/-! Walking down from roots: every entry below a root, before what is in it, under a path that begins
with the root as it is spelled. Links are followed only on demand, but a root that leads to a directory
always is. -/
namespace FontCatalog.FileTree
set_option autoImplicit false

/-- What tells files apart: where a file is, or the path of one that cannot be found again. -/
inductive FileKey where
  | place (l : Location)
  | spelled (components : List (List Nat))
  deriving DecidableEq, Repr

inductive WalkItem where
  | entry (path : Path) (isFile : Bool) (key : FileKey)
  | failure (e : SearchError)

/-- The key of what a path leads to. -/
def keyOf (t : FileTree) (p : Path) : FileKey :=
  match t.status true p with
  | .ok (l, _) => .place l
  | .error _ => .spelled p.key

def entry (t : FileTree) (p : Path) (n : Node) : WalkItem :=
  .entry p (match n with | .file _ => true | _ => false) (t.keyOf p)

/-- The entry at `p` and what is below it, at most so many directories deep; `above` are the directories
on the way to it. -/
def walkBelow (t : FileTree) (follow : Bool) : Nat → List Location → Path → List WalkItem
  | 0, _, _ => []
  | depth + 1, above, p =>
    let enter (l : Location) :=
      (t.names l).flatMap fun name => walkBelow t follow depth (l :: above) (p.join ⟨name⟩)
    match t.status false p with
    | .error e => [.failure (.unreadable p e)]
    | .ok (l, .directory) => t.entry p .directory :: enter l
    | .ok (_, .file data) => [t.entry p (.file data)]
    | .ok (_, .link target) =>
      if follow then
        match t.status true p with
        | .error e => [.failure (.unreadable p e)]
        | .ok (l, .directory) =>
          if above.contains l then [.failure (.cycle p)]
          else t.entry p .directory :: enter l
        | .ok (_, n) => [t.entry p n]
      else if above = [] then
        match t.status true p with
        | .error e => [.failure (.unreadable p e)]
        | .ok (l, .directory) => t.entry p (.link target) :: enter l
        | .ok _ => [t.entry p (.link target)]
      else [t.entry p (.link target)]

/-- All that walking one root gives. -/
def walkRoot (t : FileTree) (follow : Bool) (root : Path) : List WalkItem :=
  if t.exists? root then t.walkBelow follow (t.directoryCount + 1) [] root
  else [.failure (.missingRoot root)]

/-- All that walking the roots gives, one root after another. -/
def walk (t : FileTree) (follow : Bool) (roots : List Path) : List WalkItem :=
  roots.flatMap (t.walkRoot follow)

end FontCatalog.FileTree
