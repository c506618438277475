import FontCatalog.FileTree.Walk
import FontCatalog.Search.Extensions

/-! Handing out files. A finder takes files from a walk, each file once under whichever of its paths
comes first, or from a list of paths as it is. It counts what it has handed out; how many files there
are is known from the start for a list, and at the end for a walk. -/
namespace FontCatalog
set_option autoImplicit false

/-- Where the files come from. -/
inductive Source where
  | walking (accepts : Path → Bool) (items : List FileTree.WalkItem)
  | listed (paths : List Path)

structure Finder where
  source : Source
  /-- The files that have been met. -/
  seen : List FileTree.FileKey := []
  errors : List SearchError := []
  /-- How many paths have been handed out. -/
  claimed : Nat := 0
  total : Option Nat := none

namespace Finder

/-! ## Making finders -/

/-- A finder over a walk, which goes on as files are asked for. -/
def ofWalk (x : Extensions) (items : List FileTree.WalkItem) : Finder where
  source := .walking x.accepts items

/-- The paths that a catalog can hold, and errors for the others. -/
def storable : List Path → List Path × List SearchError
  | [] => ([], [])
  | p :: rest =>
    let (paths, errors) := storable rest
    if p.text?.isSome then (p :: paths, errors) else (paths, .notText p :: errors)

def ofAccepted (paths : List Path) (errors : List SearchError) : Finder where
  source := .listed paths
  errors := errors
  total := some paths.length

/-- A finder over a list of paths, taken as they are. -/
def ofPaths (paths : List Path) : Finder :=
  let (accepted, errors) := storable paths
  ofAccepted accepted errors

/-! ## Handing out -/

/-- The next file of a walk, the files met and the errors up to it, and the rest of the walk. -/
def advance (accepts : Path → Bool) (seen : List FileTree.FileKey) (errors : List SearchError) :
    List FileTree.WalkItem →
      Option Path × List FileTree.FileKey × List SearchError × List FileTree.WalkItem
  | [] => (none, seen, errors, [])
  | .failure e :: rest => advance accepts seen (errors ++ [e]) rest
  | .entry p isFile key :: rest =>
    if !isFile || !accepts p || seen.contains key then advance accepts seen errors rest
    else if p.text?.isSome then (some p, key :: seen, errors, rest)
    else advance accepts (key :: seen) (errors ++ [.notText p]) rest

/-- The source after one request, the path for it if there is one left, and the errors met. -/
def pull (f : Finder) : Option Path × Finder :=
  match f.source with
  | .listed [] => (none, f)
  | .listed (p :: rest) => (some p, { f with source := .listed rest })
  | .walking accepts items =>
    match advance accepts f.seen f.errors items with
    | (p, seen, errors, rest) =>
      (p, { f with source := .walking accepts rest, seen := seen, errors := errors })

/-- Hands out the next path; when there is none left the total is known. -/
def claim (f : Finder) : Option Path × Finder :=
  match f.pull with
  | (some p, g) => (some p, { g with claimed := g.claimed + 1 })
  | (none, g) => (none, { g with total := some g.claimed })

/-- How many things are left in the source. -/
def remaining (f : Finder) : Nat :=
  match f.source with
  | .listed paths => paths.length
  | .walking _ items => items.length

/-- Claims up to so many times, until there is nothing left. -/
def claimMany : Nat → Finder → List Path × Finder
  | 0, f => ([], f)
  | fuel + 1, f =>
    match f.claim with
    | (none, f) => ([], f)
    | (some p, f) =>
      let (paths, f) := claimMany fuel f
      (p :: paths, f)

/-- Claims everything that is left. -/
def drain (f : Finder) : List Path × Finder := claimMany (f.remaining + 1) f

/-- Takes the errors met so far. -/
def takeErrors (f : Finder) : List SearchError × Finder := (f.errors, { f with errors := [] })

/-- The finder that has gone through its whole walk first, so that its total is known. -/
def precounted (f : Finder) : Finder :=
  let (paths, f) := f.drain
  ofAccepted paths f.errors

end Finder

end FontCatalog
