import FontCatalog.Catalog.Document
import FontCatalog.FileTree.Change

/-! Catalogs in files. A catalog is saved under a fresh name beside its file and then renamed, so that
the file holds the old document or the new one, never a part of one. -/
namespace FontCatalog.Catalog
set_option autoImplicit false

/-! ## Saving -/

inductive SaveReason where
  | io (e : OsError)
  /-- a path in the catalog is not UTF-8 -/
  | unwritable
  deriving DecidableEq, Repr

structure SaveError where
  path : Path
  reason : SaveReason
  deriving DecidableEq, Repr

def SaveError.message (e : SaveError) : String :=
  "writing index " ++ e.path.display ++ ": " ++
    match e.reason with
    | .io e => e.message
    | .unwritable => unwritablePath

/-- Where a save stands. -/
inductive SaveStage where
  /-- about to make the directory or one above it -/
  | directory (m : FileTree.Making)
  /-- about to write the document in memory -/
  | encode
  /-- about to make the file under a fresh name -/
  | create (document : Bytes)
  | fill (document : Bytes) (temporary : Location)
  | sync (temporary : Location)
  | rename (temporary : Location)
  | done (result : Except SaveError Unit)

structure Saving where
  catalog : Catalog
  path : Path
  stage : SaveStage

namespace Saving

/-- A save that has not begun; in the directory that paths begin in there is none to make. -/
def start (c : Catalog) (p : Path) : Saving where
  catalog := c
  path := p
  stage :=
    match p.parent? with
    | some ⟨b :: rest⟩ => .directory (.up ⟨b :: rest⟩ [])
    | _ => .encode

/-- The directory of the file that is saved. -/
def folder (s : Saving) : Path :=
  match s.path.parent? with
  | some ⟨b :: rest⟩ => ⟨b :: rest⟩
  | _ => .ofString "."

def candidate (n : Nat) : Bytes := Text.encode (".tmp" ++ toString n)

/-- A name that is not in the directory yet and is not that of the file that is saved. -/
def freshName (s : Saving) (t : FileTree) (l : Location) : Bytes :=
  let isFree (n : Nat) : Bool :=
    (t.get? (l ++ [candidate n])).isNone && s.path.fileName? != some (candidate n)
  match (List.range (t.nodes.length + 2)).find? isFree with
  | some n => candidate n
  | none => candidate (t.nodes.length + 1)

/-- The save ends here. -/
def finish (s : Saving) (result : Except SaveReason Unit) : Saving :=
  { s with stage := .done (result.mapError fun r => ⟨s.path, r⟩) }

/-- One step of a save. With a fault the step fails with it; a save that fails removes its temporary
file. -/
def step (fault : Option OsError) (t : FileTree) (s : Saving) : FileTree × Saving :=
  match s.stage, fault with
  | .directory _, some e => (t, s.finish (.error (.io e)))
  | .directory m, none =>
    match m.step t with
    | (t, .failed e) => (t, s.finish (.error (.io e)))
    | (t, .down []) => (t, { s with stage := .encode })
    | (t, m) => (t, { s with stage := .directory m })
  | .encode, some e => (t, s.finish (.error (.io e)))
  | .encode, none =>
    match s.catalog.serialize? with
    | none => (t, s.finish (.error .unwritable))
    | some document => (t, { s with stage := .create document })
  | .create _, some e => (t, s.finish (.error (.io e)))
  | .create document, none =>
    match t.status true s.folder with
    | .error e => (t, s.finish (.error (.io e)))
    | .ok (l, .directory) =>
      let temporary := l ++ [s.freshName t l]
      (t.insert temporary (.file .empty), { s with stage := .fill document temporary })
    | .ok _ => (t, s.finish (.error (.io .notDirectory)))
  | .fill _ temporary, some e => (t.erase temporary, s.finish (.error (.io e)))
  | .fill document temporary, none =>
    (t.insert temporary (.file ⟨document.toArray⟩), { s with stage := .sync temporary })
  | .sync temporary, some e => (t.erase temporary, s.finish (.error (.io e)))
  | .sync temporary, none => (t, { s with stage := .rename temporary })
  | .rename temporary, some e => (t.erase temporary, s.finish (.error (.io e)))
  | .rename temporary, none =>
    match t.rename temporary s.path with
    | .error e => (t.erase temporary, s.finish (.error (.io e)))
    | .ok t => (t, s.finish (.ok ()))
  | .done _, _ => (t, s)

/-- Takes a step for each fault or absence of one. -/
def run : List (Option OsError) → FileTree → Saving → FileTree × Saving
  | [], t, s => (t, s)
  | fault :: rest, t, s =>
    let (t, s) := s.step fault t
    run rest t s

/-- How many steps a save takes at most. -/
def stepBound (p : Path) : Nat := 2 * p.bytes.length + 7

/-- One of several saves takes a step. -/
def turn (w : FileTree × List Saving) (x : Nat × Option OsError) : FileTree × List Saving :=
  match w.2[x.1]? with
  | none => w
  | some s =>
    let (t, s) := s.step x.2 w.1
    (t, w.2.set x.1 s)

/-- Several saves at once, in whatever order they take their steps. -/
def play (turns : List (Nat × Option OsError)) (w : FileTree × List Saving) : FileTree × List Saving :=
  turns.foldl turn w

end Saving

/-- Saves a catalog to a file, in a directory that is made if need be. -/
def save (c : Catalog) (t : FileTree) (p : Path) : FileTree × Except SaveError Unit :=
  match Saving.run (List.replicate (Saving.stepBound p) none) t (.start c p) with
  | (t, s) =>
    match s.stage with
    | .done result => (t, result)
    | _ => (t, .ok ())

/-! ## Loading -/

def load (t : FileTree) (p : Path) : Except LoadError Catalog :=
  match t.read p with
  | .error e => .error (.io p e)
  | .ok data => deserialize data.toList

def loadEach (t : FileTree) : List Path → Except LoadError (List Catalog)
  | [] => .ok []
  | p :: rest =>
    match load t p with
    | .error e => .error e
    | .ok c =>
      match loadEach t rest with
      | .error e => .error e
      | .ok cs => .ok (c :: cs)

/-- Loads files and merges their catalogs; the first failure counts. -/
def loadAll (t : FileTree) (paths : List Path) : Except LoadError Catalog :=
  (loadEach t paths).map merge

end FontCatalog.Catalog
