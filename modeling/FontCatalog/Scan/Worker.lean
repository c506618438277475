import FontCatalog.Scan.State

/-! A worker of a scan: it claims a file, reads its faces, and goes on until there is nothing to claim
or the scan is cancelled. A file that has been claimed is read to its end. -/
namespace FontCatalog
set_option autoImplicit false

inductive WorkerStage where
  /-- about to look whether the scan is cancelled -/
  | look
  /-- about to claim a file -/
  | claim
  /-- about to look whether the total is known -/
  | learn (next : Option Path)
  /-- about to open a file -/
  | read (path : Path)
  /-- about to read the face `index`; the faces `found` were read before -/
  | face (path : Path) (file : FontFile) (index : Nat) (found : List Face)
  | stopped

abbrev Worker := ScanPart WorkerStage

namespace Worker

/-- A worker that has not begun. -/
def fresh : Worker := ⟨[], .look⟩

def isStopped (w : Worker) : Bool :=
  match w.moves, w.stage with
  | [], .stopped => true
  | _, _ => false

/-- What a worker makes of its stage; the shared state changes only by a claim. -/
def proceed (x : Extractor) (s : ScanState) : WorkerStage → ScanState × Worker
  | .look => (s, ⟨[], if s.cancelled then .stopped else .claim⟩)
  | .claim =>
    let (next, finder) := s.finder.claim
    ({ s with finder := finder }, ⟨[], .learn next⟩)
  | .learn next =>
    let publish : List ScanMove := match s.finder.total with
      | some n => [.setTotal (some n)]
      | none => []
    match next with
    | none => (s, ⟨publish, .stopped⟩)
    | some p => (s, ⟨publish ++ [.addClaimed], .read p⟩)
  | .read p =>
    match x p with
    | .error e => (s, ⟨ScanMove.report (.ofDecode e), .look⟩)
    | .ok file => (s, ⟨[], .face p file 0 []⟩)
  | .face p file index found =>
    if index < file.faceCount then
      match file.face p index with
      | .ok f => (s, ⟨[], .face p file (index + 1) (found ++ [f])⟩)
      | .error e => (s, ⟨ScanMove.report (.ofDecode e), .face p file (index + 1) found⟩)
    else if found = [] then (s, ⟨[], .look⟩)
    else (s, ⟨[.addFaces found.length, .keepRecords found], .look⟩)
  | .stopped => (s, ⟨[], .stopped⟩)

/-- One step of a worker: its next move, or the next stage when no move is left. -/
def step (x : Extractor) (s : ScanState) (w : Worker) : ScanState × Worker :=
  match w.moves with
  | m :: rest => (m.apply s, ⟨rest, w.stage⟩)
  | [] => proceed x s w.stage

/-- How many steps a file takes at most. -/
def fileSteps (x : Extractor) (p : Path) : Nat :=
  match x p with
  | .error _ => 16
  | .ok file => 16 + 4 * file.faceCount

end Worker

end FontCatalog
