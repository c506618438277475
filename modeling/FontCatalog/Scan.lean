import FontCatalog.Catalog
import FontCatalog.Scan.Worker
import FontCatalog.Search.Copies

/-! A scan: files are found, copies may be left out, and workers read the faces of the others. The parts
of a scan take their steps in any order; `run` takes one order, in which each worker goes on until it
has stopped. -/
namespace FontCatalog
set_option autoImplicit false

/-- Where a scan gets its files from: a search that it may go through first, or a finder as it is. -/
inductive ScanInput where
  | search (finder : Finder)
  | given (finder : Finder)

def ScanInput.finder : ScanInput → Finder
  | .search f => f
  | .given f => f

structure ScanOutcome where
  records : List Face := []
  failures : List ScanFailure := []
  cancelled : Bool := false
  deriving Inhabited

def ScanOutcome.catalog (o : ScanOutcome) : Catalog := .build o.records

/-- Where the part stands that leads the scan. -/
inductive LeadStage where
  | start
  /-- about to go through the search -/
  | discover
  /-- about to decide whether copies are left out -/
  | choose
  /-- about to take all files for the comparison -/
  | collect
  /-- about to go on with the files that are no copies -/
  | adopt (paths : List Path)
  /-- about to enter the phase in which faces are read -/
  | extract
  /-- about to let the workers begin -/
  | release
  /-- until all workers have stopped -/
  | wait
  /-- about to report the errors of the search -/
  | forward
  /-- about to take what has been found -/
  | close
  | done (outcome : ScanOutcome)

structure Scan where
  /-- The files, for the comparison of copies. -/
  tree : FileTree
  options : ScanOptions
  input : ScanInput
  state : ScanState
  lead : ScanPart LeadStage := ⟨[], .start⟩
  workers : List Worker := []
  /-- What copies are told by; the bytes themselves unless one is given. -/
  digest : Copies.Digest := id

/-- The parts of a scan. -/
inductive ScanActor where
  | lead
  | worker (number : Nat)
  deriving DecidableEq, Repr

namespace Scan

/-- A scan that has not begun. -/
def make (tree : FileTree) (options : ScanOptions) (input : ScanInput) : Scan where
  tree := tree
  options := options
  input := input
  state := { finder := input.finder }

def workerCount (o : ScanOptions) : Nat := max o.workers 1

/-- The same scan with copies told by this digest. -/
def comparingBy (digest : Copies.Digest) (s : Scan) : Scan := { s with digest := digest }

/-- Stops the hand-out of files. -/
def cancel (s : Scan) : Scan := { s with state := { s.state with cancelled := true } }

def progress (s : Scan) : ScanProgress := s.state.progress

/-! ## Steps -/

/-- What the leading part makes of its stage. -/
def proceed (s : Scan) : LeadStage → Scan
  | .start =>
    match s.input with
    | .given _ => { s with lead := ⟨[], .extract⟩ }
    | .search _ =>
      if s.options.precount || s.options.dedup then
        { s with lead := ⟨ScanMove.enter .discovering none, .discover⟩ }
      else { s with lead := ⟨[], .extract⟩ }
  | .discover =>
    let (errors, finder) := s.state.finder.precounted.takeErrors
    { s with state := { s.state with finder := finder }, lead := ⟨ScanMove.reportErrors errors, .choose⟩ }
  | .choose =>
    { s with lead := ⟨[], if s.options.dedup && !s.state.cancelled then .collect else .extract⟩ }
  | .collect =>
    let (paths, finder) := s.state.finder.drain
    let compared := List.replicate (Copies.examined s.tree paths) ScanMove.addClaimed
    { s with
      state := { s.state with finder := finder }
      lead := ⟨ScanMove.enter .deduplicating (some paths.length) ++ compared, .adopt paths⟩ }
  | .adopt paths =>
    let finder := Finder.ofPaths (Copies.uniqueBy s.digest s.tree paths)
    { s with state := { s.state with finder := finder }, lead := ⟨[], .extract⟩ }
  | .extract => { s with lead := ⟨ScanMove.enter .extracting s.state.finder.total, .release⟩ }
  | .release =>
    { s with workers := List.replicate (workerCount s.options) .fresh, lead := ⟨[], .wait⟩ }
  | .wait => if s.workers.all Worker.isStopped then { s with lead := ⟨[], .forward⟩ } else s
  | .forward =>
    let (errors, finder) := s.state.finder.takeErrors
    { s with state := { s.state with finder := finder }, lead := ⟨ScanMove.reportErrors errors, .close⟩ }
  | .close =>
    let o : ScanOutcome := ⟨s.state.records, s.state.failures, s.state.cancelled⟩
    { s with
      state := { s.state with records := [], failures := [] }
      lead :=
        ⟨[.setPhase .finished, .emit (.phase .finished),
          .emit (.finished o.records.length o.failures.length o.cancelled)], .done o⟩ }
  | .done o => { s with lead := ⟨[], .done o⟩ }

/-- One step of one part: its next move, or the next stage when no move is left. -/
def step (x : Extractor) (s : Scan) : ScanActor → Scan
  | .lead =>
    match s.lead.moves with
    | m :: rest => { s with state := m.apply s.state, lead := ⟨rest, s.lead.stage⟩ }
    | [] => s.proceed s.lead.stage
  | .worker number =>
    match s.workers[number]? with
    | none => s
    | some w =>
      let (state, w) := w.step x s.state
      { s with state := state, workers := s.workers.set number w }

/-- What the scan has found, once it is done. -/
def outcome? (s : Scan) : Option ScanOutcome :=
  match s.lead.moves, s.lead.stage with
  | [], .done o => some o
  | _, _ => none

/-! ## One order of the steps -/

/-- The number of the first worker that has not stopped. -/
def busyWorker? (s : Scan) : Option Nat := s.workers.findIdx? fun w => !w.isStopped

/-- The part whose turn it is: a worker as long as one is at work, otherwise the leading part. -/
def turn (s : Scan) : ScanActor :=
  match s.busyWorker? with
  | some number => .worker number
  | none => .lead

/-- The file that is opened by the next step. -/
def opening? (s : Scan) : Option Path :=
  match s.turn with
  | .lead => none
  | .worker number =>
    match s.workers[number]? with
    | some ⟨[], .read p⟩ => some p
    | _ => none

/-- How many steps a scan takes at most. -/
def stepBound (x : Extractor) (s : Scan) : Nat :=
  let files := match s.state.finder.source with
    | .listed paths => paths.foldr (fun p n => Worker.fileSteps x p + n) 0
    | .walking _ items => items.foldr (fun item n =>
      n + match item with
        | .entry p true _ => Worker.fileSteps x p
        | _ => 16) 0
  files + 4 * s.state.finder.errors.length + 8 * (workerCount s.options + 8)

/-- Takes up to so many steps. Before each one `watch` sees the scan, and may cancel it. -/
def runFor {σ : Type} (x : Extractor) (watch : σ → Scan → σ × Bool) : Nat → σ → Scan → σ × Scan
  | 0, w, s => (w, s)
  | fuel + 1, w, s =>
    match s.outcome? with
    | some _ => (w, s)
    | none =>
      let (w, stop) := watch w s
      let s := if stop then s.cancel else s
      runFor x watch fuel w (s.step x s.turn)

/-- Runs a scan to its end under the eyes of `watch`. -/
def runWatched {σ : Type} (x : Extractor) (watch : σ → Scan → σ × Bool) (w : σ) (s : Scan) :
    σ × Scan :=
  runFor x watch (s.stepBound x) w s

/-- Why a scan does not run. -/
inductive Error where
  | alreadyRun
  deriving DecidableEq, Repr

def Error.message : Error → String
  | .alreadyRun => "scan session has already run"

/-- Whether a scan has begun. -/
def isFresh (s : Scan) : Bool :=
  match s.lead.moves, s.lead.stage with
  | [], .start => true
  | _, _ => false

/-- Runs a scan that has not run yet. -/
def run (x : Extractor) (s : Scan) : Except Error ScanOutcome × Scan :=
  if s.isFresh then
    let (_, t) := s.runWatched x (fun _ _ => ((), false)) ()
    (.ok (t.outcome?.getD default), t)
  else (.error .alreadyRun, s)

end Scan

end FontCatalog
