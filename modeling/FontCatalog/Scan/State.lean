import FontCatalog.Scan.Failure
import FontCatalog.Scan.Progress
import FontCatalog.Search.Finder

/-! The state that all parts of a scan share, and the single moves that change it. Between two moves of
one part any other part may make its own. -/
namespace FontCatalog
set_option autoImplicit false

structure ScanOptions where
  workers : Nat := 1
  /-- Walk everything before faces are read, so that the total is known. -/
  precount : Bool := true
  /-- Leave out files with the same bytes as another; everything is walked first. -/
  dedup : Bool := false
  deriving DecidableEq, Repr, Inhabited

inductive ScanEvent where
  | phase (p : ScanPhase)
  | failed (f : ScanFailure)
  | finished (faces failures : Nat) (cancelled : Bool)
  deriving DecidableEq, Repr

/-- As many events wait for a reader; later ones are dropped. -/
def eventCapacity : Nat := 1024

structure ScanState where
  finder : Finder
  phase : ScanPhase := .pending
  claimed : Nat := 0
  total : Option Nat := none
  faces : Nat := 0
  failureCount : Nat := 0
  cancelled : Bool := false
  events : List ScanEvent := []
  records : List Face := []
  failures : List ScanFailure := []

/-- The parts of a progress. -/
inductive ProgressField where
  | total
  | phase
  | claimed
  | faces
  | failures
  deriving DecidableEq, Repr

namespace ProgressField

/-- The order in which the parts are read; between two of them the scan may go on. -/
def all : List ProgressField := [.total, .phase, .claimed, .faces, .failures]

/-- Takes one part over from the state of this moment. -/
def load (s : ScanState) (p : ScanProgress) : ProgressField → ScanProgress
  | .total => { p with total := s.total }
  | .phase => { p with phase := s.phase }
  | .claimed => { p with claimed := s.claimed }
  | .faces => { p with faces := s.faces }
  | .failures => { p with failures := s.failureCount }

end ProgressField

namespace ScanState

/-- The progress at one moment. -/
def progress (s : ScanState) : ScanProgress := ProgressField.all.foldl (ProgressField.load s) {}

def emit (s : ScanState) (e : ScanEvent) : ScanState :=
  if s.events.length < eventCapacity then { s with events := s.events ++ [e] } else s

end ScanState

/-- A change of the shared state that happens at once. -/
inductive ScanMove where
  | setClaimed (n : Nat)
  | setTotal (n : Option Nat)
  | setPhase (p : ScanPhase)
  | emit (e : ScanEvent)
  | addClaimed
  | addFailure
  | keepFailure (f : ScanFailure)
  | addFaces (n : Nat)
  | keepRecords (faces : List Face)
  deriving DecidableEq, Repr

namespace ScanMove

def apply (m : ScanMove) (s : ScanState) : ScanState :=
  match m with
  | .setClaimed n => { s with claimed := n }
  | .setTotal n => { s with total := n }
  | .setPhase p => { s with phase := p }
  | .emit e => s.emit e
  | .addClaimed => { s with claimed := s.claimed + 1 }
  | .addFailure => { s with failureCount := s.failureCount + 1 }
  | .keepFailure f => { s with failures := s.failures ++ [f] }
  | .addFaces n => { s with faces := s.faces + n }
  | .keepRecords faces => { s with records := s.records ++ faces }

/-- A failure is counted, told and kept. -/
def report (f : ScanFailure) : List ScanMove := [.addFailure, .emit (.failed f), .keepFailure f]

def reportErrors (errors : List SearchError) : List ScanMove :=
  errors.flatMap fun e => report (.ofSearch e)

/-- A phase begins with nothing claimed. -/
def enter (p : ScanPhase) (total : Option Nat) : List ScanMove :=
  [.setClaimed 0, .setTotal total, .setPhase p, .emit (.phase p)]

end ScanMove

/-- A part of a scan: the moves that it is about to make, and where it stands after them. -/
structure ScanPart (σ : Type) where
  moves : List ScanMove := []
  stage : σ

end FontCatalog
