import FontCatalog.Json.Writer

/-! How far a scan is. -/
namespace FontCatalog
set_option autoImplicit false

inductive ScanPhase where
  | pending
  | discovering
  | deduplicating
  | extracting
  | finished
  deriving DecidableEq, Repr, Inhabited

namespace ScanPhase

def name : ScanPhase → String
  | .pending => "pending"
  | .discovering => "discovering"
  | .deduplicating => "deduplicating"
  | .extracting => "extracting"
  | .finished => "finished"

def all : List ScanPhase := [.pending, .discovering, .deduplicating, .extracting, .finished]

def ofName? (s : String) : Option ScanPhase := all.find? fun p => p.name == s

end ScanPhase

/-- A scan seen at one moment. -/
structure ScanProgress where
  phase : ScanPhase := .pending
  /-- Files handed to workers, or compared while copies are left out. -/
  claimed : Nat := 0
  /-- Files in this phase, if known. -/
  total : Option Nat := none
  faces : Nat := 0
  failures : Nat := 0
  deriving DecidableEq, Repr, Inhabited

namespace ScanProgress

def toJson (p : ScanProgress) : Json :=
  .object [
    ("phase", .text p.phase.name),
    ("claimed", .nat p.claimed),
    ("total", match p.total with | some n => .nat n | none => .null),
    ("faces", .nat p.faces),
    ("failures", .nat p.failures)]

def one : Binary64 := .ofNat 1

/-- The part of the phase that is done, at most one; of no files all are done. -/
def ratio (p : ScanProgress) : Option Binary64 :=
  match p.total with
  | none => none
  | some 0 => some one
  | some total =>
    match Binary64.div (.ofNat p.claimed) (.ofNat total) with
    | some r => some (if r.le one then r else one)
    | none => some one

end ScanProgress

end FontCatalog
