import FontCatalog.Scan.Progress

/-! The progress of a scan in one line for a terminal. -/
namespace FontCatalog
set_option autoImplicit false

def ScanPhase.word : ScanPhase → String
  | .pending => "starting"
  | .discovering => "walking"
  | .deduplicating => "deduplicating"
  | .extracting => "scanning"
  | .finished => "done"

namespace ScanProgress

/-- The text with spaces after it up to this length. -/
def padRight (length : Nat) (s : String) : String :=
  s ++ String.ofList (List.replicate (length - s.length) ' ')

/-- The text with spaces before it up to this length. -/
def padLeft (length : Nat) (s : String) : String :=
  String.ofList (List.replicate (length - s.length) ' ') ++ s

/-- A ratio in whole percent, a half to the even neighbour. -/
def percent (r : Binary64) : Nat :=
  match r.mul (.ofNat 100) with
  | some p => Binary64.roundEven p.scaled Binary64.unitScale
  | none => 0

def files (p : ScanProgress) : String :=
  match p.total, p.ratio with
  | some total, some r =>
    toString p.claimed ++ "/" ++ toString total ++ " files ("
      ++ padLeft 3 (toString (percent r)) ++ "%)"
  | _, _ => toString p.claimed ++ " files"

def line (p : ScanProgress) : String :=
  padRight 13 p.phase.word ++ " " ++ p.files ++ ", " ++ toString p.faces ++ " faces, "
    ++ toString p.failures ++ " failures"

end ScanProgress

end FontCatalog
