import FontCatalog.FontFile
import FontCatalog.Search.Error

/-! What a scan reports of things that went wrong. No failure ends a scan. -/
namespace FontCatalog
set_option autoImplicit false

inductive FailureKind where
  | enumeration
  | container
  | face
  deriving DecidableEq, Repr

def FailureKind.name : FailureKind → String
  | .enumeration => "enumeration"
  | .container => "container"
  | .face => "face"

structure ScanFailure where
  kind : FailureKind
  path? : Option Path
  face? : Option Nat := none
  message : String
  deriving DecidableEq, Repr

namespace ScanFailure

def ofDecode (e : DecodeError) : ScanFailure :=
  match e with
  | .io path _ | .container path _ => ⟨.container, some path, none, e.message⟩
  | .face path index _ => ⟨.face, some path, some index, e.message⟩

/-- A failed search keeps its reason alone. -/
def ofSearch (e : SearchError) : ScanFailure := ⟨.enumeration, e.path?, none, e.reason⟩

end ScanFailure

end FontCatalog
