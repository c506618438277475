import FontCatalog.OsError
import FontCatalog.Path

/-! What goes wrong while files are searched. None of it ends the search. -/
namespace FontCatalog
set_option autoImplicit false

structure SearchError where
  path? : Option Path
  reason : String
  deriving DecidableEq, Repr, Inhabited

namespace SearchError

def missingRoot (p : Path) : SearchError := ⟨some p, "root path does not exist"⟩

/-- A link that leads back to a directory above it. -/
def cycle (p : Path) : SearchError := ⟨some p, "symlink cycle"⟩

def unreadable (p : Path) (e : OsError) : SearchError :=
  ⟨some p, "IO error for operation on " ++ p.display ++ ": " ++ e.message⟩

/-- A path that no catalog can hold. -/
def notText (p : Path) : SearchError := ⟨some p, "path is not valid UTF-8"⟩

def message (e : SearchError) : String :=
  "cannot read " ++ (e.path?.map Path.display).getD "<unknown>" ++ ": " ++ e.reason

end SearchError

end FontCatalog
