import FontCatalog.Match
import FontCatalog.Wire.Frame

/-! What a server serves: a catalog that may be replaced while requests are answered. A replacement
takes two steps, between which others may take theirs: the new catalog is installed, and then the
replacement is counted. -/
namespace FontCatalog
set_option autoImplicit false

structure Service where
  catalog : Catalog
  /-- How many replacements have been counted. -/
  generation : Nat := 0
  cancelled : Bool := false
  /-- The longest request that is read. -/
  maxFrame : Nat := Wire.defaultMaxFrame
  deriving Inhabited

/-- Where the replacement of a catalog stands. -/
inductive Replacement where
  | asked (c : Catalog)
  | installed (c : Catalog)
  /-- done; the one who asked is told the generation -/
  | counted (c : Catalog) (generation : Nat)

namespace Service

def install (s : Service) (c : Catalog) : Service := { s with catalog := c }

def count (s : Service) : Service := { s with generation := s.generation + 1 }

/-- Asks everything to stop, which may be done any number of times. -/
def cancel (s : Service) : Service := { s with cancelled := true }

/-- Replaces the catalog while nobody else does, and tells the new generation. -/
def replace (s : Service) (c : Catalog) : Nat × Service :=
  let s := (s.install c).count
  (s.generation, s)

end Service

namespace Replacement

def step (s : Service) : Replacement → Service × Replacement
  | .asked c => (s.install c, .installed c)
  | .installed c => (s.count, .counted c s.count.generation)
  | .counted c generation => (s, .counted c generation)

def generation? : Replacement → Option Nat
  | .counted _ generation => some generation
  | _ => none

end Replacement

end FontCatalog
