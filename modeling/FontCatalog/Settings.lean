import FontCatalog.Environment
import FontCatalog.Scan.State
import FontCatalog.Text.Blank
import FontCatalog.Wire.Frame

/-! The settings of the program: what is scanned and how, where catalogs are kept, where the server
listens. -/
namespace FontCatalog
set_option autoImplicit false

structure ScanSettings where
  roots : List Path := []
  extensions : List String := Extensions.standardList
  workers : Nat
  followLinks : Bool := false
  dedup : Bool := false
  precount : Bool := true
  deriving DecidableEq, Repr

structure CatalogSettings where
  /-- The files that are merged into one catalog, in order. -/
  paths : List Path := []
  deriving DecidableEq, Repr

/-- Where the server listens unless told otherwise. -/
def defaultBind : String := "127.0.0.1:47215"

structure ServerSettings where
  bind : String := defaultBind
  maxFrame : Nat := Wire.defaultMaxFrame
  deriving DecidableEq, Repr

structure Settings where
  scan : ScanSettings
  catalog : CatalogSettings := {}
  server : ServerSettings := {}
  deriving DecidableEq, Repr

/-- How many workers a machine with so many processors gets: half as many, at least one. -/
def workersFor (processors : Nat) : Nat := max (processors / 2) 1

namespace Settings

/-- The settings without a file, on a machine that gives so many workers. -/
def standard (workers : Nat) : Settings where
  scan := { workers := workers }

def scanOptions (s : ScanSettings) : ScanOptions where
  workers := max s.workers 1
  precount := s.precount
  dedup := s.dedup

/-! ## Environment -/

/-- Settings from the environment go before those from the file: a list of catalogs, unless it names
none, and an address, unless it is blank. -/
def override (s : Settings) (e : Environment) : Settings :=
  let paths := Environment.splitPaths [':'] ((e.get? "SUBFONT_INDEX_PATH").getD [])
  let s := if paths.isEmpty then s else { s with catalog := ⟨paths⟩ }
  match e.text? "SUBFONT_BIND" with
  | some bind =>
    if Text.isBlankText bind then s else { s with server := { s.server with bind := bind } }
  | none => s

/-- The file of the settings in the directory of the user. -/
def standardPath? (e : Environment) : Option Path :=
  e.configDirectory?.map (·.join (.ofString "subfont.toml"))

/-- The catalogs that are used, or the one in the directory of the user. -/
def catalogPaths? (s : Settings) (e : Environment) : Option (List Path) :=
  if s.catalog.paths.isEmpty then
    e.dataDirectory?.map fun d => [d.join (.ofString "index.json")]
  else some s.catalog.paths

/-! ## Search -/

/-- A finder over the given roots, or over those of the settings. -/
def finder (s : ScanSettings) (t : FileTree) (roots : List Path) : Finder :=
  .ofWalk (.ofList s.extensions) (t.walk s.followLinks (if roots.isEmpty then s.roots else roots))

end Settings

end FontCatalog
