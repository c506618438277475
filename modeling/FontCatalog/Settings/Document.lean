import FontCatalog.FileTree.Change
import FontCatalog.Settings
import FontCatalog.Toml.Reader
import FontCatalog.Toml.Writer

/-! Settings as TOML. What is left out of a document has its standard value, and what is not known is
passed over. A section may be written as an array of its values as well. -/
namespace FontCatalog
set_option autoImplicit false

namespace Settings
open Toml

/-! ## Reading -/

/-- The value with this name or, in an array, at this place. -/
def member? (v : Value) (name : String) (place : Nat) : Option Value :=
  match v with
  | .table entries => Toml.lookup name entries
  | .array items => items[place]?
  | _ => none

/-- Whether a value can be a section. -/
def isSection : Value → Bool
  | .table _ | .array _ | .moment _ => true
  | _ => false

/-- A member read by `f`, or `absent` if it is left out. -/
def readMember {α : Type} (v : Value) (name : String) (place : Nat) (f : Value → Option α)
    (absent : α) : Option α :=
  match member? v name place with
  | none => some absent
  | some w => f w

def toText? : Value → Option String
  | .text s => some s
  | _ => none

def toBoolean? : Value → Option Bool
  | .boolean b => some b
  | _ => none

def toNat? : Value → Option Nat
  | .integer i => if 0 ≤ i then some i.toNat else none
  | _ => none

def toTexts? : Value → Option (List String)
  | .array items => items.mapM toText?
  | _ => none

def toPaths? (v : Value) : Option (List Path) := (toTexts? v).map fun ss => ss.map .ofString

def readScan (absent : ScanSettings) (v : Value) : Option ScanSettings := do
  guard (isSection v)
  let roots ← readMember v "roots" 0 toPaths? absent.roots
  let extensions ← readMember v "extensions" 1 toTexts? absent.extensions
  let workers ← readMember v "workers" 2 toNat? absent.workers
  let followLinks ← readMember v "follow_symlinks" 3 toBoolean? absent.followLinks
  let dedup ← readMember v "dedup" 4 toBoolean? absent.dedup
  let precount ← readMember v "precount" 5 toBoolean? absent.precount
  pure { roots, extensions, workers, followLinks, dedup, precount }

def readCatalog (v : Value) : Option CatalogSettings := do
  guard (isSection v)
  let paths ← readMember v "paths" 0 toPaths? []
  pure ⟨paths⟩

def readServer (v : Value) : Option ServerSettings := do
  guard (isSection v)
  let bind ← readMember v "bind" 0 toText? defaultBind
  let maxFrame ← readMember v "max_frame_len" 1 toNat? Wire.defaultMaxFrame
  pure ⟨bind, maxFrame⟩

/-- The settings of a document; `absent` has the standard values. -/
def ofToml? (absent : Settings) (v : Value) : Option Settings := do
  let scan ← readMember v "scan" 0 (readScan absent.scan) absent.scan
  let catalog ← readMember v "index" 1 readCatalog {}
  let server ← readMember v "server" 2 readServer {}
  pure ⟨scan, catalog, server⟩

/-! ## Writing -/

/-- Paths as texts, none if one of them is not UTF-8. -/
def pathTexts? (paths : List Path) : Option (List String) := paths.mapM Path.text?

/-- The document of settings, none if it cannot be written: a path is not UTF-8, or a number is too
large. -/
def toToml? (s : Settings) : Option String := do
  let roots ← pathTexts? s.scan.roots
  let workers ← writeNat? s.scan.workers
  let paths ← pathTexts? s.catalog.paths
  let maxFrame ← writeNat? s.server.maxFrame
  pure (String.intercalate "\n" [
    writeSection "scan" [
      ("roots", writeTexts roots),
      ("extensions", writeTexts s.scan.extensions),
      ("workers", workers),
      ("follow_symlinks", writeBoolean s.scan.followLinks),
      ("dedup", writeBoolean s.scan.dedup),
      ("precount", writeBoolean s.scan.precount)],
    writeSection "index" [("paths", writeTexts paths)],
    writeSection "server" [("bind", writeText s.server.bind), ("max_frame_len", maxFrame)]])

/-! ## Files -/

inductive Error where
  | io (e : OsError)
  | malformed (path : Path)
  | unwritable
  | homeless
  deriving DecidableEq, Repr

def Error.message : Error → String
  | .io e => "i/o: " ++ e.message
  | .malformed path => "configuration: parsing " ++ path.display
  | .unwritable => "configuration: serializing config"
  | .homeless => "configuration: could not determine the user's config directory"

/-- Reads settings from a file; without a file they are the standard ones. -/
def load (absent : Settings) (t : FileTree) (p : Path) : Except Error Settings :=
  if t.exists? p then
    match t.read p with
    | .error e => .error (.io e)
    | .ok data =>
      match Text.decode? data.toList with
      | none => .error (.io .notText)
      | some text =>
        match (Toml.parse text).bind absent.ofToml? with
        | some s => .ok s
        | none => .error (.malformed p)
  else .ok absent

/-- Reads the settings of the user and of the environment. -/
def loadStandard (absent : Settings) (t : FileTree) (e : Environment) : Except Error Settings :=
  match standardPath? e with
  | none => .ok (absent.override e)
  | some p => (absent.load t p).map (·.override e)

/-- Writes settings to a file, in a directory that is made if need be; what cannot be written leaves the
file as it was. -/
def save (s : Settings) (t : FileTree) (p : Path) : FileTree × Except Error Unit :=
  let (t, made) := match p.parent? with
    | some d => t.reach d
    | none => (t, .ok ())
  match made with
  | .error e => (t, .error (.io e))
  | .ok () =>
    match s.toToml? with
    | none => (t, .error .unwritable)
    | some text =>
      match t.write p ⟨(Text.encode text).toArray⟩ with
      | .error e => (t, .error (.io e))
      | .ok t => (t, .ok ())

end Settings

end FontCatalog
