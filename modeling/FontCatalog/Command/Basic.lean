import FontCatalog.Command.Arguments
import FontCatalog.Match
import FontCatalog.Text.Digits

/-! The commands of the program and how they are written on the command line. -/
namespace FontCatalog
set_option autoImplicit false

/-- Reads the faces of font files and saves them as a catalog. -/
structure ScanCommand where
  paths : List Path := []
  /-- More paths are read from the input, one a line. -/
  inputPaths : Bool := false
  systemFonts : Bool := false
  output? : Option Path := none
  jobs? : Option Nat := none
  dedup : Bool := false
  /-- Faces are read while files are still searched. -/
  withoutCount : Bool := false
  followLinks : Bool := false
  extensions : List String := []
  withoutProgress : Bool := false
  deriving DecidableEq, Repr

/-- Answers queries until it is interrupted. -/
structure ServeCommand where
  catalogs : List Path := []
  bind? : Option String := none
  deriving DecidableEq, Repr

/-- Looks a family up in catalogs. -/
structure MatchCommand where
  query : Query
  catalogs : List Path := []
  json : Bool := false
  deriving DecidableEq, Repr

/-- Asks a server for a family. -/
structure QueryCommand where
  query : Query
  address? : Option String := none
  json : Bool := false
  deriving DecidableEq, Repr

/-- Tells what is in catalogs. -/
structure StatsCommand where
  catalogs : List Path := []
  families : Bool := false
  /-- One face a line. -/
  lines : Bool := false
  json : Bool := false
  deriving DecidableEq, Repr

inductive Command where
  | scan (c : ScanCommand)
  | serve (c : ServeCommand)
  | find (c : MatchCommand)
  | query (c : QueryCommand)
  | stats (c : StatsCommand)
  deriving DecidableEq, Repr

/-- A command and the file of the settings for it. -/
structure Invocation where
  settings? : Option Path := none
  command : Command
  deriving DecidableEq, Repr

namespace Command

/-! ## Options -/

def isFilled (s : String) : Bool := !s.isEmpty

/-- Options of all levels. -/
def commonOptions : List OptionRule := [
  { name := "config", kind := .value, accepts := isFilled },
  { name := "verbose", kind := .count, letter? := some 'v' },
  { name := "quiet", kind := .flag, letter? := some 'q' }]

/-- The number of workers: from 1 to 65535. -/
def jobsOf? (s : String) : Option Nat :=
  match Text.signed? s.toList with
  | some i => if 1 ≤ i ∧ i < 0x10000 then some i.toNat else none
  | none => none

def catalogOption : OptionRule :=
  { name := "index", kind := .values, letter? := some 'i', accepts := isFilled }

def jsonOption : OptionRule := { name := "json", kind := .flag }

def styleOptions : List OptionRule :=
  ["bold", "regular", "italic", "upright"].map fun name => { name := name, kind := .flag }

def scanLevel : Level where
  options := commonOptions ++ [
    { name := "stdin-paths", kind := .flag },
    { name := "system-fonts", kind := .flag },
    { name := "output", kind := .value, letter? := some 'o', accepts := isFilled },
    { name := "jobs", kind := .value, letter? := some 'j', accepts := fun s => (jobsOf? s).isSome },
    { name := "dedup", kind := .flag },
    { name := "no-precount", kind := .flag },
    { name := "follow-symlinks", kind := .flag },
    { name := "ext", kind := .values },
    { name := "no-progress", kind := .flag }]
  limit? := none
  accepts := isFilled

def serveLevel : Level where
  options := commonOptions ++
    [catalogOption, { name := "bind", kind := .value, letter? := some 'b' }]

def matchLevel : Level where
  options := commonOptions ++ styleOptions ++ [catalogOption, jsonOption]
  limit? := some 1

def queryLevel : Level where
  options := commonOptions ++ styleOptions ++
    [{ name := "addr", kind := .value, letter? := some 'a' }, jsonOption]
  limit? := some 1

def statsLevel : Level where
  options := commonOptions ++ [catalogOption, { name := "families", kind := .flag },
    { name := "ndjson", kind := .flag }, jsonOption]

/-- The words that name commands. -/
def words : List String := ["scan", "serve", "match", "query", "stats"]

def firstLevel : Level where
  options := commonOptions
  words := "help" :: words
  hasVersion := true

/-! ## Reading -/

/-- Two flags that exclude each other, as a choice. -/
def choice (a : Arguments) (yes no : String) : Except Refusal (Option Bool) :=
  match a.has yes, a.has no with
  | true, true => .error .wrong
  | true, false => .ok (some true)
  | false, true => .ok (some false)
  | false, false => .ok none

def queryOf (a : Arguments) : Except Refusal Query :=
  match a.others with
  | [family] => do
    let bold ← choice a "bold" "regular"
    let italic ← choice a "italic" "upright"
    return ⟨family, bold, italic⟩
  | _ => .error .wrong

def pathsOf (a : Arguments) (name : String) : List Path := (a.values name).map .ofString

def scanOf (a : Arguments) : ScanCommand where
  paths := a.others.reverse.map .ofString
  inputPaths := a.has "stdin-paths"
  systemFonts := a.has "system-fonts"
  output? := (a.value? "output").map .ofString
  jobs? := (a.value? "jobs").bind jobsOf?
  dedup := a.has "dedup"
  withoutCount := a.has "no-precount"
  followLinks := a.has "follow-symlinks"
  extensions := (a.values "ext").flatMap (·.splitOn ",")
  withoutProgress := a.has "no-progress"

def statsOf (a : Arguments) : Except Refusal StatsCommand :=
  if a.has "families" && a.has "ndjson" then .error .wrong
  else .ok ⟨pathsOf a "index", a.has "families", a.has "ndjson", a.has "json"⟩

/-- The settings that the arguments of a level name. -/
def settingsOf (a : Arguments) : Option Path := (a.value? "config").map .ofString

/-- Reads the level of a command. -/
def readWith (l : Level) (args : List String) (f : Arguments → Except Refusal Command) :
    Except Refusal Invocation :=
  match l.read args with
  | .error e => .error e
  | .ok (a, _) => (f a).map fun c => ⟨settingsOf a, c⟩

/-- Help may be asked for one of the commands. -/
def helpOf : List String → Refusal
  | [] => .help
  | [word] => if word == "help" || words.contains word then .help else .wrong
  | _ => .wrong

/-- The command that begins with a word. -/
def ofWord (word : String) (args : List String) : Except Refusal Invocation :=
  match word with
  | "scan" => readWith scanLevel args fun a => .ok (.scan (scanOf a))
  | "serve" => readWith serveLevel args fun a =>
    .ok (.serve ⟨pathsOf a "index", a.value? "bind"⟩)
  | "match" => readWith matchLevel args fun a =>
    (queryOf a).map fun q => .find ⟨q, pathsOf a "index", a.has "json"⟩
  | "query" => readWith queryLevel args fun a =>
    (queryOf a).map fun q => .query ⟨q, a.value? "addr", a.has "json"⟩
  | "stats" => readWith statsLevel args fun a => (statsOf a).map .stats
  | _ => .error (helpOf args)

end Command

/-- The command that arguments stand for. Options of all levels may come before its word or after it;
of two files of settings the later one counts. -/
def Invocation.ofArguments (args : List String) : Except Refusal Invocation :=
  match Command.firstLevel.read args with
  | .error e => .error e
  | .ok (_, none) => .error .wrong
  | .ok (a, some (word, rest)) =>
    (Command.ofWord word rest).map fun i =>
      { i with settings? := i.settings?.or (Command.settingsOf a) }

end FontCatalog
