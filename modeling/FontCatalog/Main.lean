import FontCatalog.Command
import FontCatalog.Disk
import FontCatalog.Socket

/-! The program: takes from the system what a command looks at, runs the command and passes on what it
leaves. -/
set_option autoImplicit false

namespace FontCatalog.Program

/-- The variables that the program knows. -/
def variableNames : List String :=
  ["HOME", "XDG_CONFIG_HOME", "XDG_DATA_HOME", "SUBFONT_INDEX_PATH", "SUBFONT_BIND",
   "SUBFONT_SYSTEM_FONT_DIRS"]

def environment : IO Environment := do
  let found ← variableNames.filterMapM fun name => do
    return (← IO.getEnv name).map fun value => (name, Text.encode value)
  return { entries := found }

/-- All of the standard input. -/
partial def readInput (input : IO.FS.Stream) (sofar : Bytes) : IO Bytes := do
  let chunk ← input.read 65536
  if chunk.isEmpty then return sofar else readInput input (sofar ++ chunk.toList)

/-- Passes on what a command leaves, and gives the number with which the program ends. -/
def finish (before : FileTree) (r : CommandResult) : IO UInt32 := do
  Disk.putChanges before r.files
  IO.print r.output
  if !r.progress.isEmpty then IO.eprintln r.progress
  match r.ending.message? with
  | some message => IO.eprintln message
  | none => pure ()
  return r.ending.code.toUInt32

/-- Runs a command that has its settings. -/
def runCommand (i : CommandInput) (s : Settings) (c : Command) : IO UInt32 := do
  match c with
  | .query q =>
    let address := Command.queryAddress s q
    match i.network.resolve address with
    | .error e => finish i.files (Command.unconnected i.files address e)
    | .ok a =>
      match ← Socket.ask a q.query with
      | .error e => finish i.files (Command.unconnected i.files address e)
      | .ok r => finish i.files (Command.replied i.files q r)
  | c =>
    let (t, _) ← Disk.takePaths (c.reads s) i.files (c.namedPlaces i s)
    let (t, places) ← Disk.takePaths (c.reads s) t (c.searchedPlaces i s)
    let t ← Disk.takeBelow (c.reads s) (c.follows s) [] t places
    let i := { i with files := t }
    let r := c.run i s
    match c, r.ending with
    | .serve given, .serving a service =>
      match ← Socket.serve a service with
      | some e => finish t (Command.unserved t (Command.serveAddress s given) e)
      | none => finish t r
    | _, _ => finish t r

/-- Whether a command reads the standard input. -/
def readsInput : Command → Bool
  | .scan c => Roots.readsInput c
  | _ => false

def run (args : List String) : IO UInt32 := do
  let start ← Disk.start
  match Invocation.ofArguments args with
  | .error r =>
    finish start { files := start, output := Command.outputOf r, ending := .refused r }
  | .ok ⟨path?, c⟩ =>
    let e ← environment
    let (t, _) ← Disk.takePaths (fun _ => true) start (Command.settingsPath? e path?).toList
    let input ← if readsInput c then readInput (← IO.getStdin) [] else pure []
    let i : CommandInput := {
      files := t
      environment := e
      network := { Network.cut with knows := fun _ => true }
      input := input
      terminal := ← (← IO.getStderr).isTty }
    match Command.loadSettings i path? with
    | .error e => finish t { files := t, ending := .failed (Command.settingsCauses e) }
    | .ok s => runCommand i s c

end FontCatalog.Program

def main (args : List String) : IO UInt32 := FontCatalog.Program.run args
