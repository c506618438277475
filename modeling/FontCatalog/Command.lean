import FontCatalog.Catalog.Files
import FontCatalog.Catalog.Listing
import FontCatalog.Catalog.Summary
import FontCatalog.Client
import FontCatalog.Command.Roots
import FontCatalog.Network
import FontCatalog.Scan
import FontCatalog.Scan.ProgressLine
import FontCatalog.Settings.Document
import FontCatalog.Text.Quoted

/-! What the commands do: from files, environment, input and network to files, output and an end. -/
namespace FontCatalog
set_option autoImplicit false

/-- What a command finds. -/
structure CommandInput where
  files : FileTree
  environment : Environment
  network : Network
  /-- The standard input. -/
  input : Bytes := []
  /-- Whether messages go to a terminal. -/
  terminal : Bool := false
  processors : Nat := 1

/-- How a command ends. -/
inductive Ending where
  | finished
  /-- it goes on with this service until it is interrupted -/
  | serving (a : Address) (s : Service)
  /-- the message goes from the outer cause to the inner one -/
  | failed (causes : List String)
  | refused (r : Refusal)

/-- What a command leaves. -/
structure CommandResult where
  files : FileTree
  output : String := ""
  /-- The last line that told of progress. -/
  progress : String := ""
  ending : Ending := .finished

namespace Ending

/-- The number with which the program ends, once a service is interrupted. -/
def code : Ending → Nat
  | .finished | .serving .. => 0
  | .failed _ => 1
  | .refused .wrong => 2
  | .refused _ => 0

def message? : Ending → Option String
  | .failed causes => some ("error: " ++ String.intercalate ": " causes)
  | _ => none

end Ending

namespace Command

/-! ## Causes of failures -/

/-- Each error is told with its own cause after it. -/
def settingsCauses (e : Settings.Error) : List String :=
  match e with
  | .io o => [e.message, o.message]
  | _ => [e.message]

def loadCauses (e : Catalog.LoadError) : List String :=
  match e with
  | .io _ o => [e.message, o.message]
  | .malformed _ m => [e.message, m.message]
  | .notObject _ => [e.message, "face entry is not an object"]
  | _ => [e.message]

def saveCauses (e : Catalog.SaveError) : List String :=
  match e.reason with
  | .io o => [e.message, o.message]
  | .unwritable => [e.message, Catalog.unwritablePath]

def wireCauses (e : Wire.Error) : List String :=
  match e with
  | .os o => [e.message, o.message]
  | .cut c => [e.message, c.message]
  | .malformed (.meaning m) => [e.message, m.message]
  | _ => [e.message]

/-! ## Scan -/

/-- The roots of a scan. -/
def rootsOf (i : CommandInput) (s : Settings) (c : ScanCommand) : Except (List String) (List Path) :=
  match if Roots.readsInput c then Roots.ofInput? i.input else some [] with
  | none => .error [OsError.notText.message]
  | some input =>
    match if c.systemFonts then Roots.ofSystem i.files i.environment else .ok [] with
    | .error source => .error ["no existing system font directories for " ++ source]
    | .ok system =>
      let requested := Roots.requested c input ++ system
      let roots := if requested.isEmpty then s.scan.roots else requested
      if roots.isEmpty then .error ["no scan paths provided and none configured"] else .ok roots

/-- Where a scan saves the catalog. -/
def targetOf (i : CommandInput) (s : Settings) (c : ScanCommand) : Except (List String) Path :=
  match c.output? with
  | some p => .ok p
  | none =>
    match s.catalogPaths? i.environment with
    | some (p :: _) => .ok p
    | some [] => .error ["no index path to write to"]
    | none => .error (settingsCauses .homeless)

/-- The scan that a command asks for. -/
def scanFor (t : FileTree) (s : Settings) (c : ScanCommand) (roots : List Path) : Scan :=
  let o := Settings.scanOptions s.scan
  let options : ScanOptions := {
    workers := c.jobs?.getD o.workers
    precount := o.precount && !c.withoutCount
    dedup := o.dedup || c.dedup }
  let extensions := if c.extensions.isEmpty then s.scan.extensions else c.extensions
  let follow := c.followLinks || s.scan.followLinks
  .make t options (.search (.ofWalk (.ofList extensions) (t.walk follow roots)))

def runScan (i : CommandInput) (s : Settings) (c : ScanCommand) : CommandResult :=
  let failed (causes : List String) : CommandResult := { files := i.files, ending := .failed causes }
  match rootsOf i s c with
  | .error causes => failed causes
  | .ok roots =>
    match targetOf i s c with
    | .error causes => failed causes
    | .ok target =>
      let x := FontFile.extractor FontFile.sfnt i.files
      let (outcome, after) := (scanFor i.files s c roots).run x
      let progress := if i.terminal && !c.withoutProgress then after.progress.line else ""
      match outcome with
      | .error e => { failed [e.message] with progress := progress }
      | .ok o =>
        let catalog := o.catalog
        match catalog.save i.files target with
        | (t, .error e) => {
          files := t
          progress := progress
          ending := .failed (("writing index to " ++ target.display) :: saveCauses e) }
        | (t, .ok ()) => {
          files := t
          progress := progress
          output := toString catalog.size ++ " faces from "
            ++ toString catalog.typographicFamilies.length ++ " families written to "
            ++ target.display ++ " (" ++ toString o.failures.length ++ " failures)\n" }

/-! ## Catalogs -/

/-- Loads the given catalogs, or those of the settings. -/
def loadCatalog (i : CommandInput) (s : Settings) (given : List Path) :
    Except (List String) Catalog :=
  match if given.isEmpty then s.catalogPaths? i.environment else some given with
  | none => .error (settingsCauses .homeless)
  | some paths =>
    match Catalog.loadAll i.files paths with
    | .error e =>
      .error (("loading index from " ++ String.intercalate ", " (paths.map Path.display))
        :: loadCauses e)
    | .ok c => .ok c

/-! ## Match and query -/

/-- What is told of a face that was found. -/
def foundLine (id : FaceId) (tier : Tier) (fullName : String) : String :=
  id.display ++ "\t" ++ tier.name ++ "\t" ++ fullName ++ "\n"

def answerLine : Answer → String
  | .found f t => foundLine f.id t f.fullName
  | .notFound => "not found\n"

def responseLine (r : Wire.Response) : String :=
  match r.outcome with
  | .found t f => foundLine f.id t f.fullName
  | .notFound => "not found\n"

/-- The answer with the name that was asked for, as JSON. -/
def answerJson? (family : String) (a : Answer) : Option Json :=
  let report (tier face : Json) : Json :=
    .object [("query", .text family), ("tier", tier), ("face", face)]
  match a with
  | .found f t => f.toJson?.map (report (.text t.name))
  | .notFound => some (report .null .null)

/-- Indented JSON and a new line, or why there is none. -/
def prettyOf (v? : Option Json) : Except (List String) String :=
  match v? with
  | some v => .ok (v.renderPretty ++ "\n")
  | none => .error [Catalog.unwritablePath]

/-- The output of an answer; without a face the command fails. -/
def answered (t : FileTree) (family : String) (isFound : Bool)
    (output : Except (List String) String) : CommandResult :=
  match output with
  | .error causes => { files := t, ending := .failed causes }
  | .ok output => {
    files := t
    output := output
    ending :=
      if isFound then .finished else .failed ["no face matches " ++ Text.quoted family] }

def runMatch (i : CommandInput) (s : Settings) (c : MatchCommand) : CommandResult :=
  match loadCatalog i s c.catalogs with
  | .error causes => { files := i.files, ending := .failed causes }
  | .ok catalog =>
    let a := catalog.find c.query
    answered i.files c.query.family a.face?.isSome
      (if c.json then prettyOf (answerJson? c.query.family a) else .ok (answerLine a))

/-- What is left when a server cannot be reached. -/
def unconnected (t : FileTree) (address : String) (e : OsError) : CommandResult where
  files := t
  ending := .failed (("connecting to " ++ address) :: wireCauses (.os e))

/-- What is made of a server's reply. -/
def replied (t : FileTree) (c : QueryCommand) (r : Except Wire.Error Wire.Response) :
    CommandResult :=
  match r with
  | .error e => { files := t, ending := .failed ("query failed" :: wireCauses e) }
  | .ok r =>
    answered t c.query.family r.face?.isSome
      (if c.json then prettyOf r.toJson? else .ok (responseLine r))

/-- The address of the server that is asked. -/
def queryAddress (s : Settings) (c : QueryCommand) : String :=
  c.address?.getD s.server.bind

def runQuery (i : CommandInput) (s : Settings) (c : QueryCommand) : CommandResult :=
  let address := queryAddress s c
  match i.network.resolve address with
  | .error e => unconnected i.files address e
  | .ok a =>
    match i.network.connect a with
    | .error e => unconnected i.files address e
    | .ok service => replied i.files c (Exchange.ask service {} c.query).1

/-! ## Serve -/

/-- The address of a server. -/
def serveAddress (s : Settings) (c : ServeCommand) : String :=
  c.bind?.getD s.server.bind

/-- What is left when an address cannot be served. -/
def unserved (t : FileTree) (address : String) (e : OsError) : CommandResult where
  files := t
  ending := .failed ["serving on " ++ address, e.message]

def runServe (i : CommandInput) (s : Settings) (c : ServeCommand) : CommandResult :=
  match loadCatalog i s c.catalogs with
  | .error causes => { files := i.files, ending := .failed causes }
  | .ok catalog =>
    let address := serveAddress s c
    match i.network.resolve address with
    | .error e => unserved i.files address e
    | .ok a =>
      match i.network.bind a with
      | .error e => unserved i.files address e
      | .ok () => {
        files := i.files
        ending := .serving a { catalog := catalog, maxFrame := s.server.maxFrame } }

/-! ## Stats -/

/-- The faces, a line each; a path that is not UTF-8 ends the listing. -/
def listLines (t : FileTree) (c : Catalog) : CommandResult :=
  let (lines, complete) := Catalog.lineListing c.faces.toList
  { files := t
    output := String.join lines
    ending := if complete then .finished else .failed [Catalog.unwritablePath] }

def familiesText (json : Bool) (families : List String) : String :=
  if json then (Json.list (families.map Json.text)).renderPretty ++ "\n"
  else String.join (families.map (· ++ "\n"))

def summaryText (json : Bool) (s : Catalog.Summary) : String :=
  if json then s.toJson.renderPretty ++ "\n" else s.toText

def runStats (i : CommandInput) (s : Settings) (c : StatsCommand) : CommandResult :=
  match loadCatalog i s c.catalogs with
  | .error causes => { files := i.files, ending := .failed causes }
  | .ok catalog =>
    if c.lines then listLines i.files catalog
    else if c.families then
      { files := i.files, output := familiesText c.json catalog.typographicFamilies }
    else { files := i.files, output := summaryText c.json catalog.summary }

/-! ## Commands -/

/-- The file of the settings. -/
def settingsPath? (e : Environment) (path? : Option Path) : Option Path :=
  path?.or (Settings.standardPath? e)

/-- The settings for a command. -/
def loadSettings (i : CommandInput) (path? : Option Path) : Except Settings.Error Settings :=
  let standard := Settings.standard (workersFor i.processors)
  match path? with
  | some p => (standard.load i.files p).map (·.override i.environment)
  | none => standard.loadStandard i.files i.environment

def run (i : CommandInput) (s : Settings) : Command → CommandResult
  | .scan c => runScan i s c
  | .serve c => runServe i s c
  | .find c => runMatch i s c
  | .query c => runQuery i s c
  | .stats c => runStats i s c

/-! ## Files -/

/-- The directories and files that a command searches. -/
def searchedPlaces (i : CommandInput) (s : Settings) : Command → List Path
  | .scan c =>
    let input := (Roots.ofInput? i.input).getD []
    let system := if c.systemFonts then (Roots.systemPlaces i.environment).1 else []
    let requested := Roots.requested c input ++ system
    if requested.isEmpty then s.scan.roots else requested
  | _ => []

/-- The files that a command reads or writes by name. -/
def namedPlaces (i : CommandInput) (s : Settings) : Command → List Path
  | .scan c => (targetOf i s c).toOption.toList
  | .serve ⟨given, _⟩ | .find ⟨_, given, _⟩ | .stats ⟨given, _, _, _⟩ =>
    if given.isEmpty then (s.catalogPaths? i.environment).getD [] else given
  | .query _ => []

/-- Whether a command reads the file at a path, which is one of its places or below one. -/
def reads (s : Settings) (p : Path) : Command → Bool
  | .scan c =>
    (Extensions.ofList (if c.extensions.isEmpty then s.scan.extensions else c.extensions)).accepts p
  | _ => true

/-- Whether a command goes through links to directories. -/
def follows (s : Settings) : Command → Bool
  | .scan c => c.followLinks || s.scan.followLinks
  | _ => false

/-! ## The program -/

def version : String := "subfont 0.3.0\n"

def usage : String :=
  "Font face index and family matcher for subtitle renderers\n\n" ++
  "Usage: subfont [OPTIONS] <COMMAND>\n\n" ++
  "Commands:\n" ++
  "  scan   Scan font directories and write an index artifact\n" ++
  "  serve  Serve match queries over TCP until interrupted\n" ++
  "  match  Resolve a family name against index artifacts\n" ++
  "  query  Ask a running server to resolve a family name\n" ++
  "  stats  Summarize index artifacts\n\n" ++
  "Options:\n" ++
  "      --config <CONFIG>  Read configuration from this file instead of the default location\n" ++
  "  -v, --verbose          More log output (repeat for trace)\n" ++
  "  -q, --quiet            Only log errors\n" ++
  "  -h, --help             Print help\n" ++
  "  -V, --version          Print version\n"

/-- Output for arguments that ask for no command. -/
def outputOf : Refusal → String
  | .wrong => ""
  | .help => usage
  | .version => version

/-- Runs the program with its arguments. -/
def runArguments (i : CommandInput) (args : List String) : CommandResult :=
  match Invocation.ofArguments args with
  | .error r => { files := i.files, output := outputOf r, ending := .refused r }
  | .ok ⟨path?, c⟩ =>
    match loadSettings i path? with
    | .error e => { files := i.files, ending := .failed (settingsCauses e) }
    | .ok s => c.run i s

end Command

end FontCatalog
