import TestScout.Collection.Json
import TestScout.Collection.Updates
import TestScout.Command.Arguments
import TestScout.Editor.Basic
import TestScout.Ignore.Walk
import TestScout.Outline.Json
import TestScout.Runner.Json
import TestScout.Runner.Replay
import TestScout.Suite.Loading

/-! The command that looks for the tests below a root and reports them. -/

namespace TestScout.Command
open Json Runner

inductive Fault where
  | configuration (fault : ConfigurationFault)
  | unreadable (path : Path) (fault : FileFault)
deriving Repr

def Fault.message : Fault → String
  | .configuration fault => fault.message
  | .unreadable path fault => path.text ++ ": " ++ fault.message

/-- The rules that the flags of one kind give. Only directories have a suffix. -/
def rulesOfFlags (tag : Suite.Tag) (suffix : Option String) (flags : List String) :
    Except ConfigurationFault (List Suite.Rule) :=
  flags.mapM fun flag => do
    let rule ← Suite.Rule.ofFlag tag flag
    return if tag = .directory then { rule with suffix } else rule

/-- The suite that there is when nothing is said about suites. -/
def defaultRule (suffix : Option String) : Suite.Rule :=
  { suite := "default", tag := .directory, value := "tests", suffix }

/-- A configuration with the rules of a request behind its own. -/
def Request.extend (request : Request) (configuration : Configuration) : Except ConfigurationFault Configuration := do
  let suites ← rulesOfFlags .directory request.suffix request.suites
  let files ← rulesOfFlags .file request.suffix request.files
  let excludes ← rulesOfFlags .exclude request.suffix request.excludes
  let rules := configuration.rules ++ suites ++ files ++ excludes
  let added := if rules.any (·.tag ≠ .exclude) then [] else [defaultRule request.suffix]
  return { configuration with rules := rules ++ added }

variable {m : Type → Type} [Monad m]

def Request.loaded (request : Request) (files : Files m) : m (Except ConfigurationFault Configuration) :=
  match request.config with
  | some path => Configuration.load files path
  | none => return .ok { root := request.root }

/-- The configuration that a request means, with its root as the path from the root of all files on. -/
def Request.configuration (request : Request) (files : Files m) : m (Except Fault Configuration) := do
  match (← request.loaded files).bind request.extend with
  | .error fault => return .error (.configuration fault)
  | .ok configuration =>
    match ← files.canonical configuration.root with
    | .ok root => return .ok { configuration with root }
    | .error fault => return .error (.unreadable configuration.root fault)

/-- A collection of what is found below the root of a configuration. -/
def collect (files : Files m) (configuration : Configuration) : m (Collection Editor) := do
  let found ← Ignore.filesBelow files configuration.root
  let sources := found.filter (·.extension? == some "php")
  sources.foldlM (fun collection file => do return (← collection.add files file).1)
    (Collection.ofConfiguration configuration {})

/-- Takes in the lines that the events of a run are written on. Lines that are no events are passed over. -/
def replayLines (editor : Editor) (text : String) : Editor × List Transition :=
  let events := (Text.lines text.toList).filterMap fun line =>
    if Text.blank line then none else (Event.ofLine (String.ofList line)).toOption
  let start := Replay.start editor.outline editor.outline.top
  let (_, editor, transitions) := events.foldl (fun (replay, editor, transitions) event =>
    let (replay, editor, further) := Replay.dispatch replay editor event
    (replay, editor, transitions ++ further)) (start, editor, [])
  (editor, transitions)

/-- What is reported: the suites, the tracked files, the outline of all tests, and what the
events of a run say. -/
structure Report where
  suites : List String
  files : List FileEntry
  outline : Outline
  transitions : List Transition

def Report.ofCollection (collection : Collection Editor) (events : Option String) : Report :=
  let (editor, transitions) := match events with
    | some text => replayLines collection.tracker text
    | none => (collection.tracker, [])
  { suites := collection.suiteNames, files := collection.entries, outline := editor.outline, transitions }

def Report.toJson (report : Report) : Value :=
  .object ([
    ("groups", Value.strings report.suites), ("files", .array (report.files.map FileEntry.toJson)),
    ("tree", report.outline.toJson)] ++
    if report.transitions.isEmpty then []
    else [("run", .array (report.transitions.map (·.toJson report.outline)))])

def Request.events? (request : Request) (files : Files m) : m (Except Fault (Option String)) := do
  match request.events with
  | none => return .ok none
  | some path => return (← files.read path).mapError (.unreadable path) |>.map some

def Request.report (request : Request) (files : Files m) : m (Except Fault Report) := do
  match ← request.configuration files with
  | .error fault => return .error fault
  | .ok configuration =>
    let collection ← collect files configuration
    return (← request.events? files).map (Report.ofCollection collection)

/-- How the command ends. -/
inductive Outcome where
  | reported (report : Report)
  | failed (fault : Fault)
  /-- The words make no sense. -/
  | misused

def run (files : Files m) (arguments : List String) : m Outcome := do
  match Request.ofArguments? arguments with
  | none => return .misused
  | some request =>
    match ← request.report files with
    | .ok report => return .reported report
    | .error fault => return .failed fault

/-- The status that the command ends with. -/
def Outcome.status : Outcome → UInt32
  | .reported _ => 0
  | .failed _ => 1
  | .misused => 2

/-- What the command prints as its result. -/
def Outcome.output? : Outcome → Option String
  | .reported report => some (report.toJson.pretty "")
  | _ => none

/-- How the command is to be called. -/
def usage : String :=
  "usage: testscout discover [ROOT] [--config FILE] [--suite NAME=PATH] [--file NAME=PATH] " ++
    "[--exclude NAME=PATH] [--suffix TEXT] [--events FILE]"

/-- What the command complains about. -/
def Outcome.complaint? : Outcome → Option String
  | .reported _ => none
  | .failed fault => some ("error: " ++ fault.message)
  | .misused => some usage

end TestScout.Command
