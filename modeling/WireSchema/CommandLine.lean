import WireSchema.CommandLine.Arguments
import WireSchema.CommandLine.Summary
import WireSchema.Compilation
import WireSchema.Files.Path
import WireSchema.Plan.Json

/-! The command line as a function of its arguments and of the files there are: what is written
where, and the code that the program ends with. -/
namespace WireSchema
namespace CommandLine

structure Outcome where
  exit : UInt8
  out : String
  err : String
deriving DecidableEq, Repr

/-- Lines of text, each with its end. -/
def unlines (lines : List String) : String := String.join (lines.map (· ++ "\n"))

/-- What is logged while the program runs: remarks of at least this weight, if any. -/
abbrev Threshold := Option Level

namespace Threshold

def ofName (name : String) : Threshold :=
  match String.ofList (name.toList.map Char.toLower) with
  | "" | "error" => some .error
  | "warn" => some .warning
  | "info" => some .info
  | "debug" | "trace" => some .debug
  | _ => none

def ofVerbosity : Nat → Threshold
  | 0 => none
  | 1 => some .info
  | _ => some .debug

def admits (threshold : Threshold) (level : Level) : Bool :=
  threshold.any fun least => decide (least ≤ level)

end Threshold

/-- The level at the head of a line of the log, as wide as the widest one. -/
def levelColumn : Level → String
  | .debug => "DEBUG"
  | .info => " INFO"
  | .warning => " WARN"
  | .error => "ERROR"

/-- Characters that steer a terminal are shown and not sent. -/
def shownChar (c : Char) : List Char :=
  if c = '\x1b' then ['\\', 'x', '1', 'b']
  else if c = '\x07' then ['\\', 'x', '0', '7']
  else if c = '\x08' then ['\\', 'x', '0', '8']
  else if c = '\x0c' then ['\\', 'x', '0', 'c']
  else if c = '\x7f' then ['\\', 'x', '7', 'f']
  else if 0x80 ≤ c.toNat ∧ c.toNat ≤ 0x9f then
    ['\\', 'u', '\x7b'] ++ Nat.toDigits 16 c.toNat ++ ['\x7d']
  else [c]

/-- The line of a remark in the log, if it weighs enough. -/
def logLine (threshold : Threshold) (level : Level) (text : String) : List String :=
  if threshold.admits level then
    [s!"{levelColumn level} {String.ofList (text.toList.flatMap shownChar)}"]
  else []

namespace Invocation
variable (i : Invocation)

/-- The text of an error that ends a compilation. In JSON it is given in any case. -/
def compileErrorLines (e : CompileError) : List String :=
  match i.format with
  | .json => [e.report.fullJson.pretty]
  | .text => if i.settings.quiet then [] else [s!"error: {e.report.text}"]

def warningLines (log : Log) : List String :=
  if i.settings.quiet then []
  else log.warnings.map fun w =>
    match i.format with
    | .text => w.text
    | .json => w.json.compact

/-- The text of an error that comes after the compilation. -/
def errorLines (message : String) : List String :=
  if i.settings.quiet then []
  else
    match i.format with
    | .text => [s!"error: {message}"]
    | .json => [(Json.obj [("error", .str message)]).compact]

def checkLines (schema : Schema) : List String :=
  let summary := Summary.ofSchema i.file schema
  match i.format with
  | .json => [summary.json.pretty]
  | .text =>
    if i.settings.quiet then []
    else summary.lines ++ schema.services.toList.map fun s => dispatchLine s.1 s.2

def configName : String := "bytesnap.toml"

/-- The file with the project's settings: the one given, or else one beside the schema, if there is
one. -/
def configPath? (files : Files) : Option String :=
  match i.settings.config with
  | some path => some path
  | none =>
    let beside := Path.sibling i.file configName
    if files.isFile beside then some beside else none

/-- A project is named after its schema if it has no other name. -/
def projectName : String := (Path.stem? i.file).getD "bytesnap"

def loadConfig (files : Files) : Except ConfigError ProjectConfig :=
  match i.configPath? files with
  | some path => ProjectConfig.load files path i.projectName
  | none => .ok (ProjectConfig.named i.projectName)

/-- Makes a plan of a schema; `err` holds the lines written so far. -/
def plan (files : Files) (threshold : Threshold) (schema : Schema) (err : List String) : Outcome :=
  let loading := (i.configPath? files).toList.flatMap fun path =>
    logLine threshold .debug s!"loading config from {path}"
  match i.loadConfig files with
  | .error e => ⟨1, "", unlines (err ++ loading ++ i.errorLines e.message)⟩
  | .ok config =>
    let err := err ++ loading ++ logLine threshold .info s!"planning project {config.project}"
    match Plan.ofSchema schema config with
    | .error e => ⟨1, "", unlines (err ++ i.errorLines e.message)⟩
    | .ok plan => ⟨0, unlines [plan.json.sorted.pretty], unlines err⟩

def run (files : Files) (threshold : Threshold) : Outcome :=
  let level : Level := if threshold.admits .debug then .debug else .info
  let (log, result) := compileFile files i.file { level }
  let logged := log.entries.toList.flatMap fun d => logLine threshold d.level d.text
  match result with
  | .error e => ⟨1, "", unlines (logged ++ i.compileErrorLines e)⟩
  | .ok schema =>
    let err := logged ++ i.warningLines log
    match i.action with
    | .compile => ⟨0, unlines [schema.json.sorted.pretty], unlines err⟩
    | .check => ⟨0, unlines (i.checkLines schema), unlines err⟩
    | .plan => i.plan files threshold schema err

/-- The files that an invocation may read. -/
def paths : List String :=
  [i.file, i.settings.config.getD (Path.sibling i.file configName)]

end Invocation

def Action.about : Action → String
  | .compile => "Compile an IDL file and print the IR as JSON"
  | .check => "Validate an IDL file and print a summary"
  | .plan => "Build the emit plan for an IDL file"

/-- The arguments of an action. -/
def Action.arguments : Action → String
  | .compile | .check => "FILE"
  | .plan => "[--config FILE] FILE"

def usage : String :=
  "usage: bytesnap [--output text|json] [--quiet] [-v] (compile|check|plan [--config FILE]) FILE"

def helpLines : Option Action → List String
  | none => ["Bytesnap IDL compiler", "", usage, ""] ++ Action.all.map fun a =>
      s!"  {a.name} {a.arguments}: {a.about}"
  | some a => [a.about, "",
      s!"usage: bytesnap {a.name} [--output text|json] [--quiet] [-v] {a.arguments}"]

def versionText : String := "bytesnap 0.1.0"

/-- Answers a request. A name, if one is given, says what is logged, or else the verbosity does. -/
def respond (files : Files) (logName : Option String) : Option Request → Outcome
  | none => ⟨2, "", unlines [usage]⟩
  | some .version => ⟨0, unlines [versionText], ""⟩
  | some (.help action) => ⟨0, unlines (helpLines action), ""⟩
  | some (.run i) =>
    i.run files ((logName.map Threshold.ofName).getD (.ofVerbosity i.settings.verbosity))

def run (files : Files) (logName : Option String) (args : List String) : Outcome :=
  respond files logName (Request.ofArguments? args)

end CommandLine
end WireSchema
