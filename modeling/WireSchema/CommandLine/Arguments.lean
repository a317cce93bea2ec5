/-! The arguments of the command line. Settings may stand before the command or behind it, and
behind it they win. -/
namespace WireSchema
namespace CommandLine

inductive OutputFormat where
  | text
  | json
deriving DecidableEq, Repr

def OutputFormat.ofName? : String → Option OutputFormat
  | "text" => some .text
  | "json" => some .json
  | _ => none

inductive Action where
  | compile
  | check
  | plan
deriving DecidableEq, Repr

namespace Action

def all : List Action := [.compile, .check, .plan]

def name : Action → String
  | .compile => "compile"
  | .check => "check"
  | .plan => "plan"

def ofName? (name : String) : Option Action := all.find? fun a => a.name = name

end Action

/-- The settings found so far on one side of the command. -/
structure Settings where
  output : Option OutputFormat := none
  quiet : Bool := false
  /-- How often more was asked for; 0 if never. -/
  verbosity : Nat := 0
  config : Option String := none
deriving DecidableEq, Repr

/-- The settings of both sides; those of the inner side win. -/
def Settings.within (inner outer : Settings) : Settings where
  output := inner.output <|> outer.output
  quiet := inner.quiet || outer.quiet
  verbosity := if inner.verbosity = 0 then outer.verbosity else inner.verbosity
  config := inner.config

structure Invocation where
  action : Action
  file : String
  settings : Settings
deriving DecidableEq, Repr

def Invocation.format (i : Invocation) : OutputFormat := i.settings.output.getD .text

inductive Request where
  | version
  /-- How the program is called, or one of its actions. -/
  | help (action : Option Action)
  | run (i : Invocation)
deriving DecidableEq, Repr

/-- What an argument that starts with a dash asks for. A value may be part of it. -/
inductive Switch where
  | version
  | help
  | quiet
  | verbose (times : Nat)
  | output (value : Option String)
  | config (value : Option String)
deriving DecidableEq, Repr

namespace Switch

/-- A dash alone is a name like any other. -/
def isSwitch (arg : String) : Bool := arg.toList.head? = some '-' && arg ≠ "-"

def ofLong? (name : String) (value : Option String) : Option Switch :=
  match name, value with
  | "version", none => some .version
  | "help", none => some .help
  | "quiet", none => some .quiet
  | "verbose", none => some (.verbose 1)
  | "output", value => some (.output value)
  | "config", value => some (.config value)
  | _, _ => none

/-- Letters behind one dash. The version and help are given as soon as they are asked for. -/
def ofShort? : List Char → Option Switch
  | ['v'] => some (.verbose 1)
  | 'V' :: _ => some .version
  | 'h' :: _ => some .help
  | 'v' :: cs =>
    match ofShort? cs with
    | some (.verbose n) => some (.verbose (n + 1))
    | other => other
  | _ => none

def ofArgument? (arg : String) : Option Switch :=
  match arg.toList with
  | '-' :: '-' :: cs =>
    let name := String.ofList (cs.takeWhile (· ≠ '='))
    match cs.dropWhile (· ≠ '=') with
    | [] => ofLong? name none
    | _ :: value => ofLong? name (some (String.ofList value))
  | '-' :: cs => ofShort? cs
  | _ => none

end Switch

namespace Settings
variable (s : Settings)

def setQuiet? : Option Settings := if s.quiet then none else some { s with quiet := true }

def setOutput? (value : String) : Option Settings := do
  let format ← OutputFormat.ofName? value
  if s.output.isSome then none else some { s with output := some format }

def setConfig? (value : String) : Option Settings :=
  if s.config.isSome ∨ value = "" then none else some { s with config := some value }

def setVerbose (times : Nat) : Settings := { s with verbosity := s.verbosity + times }

end Settings

/-- The arguments behind an action are settings and the name of one file. Two dashes alone say that
what follows is no setting. -/
def readBehind (action : Action) (s : Settings) (file : Option String) :
    List String → Option Request
  | [] => file.map fun f => .run ⟨action, f, s⟩
  | arg :: rest =>
    if arg = "--" then
      match file, rest with
      | some f, [] => some (.run ⟨action, f, s⟩)
      | none, [f] => if f = "" then none else some (.run ⟨action, f, s⟩)
      | _, _ => none
    else if Switch.isSwitch arg then
      match Switch.ofArgument? arg with
      | none | some .version => none
      | some .help => some (.help action)
      | some .quiet => s.setQuiet?.bind fun s => readBehind action s file rest
      | some (.verbose n) => readBehind action (s.setVerbose n) file rest
      | some (.output (some v)) => (s.setOutput? v).bind fun s => readBehind action s file rest
      | some (.output none) =>
        match rest with
        | [] => none
        | v :: rest => (s.setOutput? v).bind fun s => readBehind action s file rest
      | some (.config value) =>
        if action = .plan then
          match value, rest with
          | some v, rest => (s.setConfig? v).bind fun s => readBehind action s file rest
          | none, v :: rest =>
            if Switch.isSwitch v then none
            else (s.setConfig? v).bind fun s => readBehind action s file rest
          | none, [] => none
        else none
    else if arg = "" ∨ file.isSome then none
    else readBehind action s (some arg) rest

/-- Behind the word for help stands at most one word more, and that is help again or an action. -/
def readHelp : List String → Option Request
  | [] | ["help"] => some (.help none)
  | [name] => (Action.ofName? name).map fun action => .help action
  | _ => none

/-- The request with the settings that stand around it. -/
def Request.within (outer : Settings) : Request → Request
  | .run i => .run { i with settings := i.settings.within outer }
  | request => request

/-- The arguments before the action and all that follow. -/
def readBefore (s : Settings) : List String → Option Request
  | [] => none
  | arg :: rest =>
    if Switch.isSwitch arg then
      match Switch.ofArgument? arg with
      | none | some (.config _) => none
      | some .version => some .version
      | some .help => some (.help none)
      | some .quiet => s.setQuiet?.bind fun s => readBefore s rest
      | some (.verbose n) => readBefore (s.setVerbose n) rest
      | some (.output (some v)) => (s.setOutput? v).bind fun s => readBefore s rest
      | some (.output none) =>
        match rest with
        | [] => none
        | v :: rest => (s.setOutput? v).bind fun s => readBefore s rest
    else if arg = "help" then readHelp rest
    else do
      let action ← Action.ofName? arg
      let request ← readBehind action {} none rest
      return request.within s

/-- What is asked for; none if the arguments make no sense. -/
def Request.ofArguments? (args : List String) : Option Request := readBefore {} args

end CommandLine
end WireSchema
