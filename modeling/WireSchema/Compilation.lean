import WireSchema.Document.Parser
import WireSchema.ErrorReport
import WireSchema.Schema.Services
import WireSchema.Schema.Structs

/-! From a text to its schema, pass by pass. The first fault ends a compilation, and no part of a
schema is given then. A log goes along, and the last pass and the steps between the others add their
remarks to it. -/
namespace WireSchema
namespace Schema

def optionReplaced (o : OptionDef) (old : String) : Diagnostic :=
  ⟨.warning, some o.loc, s!"option {o.key} redefined, replacing \"{old}\" with \"{o.value}\""⟩

/-- Sets an option. A key that comes again replaces the value before it, and is remarked upon. -/
def addOption (options : Table String) (o : OptionDef) : StateM Log (Table String) := do
  match options.upsert o.key o.value with
  | (options, none) => return options
  | (options, some old) =>
    modify (·.record (optionReplaced o old))
    return options

/-- The options of a document by key: settings for whoever reads the schema. -/
def collectOptions (doc : Document) : StateM Log (Table String) := doc.options.foldlM addOption ∅

end Schema

/-- Works on a log, and ends with an error or a value. -/
abbrev Compilation := ExceptT CompileError (StateM Log)

namespace Compilation
variable {α : Type}

def remark (d : Diagnostic) : Compilation Unit := modify (·.record d)

/-- Goes on with what a pass gives, if it gives anything. -/
def ofPass : Except Violation α → Compilation α
  | .error v => throw (.violation v)
  | .ok a => return a

def ofDocument (doc : Document) : Compilation Schema := do
  remark (.debug s!"parsed {doc.length} definitions")
  let constants ← ofPass (Schema.resolveConstants doc)
  remark (.info s!"{constants.size} constants resolved")
  let drafts ← ofPass (Schema.draftStructs constants doc)
  let structs ← ofPass (Schema.checkStructs drafts)
  remark (.info s!"{structs.size} structs validated")
  let services ← ofPass (Schema.resolveServices constants structs doc)
  ofPass (Schema.checkServices structs services)
  remark (.info s!"{services.size} services validated")
  let options ← Schema.collectOptions doc
  return ⟨constants, structs, services, options⟩

def ofText (text : String) : Compilation Schema :=
  match Document.ofText text with
  | .error e => throw (.syntactic e)
  | .ok doc => ofDocument doc

def ofFile (files : Files) (path : String) : Compilation Schema := do
  match files.readText path with
  | .error fault => throw (.unreadable path fault)
  | .ok text =>
    remark (.debug s!"read {text.utf8ByteSize} bytes from {path}")
    ofText text

/-- The error that ends the compilation is the last remark. -/
def reported (c : Compilation α) : Compilation α :=
  tryCatch c fun e => do
    remark e.report.diagnostic
    throw e

/-- What comes of the compilation on a fresh log. -/
def outcome (c : Compilation α) : Except CompileError α := (c.run.run {}).1

end Compilation

/-- Compiles a text; the log keeps what it is told to keep. -/
def compile (text : String) (log : Log) : Log × Except CompileError Schema :=
  ((Compilation.ofText text).reported.run.run log).swap

def compileFile (files : Files) (path : String) (log : Log) : Log × Except CompileError Schema :=
  ((Compilation.ofFile files path).reported.run.run log).swap

end WireSchema
