import WireSchema.Proofs.OptionWarnings

/-! The log that a compilation hands from pass to pass. Remarks are added to it and nothing is read
from it, so a compilation has one trace and one outcome, and these two tell its run on any log. The
outcome is what the passes come to among themselves. -/
namespace WireSchema

namespace Document
variable (doc : Document)

/-- The passes without a log. -/
def passes : Except Violation Schema := do
  let constants ← Schema.resolveConstants doc
  let drafts ← Schema.draftStructs constants doc
  let structs ← Schema.checkStructs drafts
  let services ← Schema.resolveServices constants structs doc
  Schema.checkServices structs services
  return ⟨constants, structs, services, doc.elaborate.options⟩

/-- The structs, if nothing is wrong up to the third pass. -/
def structTable : Except Violation (Table Struct) := do
  let constants ← Schema.resolveConstants doc
  let drafts ← Schema.draftStructs constants doc
  Schema.checkStructs drafts

/-- The services, if nothing is wrong up to the fifth pass. -/
def serviceTable : Except Violation (Table Service) := do
  let constants ← Schema.resolveConstants doc
  let structs ← doc.structTable
  let services ← Schema.resolveServices constants structs doc
  Schema.checkServices structs services
  return services

/-- A remark on the size of a table, if there is one. -/
def counted {α : Type} (table : Except Violation (Table α)) (message : Nat → String) :
    List Diagnostic :=
  match table with
  | .ok t => [.info (message t.size)]
  | .error _ => []

/-- The sizes of the tables that the passes produce, as far as they get. -/
def progress : List Diagnostic :=
  counted (Schema.resolveConstants doc) (fun n => s!"{n} constants resolved") ++
    counted doc.structTable (fun n => s!"{n} structs validated") ++
    counted doc.serviceTable fun n => s!"{n} services validated"

/-- The options that are replaced, if the passes get as far as the options. -/
def afterword : List Diagnostic :=
  match doc.passes with
  | .ok _ => Schema.replacements doc.options
  | .error _ => []

end Document

namespace Compilation
variable {α β : Type} {c : Compilation α} {k : α → Compilation β} {a : α} {e : CompileError}
  {trace trace' : List Diagnostic} {result : Except CompileError α}
  {result' : Except CompileError β}

/-- On every log the compilation adds the same remarks and comes to the same end. -/
def Tells (c : Compilation α) (trace : List Diagnostic) (result : Except CompileError α) : Prop :=
  ∀ log : Log, c.run.run log = (result, log.recordAll trace)

/-- A fresh log is a log like any other. -/
theorem Tells.outcome_eq (h : c.Tells trace result) : c.outcome = result := by
  rw [outcome, h]

/-! ## Steps -/

theorem tells_pure (a : α) : Tells (pure a) [] (.ok a) := fun _ => rfl

theorem tells_throw (e : CompileError) : Tells (throw e : Compilation α) [] (.error e) :=
  fun _ => rfl

theorem tells_remark (d : Diagnostic) : Tells (remark d) [d] (.ok ()) := fun _ => rfl

/-- The pass over the options works on the log as every other step does. -/
theorem tells_collectOptions (doc : Document) :
    Tells (liftM (Schema.collectOptions doc)) (Schema.replacements doc.options)
      (.ok doc.elaborate.options) := by
  intro log
  rw [ExceptT.run_liftM, StateT.run_map, Schema.collectOptions_run]
  rfl

/-- What a step tells comes before what the rest tells. -/
theorem Tells.bind_ok (hc : c.Tells trace (.ok a)) (hk : (k a).Tells trace' result') :
    (c >>= k).Tells (trace ++ trace') result' := by
  intro log
  rw [ExceptT.run_bind, StateT.run_bind, hc log, Log.recordAll_append, ← hk]
  rfl

/-- A step that fails is the last. -/
theorem Tells.bind_error (hc : c.Tells trace (.error e)) :
    (c >>= k).Tells trace (.error e) := by
  intro log
  rw [ExceptT.run_bind, StateT.run_bind, hc log]
  rfl

theorem Tells.remarked {k : Unit → Compilation β} {d : Diagnostic}
    (hk : (k ()).Tells trace result') : (remark d >>= k).Tells (d :: trace) result' :=
  (tells_remark d).bind_ok hk

theorem Tells.passed (hk : (k a).Tells trace result') :
    (ofPass (.ok a) >>= k).Tells trace result' :=
  (tells_pure a).bind_ok hk

/-- A pass that refuses the document has nothing to remark. -/
theorem tells_refused (v : Violation) :
    (ofPass (.error v) >>= k).Tells [] (.error (.violation v)) :=
  (tells_throw _).bind_error

/-- The error, if there is one, is remarked upon at last. -/
def lastWord : Except CompileError α → List Diagnostic
  | .error e => [e.report.diagnostic]
  | .ok _ => []

theorem Tells.reported (h : c.Tells trace result) :
    c.reported.Tells (trace ++ lastWord result) result := by
  intro log
  rw [Compilation.reported, ExceptT.run_tryCatch, StateT.run_bind, h log, Log.recordAll_append]
  cases result <;> rfl

/-! ## Compilations -/

/-- A document is remarked upon pass by pass, up to the pass that refuses it. -/
theorem ofDocument_tells (doc : Document) :
    (ofDocument doc).Tells
      (.debug s!"parsed {doc.length} definitions" :: doc.progress ++ doc.afterword)
      (doc.passes.mapError .violation) := by
  unfold ofDocument Document.afterword Document.progress Document.passes Document.serviceTable
    Document.structTable
  refine .remarked ?_
  cases Schema.resolveConstants doc with
  | error v => exact tells_refused v
  | ok constants =>
    simp only [ok_bind]
    refine .passed (.remarked ?_)
    cases Schema.draftStructs constants doc with
    | error v => exact tells_refused v
    | ok drafts =>
      simp only [ok_bind]
      refine .passed ?_
      cases Schema.checkStructs drafts with
      | error v => exact tells_refused v
      | ok structs =>
        simp only [ok_bind]
        refine .passed (.remarked ?_)
        cases Schema.resolveServices constants structs doc with
        | error v => exact tells_refused v
        | ok services =>
          simp only [ok_bind]
          refine .passed ?_
          cases Schema.checkServices structs services with
          | error v => exact tells_refused v
          | ok _ =>
            refine .passed (.remarked ?_)
            have h := (tells_collectOptions doc).bind_ok (k := fun options => pure
              (⟨constants, structs, services, options⟩ : Schema)) (tells_pure _)
            rwa [List.append_nil] at h

/-- With no log in sight: the outcome is that of the passes. -/
theorem ofDocument_outcome (doc : Document) :
    (ofDocument doc).outcome = doc.passes.mapError .violation :=
  (ofDocument_tells doc).outcome_eq

/-- The remarks on a text, but for the last one if that is an error. -/
def textTrace (text : String) : List Diagnostic :=
  match Document.ofText text with
  | .error _ => []
  | .ok doc => .debug s!"parsed {doc.length} definitions" :: doc.progress ++ doc.afterword

theorem ofText_tells (text : String) :
    (ofText text).Tells (textTrace text) (ofText text).outcome := by
  unfold ofText textTrace
  cases Document.ofText text with
  | error e => exact tells_throw _
  | ok doc =>
    simp only
    rw [ofDocument_outcome]
    exact ofDocument_tells doc

section Files
variable {files : Files} {path text : String}

theorem ofFile_unread {fault : ReadFault} (h : files.readText path = .error fault) :
    (ofFile files path).Tells [] (.error (.unreadable path fault)) := by
  rw [ofFile, h]
  exact tells_throw _

theorem ofFile_read (h : files.readText path = .ok text) :
    (ofFile files path).Tells
      (.debug s!"read {text.utf8ByteSize} bytes from {path}" :: textTrace text)
      (ofText text).outcome := by
  rw [ofFile, h]
  exact (ofText_tells text).remarked

end Files

end Compilation

section Compile
variable {text : String} {log : Log} {doc : Document} {files : Files} {path : String}

/-- A run on a log: the outcome of the compilation, and in the log all that it tells. -/
theorem compile_eq (text : String) (log : Log) :
    compile text log = (log.recordAll (Compilation.textTrace text ++
      Compilation.lastWord (Compilation.ofText text).outcome),
      (Compilation.ofText text).outcome) := by
  rw [compile, (Compilation.ofText_tells text).reported]
  rfl

/-- A text that cannot be read is refused at once. -/
theorem compile_of_unread {e : SyntaxError} (h : Document.ofText text = .error e) :
    (compile text log).2 = .error (.syntactic e) := by
  rw [compile_eq, Compilation.ofText, h]
  rfl

theorem compile_of_read (h : Document.ofText text = .ok doc) :
    (compile text log).2 = (Compilation.ofDocument doc).outcome := by
  rw [compile_eq, Compilation.ofText, h]

theorem compileFile_of_unread {fault : ReadFault} (h : files.readText path = .error fault) :
    (compileFile files path log).2 = .error (.unreadable path fault) := by
  rw [compileFile, (Compilation.ofFile_unread h).reported]
  rfl

theorem compileFile_of_read (h : files.readText path = .ok text) :
    (compileFile files path log).2 = (compile text {}).2 := by
  rw [compileFile, (Compilation.ofFile_read h).reported, compile_eq]
  rfl

/-- Neither for a file does the outcome depend on the log. -/
theorem compileFile_snd (files : Files) (path : String) (log log' : Log) :
    (compileFile files path log).2 = (compileFile files path log').2 := by
  cases h : files.readText path with
  | error fault => rw [compileFile_of_unread h, compileFile_of_unread h]
  | ok text => rw [compileFile_of_read h, compileFile_of_read h]

end Compile
end WireSchema
