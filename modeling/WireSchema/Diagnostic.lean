import WireSchema.Json
import WireSchema.Location

/-! Remarks about a compilation, and the log that keeps those of some weight. -/
namespace WireSchema

inductive Level where
  | debug
  | info
  | warning
  | error
deriving DecidableEq, Repr

namespace Level

def rank : Level → Nat
  | .debug => 0
  | .info => 1
  | .warning => 2
  | .error => 3

instance : LE Level := ⟨fun a b => a.rank ≤ b.rank⟩

instance (a b : Level) : Decidable (a ≤ b) := inferInstanceAs (Decidable (a.rank ≤ b.rank))

def name : Level → String
  | .debug => "debug"
  | .info => "info"
  | .warning => "warning"
  | .error => "error"

def label : Level → String
  | .debug => "DEBUG"
  | .info => "INFO"
  | .warning => "WARNING"
  | .error => "ERROR"

end Level

structure Diagnostic where
  level : Level
  loc : Option Location
  message : String
deriving DecidableEq, Repr

def Location.json (loc : Location) : Json :=
  .obj [("line", .int loc.line.toNat), ("column", .int loc.column.toNat)]

namespace Diagnostic

def debug (message : String) : Diagnostic := ⟨.debug, none, message⟩

def info (message : String) : Diagnostic := ⟨.info, none, message⟩

variable (d : Diagnostic)

def text : String :=
  match d.loc with
  | some loc => s!"[{d.level.label}] {loc.text}: {d.message}"
  | none => s!"[{d.level.label}] {d.message}"

def json : Json :=
  .obj (("level", .str d.level.name) :: Json.member? "location" Location.json d.loc ++
    [("message", .str d.message)])

end Diagnostic

/-- Keeps what is at least as weighty as its level, in the order of coming. -/
structure Log where
  level : Level := .info
  entries : Array Diagnostic := #[]
deriving DecidableEq, Repr

namespace Log
variable (log : Log)

def record (d : Diagnostic) : Log :=
  if log.level ≤ d.level then { log with entries := log.entries.push d } else log

def recordAll (ds : List Diagnostic) : Log := ds.foldl record log

def hasErrors : Bool := log.entries.any fun d => d.level = .error

def warnings : List Diagnostic := log.entries.toList.filter fun d => d.level = .warning

@[simp] theorem record_level (d : Diagnostic) : (log.record d).level = log.level := by
  unfold record
  split <;> rfl

@[simp] theorem recordAll_append (ds es : List Diagnostic) :
    log.recordAll (ds ++ es) = (log.recordAll ds).recordAll es := by
  simp [recordAll]

@[simp] theorem recordAll_level (ds : List Diagnostic) : (log.recordAll ds).level = log.level := by
  unfold recordAll
  induction ds generalizing log with
  | nil => rfl
  | cons d ds ih => rw [List.foldl_cons, ih, record_level]

/-- What is recorded is what weighs enough. -/
theorem entries_recordAll (ds : List Diagnostic) :
    (log.recordAll ds).entries.toList = log.entries.toList ++ ds.filter (log.level ≤ ·.level) := by
  unfold recordAll
  induction ds generalizing log with
  | nil => simp
  | cons d ds ih =>
    simp only [List.foldl_cons, ih, record_level, List.filter_cons, decide_eq_true_eq]
    unfold record
    split <;> simp

end Log
end WireSchema
