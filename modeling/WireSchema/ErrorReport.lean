import WireSchema.Diagnostic
import WireSchema.Files
import WireSchema.Schema.Violation
import WireSchema.SyntaxFault

/-! Why a document has no schema, and how that is reported: a kind, a message, and where in the
document and in the compilation it came up. -/
namespace WireSchema

inductive CompileError where
  | syntactic (e : SyntaxError)
  | violation (v : Violation)
  | unreadable (path : String) (fault : ReadFault)
deriving DecidableEq, Repr

namespace CompileError

def loc? : CompileError → Option Location
  | .syntactic e => some e.loc
  | .violation v => some v.loc
  | .unreadable .. => none

def message : CompileError → String
  | .syntactic e => e.fault.message
  | .violation v => v.offence.message
  | .unreadable path fault => s!"cannot read {path}: {fault.message}"

end CompileError

inductive ErrorKind where
  | syntactic
  | redefinition
  | duplicateField
  | duplicateMethod
  | undefinedType
  | undefinedConstant
  | invalidLengthSpec
  | typeMismatch
  | emptyOrMixedVector
  | unsupportedAssignment
  /-- For literals that no value can be made of; the grammar has none. -/
  | unsupportedValueType
  | io
deriving DecidableEq, Repr

namespace ErrorKind

def all : List ErrorKind :=
  [.syntactic, .redefinition, .duplicateField, .duplicateMethod, .undefinedType,
    .undefinedConstant, .invalidLengthSpec, .typeMismatch, .emptyOrMixedVector,
    .unsupportedAssignment, .unsupportedValueType, .io]

def name : ErrorKind → String
  | .syntactic => "syntax"
  | .redefinition => "redefinition"
  | .duplicateField => "duplicate_field"
  | .duplicateMethod => "duplicate_method"
  | .undefinedType => "undefined_type"
  | .undefinedConstant => "undefined_constant"
  | .invalidLengthSpec => "invalid_length_spec"
  | .typeMismatch => "type_mismatch"
  | .emptyOrMixedVector => "empty_or_mixed_vector"
  | .unsupportedAssignment => "unsupported_assignment"
  | .unsupportedValueType => "unsupported_value_type"
  | .io => "io"

def ofName? (name : String) : Option ErrorKind := all.find? fun k => k.name = name

theorem ofName?_name (k : ErrorKind) : ofName? k.name = some k := by
  cases k <;> decide

end ErrorKind

structure ErrorReport where
  kind : ErrorKind
  pass : UInt8
  constructKind : Option String
  constructId : Option String
  field : Option String
  loc : Option Location
  message : String
deriving DecidableEq, Repr

namespace ErrorReport
variable (r : ErrorReport)

def text : String :=
  match r.loc with
  | some loc => s!"{loc.text}: {r.message}"
  | none => r.message

def diagnostic : Diagnostic := ⟨.error, r.loc, r.message⟩

/-- The report without the parts that it lacks. -/
def json : Json :=
  .obj ([("kind", .str r.kind.name), ("pass", .int r.pass.toNat)] ++
    Json.member? "construct_kind" .str r.constructKind ++
    Json.member? "construct_id" .str r.constructId ++
    Json.member? "field" .str r.field ++
    Json.member? "location" Location.json r.loc ++
    [("message", .str r.message)])

/-- The report with every part, `null` where it lacks one, in the order of the keys. -/
def fullJson : Json :=
  Json.sorted (.obj
    [("construct_id", Json.orNull .str r.constructId),
      ("construct_kind", Json.orNull .str r.constructKind),
      ("field", Json.orNull .str r.field),
      ("kind", .str r.kind.name),
      ("location", Json.orNull Location.json r.loc),
      ("message", .str r.message),
      ("pass", .int r.pass.toNat)])

end ErrorReport

namespace Offence

def kind : Offence → ErrorKind
  | .constant _ .redefined => .redefinition
  | .constant _ (.literal _) => .emptyOrMixedVector
  | .struct .. => .redefinition
  | .field _ _ fault =>
    match fault with
    | .literal _ | .defaultEmpty => .emptyOrMixedVector
    | .undefinedConstant .. => .undefinedConstant
    | .duplicate => .duplicateField
    | .undefinedType _ => .undefinedType
    | .lengthNotInteger _ | .lengthNotPositive _ | .lengthOutOfRange _ => .invalidLengthSpec
    | .defaultForStruct => .unsupportedAssignment
    | .defaultMismatch _ | .defaultOutOfRange .. => .typeMismatch
  | .service .. => .redefinition
  | .method _ _ .duplicate => .duplicateMethod
  | .method _ _ (.undefinedMessage ..) => .undefinedType

def constructKind : Offence → String
  | .constant .. => "Const"
  | .struct .. | .field .. => "Struct"
  | .service .. | .method .. => "Service"

/-- The name of the top-level declaration. -/
def constructId : Offence → String
  | .constant name _ | .struct name _ | .service name _ => name
  | .field owner _ _ | .method owner _ _ => owner

/-- The name of the field or method, if it is one that is at fault. -/
def member? : Offence → Option String
  | .field _ name _ | .method _ name _ => some name
  | .constant .. | .struct .. | .service .. => none

end Offence

namespace CompileError

def report (e : CompileError) : ErrorReport :=
  match e with
  | .syntactic _ => ⟨.syntactic, 0, none, none, none, e.loc?, e.message⟩
  | .unreadable .. => ⟨.io, 0, none, none, none, e.loc?, e.message⟩
  | .violation ⟨o, _⟩ =>
    ⟨o.kind, .ofNat o.pass, o.constructKind, o.constructId, o.member?, e.loc?, e.message⟩

end CompileError
end WireSchema
