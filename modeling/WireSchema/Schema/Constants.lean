import WireSchema.Document
import WireSchema.Schema
import WireSchema.Schema.Violation

/-! The constants of a document. -/
namespace WireSchema

/-- The value of a literal. A list has items, and all are of one kind. -/
def Literal.value : Literal → Except LiteralFault Value
  | .scalar v _ => .ok (.scalar v)
  | .list [] _ => .error .empty
  | .list (first :: rest) _ =>
    match rest.find? fun v => v.kind ≠ first.kind with
    | some other => .error (.mixed first.kind other.kind)
    | none => .ok (.list (first :: rest))

namespace Document

def constants (doc : Document) : List ConstantDef :=
  doc.filterMap fun
    | .constant c => some c
    | _ => none

def structs (doc : Document) : List StructDef :=
  doc.filterMap fun
    | .struct s => some s
    | _ => none

def services (doc : Document) : List ServiceDef :=
  doc.filterMap fun
    | .service s => some s
    | _ => none

def options (doc : Document) : List OptionDef :=
  doc.flatMap fun
    | .options entries _ => entries
    | _ => []

end Document

namespace Schema

def addConstant (table : Table Value) (c : ConstantDef) : Except Violation (Table Value) :=
  if table.contains c.name then .error ⟨.constant c.name .redefined, c.loc⟩
  else
    match c.value.value with
    | .error fault => .error ⟨.constant c.name (.literal fault), c.value.loc⟩
    | .ok v => .ok (table.push c.name v)

/-- The constants of a document by name; the first fault in the text is the one reported. -/
def resolveConstants (doc : Document) : Except Violation (Table Value) :=
  doc.constants.foldlM addConstant ∅

end Schema
end WireSchema
