import WireSchema.Schema.Constants

/-! Structs whose constants are looked up and whose types are not: a type may be declared later in
the document. -/
namespace WireSchema

/-- A field with the value of its length, whatever that is, and where the length stands. -/
structure DraftField where
  typeName : String
  shape : Shape (Value × Location)
  default : Option Value
  loc : Location
deriving DecidableEq, Repr

structure DraftStruct where
  fields : Table DraftField
  loc : Location

namespace Schema

/-- A fault of a field before it is known whose field it is. -/
abbrev FieldCheck (α : Type) := Except (FieldFault × Location) α

def constantValue (constants : Table Value) (use : ConstantUse) (name : String) (loc : Location) :
    FieldCheck Value :=
  match constants.get? name with
  | some v => .ok v
  | none => .error (.undefinedConstant use name, loc)

def defaultValue (constants : Table Value) : DefaultExpr → FieldCheck Value
  | .constant name loc => constantValue constants .assignment name loc
  | .literal v => v.value.mapError fun fault => (.literal fault, v.loc)

def lengthValue (constants : Table Value) : LengthExpr → FieldCheck (Value × Location)
  | .literal n loc => .ok (.scalar (.int n), loc)
  | .constant name loc => do return (← constantValue constants .vectorLength name loc, loc)

def draftShape (constants : Table Value) : TypeExpr → FieldCheck (Shape (Value × Location))
  | .named _ => .ok .single
  | .vector _ none => .ok (.vector none)
  | .vector _ (some length) => do return .vector (some (← lengthValue constants length))

/-- The default is looked up before the length. -/
def draftField (constants : Table Value) (f : FieldDef) : FieldCheck DraftField := do
  let default ← f.default.mapM (defaultValue constants)
  let shape ← draftShape constants f.type
  return { typeName := f.type.name, shape, default, loc := f.loc }

/-- A field must be right in itself before its name is compared with the others. -/
def addField (constants : Table Value) (struct : String) (table : Table DraftField) (f : FieldDef) :
    Except Violation (Table DraftField) := do
  let draft ← (draftField constants f).mapError fun e => ⟨.field struct f.name e.1, e.2⟩
  match table.insertNew? f.name draft with
  | some table => return table
  | none => throw ⟨.field struct f.name .duplicate, f.loc⟩

def addStruct (constants : Table Value) (table : Table DraftStruct) (s : StructDef) :
    Except Violation (Table DraftStruct) := do
  if table.contains s.name then throw ⟨.struct s.name .redefined, s.loc⟩
  if constants.contains s.name then throw ⟨.struct s.name .namedLikeConstant, s.loc⟩
  let fields ← s.fields.foldlM (addField constants s.name) ∅
  return table.push s.name ⟨fields, s.loc⟩

/-- The structs of a document with their constants looked up. -/
def draftStructs (constants : Table Value) (doc : Document) :
    Except Violation (Table DraftStruct) :=
  doc.structs.foldlM (addStruct constants) ∅

end Schema
end WireSchema
