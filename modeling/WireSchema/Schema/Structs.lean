import WireSchema.Schema.Draft

/-! Structs with their types known, their lengths in range and their defaults of the right kind. -/
namespace WireSchema
namespace Schema

/-- A primitive type hides a struct of its name. -/
def resolveType (drafts : Table DraftStruct) (name : String) : Except FieldFault TypeRef :=
  match Primitive.ofName? name with
  | some p => .ok (.primitive p)
  | none => if drafts.contains name then .ok (.struct name) else .error (.undefinedType name)

/-- A length is a positive integer of 32 bits. -/
def checkLength : Value → Except FieldFault Nat
  | .scalar (.int n) =>
    if n ≤ 0 then .error (.lengthNotPositive n)
    else if n < 0x100000000 then .ok n.toNat
    else .error (.lengthOutOfRange n)
  | v => .error (.lengthNotInteger v)

def checkShape : Shape (Value × Location) → FieldCheck (Shape Nat)
  | .single => .ok .single
  | .vector none => .ok (.vector none)
  | .vector (some (v, loc)) =>
    match checkLength v with
    | .ok n => .ok (.vector (some n))
    | .error fault => .error (fault, loc)

/-- The first integer among the items that the type cannot hold. -/
def outOfRange? (p : Primitive) (items : List Scalar) : Option Int :=
  match p.range? with
  | none => none
  | some (least, greatest) =>
    items.findSome? fun
      | .int n => if n < least ∨ greatest < n then some n else none
      | _ => none

/-- The items of a default, given as a whole too for the message. They are of one kind, so the
first one stands for all. -/
def checkItems (p : Primitive) (v : Value) : List Scalar → Except FieldFault Unit
  | [] => .error .defaultEmpty
  | first :: rest =>
    if first.kind ≠ p.kind then .error (.defaultMismatch v)
    else
      match outOfRange? p (first :: rest) with
      | some n => .error (.defaultOutOfRange n p)
      | none => .ok ()

/-- A vector takes a list and a single value a scalar; a struct takes no default. -/
def checkDefault (type : TypeRef) (isVector : Bool) (v : Value) : Except FieldFault Unit :=
  match type with
  | .struct _ => .error .defaultForStruct
  | .primitive p =>
    match isVector, v with
    | true, .list items => checkItems p v items
    | false, .scalar s => checkItems p v [s]
    | _, _ => .error (.defaultMismatch v)

def checkField (drafts : Table DraftStruct) (f : DraftField) : FieldCheck Field := do
  let type ← (resolveType drafts f.typeName).mapError (·, f.loc)
  let shape ← checkShape f.shape
  match f.default with
  | none => pure ()
  | some v => (checkDefault type f.shape.isVector v).mapError (·, f.loc)
  return { type, shape, default := f.default, loc := f.loc }

def checkStruct (drafts : Table DraftStruct) (name : String) (s : DraftStruct) :
    Except Violation Struct := do
  let fields ← s.fields.mapM fun field f =>
    (checkField drafts f).mapError fun e => ⟨.field name field e.1, e.2⟩
  return ⟨fields, s.loc⟩

/-- The structs of a document, now that all their names are known. -/
def checkStructs (drafts : Table DraftStruct) : Except Violation (Table Struct) :=
  drafts.mapM (checkStruct drafts)

end Schema
end WireSchema
