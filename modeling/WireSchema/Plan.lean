import WireSchema.ProjectConfig
import WireSchema.Schema.Json
import WireSchema.Schema.WireSize

/-! What a code generator needs of a schema, in lists in the order of declaration: how each field
is encoded, which structs a struct needs, and which number calls which method. -/
namespace WireSchema

structure FieldPlan where
  name : String
  typeName : String
  fieldClass : FieldClass
  /-- Bytes of one element of a fixed width. -/
  wireSize : Option Nat
  /-- Number of elements of a bounded vector. -/
  fixedLength : Option Nat
  default : Option Value
deriving DecidableEq, Repr

structure StructPlan where
  name : String
  /-- The structs named by the fields, each once, in the order of first mention. -/
  includes : List String
  fields : List FieldPlan
  /-- Bytes of the whole, if they are always as many. -/
  fixedSize : Option Nat
deriving DecidableEq, Repr

structure DispatchEntry where
  id : UInt32
  method : String
  request : String
  response : String
deriving DecidableEq, Repr

structure ServicePlan where
  name : String
  dispatch : List DispatchEntry
deriving DecidableEq, Repr

structure Plan where
  config : ProjectConfig
  rpcVersion : String
  constants : List (String × Value)
  structs : List StructPlan
  services : List ServicePlan
  options : List (String × String)
deriving DecidableEq, Repr

inductive PlanError where
  | config (e : ConfigError)
  | messageTooLarge (name : String) (size limit : Nat)
  | sizeOverflow (name : String) (limit : Nat)
deriving DecidableEq, Repr

def PlanError.message : PlanError → String
  | .config e => e.message
  | .messageTooLarge name size limit =>
    s!"struct {name} needs {size} bytes but max_message_size is {limit}"
  | .sizeOverflow name limit =>
    s!"struct {name} needs more than 18446744073709551615 bytes but max_message_size is {limit}"

namespace Plan

def ofField (name : String) (f : Field) : FieldPlan where
  name
  typeName := f.type.name
  fieldClass := f.fieldClass
  wireSize := f.type.primitive?.bind Primitive.wireSize?
  fixedLength := f.shape.capacity?
  default := f.default

/-- The structs that the fields name, each once. -/
def includesOf (fields : List Field) : List String :=
  (fields.filterMap fun f => if f.type.isUserDefined then some f.type.name else none).eraseDups

def ofStruct (name : String) (s : Struct) (fixedSize : Option Nat) : StructPlan where
  name
  includes := includesOf s.fields.values
  fields := s.fields.toList.map fun f => ofField f.1 f.2
  fixedSize

/-- A struct of fixed size has to fit into a message. -/
def fitting (name : String) (limit : Nat) : WireSize → Except PlanError (Option Nat)
  | .varying => .ok none
  | .fixed size =>
    if size ≤ limit then .ok (some size) else .error (.messageTooLarge name size limit)
  | .overflow => .error (.sizeOverflow name limit)

def ofStructs (structs : Table Struct) (limit : Nat) (memo : WireSize.Memo) :
    List (String × Struct) → Except PlanError (List StructPlan)
  | [] => .ok []
  | (name, s) :: rest => do
    let (size, memo) := WireSize.ofStruct structs memo name
    let fixedSize ← fitting name limit size
    return ofStruct name s fixedSize :: (← ofStructs structs limit memo rest)

def ofService (name : String) (s : Service) : ServicePlan where
  name
  dispatch := s.methods.toList.map fun m => ⟨m.2.id, m.1, m.2.request, m.2.response⟩

def ofSchema (schema : Schema) (config : ProjectConfig) : Except PlanError Plan := do
  config.check.mapError .config
  let structs ← ofStructs schema.structs config.maxMessageSize {} schema.structs.toList
  return {
    config
    rpcVersion := WireSchema.rpcVersion
    constants := schema.constants.toList
    structs
    services := schema.services.toList.map fun s => ofService s.1 s.2
    options := schema.options.toList }

variable (plan : Plan)

def struct? (name : String) : Option StructPlan := plan.structs.find? fun s => s.name = name

def service? (name : String) : Option ServicePlan := plan.services.find? fun s => s.name = name

end Plan
end WireSchema
