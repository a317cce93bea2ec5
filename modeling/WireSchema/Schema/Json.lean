import WireSchema.Json
import WireSchema.Schema

/-! Schemas in JSON. Places in the text are left out. -/
namespace WireSchema

def Scalar.json : Scalar → Json
  | .int n => .int n
  | .float x => .float x
  | .str s => .str s

def Value.json : Value → Json
  | .scalar s => s.json
  | .list items => .arr (items.map Scalar.json)

def Table.json {α : Type} (toJson : α → Json) (t : Table α) : Json :=
  .obj (t.toList.map fun e => (e.1, toJson e.2))

/-- What is told of a field, by key. -/
def Field.members (f : Field) : List (String × Json) :=
  [("typename", .str f.type.name),
    ("primitive", Json.orNull (fun p => .str p.name) f.type.primitive?),
    ("is_vector", .bool f.shape.isVector),
    ("is_userdefined", .bool f.type.isUserDefined)] ++
  Json.member? "length_spec" (fun n : Nat => .int n) f.shape.capacity? ++
  Json.member? "assigned_value" Value.json f.default

def Field.json (f : Field) : Json := .obj f.members

def Struct.json (s : Struct) : Json := .obj [("fields", s.fields.json Field.json)]

/-- Methods are a list, since their order is part of the protocol. -/
def Method.json (name : String) (m : Method) : Json :=
  .obj [("id", .int m.id.toNat), ("name", .str name), ("request", .str m.request),
    ("response", .str m.response)]

def Service.json (s : Service) : Json :=
  .obj [("methods", .arr (s.methods.toList.map fun m => m.2.json m.1))]

def Schema.json (s : Schema) : Json :=
  .obj [("constants", s.constants.json Value.json), ("structs", s.structs.json Struct.json),
    ("services", s.services.json Service.json), ("options", s.options.json Json.str)]

end WireSchema
