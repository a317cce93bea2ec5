import WireSchema.Plan

/-! Plans in JSON. What is missing is `null`. -/
namespace WireSchema

def FieldPlan.json (f : FieldPlan) : Json :=
  .obj [("name", .str f.name), ("typename", .str f.typeName), ("class", .str f.fieldClass.name),
    ("wire_size", Json.orNull (fun n : Nat => .int n) f.wireSize),
    ("fixed_length", Json.orNull (fun n : Nat => .int n) f.fixedLength),
    ("default", Json.orNull Value.json f.default)]

def StructPlan.json (s : StructPlan) : Json :=
  .obj [("name", .str s.name), ("includes", .arr (s.includes.map Json.str)),
    ("fields", .arr (s.fields.map FieldPlan.json)),
    ("fixed_size", Json.orNull (fun n : Nat => .int n) s.fixedSize)]

def DispatchEntry.json (d : DispatchEntry) : Json :=
  .obj [("id", .int d.id.toNat), ("method", .str d.method), ("request", .str d.request),
    ("response", .str d.response)]

def ServicePlan.json (s : ServicePlan) : Json :=
  .obj [("name", .str s.name), ("dispatch", .arr (s.dispatch.map DispatchEntry.json))]

namespace Plan
variable (plan : Plan)

def header : Json :=
  .obj [("project", .str plan.config.project), ("version", .str plan.config.version),
    ("description", .str plan.config.description), ("author", .str plan.config.author),
    ("rpc_version", .str plan.rpcVersion), ("max_message_size", .int plan.config.maxMessageSize)]

def json : Json :=
  .obj [("header", plan.header),
    ("constants",
      .arr (plan.constants.map fun c => .obj [("name", .str c.1), ("value", c.2.json)])),
    ("structs", .arr (plan.structs.map StructPlan.json)),
    ("services", .arr (plan.services.map ServicePlan.json)),
    ("options", .arr (plan.options.map fun o => .obj [("key", .str o.1), ("value", .str o.2)]))]

end Plan
end WireSchema
