import WireSchema.Schema.Constants

/-! The services of a document. A method's number is its place in the service. -/
namespace WireSchema
namespace Schema

def addMethod (service : String) (table : Table Method) (m : MethodDef) :
    Except Violation (Table Method) :=
  match table.insertNew? m.name ⟨.ofNat table.size, m.request, m.response, m.loc⟩ with
  | some table => .ok table
  | none => .error ⟨.method service m.name .duplicate, m.loc⟩

def addService (constants : Table Value) (structs : Table Struct) (table : Table Service)
    (s : ServiceDef) : Except Violation (Table Service) := do
  if table.contains s.name then throw ⟨.service s.name .redefined, s.loc⟩
  if structs.contains s.name then throw ⟨.service s.name .namedLikeStruct, s.loc⟩
  if constants.contains s.name then throw ⟨.service s.name .namedLikeConstant, s.loc⟩
  let methods ← s.methods.foldlM (addMethod s.name) ∅
  return table.push s.name ⟨methods, s.loc⟩

/-- The services of a document; the types of their messages are not looked up yet. -/
def resolveServices (constants : Table Value) (structs : Table Struct) (doc : Document) :
    Except Violation (Table Service) :=
  doc.services.foldlM (addService constants structs) ∅

/-- The first message type of a method that is no struct. -/
def undefinedMessage? (structs : Table Struct) (m : Method) : Option (MessageRole × String) :=
  [(.request, m.request), (.response, m.response)].find? fun r => !structs.contains r.2

def checkMethod (structs : Table Struct) (service name : String) (m : Method) :
    Except Violation Unit :=
  match undefinedMessage? structs m with
  | some (role, type) => .error ⟨.method service name (.undefinedMessage role type), m.loc⟩
  | none => .ok ()

def checkService (structs : Table Struct) (name : String) (s : Service) : Except Violation Unit :=
  s.methods.toList.forM fun m => checkMethod structs name m.1 m.2

/-- Requests and responses are declared structs. -/
def checkServices (structs : Table Struct) (services : Table Service) : Except Violation Unit :=
  services.toList.forM fun s => checkService structs s.1 s.2

end Schema
end WireSchema
