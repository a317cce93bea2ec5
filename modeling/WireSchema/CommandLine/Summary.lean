import WireSchema.Json
import WireSchema.Schema

/-! What a check tells of a schema: how much there is of everything. -/
namespace WireSchema
namespace CommandLine

structure Summary where
  file : String
  constants : Nat
  structs : Nat
  fields : Nat
  services : Nat
  methods : Nat
  options : Nat
deriving DecidableEq, Repr

namespace Summary

def ofSchema (file : String) (schema : Schema) : Summary where
  file
  constants := schema.constants.size
  structs := schema.structs.size
  fields := schema.structs.values.foldl (fun n s => n + s.fields.size) 0
  services := schema.services.size
  methods := schema.services.values.foldl (fun n s => n + s.methods.size) 0
  options := schema.options.size

variable (s : Summary)

def json : Json :=
  .obj [("ok", .bool true), ("file", .str s.file), ("constants", .int s.constants),
    ("structs", .int s.structs), ("fields", .int s.fields), ("services", .int s.services),
    ("methods", .int s.methods), ("options", .int s.options)]

def lines : List String :=
  [s!"{s.file}: ok",
    s!"  Constants: {s.constants}",
    s!"  Structs: {s.structs} ({s.fields} fields)",
    s!"  Services: {s.services} ({s.methods} methods)",
    s!"  Options: {s.options}"]

end Summary

/-- A service with the number of each of its methods. -/
def dispatchLine (name : String) (s : Service) : String :=
  let ids := String.intercalate ", " (s.methodIds.map fun m => s!"{m.1}={m.2}")
  s!"  [{name}] {ids}"

end CommandLine
end WireSchema
