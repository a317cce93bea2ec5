import WireSchema.Files
import WireSchema.Json
import WireSchema.ProjectConfig.Toml

/-! The settings of a project. Every one of them may be left out. -/
namespace WireSchema

structure ProjectConfig where
  project : String := ""
  version : String := "0.1.0"
  description : String := ""
  author : String := ""
  maxMessageSize : Nat := 65536
deriving DecidableEq, Repr

inductive ConfigError where
  | unreadable (path : String) (fault : ReadFault)
  /-- No TOML, or a setting that is unknown, given twice or of the wrong type. -/
  | malformed (path : Option String)
  | zeroMessageSize
deriving DecidableEq, Repr

def ConfigError.message : ConfigError → String
  | .unreadable path fault => s!"I/O error: cannot read {path}: {fault.message}"
  | .malformed none => "invalid config: TOML parse error"
  | .malformed (some path) => s!"invalid config: {path}: TOML parse error"
  | .zeroMessageSize => "invalid config: max_message_size must be greater than 0"

namespace ProjectConfig

def named (project : String) : ProjectConfig := { project }

/-- Takes over one setting; none if the name is unknown or the item is of the wrong type. -/
def set? (config : ProjectConfig) : String × Toml.Item → Option ProjectConfig
  | ("project", .str s) => some { config with project := s }
  | ("version", .str s) => some { config with version := s }
  | ("description", .str s) => some { config with description := s }
  | ("author", .str s) => some { config with author := s }
  | ("max_message_size", .int n) =>
    if 0 ≤ n then some { config with maxMessageSize := n.toNat } else none
  | _ => none

/-- The settings of a TOML text over the defaults. No name is set twice. -/
def ofToml? (text : String) : Option ProjectConfig := do
  let settings ← Toml.ofText text
  if (settings.map Prod.fst).Nodup then settings.foldlM set? {} else none

/-- A message has to have some room. -/
def check (config : ProjectConfig) : Except ConfigError Unit :=
  if config.maxMessageSize = 0 then .error .zeroMessageSize else .ok ()

def ofToml (text : String) : Except ConfigError ProjectConfig := do
  let some config := ofToml? text | throw (.malformed none)
  config.check
  return config

/-- The settings in a file; a project without a name gets the one given. -/
def load (files : Files) (path fallback : String) : Except ConfigError ProjectConfig := do
  let text ← (files.readText path).mapError (.unreadable path)
  let some config := ofToml? text | throw (.malformed path)
  config.check
  return if config.project = "" then { config with project := fallback } else config

def json (config : ProjectConfig) : Json :=
  .obj [("project", .str config.project), ("version", .str config.version),
    ("description", .str config.description), ("author", .str config.author),
    ("max_message_size", .int config.maxMessageSize)]

end ProjectConfig
end WireSchema
