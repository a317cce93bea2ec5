import WireSchema.ErrorReport
import WireSchema.Json.Reader

/-! Error reports read back from JSON. Keys that a report does not have are passed over. -/
namespace WireSchema
open Json.Reader

/-- A kind by its name, alone or as the only key of an object. -/
def ErrorKind.ofJsonText? (text : List Char) : Option ErrorKind :=
  match string? text with
  | some name => ofName? name
  | none =>
    match object? text with
    | some [(name, v)] => if isNull v then ofName? name else none
    | _ => none

/-- A line and a column, by their keys or in this order. -/
def Location.ofJsonText? (text : List Char) : Option Location :=
  let number? := natBelow? 0x100000000
  match array? text with
  | some items =>
    match items with
    | [line, column] => do return ⟨.ofNat (← number? line), .ofNat (← number? column)⟩
    | _ => none
  | none => do
    let members ← object? text
    let line ← required? members "line" number?
    let column ← required? members "column" number?
    return ⟨.ofNat line, .ofNat column⟩

namespace ErrorReport

/-- The parts of a report, by their keys or in the order of declaration. -/
def ofJsonText? (text : List Char) : Option ErrorReport :=
  match array? text with
  | some items =>
    match items with
    | [kind, pass, constructKind, constructId, field, loc, message] => do
      return {
        kind := ← ErrorKind.ofJsonText? kind
        pass := .ofNat (← natBelow? 256 pass)
        constructKind := ← nullable? string? constructKind
        constructId := ← nullable? string? constructId
        field := ← nullable? string? field
        loc := ← nullable? Location.ofJsonText? loc
        message := ← string? message }
    | _ => none
  | none => do
    let members ← object? text
    return {
      kind := ← required? members "kind" ErrorKind.ofJsonText?
      pass := .ofNat (← required? members "pass" (natBelow? 256))
      constructKind := ← optional? members "construct_kind" string?
      constructId := ← optional? members "construct_id" string?
      field := ← optional? members "field" string?
      loc := ← optional? members "location" Location.ofJsonText?
      message := ← required? members "message" string? }

def ofJson? (text : String) : Option ErrorReport := do ofJsonText? (← whole? text)

end ErrorReport
end WireSchema
