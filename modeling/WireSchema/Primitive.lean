import WireSchema.Value

/-! The types that need no declaration. -/
namespace WireSchema

inductive Primitive where
  | uint8
  | uint16
  | uint32
  | uint64
  | int8
  | int16
  | int32
  | int64
  | float
  | double
  | string
deriving DecidableEq, Repr

namespace Primitive

def all : List Primitive :=
  [.uint8, .uint16, .uint32, .uint64, .int8, .int16, .int32, .int64, .float, .double, .string]

def name : Primitive → String
  | .uint8 => "uint8_t"
  | .uint16 => "uint16_t"
  | .uint32 => "uint32_t"
  | .uint64 => "uint64_t"
  | .int8 => "int8_t"
  | .int16 => "int16_t"
  | .int32 => "int32_t"
  | .int64 => "int64_t"
  | .float => "float"
  | .double => "double"
  | .string => "string"

def ofName? (name : String) : Option Primitive := all.find? fun p => p.name = name

/-- The kind of scalar that a default must be. -/
def kind : Primitive → ScalarKind
  | .float | .double => .float
  | .string => .string
  | _ => .integer

/-- Least and greatest value of an integer type. -/
def range? : Primitive → Option (Int × Int)
  | .uint8 => some (0, 255)
  | .uint16 => some (0, 65535)
  | .uint32 => some (0, 4294967295)
  | .uint64 => some (0, 18446744073709551615)
  | .int8 => some (-128, 127)
  | .int16 => some (-32768, 32767)
  | .int32 => some (-2147483648, 2147483647)
  | .int64 => some (-9223372036854775808, 9223372036854775807)
  | .float | .double | .string => none

/-- Bytes on the wire; a string has no fixed number of them. -/
def wireSize? : Primitive → Option Nat
  | .uint8 | .int8 => some 1
  | .uint16 | .int16 => some 2
  | .uint32 | .int32 | .float => some 4
  | .uint64 | .int64 | .double => some 8
  | .string => none

example : all.map (fun p => (p.name, p.wireSize?)) =
    [("uint8_t", some 1), ("uint16_t", some 2), ("uint32_t", some 4), ("uint64_t", some 8),
      ("int8_t", some 1), ("int16_t", some 2), ("int32_t", some 4), ("int64_t", some 8),
      ("float", some 4), ("double", some 8), ("string", none)] := rfl

theorem ofName?_name (p : Primitive) : ofName? p.name = some p := by
  cases p <;> decide

theorem name_of_ofName? {n : String} {p : Primitive} (h : ofName? n = some p) : p.name = n := by
  simpa using List.find?_some h

end Primitive
end WireSchema
