import WireSchema.Location
import WireSchema.Primitive
import WireSchema.Table

/-! What a document means once every name in it is known: constants, structs, services and
options, each in the order of declaration, which is their order on the wire. -/
namespace WireSchema

/-- The type of a field or of a vector's elements. -/
inductive TypeRef where
  | primitive (p : Primitive)
  | struct (name : String)
deriving DecidableEq, Repr

namespace TypeRef

def name : TypeRef → String
  | .primitive p => p.name
  | .struct name => name

def primitive? : TypeRef → Option Primitive
  | .primitive p => some p
  | .struct _ => none

def isUserDefined (t : TypeRef) : Bool := t.primitive?.isNone

end TypeRef

/-- One value, or a vector of them, perhaps of bounded length. -/
inductive Shape (α : Type) where
  | single
  | vector (capacity : Option α)
deriving DecidableEq, Repr

namespace Shape
variable {α : Type}

def isVector : Shape α → Bool
  | .single => false
  | .vector _ => true

def capacity? : Shape α → Option α
  | .single => none
  | .vector capacity => capacity

end Shape

/-- How a field is encoded. -/
inductive FieldClass where
  | scalarPrimitive
  | string
  | vectorOfPrimitive
  | vectorOfString
  | vectorOfUserDefined
  | scalarUserDefined
deriving DecidableEq, Repr

def FieldClass.name : FieldClass → String
  | .scalarPrimitive => "scalar_primitive"
  | .string => "string"
  | .vectorOfPrimitive => "vector_of_primitive"
  | .vectorOfString => "vector_of_string"
  | .vectorOfUserDefined => "vector_of_user_defined"
  | .scalarUserDefined => "scalar_user_defined"

structure Field where
  type : TypeRef
  shape : Shape Nat
  default : Option Value
  loc : Location
deriving DecidableEq, Repr

def Field.fieldClass (f : Field) : FieldClass :=
  match f.shape, f.type with
  | .single, .primitive .string => .string
  | .single, .primitive _ => .scalarPrimitive
  | .single, .struct _ => .scalarUserDefined
  | .vector _, .primitive .string => .vectorOfString
  | .vector _, .primitive _ => .vectorOfPrimitive
  | .vector _, .struct _ => .vectorOfUserDefined

structure Struct where
  fields : Table Field
  loc : Location

/-- A method of a service; its number is what a call carries on the wire. -/
structure Method where
  id : UInt32
  request : String
  response : String
  loc : Location
deriving DecidableEq, Repr

structure Service where
  methods : Table Method
  loc : Location

/-- The numbers of the methods with their names. -/
def Service.methodIds (s : Service) : List (UInt32 × String) :=
  s.methods.toList.map fun m => (m.2.id, m.1)

structure Schema where
  constants : Table Value
  structs : Table Struct
  services : Table Service
  options : Table String

/-- Version of the call protocol that schemas are written for. -/
def rpcVersion : String := "0.1.0"

end WireSchema
