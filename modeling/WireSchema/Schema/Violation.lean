import WireSchema.Location
import WireSchema.Primitive

/-! What can be wrong with the declarations of a document whose text is in order. -/
namespace WireSchema

inductive LiteralFault where
  | empty
  /-- The kind of the first item, and the first other kind. -/
  | mixed (first other : ScalarKind)
deriving DecidableEq, Repr

/-- Where a field names a constant. -/
inductive ConstantUse where
  | assignment
  | vectorLength
deriving DecidableEq, Repr

def ConstantUse.text : ConstantUse → String
  | .assignment => "assignment"
  | .vectorLength => "vector length specifier"

inductive ConstantFault where
  | redefined
  | literal (fault : LiteralFault)
deriving DecidableEq, Repr

inductive StructFault where
  | redefined
  | namedLikeConstant
deriving DecidableEq, Repr

inductive FieldFault where
  | literal (fault : LiteralFault)
  | undefinedConstant (use : ConstantUse) (name : String)
  | duplicate
  | undefinedType (name : String)
  | lengthNotInteger (value : Value)
  | lengthNotPositive (n : Int)
  | lengthOutOfRange (n : Int)
  | defaultForStruct
  | defaultMismatch (value : Value)
  | defaultEmpty
  | defaultOutOfRange (n : Int) (type : Primitive)
deriving DecidableEq, Repr

inductive ServiceFault where
  | redefined
  | namedLikeStruct
  | namedLikeConstant
deriving DecidableEq, Repr

inductive MessageRole where
  | request
  | response
deriving DecidableEq, Repr

def MessageRole.text : MessageRole → String
  | .request => "request"
  | .response => "response"

inductive MethodFault where
  | duplicate
  | undefinedMessage (role : MessageRole) (type : String)
deriving DecidableEq, Repr

/-- The declaration that is at fault, and how. -/
inductive Offence where
  | constant (name : String) (fault : ConstantFault)
  | struct (name : String) (fault : StructFault)
  | field (owner name : String) (fault : FieldFault)
  | service (name : String) (fault : ServiceFault)
  | method (owner name : String) (fault : MethodFault)
deriving DecidableEq, Repr

structure Violation where
  offence : Offence
  loc : Location
deriving DecidableEq, Repr

def LiteralFault.message : LiteralFault → String
  | .empty => "can not assign empty list"
  | .mixed first other =>
    s!"can not mix different value types in the vector ({first.name} and {other.name})"

namespace FieldFault

/-- The pass that looks for the fault: names are resolved before types are checked. -/
def pass : FieldFault → Nat
  | .literal _ | .undefinedConstant .. | .duplicate => 2
  | _ => 3

/-- Faults found when types are checked say where they are, the others do not. -/
def message (owner name : String) (fault : FieldFault) : String :=
  let here := s!"error processing struct {owner}, field {name}"
  match fault with
  | .literal f => f.message
  | .undefinedConstant use c => s!"error in {use.text}: undefined constant {c}"
  | .duplicate => s!"field with name {name} already defined"
  | .undefinedType t => s!"{here}: undefined typename {t}"
  | .lengthNotInteger v => s!"{here}: non-integer vector length specifier {v.text}"
  | .lengthNotPositive n => s!"{here}: non-positive vector length specifier {n}"
  | .lengthOutOfRange n => s!"{here}: vector length specifier {n} out of range"
  | .defaultForStruct => s!"{here}: assignment for user defined types is not supported"
  | .defaultMismatch v => s!"{here}: incompatible type of assigned value {v.text}"
  | .defaultEmpty => s!"{here}: can not assign empty list"
  | .defaultOutOfRange n p => s!"{here}: value {n} out of range for {p.name}"

end FieldFault

namespace Offence

/-- Number of the pass that finds the offence. -/
def pass : Offence → Nat
  | .constant .. => 1
  | .struct .. => 2
  | .field _ _ fault => fault.pass
  | .service .. => 4
  | .method _ _ .duplicate => 4
  | .method _ _ (.undefinedMessage ..) => 5

def message : Offence → String
  | .constant name .redefined => s!"constant {name} redefinition"
  | .constant _ (.literal fault) => fault.message
  | .struct name .redefined => s!"structure {name} redefinition"
  | .struct name .namedLikeConstant => s!"constant with same name {name} defined"
  | .field owner name fault => fault.message owner name
  | .service name .redefined => s!"service {name} redefinition"
  | .service name .namedLikeStruct => s!"structure with same name {name} defined"
  | .service name .namedLikeConstant => s!"constant with same name {name} defined"
  | .method _ name .duplicate => s!"method with name {name} already defined"
  | .method owner name (.undefinedMessage role type) =>
    s!"error processing service {owner}, method {name}: " ++
      s!"undefined {role.text} struct type {type}"

end Offence
end WireSchema
