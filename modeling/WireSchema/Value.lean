import WireSchema.Decimal.Style
import WireSchema.Text.Quoted

/-! Values of constants, defaults and options: scalars and flat lists of them. -/
namespace WireSchema

inductive ScalarKind where
  | integer
  | float
  | string
deriving DecidableEq, Repr

def ScalarKind.name : ScalarKind → String
  | .integer => "integer"
  | .float => "float"
  | .string => "string"

inductive Scalar where
  | int (n : Int)
  | float (x : Binary64)
  | str (s : String)
deriving DecidableEq, Repr

namespace Scalar

def kind : Scalar → ScalarKind
  | .int _ => .integer
  | .float _ => .float
  | .str _ => .string

/-- Floats in messages about values: an exponent below 10^-4 and from 10^16 on, and always a
point or an exponent, so that they differ from integers. -/
def floatStyle : NumberStyle where
  plain := some (-3, 16)
  keepPoint := true
  plusSign := false
  tie := .up
  nan := "NaN"
  infinity := "inf"
  negInfinity := "-inf"

def text : Scalar → String
  | .int n => toString n
  | .float x => floatStyle.write x
  | .str s => Text.quoted s

end Scalar

inductive Value where
  | scalar (s : Scalar)
  | list (items : List Scalar)
deriving DecidableEq, Repr

namespace Value

def text : Value → String
  | .scalar s => s.text
  | .list items => "\x7b" ++ ", ".intercalate (items.map Scalar.text) ++ "\x7d"

def asScalar? : Value → Option Scalar
  | .scalar s => some s
  | .list _ => none

def asList? : Value → Option (List Scalar)
  | .scalar _ => none
  | .list items => some items

end Value
end WireSchema
