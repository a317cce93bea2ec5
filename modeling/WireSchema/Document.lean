import WireSchema.Token

/-! The syntax tree of an interface document: what is declared, as written. -/
namespace WireSchema

/-- A literal: one scalar, or scalars between braces, perhaps none. -/
inductive Literal where
  | scalar (value : Scalar) (loc : Location)
  | list (items : List Scalar) (loc : Location)
deriving DecidableEq, Repr

def Literal.loc : Literal → Location
  | .scalar _ loc | .list _ loc => loc

/-- The capacity of a vector. -/
inductive LengthExpr where
  | literal (n : Int) (loc : Location)
  | constant (name : String) (loc : Location)
deriving DecidableEq, Repr

inductive TypeExpr where
  /-- A primitive type or a struct. -/
  | named (name : String)
  | vector (element : String) (length : Option LengthExpr)
deriving DecidableEq, Repr

/-- The name of the type, or of the type of the elements. -/
def TypeExpr.name : TypeExpr → String
  | .named name => name
  | .vector element _ => element

/-- The default of a field. -/
inductive DefaultExpr where
  | literal (value : Literal)
  | constant (name : String) (loc : Location)
deriving DecidableEq, Repr

structure ConstantDef where
  name : String
  value : Literal
  loc : Location
deriving DecidableEq, Repr

/-- `loc` is the place of the field's name. -/
structure FieldDef where
  name : String
  type : TypeExpr
  default : Option DefaultExpr
  loc : Location
deriving DecidableEq, Repr

structure StructDef where
  name : String
  fields : List FieldDef
  loc : Location
deriving DecidableEq, Repr

structure MethodDef where
  name : String
  request : String
  response : String
  loc : Location
deriving DecidableEq, Repr

structure ServiceDef where
  name : String
  methods : List MethodDef
  loc : Location
deriving DecidableEq, Repr

structure OptionDef where
  key : String
  value : String
  loc : Location
deriving DecidableEq, Repr

inductive Definition where
  | constant (c : ConstantDef)
  | struct (s : StructDef)
  | service (s : ServiceDef)
  | options (entries : List OptionDef) (loc : Location)
deriving DecidableEq, Repr

/-- A document declares one thing after the other. -/
abbrev Document := List Definition

end WireSchema
