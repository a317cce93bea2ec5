import WireSchema.Location
import WireSchema.Value

/-! The words, literals and signs that a document is made of. -/
namespace WireSchema

inductive Punct where
  | openBrace
  | closeBrace
  | openParen
  | closeParen
  | openAngle
  | closeAngle
  | colon
  | comma
  | equals
  | arrow
deriving DecidableEq, Repr

namespace Punct

def text : Punct → String
  | .openBrace => "\x7b"
  | .closeBrace => "\x7d"
  | .openParen => "("
  | .closeParen => ")"
  | .openAngle => "<"
  | .closeAngle => ">"
  | .colon => ":"
  | .comma => ","
  | .equals => "="
  | .arrow => "->"

/-- The signs of one character. -/
def ofChar? (c : Char) : Option Punct :=
  if c = '\x7b' then some .openBrace
  else if c = '\x7d' then some .closeBrace
  else if c = '(' then some .openParen
  else if c = ')' then some .closeParen
  else if c = '<' then some .openAngle
  else if c = '>' then some .closeAngle
  else if c = ':' then some .colon
  else if c = ',' then some .comma
  else if c = '=' then some .equals
  else none

end Punct

inductive Token where
  /-- A name or a keyword: only its place tells which. -/
  | word (w : String)
  | literal (value : Scalar)
  | punct (p : Punct)
  | eof
deriving DecidableEq, Repr

namespace Token

/-- Floats in messages about tokens: plain digits only. -/
def floatStyle : NumberStyle where
  plain := none
  keepPoint := false
  plusSign := false
  tie := .up
  nan := "NaN"
  infinity := "inf"
  negInfinity := "-inf"

/-- What a message calls the token. -/
def describe : Token → String
  | .word w => s!"'{w}'"
  | .literal (.str s) => s!"string \"{s}\""
  | .literal (.int n) => s!"integer {n}"
  | .literal (.float x) => "float " ++ floatStyle.write x
  | .punct p => s!"'{p.text}'"
  | .eof => "end of input"

end Token

/-- A token and the place of its first character. -/
structure Lexeme where
  token : Token
  loc : Location
deriving DecidableEq, Repr

end WireSchema
