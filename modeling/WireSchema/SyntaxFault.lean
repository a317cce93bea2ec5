import WireSchema.Token

/-! What can be wrong with the text of a document. -/
namespace WireSchema

/-- What the grammar admits where it met something else. -/
inductive Expectation where
  | punct (p : Punct)
  | identifier
  | stringLiteral
  | literalValue
  | vectorLength
  | definition
deriving DecidableEq, Repr

def Expectation.text : Expectation → String
  | .punct p => s!"'{p.text}'"
  | .identifier => "identifier"
  | .stringLiteral => "string literal"
  | .literalValue => "literal value"
  | .vectorLength => "integer or constant name in vector length"
  | .definition => "'const', 'struct', 'service' or 'options'"

inductive SyntaxFault where
  | unterminatedString
  | unterminatedEscape
  /-- A base mark such as `0x` without digits. -/
  | malformedInteger (base : Nat)
  | integerOutOfRange
  /-- A text that no float is read from. -/
  | invalidFloat (text : String)
  | floatOutOfRange
  /-- A number that runs into a word. -/
  | malformedNumber
  | unexpectedChar (c : Char)
  | expected (what : Expectation) (got : Token)
  | unexpectedWord (w : String)
  | emptyDocument
  | emptyStruct (name : String)
  | emptyService (name : String)
  | emptyOptions
deriving DecidableEq, Repr

def SyntaxFault.message : SyntaxFault → String
  | .unterminatedString => "unterminated string literal"
  | .unterminatedEscape => "unterminated escape in string"
  | .malformedInteger base => s!"malformed base-{base} integer literal"
  | .integerOutOfRange => "integer literal out of range"
  | .invalidFloat text => s!"invalid float literal '{text}'"
  | .floatOutOfRange => "float literal out of range"
  | .malformedNumber => "malformed numeric literal"
  | .unexpectedChar c => s!"unexpected character '{c}'"
  | .expected what got => s!"expected {what.text}, got {got.describe}"
  | .unexpectedWord w => s!"unexpected token '{w}'"
  | .emptyDocument => "expected at least one definition"
  | .emptyStruct name => s!"struct '{name}' must declare at least one field"
  | .emptyService name => s!"service '{name}' must declare at least one method"
  | .emptyOptions => "options block must declare at least one option"

/-- A fault and where it is. -/
structure SyntaxError where
  loc : Location
  fault : SyntaxFault
deriving DecidableEq, Repr

end WireSchema
