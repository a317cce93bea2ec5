import WireSchema.Text.Word
import WireSchema.Token.Numeral

/-! A text as the list of its tokens. -/
namespace WireSchema
namespace Lexer

/-- What a backslash and a character stand for: themselves, unless they are an escape. -/
def unescape (c : Char) : List Char :=
  if c = '"' then ['"']
  else if c = '\\' then ['\\']
  else if c = 'n' then ['\n']
  else if c = 't' then ['\t']
  else if c = 'r' then ['\r']
  else ['\\', c]

/-- The content of a string and its length with the closing quote, read from behind the opening
one. A string ends on its line, but an escaped line end is part of it. -/
def stringBody : List Char → Except SyntaxFault (List Char × Nat)
  | [] => .error .unterminatedString
  | c :: cs =>
    if c = '"' then .ok ([], 1)
    else if c = '\n' then .error .unterminatedString
    else if c = '\\' then
      match cs with
      | [] => .error .unterminatedEscape
      | d :: ds => (stringBody ds).map fun (s, n) => (unescape d ++ s, n + 2)
    else (stringBody cs).map fun (s, n) => (c :: s, n + 1)

def number (cs : List Char) : Except SyntaxFault (Token × Nat) := do
  let (token, n) ← signedNumber cs
  if (cs.drop n).head?.any Text.isWordPart then throw .malformedNumber
  return (token, n)

/-- The sign at `c`, and its length. -/
def sign (c : Char) (cs : List Char) : Except SyntaxFault (Token × Nat) :=
  match Punct.ofChar? c with
  | some p => .ok (.punct p, 1)
  | none =>
    if c = '-' ∧ cs.head? = some '>' then .ok (.punct .arrow, 2) else .error (.unexpectedChar c)

/-- The token that starts at `c`, and its length. -/
def token (c : Char) (cs : List Char) : Except SyntaxFault (Token × Nat) :=
  if c = '"' then
    (stringBody cs).map fun (s, n) => (.literal (.str (String.ofList s)), n + 1)
  else if startsNumber (c :: cs) then number (c :: cs)
  else if Text.isWordStart c then
    let w := c :: cs.takeWhile Text.isWordPart
    .ok (.word (String.ofList w), w.length)
  else sign c cs

/-- The tokens of a text that starts at `loc`; the last one is the end. A comment runs from `#`
to the end of its line. -/
def tokensFrom (loc : Location) (text : List Char) : Except SyntaxError (List Lexeme) :=
  match text with
  | [] => .ok [⟨.eof, loc⟩]
  | c :: cs =>
    if c = '#' then
      let comment := cs.takeWhile (· ≠ '\n')
      tokensFrom (loc.after (c :: comment)) (cs.drop comment.length)
    else if Text.isBlank c then tokensFrom (loc.next c) cs
    else
      match token c cs with
      | .error fault => .error ⟨loc, fault⟩
      | .ok (t, n) =>
        match tokensFrom (loc.after (c :: cs.take (n - 1))) (cs.drop (n - 1)) with
        | .error e => .error e
        | .ok rest => .ok (⟨t, loc⟩ :: rest)
termination_by text.length

end Lexer

/-- The tokens of a text. -/
def tokens (text : String) : Except SyntaxError (List Lexeme) :=
  Lexer.tokensFrom .start text.toList

end WireSchema
