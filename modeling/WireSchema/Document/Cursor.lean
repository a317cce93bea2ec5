import WireSchema.SyntaxFault

/-! A place in a list of tokens. It never leaves the list: behind the last token comes the last
token again. -/
namespace WireSchema

structure Cursor where
  here : Lexeme
  rest : List Lexeme
deriving DecidableEq, Repr

theorem bind_eq_ok {ε α β : Type} {x : Except ε α} {f : α → Except ε β} {b : β} :
    x >>= f = .ok b ↔ ∃ a, x = .ok a ∧ f a = .ok b := by
  cases x <;> simp [bind, Except.bind]

namespace Cursor
variable (c : Cursor)

abbrev token : Token := c.here.token

abbrev loc : Location := c.here.loc

/-- How many tokens are still to come. -/
def remaining : Nat := c.rest.length

def advance : Cursor :=
  match c.rest with
  | [] => c
  | next :: rest => ⟨next, rest⟩

def isAt (p : Punct) : Bool := c.token = .punct p

def fail {α : Type} (fault : SyntaxFault) : Except SyntaxError α := .error ⟨c.loc, fault⟩

/-- Complains about the token that is here. -/
def expected {α : Type} (what : Expectation) : Except SyntaxError α :=
  c.fail (.expected what c.token)

def expect (p : Punct) : Except SyntaxError Cursor :=
  if c.isAt p then .ok c.advance else c.expected (.punct p)

def word : Except SyntaxError (String × Cursor) :=
  match c.token with
  | .word w => .ok (w, c.advance)
  | _ => c.expected .identifier

def scalar : Except SyntaxError (Scalar × Cursor) :=
  match c.token with
  | .literal v => .ok (v, c.advance)
  | _ => c.expected .literalValue

def string : Except SyntaxError (String × Cursor) :=
  match c.token with
  | .literal (.str s) => .ok (s, c.advance)
  | _ => c.expected .stringLiteral

/-- Moves past a comma, if one is here. -/
def skipComma : Cursor := if c.isAt .comma then c.advance else c

variable {c}

theorem remaining_advance_le : c.advance.remaining ≤ c.remaining := by
  unfold advance remaining
  split <;> simp_all

/-- A step that shows another token is a real one. -/
theorem remaining_advance_lt (h : c.advance.token ≠ c.token) :
    c.advance.remaining < c.remaining := by
  unfold advance remaining at *
  split at h <;> simp_all

/-- If two steps show another token, one of them is a real one. -/
theorem remaining_advance_advance_lt (h : c.advance.advance.token ≠ c.token) :
    c.advance.advance.remaining < c.remaining := by
  by_cases he : c.advance = c
  · simp [he] at h
  · refine Nat.lt_of_le_of_lt remaining_advance_le ?_
    unfold advance remaining at *
    split at he <;> simp_all

theorem remaining_skipComma_le : c.skipComma.remaining ≤ c.remaining := by
  unfold skipComma
  split
  · exact remaining_advance_le
  · exact Nat.le_refl _

theorem expect_eq_ok {p : Punct} {d : Cursor} :
    c.expect p = .ok d ↔ c.token = .punct p ∧ c.advance = d := by
  simp only [expect, isAt, decide_eq_true_eq]
  split <;> simp_all [expected, fail]

theorem word_eq_ok {w : String} {d : Cursor} :
    c.word = .ok (w, d) ↔ c.token = .word w ∧ c.advance = d := by
  unfold word
  split <;> simp_all [expected, fail]

theorem scalar_eq_ok {v : Scalar} {d : Cursor} :
    c.scalar = .ok (v, d) ↔ c.token = .literal v ∧ c.advance = d := by
  unfold scalar
  split <;> simp_all [expected, fail]

theorem string_eq_ok {s : String} {d : Cursor} :
    c.string = .ok (s, d) ↔ c.token = .literal (.str s) ∧ c.advance = d := by
  unfold string
  split <;> simp_all [expected, fail]

end Cursor
end WireSchema
