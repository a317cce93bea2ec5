import WireSchema.Document
import WireSchema.Document.Cursor
import WireSchema.Token.Lexer

/-! The syntax tree of a list of tokens. Each rule of the grammar is a function from a cursor to
what it read and where it stopped; a rule that is repeated moves the cursor on, so that every
repetition ends. -/
namespace WireSchema
namespace Parser
variable {α : Type} {c d : Cursor}

/-- Reads one thing at the cursor and says where it ends. -/
abbrev Rule (α : Type) := Cursor → Except SyntaxError (α × Cursor)

/-- Whatever the rule reads, it leaves fewer tokens to come. -/
def Consumes (rule : Rule α) : Prop :=
  ∀ ⦃c d : Cursor⦄ ⦃x : α⦄, rule c = .ok (x, d) → d.remaining < c.remaining

theorem remaining_lt_of_comma {v : Scalar} (hc : c.token = .punct .comma)
    (hs : c.advance.scalar = .ok (v, d)) : d.remaining < c.remaining := by
  obtain ⟨ht, rfl⟩ := Cursor.scalar_eq_ok.1 hs
  have hlt := Cursor.remaining_advance_lt (c := c) (by simp [ht, hc])
  exact Nat.lt_of_le_of_lt Cursor.remaining_advance_le hlt

/-- The rest of a list of scalars. -/
def moreScalars (c : Cursor) : Except SyntaxError (List Scalar × Cursor) :=
  if hc : c.token = .punct .comma then
    match hs : c.advance.scalar with
    | .error e => .error e
    | .ok (v, d) =>
      have : d.remaining < c.remaining := remaining_lt_of_comma hc hs
      do
        let (vs, d) ← moreScalars d
        return (v :: vs, d)
  else .ok ([], c)
termination_by c.remaining

/-- The scalars between braces. -/
def scalars (c : Cursor) : Except SyntaxError (List Scalar × Cursor) := do
  if c.isAt .closeBrace then return ([], c)
  let (v, d) ← c.scalar
  let (vs, d) ← moreScalars d
  return (v :: vs, d)

def literal (c : Cursor) : Except SyntaxError (Literal × Cursor) := do
  if c.isAt .openBrace then
    let (vs, d) ← scalars c.advance
    let d ← d.expect .closeBrace
    return (.list vs c.loc, d)
  let (v, d) ← c.scalar
  return (.scalar v c.loc, d)

def lengthExpr (c : Cursor) : Except SyntaxError (LengthExpr × Cursor) :=
  match c.token with
  | .literal (.int n) => .ok (.literal n c.loc, c.advance)
  | .word w => .ok (.constant w c.loc, c.advance)
  | _ => c.expected .vectorLength

/-- The capacity of a vector, if it has one. -/
def capacity (c : Cursor) : Except SyntaxError (Option LengthExpr × Cursor) := do
  if c.isAt .openParen then
    let (n, d) ← lengthExpr c.advance
    let d ← d.expect .closeParen
    return (some n, d)
  return (none, c)

/-- `vector` is a keyword only before an angle bracket. -/
def typeExpr (c : Cursor) : Except SyntaxError (TypeExpr × Cursor) := do
  if c.token = .word "vector" ∧ c.advance.isAt .openAngle then
    let (element, d) ← c.advance.advance.word
    let d ← d.expect .closeAngle
    let (length, d) ← capacity d
    return (.vector element length, d)
  let (name, d) ← c.word
  return (.named name, d)

def defaultExpr (c : Cursor) : Except SyntaxError (DefaultExpr × Cursor) := do
  match c.token with
  | .word w => return (.constant w c.loc, c.advance)
  | _ =>
    let (v, d) ← literal c
    return (.literal v, d)

/-- The default of a field, if it has one. -/
def assignment (c : Cursor) : Except SyntaxError (Option DefaultExpr × Cursor) := do
  if c.isAt .equals then
    let (e, d) ← defaultExpr c.advance
    return (some e, d)
  return (none, c)

def field (c : Cursor) : Except SyntaxError (FieldDef × Cursor) := do
  let (name, d) ← c.word
  let d ← d.expect .colon
  let (type, d) ← typeExpr d
  let (default, d) ← assignment d
  return (⟨name, type, default, c.loc⟩, d)

def method (c : Cursor) : Except SyntaxError (MethodDef × Cursor) := do
  let (name, d) ← c.word
  let d ← d.expect .colon
  let (request, d) ← d.word
  let d ← d.expect .arrow
  let (response, d) ← d.word
  return (⟨name, request, response, c.loc⟩, d)

def option (c : Cursor) : Except SyntaxError (OptionDef × Cursor) := do
  let (key, d) ← c.word
  let d ← d.expect .equals
  let (value, d) ← d.string
  return (⟨key, value, c.loc⟩, d)

/-- One or more items up to a closing brace, with or without a comma after each. -/
def items (item : Rule α) (consumes : Consumes item) (c : Cursor) :
    Except SyntaxError (List α × Cursor) :=
  match h : item c with
  | .error e => .error e
  | .ok (x, d) =>
    have : d.skipComma.remaining < c.remaining :=
      Nat.lt_of_le_of_lt Cursor.remaining_skipComma_le (consumes h)
    if d.skipComma.isAt .closeBrace then .ok ([x], d.skipComma.advance)
    else do
      let (xs, d) ← items item consumes d.skipComma
      return (x :: xs, d)
termination_by c.remaining

/-- Items between braces; `empty` is the complaint when there is none. -/
def block (item : Rule α) (consumes : Consumes item) (empty : SyntaxFault) (c : Cursor) :
    Except SyntaxError (List α × Cursor) := do
  let d ← c.expect .openBrace
  if d.isAt .closeBrace then d.fail empty
  items item consumes d

/-- What the rule reads does not move the cursor back. -/
def Forward (rule : Rule α) : Prop :=
  ∀ ⦃c d : Cursor⦄ ⦃x : α⦄, rule c = .ok (x, d) → d.remaining ≤ c.remaining

theorem word_forward : Forward Cursor.word := by
  intro c d w h
  obtain ⟨-, rfl⟩ := Cursor.word_eq_ok.1 h
  exact Cursor.remaining_advance_le

theorem scalar_forward : Forward Cursor.scalar := by
  intro c d v h
  obtain ⟨-, rfl⟩ := Cursor.scalar_eq_ok.1 h
  exact Cursor.remaining_advance_le

theorem string_forward : Forward Cursor.string := by
  intro c d s h
  obtain ⟨-, rfl⟩ := Cursor.string_eq_ok.1 h
  exact Cursor.remaining_advance_le

theorem expect_forward {p : Punct} (h : c.expect p = .ok d) : d.remaining ≤ c.remaining := by
  obtain ⟨-, rfl⟩ := Cursor.expect_eq_ok.1 h
  exact Cursor.remaining_advance_le

theorem moreScalars_forward : Forward moreScalars := by
  intro c d vs h
  fun_induction moreScalars c generalizing vs d with
  | case1 => simp at h
  | case2 c hc v e hs hlt ih =>
    obtain ⟨⟨ws, e'⟩, he, hd⟩ := bind_eq_ok.1 h
    have := ih he
    simp_all [pure, Except.pure]
    omega
  | case3 => simp_all

theorem scalars_forward : Forward scalars := by
  intro c d vs h
  unfold scalars at h
  split at h
  · cases h
    exact Nat.le_refl _
  · obtain ⟨⟨v, e⟩, hv, h⟩ := bind_eq_ok.1 h
    obtain ⟨⟨ws, e'⟩, hm, h⟩ := bind_eq_ok.1 h
    cases h
    exact Nat.le_trans (moreScalars_forward hm) (scalar_forward hv)

theorem literal_forward : Forward literal := by
  intro c d v h
  unfold literal at h
  split at h
  · obtain ⟨⟨vs, e⟩, hs, h⟩ := bind_eq_ok.1 h
    obtain ⟨e', he, h⟩ := bind_eq_ok.1 h
    cases h
    exact Nat.le_trans (expect_forward he)
      (Nat.le_trans (scalars_forward hs) Cursor.remaining_advance_le)
  · obtain ⟨⟨v, e⟩, hv, h⟩ := bind_eq_ok.1 h
    cases h
    exact scalar_forward hv

theorem lengthExpr_forward : Forward lengthExpr := by
  intro c d n h
  unfold lengthExpr at h
  split at h
  · cases h
    exact Cursor.remaining_advance_le
  · cases h
    exact Cursor.remaining_advance_le
  · simp [Cursor.expected, Cursor.fail] at h

theorem capacity_forward : Forward capacity := by
  intro c d n h
  unfold capacity at h
  split at h
  · obtain ⟨⟨n, e⟩, hn, h⟩ := bind_eq_ok.1 h
    obtain ⟨e', he, h⟩ := bind_eq_ok.1 h
    cases h
    exact Nat.le_trans (expect_forward he)
      (Nat.le_trans (lengthExpr_forward hn) Cursor.remaining_advance_le)
  · cases h
    exact Nat.le_refl _

theorem typeExpr_forward : Forward typeExpr := by
  intro c d t h
  unfold typeExpr at h
  split at h
  · obtain ⟨⟨w, e⟩, hw, h⟩ := bind_eq_ok.1 h
    obtain ⟨e', he, h⟩ := bind_eq_ok.1 h
    obtain ⟨⟨n, e''⟩, hn, h⟩ := bind_eq_ok.1 h
    cases h
    have := capacity_forward hn
    have := expect_forward he
    have := word_forward hw
    have := Cursor.remaining_advance_le (c := c)
    have := Cursor.remaining_advance_le (c := c.advance)
    omega
  · obtain ⟨⟨w, e⟩, hw, h⟩ := bind_eq_ok.1 h
    cases h
    exact word_forward hw

theorem defaultExpr_forward : Forward defaultExpr := by
  intro c d v h
  unfold defaultExpr at h
  split at h
  · cases h
    exact Cursor.remaining_advance_le
  · obtain ⟨⟨v, e⟩, hv, h⟩ := bind_eq_ok.1 h
    cases h
    exact literal_forward hv

theorem assignment_forward : Forward assignment := by
  intro c d v h
  unfold assignment at h
  split at h
  · obtain ⟨⟨v, e⟩, hv, h⟩ := bind_eq_ok.1 h
    cases h
    exact Nat.le_trans (defaultExpr_forward hv) Cursor.remaining_advance_le
  · cases h
    exact Nat.le_refl _

/-- A word and a sign after it are two tokens, so the cursor has moved. -/
theorem remaining_lt_of_word_expect {w : String} {p : Punct} {e : Cursor}
    (hw : c.word = .ok (w, d)) (hp : d.expect p = .ok e) : e.remaining < c.remaining := by
  obtain ⟨hc, rfl⟩ := Cursor.word_eq_ok.1 hw
  obtain ⟨hd, rfl⟩ := Cursor.expect_eq_ok.1 hp
  have := Cursor.remaining_advance_lt (c := c) (by simp [hc, hd])
  exact Nat.lt_of_le_of_lt Cursor.remaining_advance_le this

theorem field_consumes : Consumes field := by
  intro c d f h
  obtain ⟨⟨w, e₁⟩, h₁, h⟩ := bind_eq_ok.1 h
  obtain ⟨e₂, h₂, h⟩ := bind_eq_ok.1 h
  obtain ⟨⟨t, e₃⟩, h₃, h⟩ := bind_eq_ok.1 h
  obtain ⟨⟨a, e₄⟩, h₄, h⟩ := bind_eq_ok.1 h
  cases h
  have := remaining_lt_of_word_expect h₁ h₂
  have := typeExpr_forward h₃
  have := assignment_forward h₄
  omega

theorem method_consumes : Consumes method := by
  intro c d m h
  obtain ⟨⟨w, e₁⟩, h₁, h⟩ := bind_eq_ok.1 h
  obtain ⟨e₂, h₂, h⟩ := bind_eq_ok.1 h
  obtain ⟨⟨q, e₃⟩, h₃, h⟩ := bind_eq_ok.1 h
  obtain ⟨e₄, h₄, h⟩ := bind_eq_ok.1 h
  obtain ⟨⟨r, e₅⟩, h₅, h⟩ := bind_eq_ok.1 h
  cases h
  have := remaining_lt_of_word_expect h₁ h₂
  have := word_forward h₃
  have := expect_forward h₄
  have := word_forward h₅
  omega

theorem option_consumes : Consumes option := by
  intro c d o h
  obtain ⟨⟨k, e₁⟩, h₁, h⟩ := bind_eq_ok.1 h
  obtain ⟨e₂, h₂, h⟩ := bind_eq_ok.1 h
  obtain ⟨⟨v, e₃⟩, h₃, h⟩ := bind_eq_ok.1 h
  cases h
  exact Nat.lt_of_le_of_lt (string_forward h₃) (remaining_lt_of_word_expect h₁ h₂)

theorem items_forward (item : Rule α) (consumes : Consumes item) :
    Forward (items item consumes) := by
  intro c d xs h
  fun_induction items item consumes c generalizing xs d with
  | case1 => simp at h
  | case2 c x e he hlt hat =>
    cases h
    exact Nat.le_trans Cursor.remaining_advance_le (Nat.le_of_lt hlt)
  | case3 c x e he hlt hat ih =>
    obtain ⟨⟨ys, e'⟩, hs, h⟩ := bind_eq_ok.1 h
    cases h
    exact Nat.le_trans (ih hs) (Nat.le_of_lt hlt)

theorem block_forward (item : Rule α) (consumes : Consumes item) (empty : SyntaxFault) :
    Forward (block item consumes empty) := by
  intro c d xs h
  obtain ⟨e, he, h⟩ := bind_eq_ok.1 h
  split at h
  · simp [Cursor.fail, bind, Except.bind] at h
  · exact Nat.le_trans (items_forward item consumes h) (expect_forward he)

/-- `const NAME = value`; the cursor is at the keyword. -/
def constant (c : Cursor) : Except SyntaxError (Definition × Cursor) := do
  let (name, d) ← c.advance.word
  let d ← d.expect .equals
  let (value, d) ← literal d
  return (.constant ⟨name, value, c.loc⟩, d)

def struct (c : Cursor) : Except SyntaxError (Definition × Cursor) := do
  let (name, d) ← c.advance.word
  let (fields, d) ← block field field_consumes (.emptyStruct name) d
  return (.struct ⟨name, fields, c.loc⟩, d)

def service (c : Cursor) : Except SyntaxError (Definition × Cursor) := do
  let (name, d) ← c.advance.word
  let (methods, d) ← block method method_consumes (.emptyService name) d
  return (.service ⟨name, methods, c.loc⟩, d)

def options (c : Cursor) : Except SyntaxError (Definition × Cursor) := do
  let (entries, d) ← block option option_consumes .emptyOptions c.advance
  return (.options entries c.loc, d)

def definition (c : Cursor) : Except SyntaxError (Definition × Cursor) :=
  match c.token with
  | .word w =>
    if w = "const" then constant c
    else if w = "struct" then struct c
    else if w = "service" then service c
    else if w = "options" then options c
    else c.fail (.unexpectedWord w)
  | _ => c.expected .definition

/-- The sign after a keyword and a name is the third token, or the second if the last one is
seen again. -/
theorem remaining_lt_of_keyword {w name : String} {p : Punct} {e : Cursor}
    (hc : c.token = .word w) (hw : c.advance.word = .ok (name, d)) (hp : d.expect p = .ok e) :
    d.remaining < c.remaining := by
  obtain ⟨-, rfl⟩ := Cursor.word_eq_ok.1 hw
  obtain ⟨hd, -⟩ := Cursor.expect_eq_ok.1 hp
  exact Cursor.remaining_advance_advance_lt (by simp [hc, hd])

theorem expect_of_block {item : Rule α} {consumes : Consumes item} {empty : SyntaxFault}
    {xs : List α} (h : block item consumes empty c = .ok (xs, d)) :
    ∃ e, c.expect .openBrace = .ok e := by
  obtain ⟨e, he, -⟩ := bind_eq_ok.1 h
  exact ⟨e, he⟩

theorem definition_consumes : Consumes definition := by
  intro c d x h
  unfold definition at h
  split at h
  next w hc =>
    split at h
    · obtain ⟨⟨name, e₁⟩, h₁, h⟩ := bind_eq_ok.1 h
      obtain ⟨e₂, h₂, h⟩ := bind_eq_ok.1 h
      obtain ⟨⟨v, e₃⟩, h₃, h⟩ := bind_eq_ok.1 h
      cases h
      have := remaining_lt_of_keyword hc h₁ h₂
      have := expect_forward h₂
      have := literal_forward h₃
      omega
    split at h
    · obtain ⟨⟨name, e₁⟩, h₁, h⟩ := bind_eq_ok.1 h
      obtain ⟨⟨fs, e₂⟩, h₂, h⟩ := bind_eq_ok.1 h
      cases h
      obtain ⟨e, he⟩ := expect_of_block h₂
      exact Nat.lt_of_le_of_lt (block_forward _ _ _ h₂) (remaining_lt_of_keyword hc h₁ he)
    split at h
    · obtain ⟨⟨name, e₁⟩, h₁, h⟩ := bind_eq_ok.1 h
      obtain ⟨⟨ms, e₂⟩, h₂, h⟩ := bind_eq_ok.1 h
      cases h
      obtain ⟨e, he⟩ := expect_of_block h₂
      exact Nat.lt_of_le_of_lt (block_forward _ _ _ h₂) (remaining_lt_of_keyword hc h₁ he)
    split at h
    · obtain ⟨⟨es, e₁⟩, h₁, h⟩ := bind_eq_ok.1 h
      cases h
      obtain ⟨e, he⟩ := expect_of_block h₁
      obtain ⟨ht, -⟩ := Cursor.expect_eq_ok.1 he
      exact Nat.lt_of_le_of_lt (block_forward _ _ _ h₁)
        (Cursor.remaining_advance_lt (by simp [hc, ht]))
    · simp [Cursor.fail] at h
  next => simp [Cursor.expected, Cursor.fail] at h

/-- The definitions up to the end of the text. -/
def definitions (c : Cursor) : Except SyntaxError Document :=
  if c.token = .eof then .ok []
  else
    match h : definition c with
    | .error e => .error e
    | .ok (x, d) =>
      have : d.remaining < c.remaining := definition_consumes h
      do return x :: (← definitions d)
termination_by c.remaining

end Parser

namespace Document

/-- The syntax tree of a list of tokens. A list that does not close with the end of the text is
read as if its last token were repeated for ever, and so it is never a document. -/
def ofLexemes : List Lexeme → Except SyntaxError Document
  | [] => .error ⟨.start, .emptyDocument⟩
  | l :: ls => if l.token = .eof then .error ⟨l.loc, .emptyDocument⟩ else Parser.definitions ⟨l, ls⟩

def ofText (text : String) : Except SyntaxError Document := do ofLexemes (← tokens text)

end Document
end WireSchema
