import WireSchema.Proofs.Derivations

/-! Nothing behind the first end of the text is ever looked at: a rule answers the same, its
complaint included, when the tokens there are dropped. -/
namespace WireSchema

/-- The tokens up to the first end of the text. -/
def upToEof : List Lexeme → List Lexeme
  | [] => []
  | l :: ls => if l.token = .eof then [l] else l :: upToEof ls

/-- What stands behind the first end of the text is cut off. -/
theorem upToEof_append_eof {l : Lexeme} (h : l.token = .eof) (ts us : List Lexeme) :
    upToEof (ts ++ l :: us) = upToEof (ts ++ [l]) := by
  induction ts with
  | nil => simp [upToEof, h]
  | cons t ts ih => simp [upToEof, ih]

namespace Cursor
variable {c : Cursor} {p : Punct}

/-- Drops the tokens behind the end of the text. -/
def trim (c : Cursor) : Cursor := ⟨c.here, if c.token = .eof then [] else upToEof c.rest⟩

@[simp] theorem token_trim : c.trim.token = c.token := rfl

@[simp] theorem loc_trim : c.trim.loc = c.loc := rfl

@[simp] theorem isAt_trim : c.trim.isAt p = c.isAt p := rfl

/-- A cursor that is not at the end moves on the same way, whatever is cut off. -/
theorem advance_trim (h : c.token ≠ .eof) : c.trim.advance = c.advance.trim := by
  obtain ⟨l, rest⟩ := c
  cases rest with
  | nil => simp_all [trim, advance, upToEof]
  | cons next rest =>
    by_cases hn : next.token = .eof <;> simp_all [trim, advance, upToEof, token]

theorem advance_trim_of_isAt (h : c.isAt p = true) : c.trim.advance = c.advance.trim := by
  apply advance_trim
  simp_all [isAt]

theorem skipComma_trim : c.trim.skipComma = c.skipComma.trim := by
  by_cases h : c.isAt .comma = true
  · simp [skipComma, h, advance_trim_of_isAt h]
  · simp [skipComma, h]

/-- To expect a mark is to look at one token. -/
theorem expect_trim : c.trim.expect p = (c.expect p).map trim := by
  by_cases h : c.isAt p = true
  · simp [expect, h, advance_trim_of_isAt h, Except.map]
  · simp [expect, h, Except.map, expected, fail]

end Cursor

namespace Parser
variable {α : Type} {c d : Cursor}

/-- The rule does not look behind the end of the text. -/
def Blind (rule : Rule α) : Prop := ∀ c, rule c.trim = (rule c).map fun (x, d) => (x, d.trim)

theorem word_blind : Blind Cursor.word := by
  intro c
  simp only [Cursor.word, Cursor.token_trim]
  split
  next h => simp [Cursor.advance_trim, h, Except.map]
  next => rfl

theorem scalar_blind : Blind Cursor.scalar := by
  intro c
  simp only [Cursor.scalar, Cursor.token_trim]
  split
  next h => simp [Cursor.advance_trim, h, Except.map]
  next => rfl

theorem string_blind : Blind Cursor.string := by
  intro c
  simp only [Cursor.string, Cursor.token_trim]
  split
  next h => simp [Cursor.advance_trim, h, Except.map]
  next => rfl

/-- By induction on what is left: a comma is not the end of the text, so the loop goes on alike. -/
theorem moreScalars_blind : Blind moreScalars := by
  intro c
  induction hn : c.remaining using Nat.strong_induction_on generalizing c with
  | _ n ih =>
    rw [moreScalars_eq, moreScalars_eq (c := c), Cursor.token_trim]
    by_cases hc : c.token = .punct .comma
    · rw [if_pos hc, if_pos hc, Cursor.advance_trim (by simp [hc])]
      refine bind_eq_map (scalar_blind _) ?_
      rintro ⟨v, d⟩ hs
      refine bind_eq_map (ih _ (hn ▸ remaining_lt_of_comma hc hs) d rfl) ?_
      rintro ⟨vs, d⟩ -
      rfl
    · rw [if_neg hc, if_neg hc]
      rfl

theorem scalars_blind : Blind scalars := by
  intro c
  rw [scalars, scalars, Cursor.isAt_trim]
  split
  · rfl
  · refine bind_eq_map (scalar_blind c) ?_
    rintro ⟨v, d⟩ -
    refine bind_eq_map (moreScalars_blind d) ?_
    rintro ⟨vs, d⟩ -
    rfl

/-- The rule for a literal looks at no token behind the end of the text. -/
theorem literal_blind : Blind literal := by
  intro c
  rw [literal, literal, Cursor.isAt_trim]
  by_cases hc : c.isAt .openBrace = true
  · rw [if_pos hc, if_pos hc, Cursor.advance_trim_of_isAt hc]
    refine bind_eq_map (scalars_blind _) ?_
    rintro ⟨vs, d⟩ -
    refine bind_eq_map Cursor.expect_trim ?_
    intro d _
    rfl
  · rw [if_neg hc, if_neg hc]
    refine bind_eq_map (scalar_blind c) ?_
    rintro ⟨v, d⟩ -
    rfl

theorem lengthExpr_blind : Blind lengthExpr := by
  intro c
  simp only [lengthExpr, Cursor.token_trim]
  split
  next h => simp [Cursor.advance_trim, h, Except.map]
  next h => simp [Cursor.advance_trim, h, Except.map]
  next => rfl

theorem capacity_blind : Blind capacity := by
  intro c
  rw [capacity, capacity, Cursor.isAt_trim]
  by_cases hc : c.isAt .openParen = true
  · rw [if_pos hc, if_pos hc, Cursor.advance_trim_of_isAt hc]
    refine bind_eq_map (lengthExpr_blind _) ?_
    rintro ⟨n, d⟩ -
    refine bind_eq_map Cursor.expect_trim ?_
    intro d _
    rfl
  · rw [if_neg hc, if_neg hc]
    rfl

/-- Two tokens are looked at, but the second only if the first is not the end. -/
theorem typeExpr_blind : Blind typeExpr := by
  intro c
  rw [typeExpr, typeExpr, Cursor.token_trim]
  by_cases hw : c.token = .word "vector"
  · rw [Cursor.advance_trim (by simp [hw]), Cursor.isAt_trim]
    by_cases ha : c.advance.isAt .openAngle = true
    · rw [if_pos ⟨hw, ha⟩, if_pos ⟨hw, ha⟩, Cursor.advance_trim_of_isAt ha]
      refine bind_eq_map (word_blind _) ?_
      rintro ⟨w, d⟩ -
      refine bind_eq_map Cursor.expect_trim ?_
      intro d _
      refine bind_eq_map (capacity_blind d) ?_
      rintro ⟨n, d⟩ -
      rfl
    · rw [if_neg (ha ·.2), if_neg (ha ·.2)]
      refine bind_eq_map (word_blind c) ?_
      rintro ⟨w, d⟩ -
      rfl
  · rw [if_neg (hw ·.1), if_neg (hw ·.1)]
    refine bind_eq_map (word_blind c) ?_
    rintro ⟨w, d⟩ -
    rfl

theorem defaultExpr_blind : Blind defaultExpr := by
  intro c
  simp only [defaultExpr, Cursor.token_trim]
  split
  next h => simp [Cursor.advance_trim, h, Except.map]
  next =>
    refine bind_eq_map (literal_blind c) ?_
    rintro ⟨v, d⟩ -
    rfl

/-- One look tells whether there is a default, and it is no look beyond the end. -/
theorem assignment_blind : Blind assignment := by
  intro c
  rw [assignment, assignment, Cursor.isAt_trim]
  by_cases hc : c.isAt .equals = true
  · rw [if_pos hc, if_pos hc, Cursor.advance_trim_of_isAt hc]
    refine bind_eq_map (defaultExpr_blind _) ?_
    rintro ⟨e, d⟩ -
    rfl
  · rw [if_neg hc, if_neg hc]
    rfl

theorem field_blind : Blind field := by
  intro c
  refine bind_eq_map (word_blind c) ?_
  rintro ⟨w, d⟩ -
  refine bind_eq_map Cursor.expect_trim ?_
  intro d _
  refine bind_eq_map (typeExpr_blind d) ?_
  rintro ⟨t, d⟩ -
  refine bind_eq_map (assignment_blind d) ?_
  rintro ⟨e, d⟩ -
  rfl

theorem method_blind : Blind method := by
  intro c
  refine bind_eq_map (word_blind c) ?_
  rintro ⟨w, d⟩ -
  refine bind_eq_map Cursor.expect_trim ?_
  intro d _
  refine bind_eq_map (word_blind d) ?_
  rintro ⟨q, d⟩ -
  refine bind_eq_map Cursor.expect_trim ?_
  intro d _
  refine bind_eq_map (word_blind d) ?_
  rintro ⟨r, d⟩ -
  rfl

theorem option_blind : Blind option := by
  intro c
  refine bind_eq_map (word_blind c) ?_
  rintro ⟨w, d⟩ -
  refine bind_eq_map Cursor.expect_trim ?_
  intro d _
  refine bind_eq_map (string_blind d) ?_
  rintro ⟨s, d⟩ -
  rfl

/-- The loop over items is as blind as the items. -/
theorem items_blind {item : Rule α} {consumes : Consumes item} (h : Blind item) :
    Blind (items item consumes) := by
  intro c
  induction hn : c.remaining using Nat.strong_induction_on generalizing c with
  | _ n ih =>
    rw [items_eq, items_eq (c := c)]
    refine bind_eq_map (h c) ?_
    rintro ⟨x, d⟩ hx
    have hlt := Nat.lt_of_le_of_lt Cursor.remaining_skipComma_le (consumes hx)
    simp only [Cursor.skipComma_trim, Cursor.isAt_trim]
    by_cases hd : d.skipComma.isAt .closeBrace = true
    · rw [if_pos hd, if_pos hd, Cursor.advance_trim_of_isAt hd]
      rfl
    · rw [if_neg hd, if_neg hd]
      refine bind_eq_map (ih _ (hn ▸ hlt) _ rfl) ?_
      rintro ⟨xs, d⟩ -
      rfl

theorem block_blind {item : Rule α} {consumes : Consumes item} {empty : SyntaxFault}
    (h : Blind item) : Blind (block item consumes empty) := by
  intro c
  refine bind_eq_map Cursor.expect_trim ?_
  intro d _
  rw [Cursor.isAt_trim]
  split
  · rfl
  · exact items_blind h d

/-- Whatever the keyword, nothing behind the end of the text is looked at. -/
theorem definition_blind : Blind definition := by
  intro c
  simp only [definition, Cursor.token_trim]
  split
  next w hw =>
    have ha : c.trim.advance = c.advance.trim := Cursor.advance_trim (by simp [hw])
    split
    · rw [constant, constant, ha]
      refine bind_eq_map (word_blind _) ?_
      rintro ⟨name, d⟩ -
      refine bind_eq_map Cursor.expect_trim ?_
      intro d _
      refine bind_eq_map (literal_blind d) ?_
      rintro ⟨v, d⟩ -
      rfl
    split
    · rw [struct, struct, ha]
      refine bind_eq_map (word_blind _) ?_
      rintro ⟨name, d⟩ -
      refine bind_eq_map (block_blind field_blind d) ?_
      rintro ⟨fs, d⟩ -
      rfl
    split
    · rw [service, service, ha]
      refine bind_eq_map (word_blind _) ?_
      rintro ⟨name, d⟩ -
      refine bind_eq_map (block_blind method_blind d) ?_
      rintro ⟨ms, d⟩ -
      rfl
    split
    · rw [options, options, ha]
      refine bind_eq_map (block_blind option_blind _) ?_
      rintro ⟨es, d⟩ -
      rfl
    · rfl
  next => rfl

theorem definitions_trim : definitions c.trim = definitions c := by
  induction hn : c.remaining using Nat.strong_induction_on generalizing c with
  | _ n ih =>
    rw [definitions_eq, definitions_eq (c := c), Cursor.token_trim, definition_blind]
    split
    · rfl
    · cases hx : definition c with
      | error e => rfl
      | ok r =>
        obtain ⟨x, d⟩ := r
        have hd := ih _ (hn ▸ definition_consumes hx) rfl
        simp [Except.map, hd]

end Parser

namespace Document

/-- So a list of tokens may as well be cut off at the end of the text. -/
theorem ofLexemes_upToEof (ts : List Lexeme) : ofLexemes (upToEof ts) = ofLexemes ts := by
  cases ts with
  | nil => rfl
  | cons l ls =>
    by_cases hl : l.token = .eof
    · simp [upToEof, ofLexemes, hl]
    · have htrim : (⟨l, upToEof ls⟩ : Cursor) = Cursor.trim ⟨l, ls⟩ := by simp [Cursor.trim, hl]
      simp only [upToEof, if_neg hl, ofLexemes, htrim]
      exact Parser.definitions_trim

/-- What is accepted is a derivation up to the first end of the text. -/
theorem derivation_of_ofLexemes {ts : List Lexeme} {doc : Document}
    (h : ofLexemes ts = .ok doc) : ∃ before eof after, ts = before ++ eof :: after ∧
      eof.token = .eof ∧ (∀ l ∈ before, l.token ≠ .eof) ∧ Grammar.Document before doc := by
  cases ts with
  | nil => cases h
  | cons l ls =>
    by_cases hl : l.token = .eof
    · simp [ofLexemes, hl] at h
    · rw [ofLexemes, if_neg hl] at h
      obtain ⟨before, d, hdoc, hd, hc⟩ := Parser.definitions_sound h hl
      refine ⟨before, d.here, d.rest, ?_, hd,
        Grammar.Many.eofFree Grammar.Definition.eofFree hdoc, hdoc⟩
      calc l :: ls = (⟨l, ls⟩ : Cursor).toList := rfl
        _ = before ++ d.toList := by rw [hc, Cursor.toList_unread]

/-- A derivation with the end of the text behind it is accepted, and with the tree that it derives.
-/
theorem ofLexemes_of_derivation {before after : List Lexeme} {eof : Lexeme} {doc : Document}
    (h : Grammar.Document before doc) (he : eof.token = .eof) :
    ofLexemes (before ++ eof :: after) = .ok doc := by
  have hdefs := Parser.definitions_complete (d := ⟨eof, after⟩) h he
  obtain ⟨w, l, rest, rfl⟩ := Grammar.Many.worded Grammar.Definition.worded h
  exact hdefs

/-- The parser accepts exactly the derivable tokens before the first end of the text. The tree is
the one of the derivation, which the commas do not change, and what stands behind the end changes
neither a tree nor a complaint. -/
theorem ofLexemes_exactly_derivable :
    (∀ (ts : List Lexeme) (doc : Document), ofLexemes ts = .ok doc ↔
      ∃ before eof after, ts = before ++ eof :: after ∧ eof.token = .eof ∧
        (∀ l ∈ before, l.token ≠ .eof) ∧ Grammar.Document before doc) ∧
    (∀ (ts us : List Lexeme) (doc doc' : Document), Grammar.Document ts doc →
      Grammar.Document us doc' → Grammar.withoutCommas ts = Grammar.withoutCommas us →
      doc = doc') ∧
    (∀ (ts after : List Lexeme) (eof : Lexeme), eof.token = .eof →
      ofLexemes (ts ++ eof :: after) = ofLexemes (ts ++ [eof])) := by
  refine ⟨fun ts doc => ⟨derivation_of_ofLexemes, ?_⟩, ?_, ?_⟩
  · rintro ⟨before, eof, after, rfl, he, -, h⟩
    exact ofLexemes_of_derivation h he
  · intro ts us doc doc' h h' hcommas
    exact h.unique h' hcommas
  · intro ts after eof he
    rw [← ofLexemes_upToEof, upToEof_append_eof he, ofLexemes_upToEof]

/-- A struct and a field with the names of keywords, with a comma and without one, and with a
stray comma behind the end. -/
theorem ofLexemes_exactly_derivable_keywords :
    let field : List Lexeme :=
      [⟨.word "struct", ⟨1, 15⟩⟩, ⟨.punct .colon, ⟨1, 21⟩⟩, ⟨.word "vector", ⟨1, 22⟩⟩]
    let block (fs : List Lexeme) : List Lexeme := ⟨.word "struct", ⟨1, 1⟩⟩ ::
      ⟨.word "const", ⟨1, 8⟩⟩ :: ⟨.punct .openBrace, ⟨1, 14⟩⟩ :: fs ++
        [⟨.punct .closeBrace, ⟨1, 30⟩⟩]
    let comma : Lexeme := ⟨.punct .comma, ⟨1, 29⟩⟩
    let eof : Lexeme := ⟨.eof, ⟨1, 31⟩⟩
    let doc : Document := [.struct ⟨"const", [⟨"struct", .named "vector", none, ⟨1, 15⟩⟩], ⟨1, 1⟩⟩]
    ofLexemes (block (field ++ [comma]) ++ eof :: [comma]) = .ok doc ∧
      (∀ doc', Grammar.Document (block field) doc' → doc' = doc) ∧
      ofLexemes (block field ++ eof :: [comma]) = ofLexemes (block field ++ [eof]) := by
  intro field block comma eof doc
  have hfield : Grammar.Field field ⟨"struct", .named "vector", none, ⟨1, 15⟩⟩ :=
    @Grammar.Field.mk _ _ _ [_] [] _ _ .named .none
  have hdoc : Grammar.Document (block (field ++ [comma])) doc :=
    .one (.struct (.mk (.one (.comma hfield))))
  obtain ⟨accepts, unique, trailing⟩ := ofLexemes_exactly_derivable
  refine ⟨(accepts _ _).2 ⟨_, _, _, rfl, rfl, by decide, hdoc⟩, ?_, trailing _ _ _ rfl⟩
  intro doc' h
  exact unique _ _ _ _ h hdoc (by decide)
end Document
end WireSchema
