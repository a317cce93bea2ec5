import WireSchema.Document.Parser
import WireSchema.Proofs.Grammar
import WireSchema.Proofs.Outcomes

/-! What the rules of the parser read is what the grammar derives. Both directions are told by
moving back: a cursor that has read some tokens is the one before with those tokens put back. -/
namespace WireSchema
namespace Cursor
variable {c d : Cursor} {t : Lexeme} {ts us : List Lexeme} {p : Punct}

def toList (c : Cursor) : List Lexeme := c.here :: c.rest

/-- The cursor before it read some tokens. -/
def unread (d : Cursor) : List Lexeme → Cursor
  | [] => d
  | t :: ts => ⟨t, ts ++ d.toList⟩

/-- The end of the text is still to come, or here. -/
def HasEof (c : Cursor) : Prop := ∃ l ∈ c.toList, l.token = .eof

@[simp] theorem unread_nil : d.unread [] = d := rfl

@[simp] theorem token_unread_cons : (d.unread (t :: ts)).token = t.token := rfl

@[simp] theorem loc_unread_cons : (d.unread (t :: ts)).loc = t.loc := rfl

/-- A cursor put back before some tokens has them in front of all it had. -/
@[simp] theorem toList_unread : (d.unread ts).toList = ts ++ d.toList := by
  cases ts <;> rfl

@[simp] theorem unread_append : d.unread (ts ++ us) = (d.unread us).unread ts := by
  cases ts with
  | nil => rfl
  | cons t ts =>
    change (⟨t, (ts ++ us) ++ d.toList⟩ : Cursor) = ⟨t, ts ++ (d.unread us).toList⟩
    rw [toList_unread, List.append_assoc]

@[simp] theorem advance_unread_cons : (d.unread (t :: ts)).advance = d.unread ts := by
  cases ts <;> rfl

@[simp] theorem isAt_unread_cons :
    (d.unread (t :: ts)).isAt p = decide (t.token = .punct p) := rfl

/-- Tokens that are put back do not take the end of the text away. -/
theorem HasEof.unread (h : d.HasEof) : (d.unread ts).HasEof := by
  obtain ⟨l, hl, he⟩ := h
  exact ⟨l, by simp [hl], he⟩

/-- A cursor at a token that is not the end of the text has really moved on, if the end is still
to come. -/
theorem eq_unread {k : Token} (hk : c.token = k) (hne : k ≠ .eof) (hd : c.advance = d)
    (he : d.HasEof) : ∃ l, c = d.unread [⟨k, l⟩] := by
  obtain ⟨⟨token, l⟩, rest⟩ := c
  subst hk hd
  refine ⟨l, ?_⟩
  cases rest with
  | nil =>
    obtain ⟨m, hm, he⟩ := he
    simp_all [advance, toList]
  | cons next rest => rfl

/-- Whoever expects a mark and gets past it has read that mark. The end of the text must not have
been read, since the cursor does not move beyond it. -/
theorem expect_sound (h : c.expect p = .ok d) (he : d.HasEof) :
    ∃ l, c = d.unread [⟨.punct p, l⟩] := by
  obtain ⟨ht, hd⟩ := expect_eq_ok.1 h
  exact eq_unread ht (by simp) hd he

theorem word_sound {w : String} (h : c.word = .ok (w, d)) (he : d.HasEof) :
    ∃ l, c = d.unread [⟨.word w, l⟩] := by
  obtain ⟨ht, hd⟩ := word_eq_ok.1 h
  exact eq_unread ht (by simp) hd he

theorem scalar_sound {v : Scalar} (h : c.scalar = .ok (v, d)) (he : d.HasEof) :
    ∃ l, c = d.unread [⟨.literal v, l⟩] := by
  obtain ⟨ht, hd⟩ := scalar_eq_ok.1 h
  exact eq_unread ht (by simp) hd he

theorem string_sound {s : String} (h : c.string = .ok (s, d)) (he : d.HasEof) :
    ∃ l, c = d.unread [⟨.literal (.str s), l⟩] := by
  obtain ⟨ht, hd⟩ := string_eq_ok.1 h
  exact eq_unread ht (by simp) hd he

theorem advance_sound (h : c.isAt p = true) (he : c.advance.HasEof) :
    ∃ l, c = c.advance.unread [⟨.punct p, l⟩] :=
  eq_unread (by simpa [isAt] using h) (by simp) rfl he

end Cursor

namespace Parser
variable {α : Type} {c d e : Cursor}

/-- What the rule reads before the end of the text, the grammar derives. -/
def Sound (rule : Rule α) (G : List Lexeme → α → Prop) : Prop :=
  ∀ ⦃c d : Cursor⦄ ⦃x : α⦄, rule c = .ok (x, d) → d.HasEof → ∃ ts, G ts x ∧ c = d.unread ts

/-- A comma and a scalar, any number of times, behind a scalar. -/
theorem moreScalars_sound {vs : List Scalar} (h : moreScalars c = .ok (vs, d)) (he : d.HasEof) :
    ∃ ts, (∀ v l, Grammar.Scalars (⟨.literal v, l⟩ :: ts) (v :: vs)) ∧ c = d.unread ts := by
  fun_induction moreScalars c generalizing vs with
  | case1 => simp at h
  | case2 c hc w e hs hlt ih =>
    obtain ⟨⟨ws, e'⟩, hm, h⟩ := bind_eq_ok.1 h
    cases h
    obtain ⟨ts, hts, rfl⟩ := ih hm
    obtain ⟨l, hl⟩ := Cursor.scalar_sound hs he.unread
    obtain ⟨m, hm⟩ := Cursor.eq_unread hc (by simp) hl he.unread.unread
    refine ⟨⟨.punct .comma, m⟩ :: ⟨.literal w, l⟩ :: ts, fun v k => .cons (hts w l), ?_⟩
    rw [hm, ← Cursor.unread_append, ← Cursor.unread_append]
    rfl
  | case3 c hc =>
    cases h
    exact ⟨[], fun v l => .one, rfl⟩

/-- A literal is a scalar, or a list of them between braces. -/
theorem literal_sound : Sound literal Grammar.Value := by
  intro c d x h he
  rw [literal] at h
  split at h
  next hat =>
    obtain ⟨⟨vs, e₁⟩, h₁, h⟩ := bind_eq_ok.1 h
    obtain ⟨e₂, h₂, h⟩ := bind_eq_ok.1 h
    cases h
    obtain ⟨m, hm⟩ := Cursor.expect_sound h₂ he
    rw [scalars] at h₁
    split at h₁
    · cases h₁
      obtain ⟨l, hl⟩ := Cursor.advance_sound hat (hm ▸ he.unread)
      rw [hl, hm, ← Cursor.unread_append]
      exact ⟨_, .empty, rfl⟩
    · subst hm
      obtain ⟨⟨v, e₃⟩, h₃, h₁⟩ := bind_eq_ok.1 h₁
      obtain ⟨⟨ws, e₄⟩, h₄, h₁⟩ := bind_eq_ok.1 h₁
      cases h₁
      obtain ⟨ts, hts, rfl⟩ := moreScalars_sound h₄ he.unread
      obtain ⟨k, hk⟩ := Cursor.scalar_sound h₃ he.unread.unread
      obtain ⟨l, hl⟩ := Cursor.advance_sound hat (hk ▸ he.unread.unread.unread)
      rw [hl, hk, ← Cursor.unread_append, ← Cursor.unread_append, ← Cursor.unread_append]
      exact ⟨_, .list (hts v k), rfl⟩
  next =>
    obtain ⟨⟨v, e₁⟩, h₁, h⟩ := bind_eq_ok.1 h
    cases h
    obtain ⟨l, rfl⟩ := Cursor.scalar_sound h₁ he
    exact ⟨_, .scalar, rfl⟩

theorem lengthExpr_sound : Sound lengthExpr Grammar.Length := by
  intro c d x h he
  rw [lengthExpr] at h
  split at h
  next n hn =>
    cases h
    obtain ⟨l, hl⟩ := Cursor.eq_unread hn (by simp) rfl he
    exact ⟨_, hl ▸ .literal, hl⟩
  next w hw =>
    cases h
    obtain ⟨l, hl⟩ := Cursor.eq_unread hw (by simp) rfl he
    exact ⟨_, hl ▸ .constant, hl⟩
  next => simp [Cursor.expected, Cursor.fail] at h

theorem capacity_sound : Sound capacity Grammar.Capacity := by
  intro c d x h he
  rw [capacity] at h
  split at h
  next hat =>
    obtain ⟨⟨n, e₁⟩, h₁, h⟩ := bind_eq_ok.1 h
    obtain ⟨e₂, h₂, h⟩ := bind_eq_ok.1 h
    cases h
    obtain ⟨m, rfl⟩ := Cursor.expect_sound h₂ he
    obtain ⟨ts, hts, hc⟩ := lengthExpr_sound h₁ he.unread
    obtain ⟨l, hl⟩ := Cursor.advance_sound hat (hc ▸ he.unread.unread)
    rw [hl, hc, ← Cursor.unread_append, ← Cursor.unread_append]
    exact ⟨_, .some hts, rfl⟩
  next =>
    cases h
    exact ⟨[], .none, rfl⟩

/-- The word `vector` alone names a type like any other word; a bracket must follow it. -/
theorem typeExpr_sound : Sound typeExpr Grammar.TypeName := by
  intro c d x h he
  rw [typeExpr] at h
  split at h
  next hat =>
    obtain ⟨⟨w, e₁⟩, h₁, h⟩ := bind_eq_ok.1 h
    obtain ⟨e₂, h₂, h⟩ := bind_eq_ok.1 h
    obtain ⟨⟨n, e₃⟩, h₃, h⟩ := bind_eq_ok.1 h
    cases h
    obtain ⟨ts, hts, rfl⟩ := capacity_sound h₃ he
    obtain ⟨l₄, rfl⟩ := Cursor.expect_sound h₂ he.unread
    obtain ⟨l₃, hw⟩ := Cursor.word_sound h₁ he.unread.unread
    obtain ⟨l₂, ha⟩ := Cursor.advance_sound hat.2 (hw ▸ he.unread.unread.unread)
    rw [hw, ← Cursor.unread_append, ← Cursor.unread_append, ← Cursor.unread_append] at ha
    obtain ⟨l₁, rfl⟩ := Cursor.eq_unread hat.1 (by simp) ha he.unread
    rw [← Cursor.unread_append]
    exact ⟨_, .vector hts, rfl⟩
  next =>
    obtain ⟨⟨w, e₁⟩, h₁, h⟩ := bind_eq_ok.1 h
    cases h
    obtain ⟨l, rfl⟩ := Cursor.word_sound h₁ he
    exact ⟨_, .named, rfl⟩

/-- What stands behind the equals sign of a field. -/
theorem defaultExpr_sound {x : DefaultExpr} (h : defaultExpr c = .ok (x, d)) (he : d.HasEof) :
    ∃ ts, (∀ l, Grammar.Assignment (⟨.punct .equals, l⟩ :: ts) (some x)) ∧ c = d.unread ts := by
  rw [defaultExpr] at h
  split at h
  next w hw =>
    cases h
    obtain ⟨l, hl⟩ := Cursor.eq_unread hw (by simp) rfl he
    exact ⟨_, fun _ => hl ▸ .constant, hl⟩
  next =>
    obtain ⟨⟨v, e₁⟩, h₁, h⟩ := bind_eq_ok.1 h
    cases h
    obtain ⟨ts, hts, hc⟩ := literal_sound h₁ he
    exact ⟨ts, fun _ => .literal hts, hc⟩

/-- Without an equals sign there is no default and nothing is read. -/
theorem assignment_sound : Sound assignment Grammar.Assignment := by
  intro c d x h he
  rw [assignment] at h
  split at h
  next hat =>
    obtain ⟨⟨a, e₁⟩, h₁, h⟩ := bind_eq_ok.1 h
    cases h
    obtain ⟨ts, hts, hc⟩ := defaultExpr_sound h₁ he
    obtain ⟨l, hl⟩ := Cursor.advance_sound hat (hc ▸ he.unread)
    rw [hl, hc, ← Cursor.unread_append]
    exact ⟨_, hts l, rfl⟩
  next =>
    cases h
    exact ⟨[], .none, rfl⟩

/-- A field is a name, a type and perhaps a default. -/
theorem field_sound : Sound field Grammar.Field := by
  intro c d x h he
  obtain ⟨⟨w, e₁⟩, h₁, h⟩ := bind_eq_ok.1 h
  obtain ⟨e₂, h₂, h⟩ := bind_eq_ok.1 h
  obtain ⟨⟨t, e₃⟩, h₃, h⟩ := bind_eq_ok.1 h
  obtain ⟨⟨a, e₄⟩, h₄, h⟩ := bind_eq_ok.1 h
  cases h
  obtain ⟨us, hus, rfl⟩ := assignment_sound h₄ he
  obtain ⟨ts, hts, rfl⟩ := typeExpr_sound h₃ he.unread
  obtain ⟨m, rfl⟩ := Cursor.expect_sound h₂ he.unread.unread
  obtain ⟨l, rfl⟩ := Cursor.word_sound h₁ he.unread.unread.unread
  rw [← Cursor.unread_append, ← Cursor.unread_append, ← Cursor.unread_append]
  exact ⟨_, .mk hts hus, rfl⟩

theorem method_sound : Sound method Grammar.Method := by
  intro c d x h he
  obtain ⟨⟨w, e₁⟩, h₁, h⟩ := bind_eq_ok.1 h
  obtain ⟨e₂, h₂, h⟩ := bind_eq_ok.1 h
  obtain ⟨⟨q, e₃⟩, h₃, h⟩ := bind_eq_ok.1 h
  obtain ⟨e₄, h₄, h⟩ := bind_eq_ok.1 h
  obtain ⟨⟨r, e₅⟩, h₅, h⟩ := bind_eq_ok.1 h
  cases h
  obtain ⟨l₅, rfl⟩ := Cursor.word_sound h₅ he
  obtain ⟨l₄, rfl⟩ := Cursor.expect_sound h₄ he.unread
  obtain ⟨l₃, rfl⟩ := Cursor.word_sound h₃ he.unread.unread
  obtain ⟨l₂, rfl⟩ := Cursor.expect_sound h₂ he.unread.unread.unread
  obtain ⟨l₁, rfl⟩ := Cursor.word_sound h₁ he.unread.unread.unread.unread
  exact ⟨_, .mk, rfl⟩

theorem option_sound : Sound option Grammar.Entry := by
  intro c d x h he
  obtain ⟨⟨w, e₁⟩, h₁, h⟩ := bind_eq_ok.1 h
  obtain ⟨e₂, h₂, h⟩ := bind_eq_ok.1 h
  obtain ⟨⟨s, e₃⟩, h₃, h⟩ := bind_eq_ok.1 h
  cases h
  obtain ⟨l₃, rfl⟩ := Cursor.string_sound h₃ he
  obtain ⟨l₂, rfl⟩ := Cursor.expect_sound h₂ he.unread
  obtain ⟨l₁, rfl⟩ := Cursor.word_sound h₁ he.unread.unread
  exact ⟨_, .mk, rfl⟩

section Blocks
variable {item : Rule α} {consumes : Consumes item} {G : List Lexeme → α → Prop} {x : α}
  {xs : List α}

/-- The comma behind an item belongs to it, if there is one. -/
theorem item_sound (hG : Sound item G) (h : item c = .ok (x, d)) (he : d.skipComma.HasEof) :
    ∃ ts, Grammar.Item G ts x ∧ c = d.skipComma.unread ts := by
  rw [Cursor.skipComma] at he ⊢
  split at he
  next hat =>
    obtain ⟨l, hl⟩ := Cursor.advance_sound hat he
    obtain ⟨ts, hts, rfl⟩ := hG h (hl ▸ he.unread)
    refine ⟨ts ++ [⟨.punct .comma, l⟩], .comma hts, ?_⟩
    rw [if_pos hat, Cursor.unread_append, ← hl]
  next hat =>
    obtain ⟨ts, hts, rfl⟩ := hG h he
    rw [if_neg hat]
    exact ⟨ts, .bare hts, rfl⟩

/-- Items, and the brace that closes the block. -/
theorem items_sound (hG : Sound item G) (h : items item consumes c = .ok (xs, d))
    (he : d.HasEof) : ∃ ts l, Grammar.Many (Grammar.Item G) ts xs ∧
      c = d.unread (ts ++ [⟨.punct .closeBrace, l⟩]) := by
  fun_induction items item consumes c generalizing xs with
  | case1 => simp at h
  | case2 c x e hx hlt hat =>
    cases h
    obtain ⟨l, hl⟩ := Cursor.advance_sound hat he
    obtain ⟨ts, hts, rfl⟩ := item_sound hG hx (hl ▸ he.unread)
    refine ⟨ts, l, .one hts, ?_⟩
    rw [Cursor.unread_append, ← hl]
  | case3 c x e hx hlt hat ih =>
    obtain ⟨⟨ys, e'⟩, hys, h⟩ := bind_eq_ok.1 h
    cases h
    obtain ⟨us, l, hus, hc⟩ := ih hys
    obtain ⟨ts, hts, rfl⟩ := item_sound hG hx (hc ▸ he.unread)
    refine ⟨ts ++ us, l, .cons hts hus, ?_⟩
    rw [hc, List.append_assoc, ← Cursor.unread_append]

/-- A block is as sound as its items: it only adds the braces. -/
theorem block_sound {empty : SyntaxFault} (hG : Sound item G) :
    Sound (block item consumes empty) (Grammar.Block G) := by
  intro c d xs h he
  obtain ⟨e, h₁, h⟩ := bind_eq_ok.1 h
  split at h
  · simp [Cursor.fail, bind, Except.bind] at h
  · obtain ⟨ts, m, hts, rfl⟩ := items_sound hG h he
    obtain ⟨l, rfl⟩ := Cursor.expect_sound h₁ he.unread
    rw [← Cursor.unread_append]
    exact ⟨_, .mk hts, rfl⟩

end Blocks

/-- Each kind of definition is known by its first word. -/
theorem definition_sound : Sound definition Grammar.Definition := by
  intro c d x h he
  rw [definition] at h
  split at h
  next w hc =>
    split at h
    next hw =>
      subst hw
      obtain ⟨⟨name, e₁⟩, h₁, h⟩ := bind_eq_ok.1 h
      obtain ⟨e₂, h₂, h⟩ := bind_eq_ok.1 h
      obtain ⟨⟨v, e₃⟩, h₃, h⟩ := bind_eq_ok.1 h
      cases h
      obtain ⟨ts, hts, rfl⟩ := literal_sound h₃ he
      obtain ⟨l₃, rfl⟩ := Cursor.expect_sound h₂ he.unread
      obtain ⟨l₂, ha⟩ := Cursor.word_sound h₁ he.unread.unread
      obtain ⟨l₁, rfl⟩ := Cursor.eq_unread hc (by simp) ha he.unread.unread.unread
      rw [← Cursor.unread_append, ← Cursor.unread_append, ← Cursor.unread_append]
      exact ⟨_, .constant hts, rfl⟩
    split at h
    next hw =>
      subst hw
      obtain ⟨⟨name, e₁⟩, h₁, h⟩ := bind_eq_ok.1 h
      obtain ⟨⟨fs, e₂⟩, h₂, h⟩ := bind_eq_ok.1 h
      cases h
      obtain ⟨ts, hts, rfl⟩ := block_sound field_sound h₂ he
      obtain ⟨l₂, ha⟩ := Cursor.word_sound h₁ he.unread
      obtain ⟨l₁, rfl⟩ := Cursor.eq_unread hc (by simp) ha he.unread.unread
      rw [← Cursor.unread_append, ← Cursor.unread_append]
      exact ⟨_, .struct hts, rfl⟩
    split at h
    next hw =>
      subst hw
      obtain ⟨⟨name, e₁⟩, h₁, h⟩ := bind_eq_ok.1 h
      obtain ⟨⟨ms, e₂⟩, h₂, h⟩ := bind_eq_ok.1 h
      cases h
      obtain ⟨ts, hts, rfl⟩ := block_sound method_sound h₂ he
      obtain ⟨l₂, ha⟩ := Cursor.word_sound h₁ he.unread
      obtain ⟨l₁, rfl⟩ := Cursor.eq_unread hc (by simp) ha he.unread.unread
      rw [← Cursor.unread_append, ← Cursor.unread_append]
      exact ⟨_, .service hts, rfl⟩
    split at h
    next hw =>
      subst hw
      obtain ⟨⟨es, e₁⟩, h₁, h⟩ := bind_eq_ok.1 h
      cases h
      obtain ⟨ts, hts, ha⟩ := block_sound option_sound h₁ he
      obtain ⟨l, rfl⟩ := Cursor.eq_unread hc (by simp) ha he.unread
      rw [← Cursor.unread_append]
      exact ⟨_, .options hts, rfl⟩
    next => simp [Cursor.fail] at h
  next => simp [Cursor.expected, Cursor.fail] at h

/-- Definitions, one or more, and then the end of the text. -/
theorem definitions_sound {x : Document} (h : definitions c = .ok x) (hc : c.token ≠ .eof) :
    ∃ (ts : List Lexeme) (d : Cursor), Grammar.Document ts x ∧ d.token = .eof ∧
      c = d.unread ts := by
  fun_induction definitions c generalizing x with
  | case1 c he => exact absurd he hc
  | case2 => simp at h
  | case3 c hne y e hy hlt ih =>
    obtain ⟨ys, hys, h⟩ := bind_eq_ok.1 h
    cases h
    by_cases he : e.token = .eof
    · rw [definitions, if_pos he] at hys
      cases hys
      obtain ⟨ts, hts, rfl⟩ := definition_sound hy ⟨_, List.mem_cons_self, he⟩
      exact ⟨ts, e, .one hts, he, rfl⟩
    · obtain ⟨us, d, hus, hd, rfl⟩ := ih hys he
      have heof : d.HasEof := ⟨_, List.mem_cons_self, hd⟩
      obtain ⟨ts, hts, rfl⟩ := definition_sound hy heof.unread
      exact ⟨ts ++ us, d, .cons hts hus, hd, by rw [Cursor.unread_append]⟩

/-! The other direction: what the grammar derives is read to its end, provided that the token
behind it does not invite the rule to go on. -/

def Complete (rule : Rule α) (G : List Lexeme → α → Prop) (Follow : Token → Prop) : Prop :=
  ∀ ⦃ts : List Lexeme⦄ ⦃x : α⦄ ⦃d : Cursor⦄, G ts x → Follow d.token →
    rule (d.unread ts) = .ok (x, d)

section Terminals
variable {w s : String} {v : Scalar} {p : Punct} {l : Location} {ts : List Lexeme}

@[simp] theorem word_unread :
    (d.unread (⟨.word w, l⟩ :: ts)).word = .ok (w, d.unread ts) := by
  simp [Cursor.word_eq_ok]

@[simp] theorem scalar_unread :
    (d.unread (⟨.literal v, l⟩ :: ts)).scalar = .ok (v, d.unread ts) := by
  simp [Cursor.scalar_eq_ok]

@[simp] theorem string_unread :
    (d.unread (⟨.literal (.str s), l⟩ :: ts)).string = .ok (s, d.unread ts) := by
  simp [Cursor.string_eq_ok]

@[simp] theorem expect_unread :
    (d.unread (⟨.punct p, l⟩ :: ts)).expect p = .ok (d.unread ts) := by
  simp [Cursor.expect_eq_ok]

end Terminals

/-- One turn of the loop over the rest of a list, as an equation that can be rewritten with. -/
theorem moreScalars_eq : moreScalars c =
    if c.token = .punct .comma then do
      let (v, d) ← c.advance.scalar
      let (vs, d) ← moreScalars d
      return (v :: vs, d)
    else .ok ([], c) := by
  rw [moreScalars]
  by_cases hc : c.token = .punct .comma
  · rw [dif_pos hc, if_pos hc]
    split <;> simp_all [bind, Except.bind]
  · rw [dif_neg hc, if_neg hc]

/-- A derived list of scalars is read to its end if no comma follows that would carry it on. -/
theorem moreScalars_complete {ts : List Lexeme} {vs : List Scalar} (h : Grammar.Scalars ts vs)
    (hd : d.token ≠ .punct .comma) : ∃ v l us ws, ts = ⟨.literal v, l⟩ :: us ∧ vs = v :: ws ∧
      moreScalars (d.unread us) = .ok (ws, d) := by
  induction h with
  | one => exact ⟨_, _, _, _, rfl, rfl, by rw [Cursor.unread_nil, moreScalars_eq, if_neg hd]⟩
  | cons h ih =>
    obtain ⟨v, l, us, ws, rfl, rfl, hm⟩ := ih
    refine ⟨_, _, _, _, rfl, rfl, ?_⟩
    rw [moreScalars_eq]
    simp [hm]

/-- What may follow a literal does not matter: its last token tells that it is over. -/
theorem literal_complete : Complete literal Grammar.Value fun _ => True := by
  intro ts x d h _
  rw [literal]
  cases h with
  | scalar => simp
  | empty => simp [scalars]
  | @list vs ts l m h =>
    obtain ⟨v, k, us, ws, rfl, rfl, hm⟩ :=
      moreScalars_complete (d := d.unread [⟨.punct .closeBrace, m⟩]) h (by simp)
    simp [scalars, hm]

/-- A parenthesis that follows would be read as the start of a length. -/
theorem capacity_complete :
    Complete capacity Grammar.Capacity fun t => t ≠ .punct .openParen := by
  intro ts x d h hd
  rw [capacity]
  cases h with
  | none => simp [Cursor.isAt, hd]
  | some h => cases h <;> simp [lengthExpr]

/-- A word that follows is no part of a type, but a bracket or a parenthesis would be. -/
theorem typeExpr_complete : Complete typeExpr Grammar.TypeName
    fun t => t ≠ .punct .openParen ∧ t ≠ .punct .openAngle := by
  intro ts x d h hd
  rw [typeExpr]
  cases h with
  | named => simp [Cursor.isAt, hd.2]
  | vector h => simp [capacity_complete h hd.1]

theorem defaultExpr_unread {ts : List Lexeme} {v : Literal} (h : Grammar.Value ts v) :
    defaultExpr (d.unread ts) = .ok (.literal v, d) := by
  rw [defaultExpr]
  split
  next w hw => cases h <;> simp at hw
  next => simp [literal_complete h trivial]

/-- An equals sign that follows would be read as the start of a default. -/
theorem assignment_complete :
    Complete assignment Grammar.Assignment fun t => t ≠ .punct .equals := by
  intro ts x d h hd
  rw [assignment]
  cases h with
  | none => simp [Cursor.isAt, hd]
  | constant => simp [defaultExpr]
  | literal h => simp [defaultExpr_unread h]

/-- What may stand behind an item of a block. -/
def EndsItem (t : Token) : Prop :=
  t = .punct .comma ∨ t = .punct .closeBrace ∨ ∃ w, t = .word w

theorem EndsItem.ne {t : Token} {p : Punct} (h : EndsItem t) (hc : p ≠ .comma)
    (hb : p ≠ .closeBrace) : t ≠ .punct p := by
  rintro rfl
  rcases h with h | h | ⟨w, h⟩ <;> simp_all

/-- Behind a type stands an assignment or what follows the field. -/
theorem token_assignment {ts : List Lexeme} {e : Option DefaultExpr}
    (h : Grammar.Assignment ts e) (hd : EndsItem d.token) :
    (d.unread ts).token ≠ .punct .openParen ∧ (d.unread ts).token ≠ .punct .openAngle := by
  cases h with
  | none => exact ⟨hd.ne (by simp) (by simp), hd.ne (by simp) (by simp)⟩
  | constant => simp
  | literal => simp

/-- The last part of a field may be left out, so what follows it must not look like that part. -/
theorem field_complete : Complete field Grammar.Field EndsItem := by
  rintro ts x d ⟨ht, he⟩ hd
  have htype := typeExpr_complete ht (token_assignment he hd)
  have hassign := assignment_complete he (hd.ne (by simp) (by simp))
  simp [field, htype, hassign]

theorem method_complete : Complete method Grammar.Method EndsItem := by
  rintro ts x d ⟨⟩ -
  simp [method]

theorem option_complete : Complete option Grammar.Entry EndsItem := by
  rintro ts x d ⟨⟩ -
  simp [option]

section Blocks
variable {item : Rule α} {consumes : Consumes item} {G : List Lexeme → α → Prop} {x : α}
  {xs : List α} {ts : List Lexeme}

/-- One turn of the loop over the items of a block, as an equation that can be rewritten with. -/
theorem items_eq : items item consumes c = do
    let (x, d) ← item c
    if d.skipComma.isAt .closeBrace then return ([x], d.skipComma.advance)
    let (xs, d) ← items item consumes d.skipComma
    return (x :: xs, d) := by
  rw [items]
  split
  next e he => simp [he, bind, Except.bind]
  next x d hx => simp only [hx, ok_bind, pure_eq_ok]

/-- An item is read with its comma, unless another one comes behind it. -/
theorem item_complete (hG : Complete item G EndsItem) (h : Grammar.Item G ts x)
    (hd : d.token = .punct .closeBrace ∨ ∃ w, d.token = .word w) :
    ∃ e, item (d.unread ts) = .ok (x, e) ∧ e.skipComma = d := by
  have hskip : d.isAt .comma = false := by
    rcases hd with hd | ⟨w, hd⟩ <;> simp [Cursor.isAt, hd]
  cases h with
  | bare h => exact ⟨d, hG h (.inr hd), by simp [Cursor.skipComma, hskip]⟩
  | comma h =>
    rw [Cursor.unread_append]
    exact ⟨_, hG h (.inl rfl), by simp [Cursor.skipComma]⟩

/-- Items are read up to the closing brace, whether or not commas stand between them. -/
theorem items_complete (hG : Complete item G EndsItem) (hw : Grammar.Worded G)
    (h : Grammar.Many (Grammar.Item G) ts xs) (l : Location) :
    items item consumes (d.unread (ts ++ [⟨.punct .closeBrace, l⟩])) = .ok (xs, d) := by
  induction h with
  | one hx =>
    obtain ⟨e, he, hskip⟩ := item_complete (d := d.unread [⟨.punct .closeBrace, l⟩]) hG hx
      (.inl rfl)
    rw [Cursor.unread_append, items_eq, he]
    simp [hskip]
  | @cons ts us x xs hx hxs ih =>
    obtain ⟨w, m, vs, rfl⟩ := Grammar.Many.worded (Grammar.Item.worded hw) hxs
    obtain ⟨e, he, hskip⟩ := item_complete (d := d.unread (⟨.word w, m⟩ :: vs ++ [⟨_, l⟩])) hG hx
      (.inr ⟨w, rfl⟩)
    rw [List.append_assoc, Cursor.unread_append, items_eq, he]
    simp only [ok_bind, hskip, ih]
    simp

theorem block_complete {empty : SyntaxFault} (hG : Complete item G EndsItem)
    (hw : Grammar.Worded G) :
    Complete (block item consumes empty) (Grammar.Block G) fun _ => True := by
  rintro ts xs d ⟨h⟩ -
  obtain ⟨w, l, us, rfl⟩ := Grammar.Many.worded (Grammar.Item.worded hw) h
  have hitems (m : Location) : items item consumes (d.unread _) = .ok (xs, d) :=
    items_complete hG hw h m
  simp only [List.cons_append] at hitems
  simp [block, hitems]

end Blocks

theorem definition_complete : Complete definition Grammar.Definition fun _ => True := by
  intro ts x d h _
  rw [definition]
  cases h with
  | constant h => simp [constant, literal_complete h trivial]
  | struct h => simp [struct, block_complete field_complete Grammar.Field.worded h trivial]
  | service h => simp [service, block_complete method_complete Grammar.Method.worded h trivial]
  | options h => simp [options, block_complete option_complete Grammar.Entry.worded h trivial]

theorem definitions_eq : definitions c =
    if c.token = .eof then .ok []
    else do
      let (x, d) ← definition c
      return x :: (← definitions d) := by
  rw [definitions]
  split
  · rfl
  · split <;> simp_all [bind, Except.bind]

/-- Definitions are read up to the end of the text. -/
theorem definitions_complete {ts : List Lexeme} {x : Document} (h : Grammar.Document ts x)
    (hd : d.token = .eof) : definitions (d.unread ts) = .ok x := by
  have hne {ts : List Lexeme} (h : Grammar.AtWord ts) (e : Cursor) :
      (e.unread ts).token ≠ .eof := by
    obtain ⟨w, l, us, rfl⟩ := h
    simp
  induction h with
  | one h =>
    rw [definitions_eq, if_neg (hne (Grammar.Definition.worded h) d),
      definition_complete h trivial]
    simp [definitions_eq (c := d), hd]
  | cons h _ ih =>
    rw [Cursor.unread_append, definitions_eq, if_neg (hne (Grammar.Definition.worded h) _),
      definition_complete h trivial]
    simp [ih]

end Parser
end WireSchema
