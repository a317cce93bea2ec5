import WireSchema.Proofs.EndOfText

/-! A complaint of the parser is about the first token that fits no document. The tokens before it
can be completed to a document, and no continuation behind it makes the complaint go away. Both
halves are told of every rule at once: what a rule does is settled by the tokens it reads and the
one it stops at. -/
namespace WireSchema
namespace Cursor
variable {c d : Cursor} {ts : List Lexeme}

theorem here_unread {d' : Cursor} (h : d'.here = d.here) (ts : List Lexeme) :
    (d'.unread ts).here = (d.unread ts).here := by
  cases ts with
  | nil => exact h
  | cons => rfl

theorem HasEof.advance (he : c.HasEof) (hne : c.token ≠ .eof) : c.advance.HasEof := by
  obtain ⟨l, hl, heof⟩ := he
  obtain ⟨here, rest⟩ := c
  cases rest with
  | nil =>
    obtain rfl : l = here := by simpa [toList] using hl
    exact absurd heof hne
  | cons next rest =>
    have hmem : l ∈ next :: rest := by
      rcases List.mem_cons.1 hl with rfl | hl
      · exact absurd heof hne
      · exact hl
    exact ⟨l, hmem, heof⟩

/-- A token that is not the end of the text can be put back. -/
theorem eq_unread_advance (he : c.HasEof) (hne : c.token ≠ .eof) :
    c = c.advance.unread [c.here] := by
  obtain ⟨l, hl⟩ := eq_unread (k := c.token) rfl hne rfl (he.advance hne)
  have hloc : l = c.loc := by
    rw [hl]
    rfl
  rw [hloc] at hl
  exact hl

end Cursor

namespace Parser
variable {α β : Type} {c : Cursor} {f : Rule β} {G : List Lexeme → β → Prop}

/-- What the rule does at the cursor is settled by the tokens it reads and the one it stops at. If
it ends well, then it has read a derivation. If not, then it complains about the token it stopped
at, and what it read before could have gone on to a derivation. -/
structure Settled (f : Rule β) (G : List Lexeme → β → Prop) (c : Cursor) : Prop where
  read : ∀ ⦃x : β⦄ ⦃d : Cursor⦄, f c = .ok (x, d) → ∃ ts, c = d.unread ts ∧ d.HasEof ∧ G ts x ∧
    ∀ d' : Cursor, d'.here = d.here → f (d'.unread ts) = .ok (x, d')
  stopped : ∀ ⦃e : SyntaxError⦄, f c = .error e → ∃ ts d, c = Cursor.unread d ts ∧
    e.loc = d.loc ∧ (∃ more x, G (ts ++ more) x) ∧
      ∀ d' : Cursor, d'.here = d.here → f (d'.unread ts) = .error e

namespace Settled

/-- Only what the rule does where it looks matters. -/
theorem congr {g : Rule β} (h : Settled g G c)
    (hf : ∀ c' : Cursor, c'.here = c.here → f c' = g c') : Settled f G c where
  read := by
    intro x d hx
    rw [hf c rfl] at hx
    obtain ⟨ts, rfl, he, hts, hstable⟩ := h.read hx
    refine ⟨ts, rfl, he, hts, fun d' hd => ?_⟩
    rw [hf _ (Cursor.here_unread hd ts)]
    exact hstable d' hd
  stopped := by
    intro e hx
    rw [hf c rfl] at hx
    obtain ⟨ts, d, rfl, hloc, hmore, hstable⟩ := h.stopped hx
    refine ⟨ts, d, rfl, hloc, hmore, fun d' hd => ?_⟩
    rw [hf _ (Cursor.here_unread hd ts)]
    exact hstable d' hd

/-- A rule that reads less than it may is settled as well. -/
theorem mono {H : List Lexeme → β → Prop} (h : Settled f H c) (hG : ∀ ts x, H ts x → G ts x) :
    Settled f G c where
  read := by
    intro x d hx
    obtain ⟨ts, hc, he, hts, hstable⟩ := h.read hx
    exact ⟨ts, hc, he, hG ts x hts, hstable⟩
  stopped := by
    intro e hx
    obtain ⟨ts, d, hc, hloc, ⟨more, x, hts⟩, hstable⟩ := h.stopped hx
    exact ⟨ts, d, hc, hloc, ⟨more, x, hG _ x hts⟩, hstable⟩

/-- The rule reads nothing. -/
theorem pass {x : β} (he : c.HasEof) (hx : G [] x)
    (hf : ∀ c' : Cursor, c'.here = c.here → f c' = .ok (x, c')) : Settled f G c where
  read := by
    intro y d hy
    rw [hf c rfl] at hy
    cases hy
    exact ⟨[], rfl, he, hx, hf⟩
  stopped := by
    intro e hy
    rw [hf c rfl] at hy
    cases hy

/-- The rule complains at once. -/
theorem fail {fault : SyntaxFault} (hmore : ∃ ts x, G ts x)
    (hf : ∀ c' : Cursor, c'.here = c.here → f c' = .error ⟨c.loc, fault⟩) : Settled f G c where
  read := by
    intro y d hy
    rw [hf c rfl] at hy
    cases hy
  stopped := by
    intro e hy
    rw [hf c rfl] at hy
    cases hy
    exact ⟨[], c, rfl, rfl, hmore, hf⟩

/-- The rule moves past a token, and what it does behind it is settled. -/
theorem past {t : Token} (he : c.HasEof) (ht : c.token = t) (hne : t ≠ .eof)
    (hk : ∀ d : Cursor, d.HasEof → d.remaining < c.remaining →
      Settled (fun d => f (d.unread [⟨t, c.loc⟩])) (fun ts x => G (⟨t, c.loc⟩ :: ts) x) d) :
    Settled f G c := by
  have hd := he.advance (ht ▸ hne)
  have hc : c = c.advance.unread [⟨t, c.loc⟩] := by
    rw [← ht]
    exact Cursor.eq_unread_advance he (ht ▸ hne)
  have hlt : c.advance.remaining < c.remaining := by
    have hlen : c.remaining = c.advance.remaining + 1 := congrArg Cursor.remaining hc
    omega
  have h := hk c.advance hd hlt
  constructor
  · intro x d hx
    rw [hc] at hx
    obtain ⟨ts, hadv, he', hts, hstable⟩ := h.read hx
    refine ⟨⟨t, c.loc⟩ :: ts, ?_, he', hts, fun d' hd => ?_⟩
    · rw [← List.singleton_append, Cursor.unread_append, ← hadv]
      exact hc
    · rw [← List.singleton_append, Cursor.unread_append]
      exact hstable d' hd
  · intro e hx
    rw [hc] at hx
    obtain ⟨ts, d, hadv, hloc, hmore, hstable⟩ := h.stopped hx
    refine ⟨⟨t, c.loc⟩ :: ts, d, ?_, hloc, hmore, fun d' hd => ?_⟩
    · rw [← List.singleton_append, Cursor.unread_append, ← hadv]
      exact hc
    · rw [← List.singleton_append, Cursor.unread_append]
      exact hstable d' hd

/-- The rule does one thing that is settled, and then another. -/
theorem bind {r : Rule α} {H : List Lexeme → α → Prop}
    {k : α × Cursor → Except SyntaxError (β × Cursor)}
    (hr : Settled r H c) (hf : ∀ c' : Cursor, c'.here = c.here → f c' = r c' >>= k)
    (hmore : ∀ us x, H us x → ∃ ts y, G (us ++ ts) y)
    (hk : ∀ us x d, r c = .ok (x, d) → d.HasEof → H us x →
      Settled (fun d => k (x, d)) (fun ts y => G (us ++ ts) y) d) : Settled f G c where
  read := by
    intro y d hy
    rw [hf c rfl] at hy
    obtain ⟨⟨x, e⟩, hx, hrest⟩ := bind_eq_ok.1 hy
    obtain ⟨us, rfl, he, hus, hstable⟩ := hr.read hx
    obtain ⟨ts, rfl, he', hts, hstable'⟩ := (hk us x e hx he hus).read hrest
    refine ⟨us ++ ts, Cursor.unread_append.symm, he', hts, fun d' hd => ?_⟩
    have hhere := Cursor.here_unread hd ts
    rw [Cursor.unread_append, hf _ (Cursor.here_unread hhere us), hstable _ hhere]
    exact hstable' d' hd
  stopped := by
    intro e hy
    rw [hf c rfl] at hy
    cases hx : r c with
    | error e' =>
      rw [hx] at hy
      cases hy
      obtain ⟨ts, d, rfl, hloc, ⟨more, x, hx⟩, hstable⟩ := hr.stopped hx
      obtain ⟨us, y, hy⟩ := hmore _ x hx
      refine ⟨ts, d, rfl, hloc, ⟨more ++ us, y, by rwa [← List.append_assoc]⟩, fun d' hd => ?_⟩
      rw [hf _ (Cursor.here_unread hd ts), hstable d' hd]
      rfl
    | ok p =>
      obtain ⟨x, d⟩ := p
      rw [hx] at hy
      obtain ⟨us, rfl, he, hus, hstable⟩ := hr.read hx
      obtain ⟨ts, d, rfl, hloc, ⟨more, y, hts⟩, hstable'⟩ := (hk us x _ hx he hus).stopped hy
      refine ⟨us ++ ts, d, Cursor.unread_append.symm, hloc,
        ⟨more, y, by rwa [List.append_assoc]⟩, fun d' hd => ?_⟩
      have hhere := Cursor.here_unread hd ts
      rw [Cursor.unread_append, hf _ (Cursor.here_unread hhere us), hstable _ hhere]
      exact hstable' d' hd

/-- The rule ends with what another one reads. -/
theorem last {r : Rule α} {H : List Lexeme → α → Prop} {g : α → β} (hr : Settled r H c)
    (hf : ∀ c' : Cursor, c'.here = c.here → f c' = r c' >>= fun p => .ok (g p.1, p.2))
    (hG : ∀ us x, H us x → G us (g x)) : Settled f G c := by
  have hnil (us : List Lexeme) (x : α) (hx : H us x) : G (us ++ []) (g x) := by
    rw [List.append_nil]
    exact hG us x hx
  apply hr.bind hf
  · intro us x hx
    exact ⟨[], g x, hnil us x hx⟩
  · intro us x d _ he hx
    exact .pass he (hnil us x hx) fun c' _ => rfl

end Settled

/-! ## Single tokens -/

/-- A rule that takes one token of some form, or complains about it. -/
structure Terminal (r : Rule α) (T : α → Token) : Prop where
  ne_eof : ∀ x, T x ≠ .eof
  refuses : ∀ ⦃c : Cursor⦄, (∀ x, c.token ≠ T x) →
    ∃ fault, ∀ c' : Cursor, c'.here = c.here → r c' = .error ⟨c.loc, fault⟩

/-- The complaint names the token that stands here, and only that one. -/
theorem expected_of_here {c' : Cursor} {what : Expectation} (h : c'.here = c.here) :
    c'.expected (α := α) what = .error ⟨c.loc, .expected what c.token⟩ := by
  simp only [Cursor.expected, Cursor.fail, Cursor.loc, Cursor.token, h]

theorem token_of_here {c' : Cursor} (h : c'.here = c.here) : c'.token = c.token := by
  simp only [Cursor.token, h]

theorem word_terminal : Terminal Cursor.word Token.word where
  ne_eof := by simp
  refuses := by
    intro c h
    refine ⟨.expected .identifier c.token, fun c' hc => ?_⟩
    rw [Cursor.word]
    split
    next w hw => exact absurd (token_of_here hc ▸ hw) (h w)
    next => exact expected_of_here hc

theorem scalar_terminal : Terminal Cursor.scalar Token.literal where
  ne_eof := by simp
  refuses := by
    intro c h
    refine ⟨.expected .literalValue c.token, fun c' hc => ?_⟩
    rw [Cursor.scalar]
    split
    next v hv => exact absurd (token_of_here hc ▸ hv) (h v)
    next => exact expected_of_here hc

theorem string_terminal : Terminal Cursor.string fun s => .literal (.str s) where
  ne_eof := by simp
  refuses := by
    intro c h
    refine ⟨.expected .stringLiteral c.token, fun c' hc => ?_⟩
    rw [Cursor.string]
    split
    next s hs => exact absurd (token_of_here hc ▸ hs) (h s)
    next => exact expected_of_here hc

/-- Takes a sign; there is nothing to tell of it. -/
def sign (p : Punct) : Rule Unit := fun c => (fun d => ((), d)) <$> c.expect p

theorem sign_terminal (p : Punct) : Terminal (sign p) fun _ => .punct p where
  ne_eof := by simp
  refuses := by
    intro c h
    refine ⟨.expected (.punct p) c.token, fun c' hc => ?_⟩
    have hat : c'.isAt p = false := by
      simpa only [Cursor.isAt, token_of_here hc, decide_eq_false_iff_not] using h ()
    rw [sign, Cursor.expect, hat, if_neg (by simp), expected_of_here hc]
    rfl

/-- The rule begins with a token of some form. -/
theorem Settled.terminal {r : Rule α} {T : α → Token} (hT : Terminal r T) (he : c.HasEof)
    (hmore : ∃ ts x, G ts x)
    (hf : ∀ (c' : Cursor) (e : SyntaxError), c'.here = c.here → r c' = .error e → f c' = .error e)
    (hk : ∀ (x : α) (d : Cursor), d.HasEof → d.remaining < c.remaining →
      Settled (fun d => f (d.unread [⟨T x, c.loc⟩])) (fun ts y => G (⟨T x, c.loc⟩ :: ts) y) d) :
    Settled f G c := by
  by_cases hx : ∃ x, c.token = T x
  · obtain ⟨x, hx⟩ := hx
    exact .past he hx (hT.ne_eof x) (hk x)
  · obtain ⟨fault, hfault⟩ := hT.refuses fun x h => hx ⟨x, h⟩
    have hfail (c' : Cursor) (hc : c'.here = c.here) : f c' = .error ⟨c.loc, fault⟩ :=
      hf c' _ hc (hfault c' hc)
    exact .fail hmore hfail

/-- A mark that is required comes first, and the rest of the rule is settled behind it. -/
theorem Settled.expect (p : Punct) (he : c.HasEof) (hmore : ∃ ts x, G ts x)
    (hf : ∀ (c' : Cursor) (e : SyntaxError), c'.expect p = .error e → f c' = .error e)
    (hk : ∀ d : Cursor, d.HasEof → Settled (fun d => f (d.unread [⟨.punct p, c.loc⟩]))
      (fun ts y => G (⟨.punct p, c.loc⟩ :: ts) y) d) : Settled f G c := by
  refine .terminal (sign_terminal p) he hmore (fun c' e _ h => hf c' e ?_) fun _ d hd _ => hk d hd
  rw [sign] at h
  cases hp : c'.expect p <;> rw [hp] at h <;> cases h
  rfl

theorem isAt_of_here {c' : Cursor} (h : c'.here = c.here) (p : Punct) : c'.isAt p = c.isAt p := by
  simp only [Cursor.isAt, token_of_here h]

theorem token_of_isAt {p : Punct} (h : c.isAt p = true) : c.token = .punct p := by
  simpa [Cursor.isAt] using h

/-! ## Rules -/

/-- Each turn looks at one token: a comma carries the list on, anything else ends it. -/
theorem moreScalars_settled (he : c.HasEof) : Settled moreScalars
    (fun ts vs => ∀ v l, Grammar.Scalars (⟨.literal v, l⟩ :: ts) (v :: vs)) c := by
  induction hn : c.remaining using Nat.strong_induction_on generalizing c with
  | _ n ih =>
    by_cases hc : c.token = .punct .comma
    · refine .past he hc (by simp) fun d₁ he₁ hlt₁ => ?_
      refine .terminal scalar_terminal he₁
        ⟨[⟨.literal (.int 0), c.loc⟩], [.int 0], fun v l => .cons .one⟩
        (fun c' e _ h => by rw [moreScalars_eq]; simp [h]) fun v d₂ he₂ hlt₂ => ?_
      have hd₂ := ih d₂.remaining (by omega) he₂ rfl
      exact hd₂.last (g := (v :: ·)) (fun c' _ => by rw [moreScalars_eq]; simp)
        fun us vs hus w l => .cons (hus v d₁.loc)
    · refine .pass he (fun v l => .one) fun c' hc' => ?_
      rw [moreScalars_eq, if_neg (token_of_here hc' ▸ hc)]

/-- Scalars, or nothing. -/
def AnyScalars (ts : List Lexeme) (vs : List Scalar) : Prop :=
  ts = [] ∧ vs = [] ∨ Grammar.Scalars ts vs

theorem AnyScalars.value {ts : List Lexeme} {vs : List Scalar} (h : AnyScalars ts vs)
    (l m : Location) :
    Grammar.Value (⟨.punct .openBrace, l⟩ :: (ts ++ [⟨.punct .closeBrace, m⟩])) (.list vs l) := by
  rcases h with ⟨rfl, rfl⟩ | h
  · exact .empty
  · exact .list h

theorem scalars_settled (he : c.HasEof) : Settled scalars AnyScalars c := by
  by_cases hat : c.isAt .closeBrace = true
  · exact .pass he (.inl ⟨rfl, rfl⟩) fun c' hc => by simp [scalars, isAt_of_here hc, hat]
  · refine .terminal scalar_terminal he ⟨[], [], .inl ⟨rfl, rfl⟩⟩
      (fun c' e hc h => by simp [scalars, isAt_of_here hc, hat, h]) fun v d₁ he₁ _ => ?_
    exact (moreScalars_settled he₁).last (g := (v :: ·)) (fun c' _ => by simp [scalars])
      fun us vs hus => .inr (hus v c.loc)

/-- A scalar is settled by one token, a list by its closing brace. -/
theorem literal_settled (he : c.HasEof) : Settled literal Grammar.Value c := by
  by_cases hat : c.isAt .openBrace = true
  · refine .past he (token_of_isAt hat) (by simp) fun d₁ he₁ _ => ?_
    apply Settled.bind (scalars_settled he₁)
    · intro c' _
      simp [literal]
      rfl
    · intro us vs hus
      exact ⟨_, _, hus.value c.loc c.loc⟩
    intro us vs d₂ _ he₂ hus
    refine .expect .closeBrace he₂ ⟨_, _, hus.value c.loc c.loc⟩ (fun c' e h => by simp [h])
      fun d₃ he₃ => ?_
    exact .pass he₃ (hus.value c.loc d₂.loc) fun c' _ => by simp
  · refine .terminal scalar_terminal he ⟨_, _, @Grammar.Value.scalar (.int 0) c.loc⟩
      (fun c' e hc h => by simp [literal, isAt_of_here hc, hat, h]) fun v d he' _ => ?_
    exact .pass he' .scalar fun c' _ => by simp [literal]

theorem lengthExpr_settled (he : c.HasEof) : Settled lengthExpr Grammar.Length c := by
  by_cases hn : ∃ n, c.token = .literal (.int n)
  · obtain ⟨n, hn⟩ := hn
    refine .past he hn (by simp) fun d he' _ => ?_
    exact .pass he' .literal fun c' _ => by simp [lengthExpr]
  by_cases hw : ∃ w, c.token = .word w
  · obtain ⟨w, hw⟩ := hw
    refine .past he hw (by simp) fun d he' _ => ?_
    exact .pass he' .constant fun c' _ => by simp [lengthExpr]
  have hfail (c' : Cursor) (hc : c'.here = c.here) :
      lengthExpr c' = .error ⟨c.loc, .expected .vectorLength c.token⟩ := by
    rw [lengthExpr, token_of_here hc]
    split
    next n h => exact absurd ⟨n, h⟩ hn
    next w h => exact absurd ⟨w, h⟩ hw
    next => exact expected_of_here hc
  exact .fail ⟨_, _, @Grammar.Length.literal 0 c.loc⟩ hfail

theorem capacity_settled (he : c.HasEof) : Settled capacity Grammar.Capacity c := by
  by_cases hat : c.isAt .openParen = true
  · refine .past he (token_of_isAt hat) (by simp) fun d₁ he₁ _ => ?_
    apply Settled.bind (lengthExpr_settled he₁)
    · intro c' _
      simp [capacity]
      rfl
    · intro us n hus
      exact ⟨_, _, @Grammar.Capacity.some n us c.loc c.loc hus⟩
    intro us n d₂ _ he₂ hus
    refine .expect .closeParen he₂ ⟨_, _, @Grammar.Capacity.some n us c.loc c.loc hus⟩
      (fun c' e h => by simp [h]) fun d₃ he₃ => ?_
    exact .pass he₃ (.some hus) fun c' _ => by simp
  · exact .pass he .none fun c' hc => by simp [capacity, isAt_of_here hc, hat]

/-- The word `vector` is settled together with the token behind it. -/
theorem typeExpr_settled (he : c.HasEof) : Settled typeExpr Grammar.TypeName c := by
  refine .terminal word_terminal he ⟨_, _, @Grammar.TypeName.named "" c.loc⟩
    (fun c' e _ h => ?_) fun w d₁ he₁ _ => ?_
  · rw [typeExpr, if_neg, h]
    · rfl
    · rintro ⟨hv, -⟩
      simp [Cursor.word, hv] at h
  by_cases hv : w = "vector" ∧ d₁.isAt .openAngle = true
  · obtain ⟨rfl, hat⟩ := hv
    refine .past he₁ (token_of_isAt hat) (by simp) fun d₂ he₂ _ => ?_
    refine .terminal word_terminal he₂
      ⟨_, _, @Grammar.TypeName.vector "" none [] c.loc d₁.loc c.loc c.loc .none⟩
      (fun c' e _ h => by simp [typeExpr, h]) fun w d₃ he₃ _ => ?_
    refine .expect .closeAngle he₃
      ⟨_, _, @Grammar.TypeName.vector w none [] c.loc d₁.loc d₂.loc c.loc .none⟩
      (fun c' e h => by simp [typeExpr, h]) fun d₄ he₄ => ?_
    exact (capacity_settled he₄).last (fun c' _ => by simp [typeExpr])
      fun us n hus => .vector hus
  · exact .pass he₁ .named fun c' hc => by simp [typeExpr, isAt_of_here hc, hv]

theorem defaultExpr_settled (l : Location) (he : c.HasEof) : Settled defaultExpr
    (fun ts e => Grammar.Assignment (⟨.punct .equals, l⟩ :: ts) (some e)) c := by
  by_cases hw : ∃ w, c.token = .word w
  · obtain ⟨w, hw⟩ := hw
    refine .past he hw (by simp) fun d he' _ => ?_
    exact .pass he' .constant fun c' _ => by simp [defaultExpr]
  · refine (literal_settled he).last (fun c' hc => ?_) fun us v hus => .literal hus
    rw [defaultExpr, token_of_here hc]
    split
    next w h => exact absurd ⟨w, h⟩ hw
    next => rfl

/-- One look tells whether there is a default. -/
theorem assignment_settled (he : c.HasEof) : Settled assignment Grammar.Assignment c := by
  by_cases hat : c.isAt .equals = true
  · refine .past he (token_of_isAt hat) (by simp) fun d₁ he₁ _ => ?_
    exact (defaultExpr_settled c.loc he₁).last (g := some) (fun c' _ => by simp [assignment])
      fun us e hus => hus
  · exact .pass he .none fun c' hc => by simp [assignment, isAt_of_here hc, hat]

theorem field_settled (he : c.HasEof) : Settled field Grammar.Field c := by
  have hnamed := @Grammar.TypeName.named "" c.loc
  refine .terminal word_terminal he ⟨_, _, @Grammar.Field.mk "" _ _ _ _ c.loc c.loc hnamed .none⟩
    (fun c' e _ h => by simp [field, h]) fun w d₁ he₁ _ => ?_
  refine .expect .colon he₁ ⟨_, _, @Grammar.Field.mk w _ _ _ _ c.loc c.loc hnamed .none⟩
    (fun c' e h => by simp [field, h]) fun d₂ he₂ => ?_
  apply Settled.bind (typeExpr_settled he₂)
  · intro c' _
    simp [field]
    rfl
  · intro us t hus
    exact ⟨[], _, by simpa using @Grammar.Field.mk w _ _ _ _ c.loc d₁.loc hus .none⟩
  intro us t d₃ _ he₃ hus
  exact (assignment_settled he₃).last (fun c' _ => rfl) fun vs e hvs => .mk hus hvs

theorem method_settled (he : c.HasEof) : Settled method Grammar.Method c := by
  refine .terminal word_terminal he
    ⟨_, _, @Grammar.Method.mk "" "" "" c.loc c.loc c.loc c.loc c.loc⟩
    (fun c' e _ h => by simp [method, h]) fun w d₁ he₁ _ => ?_
  refine .expect .colon he₁ ⟨_, _, @Grammar.Method.mk w "" "" c.loc c.loc c.loc c.loc c.loc⟩
    (fun c' e h => by simp [method, h]) fun d₂ he₂ => ?_
  refine .terminal word_terminal he₂
    ⟨_, _, @Grammar.Method.mk w "" "" c.loc d₁.loc c.loc c.loc c.loc⟩
    (fun c' e _ h => by simp [method, h]) fun request d₃ he₃ _ => ?_
  refine .expect .arrow he₃
    ⟨_, _, @Grammar.Method.mk w request "" c.loc d₁.loc d₂.loc c.loc c.loc⟩
    (fun c' e h => by simp [method, h]) fun d₄ he₄ => ?_
  refine .terminal word_terminal he₄
    ⟨_, _, @Grammar.Method.mk w request "" c.loc d₁.loc d₂.loc d₃.loc c.loc⟩
    (fun c' e _ h => by simp [method, h]) fun response d₅ he₅ _ => ?_
  exact .pass he₅ .mk fun c' _ => by simp [method]

theorem option_settled (he : c.HasEof) : Settled option Grammar.Entry c := by
  refine .terminal word_terminal he ⟨_, _, @Grammar.Entry.mk "" "" c.loc c.loc c.loc⟩
    (fun c' e _ h => by simp [option, h]) fun key d₁ he₁ _ => ?_
  refine .expect .equals he₁ ⟨_, _, @Grammar.Entry.mk key "" c.loc c.loc c.loc⟩
    (fun c' e h => by simp [option, h]) fun d₂ he₂ => ?_
  refine .terminal string_terminal he₂ ⟨_, _, @Grammar.Entry.mk key "" c.loc d₁.loc c.loc⟩
    (fun c' e _ h => by simp [option, h]) fun value d₃ he₃ _ => ?_
  exact .pass he₃ .mk fun c' _ => by simp [option]

/-! ## Blocks -/

section Blocks
variable {item : Rule α} {consumes : Consumes item} {G : List Lexeme → α → Prop}
  {us : List Lexeme} {x : α}

/-- Items and the brace that closes them. -/
def Closed (G : List Lexeme → α → Prop) (ts : List Lexeme) (xs : List α) : Prop :=
  ∃ us l, ts = us ++ [⟨.punct .closeBrace, l⟩] ∧ Grammar.Many (Grammar.Item G) us xs

/-- One item and the brace that closes the block. -/
theorem Closed.one (hx : Grammar.Item G us x) (l : Location) :
    Closed G (us ++ [⟨.punct .closeBrace, l⟩]) [x] := ⟨us, l, rfl, .one hx⟩

theorem Closed.cons {ts : List Lexeme} {xs : List α} (hx : Grammar.Item G us x)
    (h : Closed G ts xs) : Closed G (us ++ ts) (x :: xs) := by
  obtain ⟨vs, l, rfl, hvs⟩ := h
  exact ⟨us ++ vs, l, (List.append_assoc ..).symm, .cons hx hvs⟩

/-- With the brace that opens it, what is closed is a block. -/
theorem Closed.block {ts : List Lexeme} {xs : List α} (h : Closed G ts xs) (l : Location) :
    Grammar.Block G (⟨.punct .openBrace, l⟩ :: ts) xs := by
  obtain ⟨us, m, rfl, hus⟩ := h
  exact .mk hus

/-- Behind an item and its comma stands the closing brace or another item. -/
theorem items_rest_settled (he : c.HasEof) (hx : Grammar.Item G us x)
    (h : Settled (items item consumes) (Closed G) c) :
    Settled (fun d => if d.isAt .closeBrace then .ok ([x], d.advance) else do
        let (xs, d) ← items item consumes d
        return (x :: xs, d))
      (fun ts xs => Closed G (us ++ ts) xs) c := by
  by_cases hat : c.isAt .closeBrace = true
  · refine .past he (token_of_isAt hat) (by simp) fun d he' _ => ?_
    exact .pass he' (.one hx c.loc) fun c' _ => by simp
  · refine h.last (g := (x :: ·)) (fun c' hc => ?_) fun vs xs hvs => hvs.cons hx
    rw [isAt_of_here hc, if_neg hat]
    rfl

/-- By induction on what is left of the text: an item, and behind it a brace or another item. -/
theorem items_settled (hitem : ∀ c : Cursor, c.HasEof → Settled item G c) (he : c.HasEof) :
    Settled (items item consumes) (Closed G) c := by
  induction hn : c.remaining using Nat.strong_induction_on generalizing c with
  | _ n ih =>
    apply Settled.bind (hitem c he)
    · exact fun c' _ => items_eq
    · exact fun us x hx => ⟨_, _, .one (.bare hx) c.loc⟩
    intro us x d hd he' hx
    have hlt := consumes hd
    by_cases hat : d.isAt .comma = true
    · refine .past he' (token_of_isAt hat) (by simp) fun d₁ he₁ hlt₁ => ?_
      have hmore := ih d₁.remaining (by omega) he₁ rfl
      have hrest := items_rest_settled he₁ (.comma (l := d.loc) hx) hmore
      simp only [List.append_assoc, List.singleton_append] at hrest
      exact hrest.congr fun c' _ => by simp [Cursor.skipComma]
    · have hrest := items_rest_settled he' (.bare hx) (ih d.remaining (by omega) he' rfl)
      exact hrest.congr fun c' hc => by simp [Cursor.skipComma, isAt_of_here hc, hat]

theorem block_settled {empty : SyntaxFault} (hitem : ∀ c : Cursor, c.HasEof → Settled item G c)
    (hG : ∃ ts x, G ts x) (he : c.HasEof) :
    Settled (block item consumes empty) (Grammar.Block G) c := by
  obtain ⟨ts, x, hx⟩ := hG
  have hone : Grammar.Many (Grammar.Item G) ts [x] := .one (.bare hx)
  refine .expect .openBrace he ⟨_, _, @Grammar.Block.mk _ _ _ _ c.loc c.loc hone⟩
    (fun c' e h => by simp [block, h]) fun d he' => ?_
  by_cases hat : d.isAt .closeBrace = true
  · have hfail (c' : Cursor) (hc : c'.here = d.here) :
        block item consumes empty (c'.unread [⟨.punct .openBrace, c.loc⟩]) =
          .error ⟨d.loc, empty⟩ := by
      simp [block, isAt_of_here hc, hat, Cursor.fail, Cursor.loc, hc]
    exact .fail ⟨_, _, @Grammar.Block.mk _ _ _ _ c.loc c.loc hone⟩ hfail
  · have hitems : Settled (items item consumes)
        (fun ts xs => Grammar.Block G (⟨.punct .openBrace, c.loc⟩ :: ts) xs) d :=
      (items_settled hitem he').mono fun ts xs h => h.block c.loc
    exact hitems.congr fun c' hc => by simp [block, isAt_of_here hc, hat]

end Blocks

/-! ## Definitions -/

theorem constant_settled {l : Location} (he : c.HasEof) :
    Settled (fun d => constant (d.unread [⟨.word "const", l⟩]))
      (fun ts x => Grammar.Definition (⟨.word "const", l⟩ :: ts) x) c := by
  have hzero := @Grammar.Value.scalar (.int 0) c.loc
  refine .terminal word_terminal he
    ⟨_, _, @Grammar.Definition.constant "" _ _ l c.loc c.loc hzero⟩
    (fun c' e _ h => by simp [constant, h]) fun w d₁ he₁ _ => ?_
  refine .expect .equals he₁ ⟨_, _, @Grammar.Definition.constant w _ _ l c.loc c.loc hzero⟩
    (fun c' e h => by simp [constant, h]) fun d₂ he₂ => ?_
  exact (literal_settled he₂).last
    (fun c' _ => by simp [constant]) fun us x hus => .constant hus

theorem struct_settled {l : Location} (he : c.HasEof) :
    Settled (fun d => struct (d.unread [⟨.word "struct", l⟩]))
      (fun ts x => Grammar.Definition (⟨.word "struct", l⟩ :: ts) x) c := by
  have hfield := @Grammar.Field.mk "" _ _ _ _ c.loc c.loc (@Grammar.TypeName.named "" c.loc) .none
  refine .terminal word_terminal he ⟨_, _, @Grammar.Definition.struct "" _ _ l c.loc
    (@Grammar.Block.mk _ _ _ _ c.loc c.loc (.one (.bare hfield)))⟩
    (fun c' e _ h => by simp [struct, h]) fun w d₁ he₁ _ => ?_
  exact (block_settled (fun c => field_settled) ⟨_, _, hfield⟩ he₁).last
    (fun c' _ => by simp [struct]; rfl) fun us x hus => .struct hus

theorem service_settled {l : Location} (he : c.HasEof) :
    Settled (fun d => service (d.unread [⟨.word "service", l⟩]))
      (fun ts x => Grammar.Definition (⟨.word "service", l⟩ :: ts) x) c := by
  have hmethod := @Grammar.Method.mk "" "" "" c.loc c.loc c.loc c.loc c.loc
  refine .terminal word_terminal he ⟨_, _, @Grammar.Definition.service "" _ _ l c.loc
    (@Grammar.Block.mk _ _ _ _ c.loc c.loc (.one (.bare hmethod)))⟩
    (fun c' e _ h => by simp [service, h]) fun w d₁ he₁ _ => ?_
  exact (block_settled (fun c => method_settled) ⟨_, _, hmethod⟩ he₁).last
    (fun c' _ => by simp [service]; rfl) fun us x hus => .service hus

theorem options_settled {l : Location} (he : c.HasEof) :
    Settled (fun d => options (d.unread [⟨.word "options", l⟩]))
      (fun ts x => Grammar.Definition (⟨.word "options", l⟩ :: ts) x) c := by
  have hentry := @Grammar.Entry.mk "" "" c.loc c.loc c.loc
  exact (block_settled (fun c => option_settled) ⟨_, _, hentry⟩ he).last
    (fun c' _ => by simp [options]; rfl) fun us x hus => .options hus

theorem definition_exists (l : Location) : ∃ ts x, Grammar.Definition ts x :=
  ⟨_, _, @Grammar.Definition.constant "" _ _ l l l (@Grammar.Value.scalar (.int 0) l)⟩

/-- The first word tells which of the four rules applies, or that none does. -/
theorem definition_settled (he : c.HasEof) : Settled definition Grammar.Definition c := by
  by_cases hw : ∃ w, c.token = .word w
  · obtain ⟨w, hw⟩ := hw
    by_cases hconst : w = "const"
    · subst hconst
      exact .past he hw (by simp) fun d he' _ =>
        (constant_settled he').congr fun c' _ => by simp [definition]
    by_cases hstruct : w = "struct"
    · subst hstruct
      exact .past he hw (by simp) fun d he' _ =>
        (struct_settled he').congr fun c' _ => by simp [definition]
    by_cases hservice : w = "service"
    · subst hservice
      exact .past he hw (by simp) fun d he' _ =>
        (service_settled he').congr fun c' _ => by simp [definition]
    by_cases hoptions : w = "options"
    · subst hoptions
      exact .past he hw (by simp) fun d he' _ =>
        (options_settled he').congr fun c' _ => by simp [definition]
    have hfail (c' : Cursor) (hc : c'.here = c.here) :
        definition c' = .error ⟨c.loc, .unexpectedWord w⟩ := by
      simp [definition, token_of_here hc, hw, hconst, hstruct, hservice, hoptions, Cursor.fail,
        Cursor.loc, hc]
    exact .fail (definition_exists c.loc) hfail
  · have hfail (c' : Cursor) (hc : c'.here = c.here) :
        definition c' = .error ⟨c.loc, .expected .definition c.token⟩ := by
      rw [definition, token_of_here hc]
      split
      next w h => exact absurd ⟨w, h⟩ hw
      next => exact expected_of_here hc
    exact .fail (definition_exists c.loc) hfail

/-- The definitions have no end of their own, and so only their complaints are told: the token
complained about, what stands before it, and that nothing behind it matters. -/
theorem definitions_stopped {e : SyntaxError} (he : c.HasEof) (h : definitions c = .error e) :
    ∃ ts d, c = Cursor.unread d ts ∧ e.loc = d.loc ∧
      (∃ more doc, Grammar.Document (ts ++ more) doc) ∧
      ∀ d' : Cursor, d'.here = d.here → definitions (d'.unread ts) = .error e := by
  induction hn : c.remaining using Nat.strong_induction_on generalizing c with
  | _ n ih =>
    have hne : c.token ≠ .eof := by
      intro heof
      rw [definitions_eq, if_pos heof] at h
      cases h
    rw [definitions_eq, if_neg hne] at h
    cases hx : definition c with
    | error e' =>
      rw [hx] at h
      cases h
      obtain ⟨ts, d, rfl, hloc, ⟨more, x, hmore⟩, hstable⟩ := (definition_settled he).stopped hx
      refine ⟨ts, d, rfl, hloc, ⟨more, [x], .one hmore⟩, fun d' hd => ?_⟩
      have hhere := token_of_here (Cursor.here_unread hd ts)
      rw [definitions_eq, if_neg (hhere ▸ hne), hstable d' hd]
      rfl
    | ok p =>
      obtain ⟨x, d⟩ := p
      rw [hx, ok_bind] at h
      dsimp only at h
      obtain ⟨us, rfl, he', hus, hstable⟩ := (definition_settled he).read hx
      cases hrest : definitions d with
      | ok doc =>
        rw [hrest] at h
        cases h
      | error e' =>
        rw [hrest] at h
        cases h
        obtain ⟨ts, d, rfl, hloc, ⟨more, doc, hmore⟩, hstable'⟩ :=
          ih _ (hn ▸ definition_consumes hx) he' hrest rfl
        refine ⟨us ++ ts, d, Cursor.unread_append.symm, hloc,
          ⟨more, x :: doc, by rw [List.append_assoc]; exact .cons hus hmore⟩, fun d' hd => ?_⟩
        have hhere := Cursor.here_unread hd ts
        rw [Cursor.unread_append, definitions_eq,
          if_neg (token_of_here (Cursor.here_unread hhere us) ▸ hne), hstable _ hhere, ok_bind]
        simp only [hstable' d' hd, error_bind]

end Parser

namespace Document

/-- A complaint about a list of tokens that has an end is about the first token that fits no
document: the tokens before it can be completed, and with it they are refused with the same
complaint whatever comes behind. -/
theorem ofLexemes_error_earliest {ts : List Lexeme} {e : SyntaxError}
    (heof : ∃ l ∈ ts, l.token = .eof) (h : ofLexemes ts = .error e) :
    ∃ i l, ts[i]? = some l ∧ e.loc = l.loc ∧
      (∃ rest doc, ofLexemes (ts.take i ++ rest) = .ok doc) ∧
      ∀ rest, ofLexemes (ts.take (i + 1) ++ rest) = .error e := by
  cases ts with
  | nil => simp at heof
  | cons t ts =>
    by_cases ht : t.token = .eof
    · obtain ⟨us, x, hx⟩ := Parser.definition_exists t.loc
      rw [ofLexemes, if_pos ht] at h
      cases h
      have hone : ofLexemes (us ++ [t]) = .ok [x] := ofLexemes_of_derivation (.one hx) ht
      refine ⟨0, t, rfl, rfl, ⟨us ++ [t], [x], hone⟩, fun rest => ?_⟩
      simp [ofLexemes, ht]
    · rw [ofLexemes, if_neg ht] at h
      obtain ⟨us, d, hc, hloc, ⟨more, doc, hmore⟩, hstable⟩ :=
        Parser.definitions_stopped (c := ⟨t, ts⟩) heof h
      have hts : t :: ts = us ++ d.here :: d.rest := by
        have := congrArg Cursor.toList hc
        rwa [Cursor.toList_unread] at this
      refine ⟨us.length, d.here, ?_, hloc, ⟨more ++ [⟨.eof, t.loc⟩], doc, ?_⟩, fun rest => ?_⟩
      · simp [hts]
      · rw [hts, List.take_left, ← List.append_assoc]
        exact ofLexemes_of_derivation hmore rfl
      · have htoken : (Cursor.unread ⟨d.here, rest⟩ us).token ≠ .eof := by
          have hhere : (Cursor.unread ⟨d.here, rest⟩ us).here = (d.unread us).here :=
            Cursor.here_unread (by rfl) us
          rw [Cursor.token, hhere, ← hc]
          exact ht
        have htake : (us ++ d.here :: d.rest).take (us.length + 1) ++ rest =
            (Cursor.unread ⟨d.here, rest⟩ us).toList := by
          rw [Cursor.toList_unread, List.take_length_add_append]
          simp [Cursor.toList]
        rw [hts, htake, Cursor.toList, ofLexemes, if_neg htoken]
        exact hstable _ rfl

/-- A comma with no scalar behind it is a mistake at the brace: a scalar could have stood there, and
nothing behind the brace helps. -/
theorem ofLexemes_error_earliest_trailing_comma :
    let ts : List Lexeme := [⟨.word "const", ⟨1, 1⟩⟩, ⟨.word "XS", ⟨1, 7⟩⟩,
      ⟨.punct .equals, ⟨1, 10⟩⟩, ⟨.punct .openBrace, ⟨1, 12⟩⟩, ⟨.literal (.int 1), ⟨1, 13⟩⟩,
      ⟨.punct .comma, ⟨1, 14⟩⟩, ⟨.punct .closeBrace, ⟨1, 16⟩⟩, ⟨.eof, ⟨1, 17⟩⟩]
    ofLexemes ts = .error ⟨⟨1, 16⟩, .expected .literalValue (.punct .closeBrace)⟩ ∧
    ∃ i l, ts[i]? = some l ∧ (⟨1, 16⟩ : Location) = l.loc ∧
      (∃ rest doc, ofLexemes (ts.take i ++ rest) = .ok doc) ∧
      ∀ rest, ofLexemes (ts.take (i + 1) ++ rest) =
        .error ⟨⟨1, 16⟩, .expected .literalValue (.punct .closeBrace)⟩ := by
  intro ts
  have h : ofLexemes ts = .error ⟨⟨1, 16⟩, .expected .literalValue (.punct .closeBrace)⟩ := by
    decide +kernel
  exact ⟨h, ofLexemes_error_earliest ⟨⟨.eof, ⟨1, 17⟩⟩, by simp [ts], rfl⟩ h⟩

end Document
end WireSchema
