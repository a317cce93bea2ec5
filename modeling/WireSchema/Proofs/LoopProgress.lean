import WireSchema.Proofs.EndOfText

/-! The parser comes to an end on any list of tokens. Its repetitions are told here as loops, which
need not end by themselves: behind the last token the cursor sees that token again, and no loop
looks for the end of the list. They end because a turn that reads something has seen two different
tokens, and so has moved the cursor on. -/
namespace WireSchema

/-! ## Places in the list -/

namespace Cursor
variable {ts : List Lexeme} {c d : Cursor} {i : Nat}

/-- The cursor stands at that place of the list, counted from zero. -/
def StandsAt (ts : List Lexeme) (i : Nat) (c : Cursor) : Prop := ts.drop i = c.toList

/-- What has been read and what is left make up the list. -/
theorem StandsAt.length_eq (h : c.StandsAt ts i) : ts.length = i + c.remaining + 1 := by
  have hlen := congrArg List.length h
  simp only [List.length_drop, toList, List.length_cons] at hlen
  simp only [remaining]
  omega

theorem StandsAt.getElem? (h : c.StandsAt ts i) : ts[i]? = some c.here := by
  have hhead := congrArg List.head? h
  simpa [toList] using hhead

/-- A step leads to the next place, and at the last place nowhere. -/
theorem StandsAt.advance (h : c.StandsAt ts i) :
    c.advance.StandsAt ts (min (i + 1) (ts.length - 1)) := by
  have hlen := h.length_eq
  obtain ⟨here, rest⟩ := c
  cases rest with
  | nil =>
    have hlast : min (i + 1) (ts.length - 1) = i := by
      simp only [remaining, List.length_nil] at hlen
      omega
    rw [hlast]
    exact h
  | cons next rest =>
    have hnext : min (i + 1) (ts.length - 1) = i + 1 := by
      simp only [remaining, List.length_cons] at hlen
      omega
    rw [hnext, StandsAt, ← List.drop_drop, h]
    rfl

/-- What is left at a later place tells which place it is. -/
theorem StandsAt.of_suffix (h : c.StandsAt ts i) (hd : d.toList <:+ c.toList) :
    d.StandsAt ts (i + (c.remaining - d.remaining)) := by
  obtain ⟨us, hus⟩ := hd
  have hlen : us.length = c.remaining - d.remaining := by
    have hsum := congrArg List.length hus
    simp only [List.length_append, toList, List.length_cons] at hsum
    simp only [remaining]
    omega
  rw [StandsAt, ← List.drop_drop, h, ← hus, ← hlen, List.drop_left]

/-- A cursor that moves on stays inside its list. -/
theorem advance_suffix (c : Cursor) : c.advance.toList <:+ c.toList := by
  obtain ⟨here, rest⟩ := c
  cases rest with
  | nil => exact List.suffix_refl _
  | cons next rest => exact List.suffix_cons here _

theorem skipComma_suffix (c : Cursor) : c.skipComma.toList <:+ c.toList := by
  unfold skipComma
  split
  · exact c.advance_suffix
  · exact List.suffix_refl _

end Cursor

namespace Parser
variable {α β : Type} {c d : Cursor} {p : Punct}

/-- What comes of a cursor stays in its list: it goes on at a later place, or it complains about a
token there. -/
def Ahead (c : Cursor) (place : α → Cursor) : Except SyntaxError α → Prop
  | .ok a => (place a).toList <:+ c.toList
  | .error e => ∃ l ∈ c.toList, e.loc = l.loc

/-- What is ahead of a place is ahead of every place before it. -/
theorem Ahead.mono {place : α → Cursor} {x : Except SyntaxError α} (hx : Ahead d place x)
    (hd : d.toList <:+ c.toList) : Ahead c place x := by
  cases x with
  | ok a => exact List.IsSuffix.trans hx hd
  | error e =>
    obtain ⟨l, hl, he⟩ := hx
    exact ⟨l, hd.subset hl, he⟩

/-- Step after step: each part goes on from where the one before it came to. -/
theorem Ahead.bind {place : α → Cursor} {place' : β → Cursor} {x : Except SyntaxError α}
    {k : α → Except SyntaxError β} (hx : Ahead c place x)
    (hk : ∀ a, x = .ok a → Ahead (place a) place' (k a)) : Ahead c place' (x >>= k) := by
  cases x with
  | ok a => exact (hk a rfl).mono hx
  | error e => exact hx

theorem ok_ahead {place : α → Cursor} {a : α} (h : place a = c) : Ahead c place (.ok a) := by
  rw [Ahead, h]

/-- A complaint is about the token at hand, which is in the list. -/
theorem fail_ahead {place : α → Cursor} (fault : SyntaxFault) : Ahead c place (c.fail fault) :=
  ⟨c.here, List.mem_cons_self, rfl⟩

theorem expect_ahead : Ahead c id (c.expect p) := by
  unfold Cursor.expect
  split
  · exact c.advance_suffix
  · exact fail_ahead _

/-- The rule stays in the list. -/
def StaysInside (rule : Rule α) : Prop := ∀ c, Ahead c Prod.snd (rule c)

theorem word_staysInside : StaysInside Cursor.word := by
  intro c
  unfold Cursor.word
  split
  · exact c.advance_suffix
  · exact fail_ahead _

theorem scalar_staysInside : StaysInside Cursor.scalar := by
  intro c
  unfold Cursor.scalar
  split
  · exact c.advance_suffix
  · exact fail_ahead _

theorem string_staysInside : StaysInside Cursor.string := by
  intro c
  unfold Cursor.string
  split
  · exact c.advance_suffix
  · exact fail_ahead _

/-- By induction on what is left: a turn reads a comma and a scalar. -/
theorem moreScalars_staysInside : StaysInside moreScalars := by
  intro c
  induction hn : c.remaining using Nat.strong_induction_on generalizing c with
  | _ n ih =>
    rw [moreScalars_eq]
    split
    next hc =>
      refine ((scalar_staysInside c.advance).mono c.advance_suffix).bind ?_
      rintro ⟨v, d⟩ hs
      refine (ih _ (hn ▸ remaining_lt_of_comma hc hs) d rfl).bind ?_
      rintro ⟨vs, e⟩ -
      exact ok_ahead rfl
    next => exact ok_ahead rfl

theorem scalars_staysInside : StaysInside scalars := by
  intro c
  unfold scalars
  split
  · exact ok_ahead rfl
  · refine (scalar_staysInside c).bind ?_
    rintro ⟨v, d⟩ -
    refine (moreScalars_staysInside d).bind ?_
    rintro ⟨vs, e⟩ -
    exact ok_ahead rfl

theorem literal_staysInside : StaysInside literal := by
  intro c
  unfold literal
  split
  · refine ((scalars_staysInside c.advance).mono c.advance_suffix).bind ?_
    rintro ⟨vs, d⟩ -
    refine expect_ahead.bind ?_
    rintro e -
    exact ok_ahead rfl
  · refine (scalar_staysInside c).bind ?_
    rintro ⟨v, d⟩ -
    exact ok_ahead rfl

theorem lengthExpr_staysInside : StaysInside lengthExpr := by
  intro c
  unfold lengthExpr
  split
  · exact c.advance_suffix
  · exact c.advance_suffix
  · exact fail_ahead _

theorem capacity_staysInside : StaysInside capacity := by
  intro c
  unfold capacity
  split
  · refine ((lengthExpr_staysInside c.advance).mono c.advance_suffix).bind ?_
    rintro ⟨n, d⟩ -
    refine expect_ahead.bind ?_
    rintro e -
    exact ok_ahead rfl
  · exact ok_ahead rfl

theorem typeExpr_staysInside : StaysInside typeExpr := by
  intro c
  have htwo : c.advance.advance.toList <:+ c.toList :=
    c.advance.advance_suffix.trans c.advance_suffix
  unfold typeExpr
  split
  · refine ((word_staysInside c.advance.advance).mono htwo).bind ?_
    rintro ⟨w, d⟩ -
    refine expect_ahead.bind ?_
    rintro e -
    refine (capacity_staysInside e).bind ?_
    rintro ⟨n, e'⟩ -
    exact ok_ahead rfl
  · refine (word_staysInside c).bind ?_
    rintro ⟨w, d⟩ -
    exact ok_ahead rfl

theorem defaultExpr_staysInside : StaysInside defaultExpr := by
  intro c
  unfold defaultExpr
  split
  · exact c.advance_suffix
  · refine (literal_staysInside c).bind ?_
    rintro ⟨v, d⟩ -
    exact ok_ahead rfl

theorem assignment_staysInside : StaysInside assignment := by
  intro c
  unfold assignment
  split
  · refine ((defaultExpr_staysInside c.advance).mono c.advance_suffix).bind ?_
    rintro ⟨e, d⟩ -
    exact ok_ahead rfl
  · exact ok_ahead rfl

theorem field_staysInside : StaysInside field := by
  intro c
  refine (word_staysInside c).bind ?_
  rintro ⟨w, d₁⟩ -
  refine expect_ahead.bind ?_
  rintro d₂ -
  refine (typeExpr_staysInside d₂).bind ?_
  rintro ⟨t, d₃⟩ -
  refine (assignment_staysInside d₃).bind ?_
  rintro ⟨a, d₄⟩ -
  exact ok_ahead rfl

theorem method_staysInside : StaysInside method := by
  intro c
  refine (word_staysInside c).bind ?_
  rintro ⟨w, d₁⟩ -
  refine expect_ahead.bind ?_
  rintro d₂ -
  refine (word_staysInside d₂).bind ?_
  rintro ⟨q, d₃⟩ -
  refine expect_ahead.bind ?_
  rintro d₄ -
  refine (word_staysInside d₄).bind ?_
  rintro ⟨r, d₅⟩ -
  exact ok_ahead rfl

theorem option_staysInside : StaysInside option := by
  intro c
  refine (word_staysInside c).bind ?_
  rintro ⟨k, d₁⟩ -
  refine expect_ahead.bind ?_
  rintro d₂ -
  refine (string_staysInside d₂).bind ?_
  rintro ⟨v, d₃⟩ -
  exact ok_ahead rfl

/-- If its items stay inside the list, so does the loop over them. -/
theorem items_staysInside {item : Rule α} {consumes : Consumes item} (h : StaysInside item) :
    StaysInside (items item consumes) := by
  intro c
  induction hn : c.remaining using Nat.strong_induction_on generalizing c with
  | _ n ih =>
    rw [items_eq]
    refine (h c).bind ?_
    rintro ⟨x, d⟩ hx
    have hlt := Nat.lt_of_le_of_lt Cursor.remaining_skipComma_le (consumes hx)
    refine Ahead.mono (d := d.skipComma) ?_ d.skipComma_suffix
    simp only
    split
    · exact d.skipComma.advance_suffix
    · refine (ih _ (hn ▸ hlt) _ rfl).bind ?_
      rintro ⟨xs, e⟩ -
      exact ok_ahead rfl

theorem block_staysInside {item : Rule α} {consumes : Consumes item} {empty : SyntaxFault}
    (h : StaysInside item) : StaysInside (block item consumes empty) := by
  intro c
  refine expect_ahead.bind ?_
  rintro d -
  split
  · exact fail_ahead _
  · exact items_staysInside h d

/-- Each definition stays inside the list, whatever it is made of. -/
theorem definition_staysInside : StaysInside definition := by
  intro c
  unfold definition
  split
  next w _ =>
    split
    · refine ((word_staysInside c.advance).mono c.advance_suffix).bind ?_
      rintro ⟨name, d₁⟩ -
      refine expect_ahead.bind ?_
      rintro d₂ -
      refine (literal_staysInside d₂).bind ?_
      rintro ⟨v, d₃⟩ -
      exact ok_ahead rfl
    split
    · refine ((word_staysInside c.advance).mono c.advance_suffix).bind ?_
      rintro ⟨name, d₁⟩ -
      refine (block_staysInside field_staysInside d₁).bind ?_
      rintro ⟨fs, d₂⟩ -
      exact ok_ahead rfl
    split
    · refine ((word_staysInside c.advance).mono c.advance_suffix).bind ?_
      rintro ⟨name, d₁⟩ -
      refine (block_staysInside method_staysInside d₁).bind ?_
      rintro ⟨ms, d₂⟩ -
      exact ok_ahead rfl
    split
    · refine ((block_staysInside option_staysInside c.advance).mono c.advance_suffix).bind ?_
      rintro ⟨es, d₁⟩ -
      exact ok_ahead rfl
    · exact fail_ahead _
  next => exact fail_ahead _

end Parser

/-! ## Loops -/

/-- A repetition of the parser: as long as it goes on, it takes a turn, and it may break off behind
one. -/
structure Loop (α : Type) where
  goes : Cursor → Bool
  turn : Parser.Rule α
  breaks : Cursor → Bool

namespace Loop
variable {α β : Type} {loop : Loop α} {ts : List Lexeme} {c : Cursor}

/-- What the loop comes to if it may ask that many times whether to go on; nothing, if that is not
enough. -/
def within (loop : Loop α) : Nat → Cursor → Option (Except SyntaxError (List α × Cursor))
  | 0, _ => none
  | n + 1, c =>
    if loop.goes c then
      match loop.turn c with
      | .error e => some (.error e)
      | .ok (x, d) =>
        if loop.breaks d then some (.ok ([x], d))
        else (loop.within n d).map (Except.map fun (xs, e) => (x :: xs, e))
    else some (.ok ([], c))

/-- A loop that does not go on has done nothing. -/
theorem eq_of_stops {n : Nat} {r : Except SyntaxError (List α × Cursor)}
    (hstops : loop.goes c = false) (h : loop.within n c = some r) : r = .ok ([], c) := by
  cases n with
  | zero => cases h
  | succ n =>
    simp only [within, hstops, Bool.false_eq_true, if_false] at h
    exact (Option.some.inj h).symm

/-- A loop that goes on has something to show for it. -/
theorem ne_nil_of_goes {n : Nat} {d : Cursor} {xs : List α} (hgoes : loop.goes c = true)
    (h : loop.within n c = some (.ok (xs, d))) : xs ≠ [] := by
  cases n with
  | zero => cases h
  | succ n =>
    rw [within, if_pos hgoes] at h
    split at h
    · cases h
    · split at h
      · cases h
        exact List.cons_ne_nil _ _
      · obtain ⟨r, -, hr⟩ := Option.map_eq_some_iff.1 h
        obtain ⟨⟨ys, e⟩, -, hys⟩ := map_eq_ok.1 hr
        cases hys
        exact List.cons_ne_nil _ _

/-- Each turn of the loop that succeeds leaves fewer tokens to come. -/
def Consuming (loop : Loop α) : Prop :=
  ∀ ⦃c d : Cursor⦄ ⦃x : α⦄, loop.goes c = true → loop.turn c = .ok (x, d) →
    d.remaining < c.remaining

/-- The rule repeats the turns of the loop and makes something of what they read. -/
structure Repeats (loop : Loop α) (finish : List α × Cursor → β) (add : α → β → β)
    (rule : Cursor → Except SyntaxError β) : Prop where
  finish_cons : ∀ x xs d, finish (x :: xs, d) = add x (finish (xs, d))
  rule_eq : ∀ c, rule c =
    if loop.goes c then do
      let (x, d) ← loop.turn c
      if loop.breaks d then .ok (finish ([x], d)) else add x <$> rule d
    else .ok (finish ([], c))

/-- Each turn uses up a token at least, and so there are no more turns than tokens. -/
theorem isSome_within (hloop : loop.Consuming) {n : Nat} (hn : c.remaining < n) :
    (loop.within n c).isSome = true := by
  induction n generalizing c with
  | zero => exact absurd hn (Nat.not_lt_zero _)
  | succ n ih =>
    unfold within
    split
    next hgoes =>
      split
      · rfl
      next x d hturn =>
        split
        · rfl
        · have hlt := hloop hgoes hturn
          simpa using ih (c := d) (by omega)
    · rfl

/-- Enough turns give what the rule itself gives. -/
theorem Repeats.rule_eq_of_within {finish : List α × Cursor → β} {add : α → β → β}
    {rule : Cursor → Except SyntaxError β} (h : loop.Repeats finish add rule) {n : Nat}
    {r : Except SyntaxError (List α × Cursor)} (hr : loop.within n c = some r) :
    rule c = finish <$> r := by
  induction n generalizing c r with
  | zero => cases hr
  | succ n ih =>
    rw [h.rule_eq]
    unfold within at hr
    split at hr
    next hgoes =>
      rw [if_pos hgoes]
      split at hr
      next e hturn =>
        cases hr
        rw [hturn]
        rfl
      next x d hturn =>
        simp only [hturn, ok_bind]
        split at hr
        next hbreaks =>
          cases hr
          exact if_pos hbreaks
        next hbreaks =>
          obtain ⟨r, hd, rfl⟩ := Option.map_eq_some_iff.1 hr
          rw [if_neg hbreaks, ih hd]
          cases r with
          | error e => rfl
          | ok r => simp [Functor.map, Except.map, h.finish_cons]
    next hgoes =>
      cases hr
      exact if_neg hgoes

/-- On this list of tokens each turn of the loop leads to a later place of the list or complains
about a token that is not before it, and the loop comes to an end within as many turns as there
are tokens left. -/
structure Progresses (loop : Loop α) (ts : List Lexeme) : Prop where
  moves : ∀ {c d : Cursor} {i : Nat} {x : α}, c.StandsAt ts i → loop.goes c = true →
    loop.turn c = .ok (x, d) → ∃ j, i < j ∧ j < ts.length ∧ d.StandsAt ts j
  fails : ∀ {c : Cursor} {i : Nat} {e : SyntaxError}, c.StandsAt ts i → loop.goes c = true →
    loop.turn c = .error e → ∃ j l, i ≤ j ∧ ts[j]? = some l ∧ e.loc = l.loc
  ends : ∀ {c : Cursor} {i : Nat}, c.StandsAt ts i →
    (loop.within (ts.length - i) c).isSome = true

/-- A loop that reads something in each turn gets further in each turn, and not beyond the end. -/
theorem Consuming.progresses (hloop : loop.Consuming) (hinside : Parser.StaysInside loop.turn) :
    loop.Progresses ts where
  moves := by
    intro c d i x hc hgoes hturn
    have hlt := hloop hgoes hturn
    have hd := hinside c
    rw [hturn] at hd
    have hplace : d.StandsAt ts (i + (c.remaining - d.remaining)) := hc.of_suffix hd
    have hlen := hplace.length_eq
    exact ⟨_, by omega, by omega, hplace⟩
  fails := by
    intro c i e hc hgoes hturn
    have he := hinside c
    rw [hturn] at he
    obtain ⟨l, hl, hloc⟩ := he
    obtain ⟨k, hk⟩ := List.mem_iff_getElem?.1 hl
    refine ⟨i + k, l, Nat.le_add_right i k, ?_, hloc⟩
    rw [← hk, ← hc, List.getElem?_drop]
  ends := by
    intro c i hc
    have hlen := hc.length_eq
    exact isSome_within hloop (by omega)

end Loop

/-! ## The loops of the parser -/

namespace Parser
variable {α : Type} {c d : Cursor} {item : Rule α}

/-- An item and the comma behind it, if there is one. -/
def separated (item : Rule α) (c : Cursor) : Except SyntaxError (α × Cursor) := do
  let (x, d) ← item c
  return (x, d.skipComma)

/-- Definitions, until the end of the text is seen. -/
def definitionLoop : Loop Definition := ⟨fun c => c.token ≠ .eof, definition, fun _ => false⟩

/-- The items of a struct or a service, until a closing brace is seen behind one. -/
def itemLoop (item : Rule α) : Loop α := ⟨fun _ => true, separated item, (·.isAt .closeBrace)⟩

/-- The entries of a block of options, until a closing brace is seen before one. -/
def entryLoop : Loop OptionDef := ⟨fun c => !c.isAt .closeBrace, separated option, fun _ => false⟩

/-- The scalars of a list behind the first, as long as a comma is seen. -/
def elementLoop : Loop Scalar := ⟨(·.isAt .comma), fun c => c.advance.scalar, fun _ => false⟩

theorem separated_consumes (h : Consumes item) : Consumes (separated item) := by
  intro c d x hx
  obtain ⟨⟨y, e⟩, hy, hd⟩ := bind_eq_ok.1 hx
  cases hd
  exact Nat.lt_of_le_of_lt Cursor.remaining_skipComma_le (h hy)

theorem separated_staysInside (h : StaysInside item) : StaysInside (separated item) := by
  intro c
  refine (h c).bind ?_
  rintro ⟨x, d⟩ -
  exact d.skipComma_suffix

theorem definitionLoop_consuming : definitionLoop.Consuming := fun _ _ _ _ h =>
  definition_consumes h

theorem itemLoop_consuming (h : Consumes item) : (itemLoop item).Consuming := fun _ _ _ _ hx =>
  separated_consumes h hx

theorem entryLoop_consuming : entryLoop.Consuming := fun _ _ _ _ hx =>
  separated_consumes option_consumes hx

theorem elementLoop_consuming : elementLoop.Consuming := fun _ _ _ hgoes hs =>
  remaining_lt_of_comma (of_decide_eq_true hgoes) hs

theorem elementLoop_staysInside : StaysInside elementLoop.turn := fun c =>
  (scalar_staysInside c.advance).mono c.advance_suffix

/-- The rule for definitions is a loop until the end of the text. -/
theorem definitions_repeats : definitionLoop.Repeats Prod.fst List.cons definitions where
  finish_cons _ _ _ := rfl
  rule_eq c := by
    rw [definitions_eq]
    by_cases hc : c.token = .eof
    · simp [definitionLoop, hc]
    · simp [definitionLoop, hc]
      rfl

/-- The rule for items is a loop until a closing brace, which is read too. -/
theorem items_repeats {consumes : Consumes item} :
    (itemLoop item).Repeats (fun (xs, d) => (xs, d.advance)) (fun x (xs, d) => (x :: xs, d))
      (items item consumes) where
  finish_cons _ _ _ := rfl
  rule_eq c := by
    rw [items_eq]
    cases hx : item c with
    | error e => simp [itemLoop, separated, hx, bind, Except.bind]
    | ok r => simp [itemLoop, separated, hx]; rfl

/-- The rule for the rest of a list is a loop as long as commas follow. -/
theorem moreScalars_repeats :
    elementLoop.Repeats id (fun v (vs, d) => (v :: vs, d)) moreScalars where
  finish_cons _ _ _ := rfl
  rule_eq c := by
    rw [moreScalars_eq]
    simp [elementLoop, Cursor.isAt]
    rfl

/-- A block of options is left without a turn if its brace is seen at once. -/
theorem entries_repeats :
    entryLoop.Repeats (fun (xs, d) => (xs, d.advance)) (fun x (xs, d) => (x :: xs, d)) fun c =>
      if c.isAt .closeBrace then .ok ([], c.advance) else items option option_consumes c where
  finish_cons _ _ _ := rfl
  rule_eq c := by
    by_cases hc : c.isAt .closeBrace = true
    · simp [entryLoop, hc]
    · rw [items_eq]
      cases hx : option c with
      | error e => simp [entryLoop, separated, hc, hx, bind, Except.bind]
      | ok r =>
        obtain ⟨x, d⟩ := r
        by_cases hd : d.skipComma.isAt .closeBrace = true
        · simp [entryLoop, separated, hc, hx, hd, Functor.map, Except.map]
        · simp [entryLoop, separated, hc, hx, hd]
          rfl

/-- What the loop has read is a document unless it is nothing. -/
def nonempty : List Definition × Cursor → Except SyntaxError Document
  | ([], c) => c.fail .emptyDocument
  | (x :: xs, _) => .ok (x :: xs)

end Parser

namespace Document
open WireSchema.Parser

theorem ofLexemes_eq_loop {l : Lexeme} {ls : List Lexeme} {n : Nat}
    {r : Except SyntaxError (List Definition × Cursor)}
    (h : definitionLoop.within n ⟨l, ls⟩ = some r) : ofLexemes (l :: ls) = r >>= nonempty := by
  by_cases hl : l.token = .eof
  · obtain rfl := Loop.eq_of_stops (by simp [definitionLoop, Cursor.token, hl]) h
    simp [ofLexemes, hl, nonempty, Cursor.fail]
  · rw [ofLexemes, if_neg hl, definitions_repeats.rule_eq_of_within h]
    cases r with
    | error e => rfl
    | ok r =>
      obtain ⟨xs, d⟩ := r
      have hne := Loop.ne_nil_of_goes (by simp [definitionLoop, Cursor.token, hl]) h
      obtain ⟨x, xs, rfl⟩ := List.exists_cons_of_ne_nil hne
      rfl

/-- A list of tokens that lacks its end is refused and not searched for it. -/
theorem ofLexemes_error_of_no_eof {ts : List Lexeme} (h : ∀ l ∈ ts, l.token ≠ .eof) :
    ∃ e, ofLexemes ts = .error e := by
  cases hdoc : ofLexemes ts with
  | error e => exact ⟨e, rfl⟩
  | ok doc =>
    obtain ⟨before, eof, after, rfl, heof, -⟩ := derivation_of_ofLexemes hdoc
    exact absurd heof (h eof (by simp))

/-- On any list with a token in it the cursor stays in the list, each loop of the parser moves it
on with every turn, and so each comes to an end; the parser gives what its loops come to. A list
without the end of the text is refused. -/
theorem ofLexemes_ends (ts : List Lexeme) (hts : ts ≠ []) :
    (∀ (c : Cursor) (i : Nat), c.StandsAt ts i → i < ts.length ∧ ts[i]? = some c.here ∧
      c.advance.StandsAt ts (min (i + 1) (ts.length - 1))) ∧
    definitionLoop.Progresses ts ∧ (itemLoop field).Progresses ts ∧
    (itemLoop method).Progresses ts ∧ entryLoop.Progresses ts ∧ elementLoop.Progresses ts ∧
    (∃ (start : Cursor) (r : Except SyntaxError (List Definition × Cursor)), start.StandsAt ts 0 ∧
      definitionLoop.within ts.length start = some r ∧ ofLexemes ts = r >>= nonempty) ∧
    (∀ n c r, (itemLoop field).within n c = some r →
      items field field_consumes c = (fun (xs, d) => (xs, d.advance)) <$> r) ∧
    (∀ n c r, (itemLoop method).within n c = some r →
      items method method_consumes c = (fun (xs, d) => (xs, d.advance)) <$> r) ∧
    (∀ n c r, c.isAt .closeBrace = false → entryLoop.within n c = some r →
      items option option_consumes c = (fun (xs, d) => (xs, d.advance)) <$> r) ∧
    (∀ n c r, elementLoop.within n c = some r → moreScalars c = r) ∧
    ((∀ l ∈ ts, l.token ≠ .eof) → ∃ e, ofLexemes ts = .error e) := by
  obtain ⟨l, ls, rfl⟩ := List.exists_cons_of_ne_nil hts
  refine ⟨?_, definitionLoop_consuming.progresses definition_staysInside,
    (itemLoop_consuming field_consumes).progresses (separated_staysInside field_staysInside),
    (itemLoop_consuming method_consumes).progresses (separated_staysInside method_staysInside),
    entryLoop_consuming.progresses (separated_staysInside option_staysInside),
    elementLoop_consuming.progresses elementLoop_staysInside, ?_,
    fun n c r h => items_repeats.rule_eq_of_within h,
    fun n c r h => items_repeats.rule_eq_of_within h, ?_, ?_, ofLexemes_error_of_no_eof⟩
  · intro c i hc
    have hlen := hc.length_eq
    exact ⟨by omega, hc.getElem?, hc.advance⟩
  · have hsome := Loop.isSome_within definitionLoop_consuming (c := ⟨l, ls⟩)
      (n := (l :: ls).length) (Nat.lt_succ_self _)
    obtain ⟨r, hr⟩ := Option.isSome_iff_exists.1 hsome
    exact ⟨⟨l, ls⟩, r, rfl, hr, ofLexemes_eq_loop hr⟩
  · intro n c r hc h
    have hitems := entries_repeats.rule_eq_of_within h
    simpa [hc] using hitems
  · intro n c r h
    rw [moreScalars_repeats.rule_eq_of_within h, id_map]

/-- The text breaks off behind an option, and the brace that would close the block never comes. -/
theorem ofLexemes_ends_unclosed :
    let ts : List Lexeme :=
      [⟨.word "options", ⟨1, 1⟩⟩, ⟨.punct .openBrace, ⟨1, 9⟩⟩, ⟨.word "a", ⟨1, 11⟩⟩,
        ⟨.punct .equals, ⟨1, 13⟩⟩, ⟨.literal (.str "b"), ⟨1, 15⟩⟩]
    ts ≠ [] ∧ definitionLoop.Progresses ts ∧ entryLoop.Progresses ts ∧
      (∀ l ∈ ts, l.token ≠ .eof) ∧ ∃ e, ofLexemes ts = .error e := by
  intro ts
  have hts : ts ≠ [] := List.cons_ne_nil _ _
  have heof : ∀ l ∈ ts, l.token ≠ .eof := by decide
  obtain ⟨-, hdefs, -, -, hentries, -, -, -, -, -, -, herror⟩ := ofLexemes_ends ts hts
  exact ⟨hts, hdefs, hentries, heof, herror heof⟩

end Document
end WireSchema
