import WireSchema.Proofs.JsonText

/-! JSON texts with blanks between their parts. The compact text of a value is the one without any
blanks, and every other text becomes the compact one when its blanks are taken out, except those
in strings. So the pretty text tells a value as well as the compact text does. -/
namespace WireSchema
namespace Json

/-- What may stand between the parts of a value. -/
def Blanks (b : List Char) : Prop := ∀ c ∈ b, Reader.isBlank c = true

theorem blanks_nil : Blanks [] := by simp [Blanks]

theorem blanks_space : Blanks [' '] := by simp [Blanks]; decide

theorem blanks_newline (depth : Nat) : Blanks (newline depth) := by
  intro c hc
  rcases List.mem_cons.1 hc with rfl | hc
  · decide
  · rw [List.eq_of_mem_replicate hc]
    decide

theorem isBlank_of_isPart {c : Char} (h : NumberStyle.isPart c = true) :
    Reader.isBlank c = false := by
  have hne (d : Char) (hd : NumberStyle.isPart d = false) : c ≠ d := by
    rintro rfl
    simp [h] at hd
  simp [Reader.isBlank, hne ' ' (by decide), hne '\n' (by decide), hne '\t' (by decide),
    hne '\r' (by decide)]

mutual

/-- The text is one of the value, with blanks around items, keys and colons. -/
def Spaced : Json → List Char → Prop
  | .arr items, t => ∃ ts, t = '[' :: (ts ++ [']']) ∧ SpacedItems items ts
  | .obj members, t => ∃ ts, t = '\x7b' :: (ts ++ ['\x7d']) ∧ SpacedMembers members ts
  | j, t => t = j.leaf

def SpacedItems : List Json → List Char → Prop
  | [], t => Blanks t
  | [j], t => ∃ b u e, t = b ++ (u ++ e) ∧ Blanks b ∧ j.Spaced u ∧ Blanks e
  | j :: k :: js, t => ∃ b u e ts, t = b ++ (u ++ (e ++ ',' :: ts)) ∧ Blanks b ∧ j.Spaced u ∧
      Blanks e ∧ SpacedItems (k :: js) ts

def SpacedMembers : List (String × Json) → List Char → Prop
  | [], t => Blanks t
  | [(key, j)], t => ∃ b c d u e, t = b ++ (strText key ++ (c ++ ':' :: (d ++ (u ++ e)))) ∧
      Blanks b ∧ Blanks c ∧ Blanks d ∧ j.Spaced u ∧ Blanks e
  | (key, j) :: m :: ms, t => ∃ b c d u e ts,
      t = b ++ (strText key ++ (c ++ ':' :: (d ++ (u ++ (e ++ ',' :: ts))))) ∧
      Blanks b ∧ Blanks c ∧ Blanks d ∧ j.Spaced u ∧ Blanks e ∧ SpacedMembers (m :: ms) ts

end

/-! ## The two written forms -/

mutual

/-- A text without blanks is spaced with none. -/
theorem spaced_compactText (j : Json) : j.Spaced j.compactText := by
  cases j with
  | arr items => exact ⟨_, rfl, spacedItems_compactItems items⟩
  | obj members => exact ⟨_, rfl, spacedMembers_compactMembers members⟩
  | _ => rfl

theorem spacedItems_compactItems : ∀ js : List Json, SpacedItems js (compactItems js)
  | [] => blanks_nil
  | [j] => ⟨[], _, [], by simp [compactItems], blanks_nil, spaced_compactText j, blanks_nil⟩
  | j :: k :: js => ⟨[], _, [], _, by simp [compactItems], blanks_nil, spaced_compactText j,
      blanks_nil, spacedItems_compactItems (k :: js)⟩

theorem spacedMembers_compactMembers :
    ∀ ms : List (String × Json), SpacedMembers ms (compactMembers ms)
  | [] => blanks_nil
  | [(key, j)] => ⟨[], [], [], _, [], by simp [compactMembers], blanks_nil, blanks_nil, blanks_nil,
      spaced_compactText j, blanks_nil⟩
  | (key, j) :: m :: ms => ⟨[], [], [], _, [], _, by simp [compactMembers], blanks_nil, blanks_nil,
      blanks_nil, spaced_compactText j, blanks_nil, spacedMembers_compactMembers (m :: ms)⟩

end

mutual

/-- The indented text of a value is spaced with line ends and with the blank behind each colon. -/
theorem spaced_prettyText (depth : Nat) : ∀ j : Json, j.Spaced (j.prettyText depth)
  | .arr [] => ⟨[], rfl, blanks_nil⟩
  | .arr (j :: js) => ⟨_, by simp [prettyText],
      spacedItems_prettyItems (depth + 1) (blanks_newline depth) (j :: js) (by simp)⟩
  | .obj [] => ⟨[], rfl, blanks_nil⟩
  | .obj (m :: ms) => ⟨_, by simp [prettyText],
      spacedMembers_prettyMembers (depth + 1) (blanks_newline depth) (m :: ms) (by simp)⟩
  | .null | .bool _ | .int _ | .float _ | .str _ => rfl

-- The line end before the closing character belongs to the last item.
theorem spacedItems_prettyItems (depth : Nat) {e : List Char} (he : Blanks e) :
    ∀ js : List Json, js ≠ [] → SpacedItems js (prettyItems depth js ++ e)
  | [], h => absurd rfl h
  | [j], _ => ⟨newline depth, _, e, by simp [prettyItems], blanks_newline depth,
      spaced_prettyText depth j, he⟩
  | j :: k :: js, _ => ⟨newline depth, _, [], _, by simp [prettyItems], blanks_newline depth,
      spaced_prettyText depth j, blanks_nil, spacedItems_prettyItems depth he (k :: js) (by simp)⟩

theorem spacedMembers_prettyMembers (depth : Nat) {e : List Char} (he : Blanks e) :
    ∀ ms : List (String × Json), ms ≠ [] → SpacedMembers ms (prettyMembers depth ms ++ e)
  | [], h => absurd rfl h
  | [(key, j)], _ => ⟨newline depth, [], [' '], _, e, by simp [prettyMembers],
      blanks_newline depth, blanks_nil, blanks_space, spaced_prettyText depth j, he⟩
  | (key, j) :: m :: ms, _ => ⟨newline depth, [], [' '], _, [], _, by simp [prettyMembers],
      blanks_newline depth, blanks_nil, blanks_space, spaced_prettyText depth j, blanks_nil,
      spacedMembers_prettyMembers depth he (m :: ms) (by simp)⟩

end

/-! ## Without blanks -/

/-- Where a character of a text may stand. -/
inductive Place where
  | outside
  | string
  /-- Behind a backslash. -/
  | escape

/-- The text without the blanks outside its strings. -/
def squeeze : Place → List Char → List Char
  | _, [] => []
  | .outside, c :: cs =>
    if Reader.isBlank c then squeeze .outside cs
    else c :: squeeze (if c = '"' then .string else .outside) cs
  | .string, c :: cs =>
    c :: squeeze (if c = '"' then .outside else if c = '\\' then .escape else .string) cs
  | .escape, c :: cs => c :: squeeze .string cs

/-- Blanks outside of strings go. -/
theorem squeeze_blanks {b : List Char} (hb : Blanks b) (rest : List Char) :
    squeeze .outside (b ++ rest) = squeeze .outside rest := by
  induction b with
  | nil => rfl
  | cons c b ih =>
    obtain ⟨hc, hb⟩ := List.forall_mem_cons.1 hb
    rw [List.cons_append, squeeze, if_pos hc, ih hb]

/-- What has neither blanks nor quotes stays. -/
theorem squeeze_plain {u : List Char} (hu : ∀ c ∈ u, Reader.isBlank c = false ∧ c ≠ '"')
    (rest : List Char) : squeeze .outside (u ++ rest) = u ++ squeeze .outside rest := by
  induction u with
  | nil => rfl
  | cons c u ih =>
    obtain ⟨⟨hblank, hquote⟩, hu⟩ := List.forall_mem_cons.1 hu
    simp [squeeze, hblank, hquote, ih hu]

/-- A character stands for itself, or it is escaped by one letter or by its number. -/
theorem strChar_cases (c : Char) :
    (strChar c = [c] ∧ c ≠ '"' ∧ c ≠ '\\' ∧ ¬ c.toNat < 0x20) ∨
    (∃ e, strChar c = ['\\', e] ∧ e ≠ 'u' ∧ Reader.escaped? e = some c) ∨
    (strChar c = '\\' :: 'u' :: '0' :: '0' :: hexPair c.toNat ∧ c.toNat < 0x20) := by
  rw [strChar]
  split_ifs with hquote hslash hback hfeed hline hreturn htab hcontrol
  · exact .inr (.inl ⟨'"', rfl, by decide, by simp [hquote, Reader.escaped?]⟩)
  · exact .inr (.inl ⟨'\\', rfl, by decide, by simp [hslash, Reader.escaped?]⟩)
  · exact .inr (.inl ⟨'b', rfl, by decide, by simp [hback, Reader.escaped?]⟩)
  · exact .inr (.inl ⟨'f', rfl, by decide, by simp [hfeed, Reader.escaped?]⟩)
  · exact .inr (.inl ⟨'n', rfl, by decide, by simp [hline, Reader.escaped?]⟩)
  · exact .inr (.inl ⟨'r', rfl, by decide, by simp [hreturn, Reader.escaped?]⟩)
  · exact .inr (.inl ⟨'t', rfl, by decide, by simp [htab, Reader.escaped?]⟩)
  · exact .inr (.inr ⟨rfl, hcontrol⟩)
  · exact .inl ⟨rfl, hquote, hslash, hcontrol⟩

theorem squeeze_strChar (c : Char) (rest : List Char) :
    squeeze .string (strChar c ++ rest) = strChar c ++ squeeze .string rest := by
  have hdigit : ∀ k < 16, Nat.digitChar k ≠ '"' ∧ Nat.digitChar k ≠ '\\' := by decide
  rcases strChar_cases c with ⟨hc, hquote, hslash, -⟩ | ⟨e, hc, -, -⟩ | ⟨hc, hcontrol⟩
  · simp [hc, squeeze, hquote, hslash]
  · simp [hc, squeeze]
  · have hhigh := hdigit (c.toNat / 16) (by omega)
    have hlow := hdigit (c.toNat % 16) (by omega)
    simp [hc, squeeze, hexPair, hhigh, hlow]

/-- A string is kept as it is, with the blanks in it. -/
theorem squeeze_strText (s : String) (rest : List Char) :
    squeeze .outside (strText s ++ rest) = strText s ++ squeeze .outside rest := by
  have hchars : squeeze .string (s.toList.flatMap strChar ++ '"' :: rest) =
      s.toList.flatMap strChar ++ '"' :: squeeze .outside rest := by
    induction s.toList with
    | nil => simp [squeeze]
    | cons c cs ih => simp [squeeze_strChar, ih]
  simp [strText, squeeze, hchars, Reader.isBlank]

theorem squeeze_leaf {j : Json} (hf : j.Finite) (rest : List Char) :
    squeeze .outside (j.leaf ++ rest) = j.leaf ++ squeeze .outside rest := by
  by_cases hk : j.kind = .number
  · refine squeeze_plain (fun c hc => ?_) rest
    have hpart := (leaf_of_number hk hf).2 c hc
    refine ⟨isBlank_of_isPart hpart, ?_⟩
    rintro rfl
    exact absurd hpart (by decide)
  · cases j with
    | null => simp [leaf, squeeze, Reader.isBlank]
    | bool b => cases b <;> simp [leaf, squeeze, Reader.isBlank]
    | int n => exact absurd rfl hk
    | float x => exact absurd rfl hk
    | str s => exact squeeze_strText s rest
    | arr items => rfl
    | obj members => rfl

theorem squeeze_sign {c : Char} (hblank : Reader.isBlank c = false) (hquote : c ≠ '"')
    (rest : List Char) : squeeze .outside (c :: rest) = c :: squeeze .outside rest := by
  simp [squeeze, hblank, hquote]

mutual

/-- By induction along the value: whatever the blanks, squeezing leaves the compact text. -/
theorem squeeze_spaced : ∀ (j : Json) {t : List Char} (rest : List Char), j.Finite → j.Spaced t →
    squeeze .outside (t ++ rest) = j.compactText ++ squeeze .outside rest
  | .arr items, _, rest, hf, ⟨ts, rfl, hts⟩ => by
    have hitems := squeeze_spacedItems items (']' :: rest) hf hts
    simp [compactText, squeeze_sign, hitems, Reader.isBlank]
  | .obj members, _, rest, hf, ⟨ts, rfl, hts⟩ => by
    have hmembers := squeeze_spacedMembers members ('\x7d' :: rest) hf hts
    simp [compactText, squeeze_sign, hmembers, Reader.isBlank]
  | .null, _, rest, hf, rfl | .bool _, _, rest, hf, rfl | .int _, _, rest, hf, rfl
  | .float _, _, rest, hf, rfl | .str _, _, rest, hf, rfl => squeeze_leaf hf rest

theorem squeeze_spacedItems : ∀ (js : List Json) {t : List Char} (rest : List Char),
    FiniteItems js → SpacedItems js t →
    squeeze .outside (t ++ rest) = compactItems js ++ squeeze .outside rest
  | [], _, rest, _, ht => by simpa [compactItems] using squeeze_blanks ht rest
  | [j], _, rest, hf, ⟨b, u, e, rfl, hb, hu, he⟩ => by
    have hj := squeeze_spaced j (e ++ rest) hf.1 hu
    simp [compactItems, squeeze_blanks hb, hj, squeeze_blanks he]
  | j :: k :: js, _, rest, hf, ⟨b, u, e, ts, rfl, hb, hu, he, hts⟩ => by
    have hj := squeeze_spaced j (e ++ ',' :: (ts ++ rest)) hf.1 hu
    have hjs := squeeze_spacedItems (k :: js) rest hf.2 hts
    simp [compactItems, squeeze_blanks hb, hj, squeeze_blanks he, squeeze_sign, hjs,
      Reader.isBlank]

theorem squeeze_spacedMembers : ∀ (ms : List (String × Json)) {t : List Char} (rest : List Char),
    FiniteMembers ms → SpacedMembers ms t →
    squeeze .outside (t ++ rest) = compactMembers ms ++ squeeze .outside rest
  | [], _, rest, _, ht => by simpa [compactMembers] using squeeze_blanks ht rest
  | [(key, j)], _, rest, hf, ⟨b, c, d, u, e, rfl, hb, hc, hd, hu, he⟩ => by
    have hj := squeeze_spaced j (e ++ rest) hf.1 hu
    simp [compactMembers, squeeze_blanks hb, squeeze_strText, squeeze_blanks hc, squeeze_sign,
      squeeze_blanks hd, hj, squeeze_blanks he, Reader.isBlank]
  | (key, j) :: m :: ms, _, rest, hf, ⟨b, c, d, u, e, ts, rfl, hb, hc, hd, hu, he, hts⟩ => by
    have hj := squeeze_spaced j (e ++ ',' :: (ts ++ rest)) hf.1 hu
    have hms := squeeze_spacedMembers (m :: ms) rest hf.2 hts
    simp [compactMembers, squeeze_blanks hb, squeeze_strText, squeeze_blanks hc, squeeze_sign,
      squeeze_blanks hd, hj, squeeze_blanks he, hms, Reader.isBlank]

end

/-- Two values with the same pretty text are the same. -/
theorem pretty_inj {j j' : Json} (hf : j.Finite) (hf' : j'.Finite) (h : j.pretty = j'.pretty) :
    j = j' := by
  have hsqueeze := congrArg (squeeze .outside) (String.ofList_inj.1 h)
  have hj := squeeze_spaced j [] hf (spaced_prettyText 0 j)
  have hj' := squeeze_spaced j' [] hf' (spaced_prettyText 0 j')
  simp only [List.append_nil] at hj hj'
  rw [hj, hj'] at hsqueeze
  exact compact_inj hf hf' (String.ofList_inj.2 (by simpa [squeeze] using hsqueeze))

end Json
end WireSchema
