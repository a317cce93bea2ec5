import WireSchema.Proofs.JsonSpacing

/-! JSON texts are read as they are written, with any blanks: a value is passed over up to its end,
whatever it stands in, and an object comes apart into its keys and the texts of its values. Floats
are left out, for nothing that is read back holds one. -/
namespace WireSchema
namespace Json

mutual

/-- No float is in the value. -/
def FloatFree : Json → Prop
  | .float _ => False
  | .arr items => FloatFreeItems items
  | .obj members => FloatFreeMembers members
  | _ => True

def FloatFreeItems : List Json → Prop
  | [] => True
  | j :: js => j.FloatFree ∧ FloatFreeItems js

def FloatFreeMembers : List (String × Json) → Prop
  | [] => True
  | (_, j) :: ms => j.FloatFree ∧ FloatFreeMembers ms

end

theorem floatFreeMembers_iff {ms : List (String × Json)} :
    FloatFreeMembers ms ↔ ∀ m ∈ ms, m.2.FloatFree := by
  induction ms with
  | nil => simp [FloatFreeMembers]
  | cons m ms ih => simp [FloatFreeMembers, ih]

/-- A value that is written is known by its first character, which is no blank and closes no array.
-/
theorem exists_head_of_spaced {j : Json} {t : List Char} (hj : j.FloatFree) (h : j.Spaced t) :
    ∃ c cs, t = c :: cs ∧ Reader.isBlank c = false ∧ Kind.ofChar c = j.kind ∧ c ≠ ']' := by
  cases j with
  | null => exact ⟨'n', _, h, by decide, rfl, by decide⟩
  | bool b =>
    cases b with
    | false => exact ⟨'f', _, h, by decide, rfl, by decide⟩
    | true => exact ⟨'t', _, h, by decide, rfl, by decide⟩
  | int n =>
    obtain ⟨hne, hpart⟩ := leaf_of_number (j := .int n) rfl trivial
    obtain ⟨c, cs, hcs⟩ := List.exists_cons_of_ne_nil hne
    have hc := hpart c (by rw [hcs]; simp)
    exact ⟨c, cs, h.trans hcs, isBlank_of_isPart hc, Kind.ofChar_of_isPart hc⟩
  | float x => exact hj.elim
  | str s => exact ⟨'"', _, h, by decide, rfl, by decide⟩
  | arr items =>
    obtain ⟨ts, rfl, -⟩ := h
    exact ⟨'[', _, rfl, by decide, rfl, by decide⟩
  | obj members =>
    obtain ⟨ts, rfl, -⟩ := h
    exact ⟨'\x7b', _, rfl, by decide, rfl, by decide⟩

namespace Reader
variable {b cs ds rest : List Char} {c : Char} {frames : List Frame}

theorem skipBlank_append (hb : Blanks b) (hc : isBlank c = false) (cs : List Char) :
    skipBlank (b ++ c :: cs) = c :: cs := by
  rw [skipBlank, List.dropWhile_append_of_pos hb, List.dropWhile_cons_of_neg (by simp [hc])]

/-! ## Leaves -/

theorem skipString_quote (rest : List Char) : skipString ('"' :: rest) = some rest := by
  unfold skipString
  simp

theorem skipString_plain (hquote : c ≠ '"') (hslash : c ≠ '\\') (hcontrol : ¬ c.toNat < 0x20)
    (cs : List Char) : skipString (c :: cs) = skipString cs := by
  conv_lhs => unfold skipString
  simp [hquote, hslash, hcontrol]

theorem skipString_escape {e : Char} (hne : e ≠ 'u') (he : (escaped? e).isSome = true)
    (cs : List Char) : skipString ('\\' :: e :: cs) = skipString cs := by
  rw [skipString.eq_3 _ _ _ fun _ _ _ _ _ h => absurd h hne]
  simp [he]

/-- Whatever a character is written as, it is skipped as one. -/
theorem skipString_strChar (c : Char) (cs : List Char) :
    skipString (strChar c ++ cs) = skipString cs := by
  have hdigit : ∀ k < 16, isDigitOf 16 (Nat.digitChar k) = true := by decide
  rcases strChar_cases c with ⟨hc, hquote, hslash, hcontrol⟩ | ⟨e, hc, hne, he⟩ | ⟨hc, hcontrol⟩
  · rw [hc]
    exact skipString_plain hquote hslash hcontrol cs
  · rw [hc]
    exact skipString_escape hne (by rw [he]; rfl) cs
  · have hhigh := hdigit (c.toNat / 16) (by omega)
    have hlow := hdigit (c.toNat % 16) (by omega)
    simp [hc, hexPair, skipString, hhigh, hlow, show isDigitOf 16 '0' = true by decide]

/-- The quote that is skipped to is the one that ends the string, as those inside are escaped. -/
theorem skipString_strText (s : String) (rest : List Char) :
    skipString (s.toList.flatMap strChar ++ '"' :: rest) = some rest := by
  induction s.toList with
  | nil => exact skipString_quote rest
  | cons c cs ih => rw [List.flatMap_cons, List.append_assoc, skipString_strChar, ih]

/-- Only zero is written with a zero at its head. -/
theorem toDigits_head (n : Nat) :
    Nat.toDigits 10 n = ['0'] ∨ ∃ d ds, Nat.toDigits 10 n = d :: ds ∧ d ≠ '0' := by
  induction n using Nat.strongRecOn with
  | ind n ih =>
    rcases Nat.lt_or_ge n 10 with hn | hn
    · rw [Nat.toDigits_of_lt_base hn]
      have hdigit : ∀ k < 10, k ≠ 0 → Nat.digitChar k ≠ '0' := by decide
      rcases Nat.eq_zero_or_pos n with rfl | hpos
      · exact .inl rfl
      · exact .inr ⟨_, [], rfl, hdigit n hn (by omega)⟩
    · rw [Nat.toDigits_of_base_le (by omega) hn]
      right
      rcases ih (n / 10) (by omega) with h | ⟨d, ds, h, hd⟩
      · have hvalue := digitsValue_toDigits (n / 10)
        rw [h, show digitsValue 10 ['0'] = 0 by decide] at hvalue
        omega
      · exact ⟨d, ds ++ [_], by rw [h]; rfl, hd⟩

theorem skipFraction_of_noneNext (h : NoneNext NumberStyle.isPart rest) :
    skipFraction rest = some rest := by
  cases rest with
  | nil => rfl
  | cons c cs =>
    have hpart : NumberStyle.isPart c = false := h c rfl
    have hne (d : Char) (hd : NumberStyle.isPart d = true) : c ≠ d := by
      rintro rfl
      simp [hpart] at hd
    have hexponent : ¬ (c = 'e' ∨ c = 'E') := not_or.2 ⟨hne 'e' (by decide), hne 'E' (by decide)⟩
    unfold skipFraction
    split
    next hc => exact absurd (List.cons.inj hc).1 (hne '.' (by decide))
    next => rw [skipExponent, if_neg hexponent]

theorem noneNext_digit (h : NoneNext NumberStyle.isPart rest) : NoneNext (isDigitOf 10) rest := by
  intro c hc
  have hpart := h c hc
  simp only [NumberStyle.isPart, Bool.or_eq_false_iff] at hpart
  exact hpart.1

/-- A run of digits is taken to its end. -/
theorem digits?_append (hds : Digits 10 ds) (hne : ds ≠ []) (h : NoneNext (isDigitOf 10) rest) :
    digits? (ds ++ rest) = some rest := by
  obtain ⟨d, es, rfl⟩ := List.exists_cons_of_ne_nil hne
  have hd : isDigitOf 10 d = true := hds d (by simp)
  have hskip : skipDigits (d :: es ++ rest) = rest := by
    rw [skipDigits, List.dropWhile_append_of_pos hds]
    cases rest with
    | nil => rfl
    | cons c cs => rw [List.dropWhile_cons_of_neg (by simp [h c rfl])]
  rw [digits?, if_pos (by simpa using hd), hskip]

theorem skipUnsigned_toDigits (n : Nat) (h : NoneNext NumberStyle.isPart rest) :
    skipUnsigned (Nat.toDigits 10 n ++ rest) = some rest := by
  rcases toDigits_head n with hn | ⟨d, es, hn, hd⟩
  · rw [hn, List.singleton_append, skipUnsigned, (noneNext_digit h).any]
    exact skipFraction_of_noneNext h
  · have hdigits := digits?_append (digits_toDigits n) Nat.toDigits_ne_nil (noneNext_digit h)
    unfold skipUnsigned
    split
    next cs hcs =>
      rw [hn] at hcs
      exact absurd (List.cons.inj hcs).1 hd
    next => rw [hdigits]; exact skipFraction_of_noneNext h

theorem skipLeaf_of_isDigit {d : Char} (hd : isDigitOf 10 d = true) (cs : List Char) :
    skipLeaf (d :: cs) = skipUnsigned (d :: cs) := by
  unfold skipLeaf
  split
  next h => exact absurd hd (by rw [(List.cons.inj h).1]; decide)
  next h => exact absurd hd (by rw [(List.cons.inj h).1]; decide)
  next h => exact absurd hd (by rw [(List.cons.inj h).1]; decide)
  next h => exact absurd hd (by rw [(List.cons.inj h).1]; decide)
  next h => exact absurd hd (by rw [(List.cons.inj h).1]; decide)
  next => rfl

/-- A written integer is skipped to its end, with its sign. -/
theorem skipLeaf_decimalText (n : Int) (h : NoneNext NumberStyle.isPart rest) :
    skipLeaf (decimalText n ++ rest) = some rest := by
  have hskip := skipUnsigned_toDigits n.natAbs h
  by_cases hn : n < 0
  · simpa [decimalText, minus, hn, skipLeaf] using hskip
  · obtain ⟨d, ds, hds⟩ := List.exists_cons_of_ne_nil
      (Nat.toDigits_ne_nil (b := 10) (n := n.natAbs))
    have hd : isDigitOf 10 d = true := digits_toDigits n.natAbs d (by rw [hds]; simp)
    rw [hds] at hskip
    simpa [decimalText, minus, hn, hds, skipLeaf_of_isDigit hd] using hskip

/-- A value without parts ends before anything that could not go on with a number. -/
theorem skipLeaf_leaf {j : Json} (hj : j.FloatFree) (harray : j.kind ≠ .array)
    (hobject : j.kind ≠ .object) (h : NoneNext NumberStyle.isPart rest) :
    skipLeaf (j.leaf ++ rest) = some rest := by
  cases j with
  | null => rfl
  | bool b => cases b <;> rfl
  | int n =>
    rw [leaf, toList_toString_int]
    exact skipLeaf_decimalText n h
  | float x => exact hj.elim
  | str s => simpa [leaf, strText, skipLeaf] using skipString_strText s rest
  | arr items => exact absurd rfl harray
  | obj members => exact absurd rfl hobject

/-! ## The walk over a value

One equation for each step, told by the character that is met. -/

/-- A value that is neither an array nor an object is a leaf. -/
theorem skipValue_leaf (hb : skipBlank cs = c :: ds) (harray : c ≠ '[') (hobject : c ≠ '\x7b')
    (hl : skipLeaf (c :: ds) = some rest) : skipValue frames cs = skipAfter frames rest := by
  rw [skipValue]
  split
  next h =>
    rw [hb] at h
    exact absurd (List.cons.inj h).1 harray
  next h =>
    rw [hb] at h
    exact absurd (List.cons.inj h).1 hobject
  next =>
    split
    next h =>
      rw [hb, hl] at h
      cases h
    next h =>
      rw [hb, hl] at h
      cases h
      rfl

theorem skipValue_emptyArray (hb : skipBlank cs = '[' :: ds) (hd : skipBlank ds = ']' :: rest) :
    skipValue frames cs = skipAfter frames rest := by
  rw [skipValue]
  split
  next h =>
    rw [hb] at h
    cases h
    split
    next h =>
      rw [hd] at h
      cases h
      rfl
    next h => exact absurd hd (h rest)
  next h =>
    rw [hb] at h
    cases h
  next h _ => exact absurd hb (h ds)

/-- An array that holds something is entered. -/
theorem skipValue_array (hb : skipBlank cs = '[' :: ds) (hd : skipBlank ds = c :: rest)
    (hc : c ≠ ']') : skipValue frames cs = skipValue (.array :: frames) ds := by
  rw [skipValue]
  split
  next h =>
    rw [hb] at h
    cases h
    split
    next h =>
      rw [hd] at h
      exact absurd (List.cons.inj h).1 hc
    next => rfl
  next h =>
    rw [hb] at h
    cases h
  next h _ => exact absurd hb (h ds)

theorem skipValue_emptyObject (hb : skipBlank cs = '\x7b' :: ds)
    (hd : skipBlank ds = '\x7d' :: rest) : skipValue frames cs = skipAfter frames rest := by
  rw [skipValue]
  split
  next h =>
    rw [hb] at h
    cases h
  next h =>
    rw [hb] at h
    cases h
    split
    next h =>
      rw [hd] at h
      cases h
      rfl
    next h => exact absurd hd (h rest)
  next h => exact absurd hb (h ds)

/-- An object that holds something is entered. -/
theorem skipValue_object (hb : skipBlank cs = '\x7b' :: ds) (hd : skipBlank ds = c :: rest)
    (hc : c ≠ '\x7d') : skipValue frames cs = skipMember (.object :: frames) ds := by
  rw [skipValue]
  split
  next h =>
    rw [hb] at h
    cases h
  next h =>
    rw [hb] at h
    cases h
    split
    next h =>
      rw [hd] at h
      exact absurd (List.cons.inj h).1 hc
    next => rfl
  next h => exact absurd hb (h ds)

/-- A key and a colon lead to the value of a member. -/
theorem skipMember_value {es : List Char} (hb : skipBlank cs = '"' :: ds)
    (hk : skipString ds = some es) (hc : skipBlank es = ':' :: rest) :
    skipMember frames cs = skipValue frames rest := by
  rw [skipMember]
  split
  next h =>
    rw [hb] at h
    cases h
    split
    next h =>
      rw [hk] at h
      cases h
    next h =>
      rw [hk] at h
      cases h
      split
      next h =>
        rw [hc] at h
        cases h
        rfl
      next h => exact absurd hc (h rest)
  next h => exact absurd hb (h ds)

theorem skipAfter_nil (cs : List Char) : skipAfter [] cs = some cs := by
  unfold skipAfter
  rfl

/-- Behind a comma there is another item. -/
theorem skipAfter_arrayComma (frames : List Frame) (hb : skipBlank cs = ',' :: rest) :
    skipAfter (.array :: frames) cs = skipValue (.array :: frames) rest := by
  conv_lhs => unfold skipAfter
  split <;> simp_all

/-- A closing bracket leads back to what is around the array. -/
theorem skipAfter_arrayEnd (frames : List Frame) (hb : skipBlank cs = ']' :: rest) :
    skipAfter (.array :: frames) cs = skipAfter frames rest := by
  conv_lhs => unfold skipAfter
  split <;> simp_all

theorem skipAfter_objectComma (frames : List Frame) (hb : skipBlank cs = ',' :: rest) :
    skipAfter (.object :: frames) cs = skipMember (.object :: frames) rest := by
  conv_lhs => unfold skipAfter
  split <;> simp_all

theorem skipAfter_objectEnd (frames : List Frame) (hb : skipBlank cs = '\x7d' :: rest) :
    skipAfter (.object :: frames) cs = skipAfter frames rest := by
  conv_lhs => unfold skipAfter
  split <;> simp_all

theorem noneNext_blanks {e : List Char} (he : Blanks e) (hc : NumberStyle.isPart c = false)
    (cs : List Char) : NoneNext NumberStyle.isPart (e ++ c :: cs) := by
  intro d hd
  cases e with
  | nil =>
    obtain rfl := Option.some.inj hd
    exact hc
  | cons f e =>
    obtain rfl := Option.some.inj hd
    have hblank := he f (by simp)
    by_contra hpart
    rw [isBlank_of_isPart (by simpa using hpart)] at hblank
    cases hblank

/-- A key is skipped with the blanks on both sides of it. -/
theorem skipMember_key (frames : List Frame) (key : String) (hb : Blanks b) (hc : Blanks cs)
    (rest : List Char) :
    skipMember frames (b ++ (strText key ++ (cs ++ ':' :: rest))) = skipValue frames rest := by
  have hquote : skipBlank (b ++ (strText key ++ (cs ++ ':' :: rest))) =
      '"' :: (key.toList.flatMap strChar ++ '"' :: (cs ++ ':' :: rest)) := by
    simpa [strText] using skipBlank_append hb (by decide : isBlank '"' = false) _
  exact skipMember_value hquote (skipString_strText key _) (skipBlank_append hc (by decide) rest)

theorem skipBlank_items {j : Json} {js : List Json} {ts : List Char} (hj : j.FloatFree)
    (h : SpacedItems (j :: js) ts) (rest : List Char) :
    ∃ c cs, skipBlank (ts ++ rest) = c :: cs ∧ c ≠ ']' := by
  obtain ⟨b, u, v, rfl, hb, hu⟩ : ∃ b u v, ts = b ++ (u ++ v) ∧ Blanks b ∧ j.Spaced u := by
    cases js with
    | nil =>
      obtain ⟨b, u, e, rfl, hb, hu, -⟩ := h
      exact ⟨b, u, e, rfl, hb, hu⟩
    | cons k js =>
      obtain ⟨b, u, e, ts, rfl, hb, hu, -⟩ := h
      exact ⟨b, u, _, rfl, hb, hu⟩
  obtain ⟨c, cs, rfl, hblank, -, hclose⟩ := exists_head_of_spaced hj hu
  refine ⟨c, cs ++ (v ++ rest), ?_, hclose⟩
  simpa using skipBlank_append hb hblank (cs ++ (v ++ rest))

theorem skipBlank_members {m : String × Json} {ms : List (String × Json)} {ts : List Char}
    (h : SpacedMembers (m :: ms) ts) (rest : List Char) :
    ∃ cs, skipBlank (ts ++ rest) = '"' :: cs := by
  obtain ⟨key, j⟩ := m
  obtain ⟨b, v, rfl, hb⟩ : ∃ b v, ts = b ++ (strText key ++ v) ∧ Blanks b := by
    cases ms with
    | nil =>
      obtain ⟨b, c, d, u, e, rfl, hb, -⟩ := h
      exact ⟨b, _, rfl, hb⟩
    | cons k ms =>
      obtain ⟨b, c, d, u, e, ts, rfl, hb, -⟩ := h
      exact ⟨b, _, rfl, hb⟩
  refine ⟨key.toList.flatMap strChar ++ '"' :: (v ++ rest), ?_⟩
  simpa [strText] using skipBlank_append hb (by decide : isBlank '"' = false) _

/-- A leaf is skipped with the blanks before it, whatever is around it. -/
theorem skipValue_spacedLeaf {j : Json} {t : List Char} (harray : j.kind ≠ .array)
    (hobject : j.kind ≠ .object) (hj : j.FloatFree) (hb : Blanks b) (ht : j.Spaced t)
    (hr : NoneNext NumberStyle.isPart rest) :
    skipValue frames (b ++ (t ++ rest)) = skipAfter frames rest := by
  obtain ⟨c, cs, hcs, hblank, hkind, -⟩ := exists_head_of_spaced hj ht
  have hleaf : t = j.leaf := by
    cases j with
    | arr items => exact absurd rfl harray
    | obj members => exact absurd rfl hobject
    | _ => exact ht
  have hskip := skipLeaf_leaf hj harray hobject hr
  rw [← hleaf, hcs] at hskip
  rw [hcs]
  refine skipValue_leaf (skipBlank_append hb hblank _) ?_ ?_ hskip
  · rintro rfl
    exact harray hkind.symm
  · rintro rfl
    exact hobject hkind.symm

mutual

/-- A value is passed over, and the walk goes on in what the value stands in. -/
theorem skipValue_spaced (j : Json) {b t : List Char} (rest : List Char) (frames : List Frame)
    (hj : j.FloatFree) (hb : Blanks b) (ht : j.Spaced t) (hr : NoneNext NumberStyle.isPart rest) :
    skipValue frames (b ++ (t ++ rest)) = skipAfter frames rest := by
  cases j with
  | arr items =>
    obtain ⟨ts, rfl, hts⟩ := ht
    have hopen : skipBlank (b ++ ('[' :: (ts ++ [']']) ++ rest)) = '[' :: (ts ++ ']' :: rest) := by
      simpa using skipBlank_append hb (by decide : isBlank '[' = false) (ts ++ ']' :: rest)
    cases items with
    | nil => exact skipValue_emptyArray hopen (skipBlank_append hts (by decide) rest)
    | cons j js =>
      obtain ⟨c, cs, hhead, hclose⟩ := skipBlank_items hj.1 hts (']' :: rest)
      rw [skipValue_array hopen hhead hclose]
      exact skipValue_spacedItems (j :: js) rest frames (by simp) hj hts
  | obj members =>
    obtain ⟨ts, rfl, hts⟩ := ht
    have hopen : skipBlank (b ++ ('\x7b' :: (ts ++ ['\x7d']) ++ rest)) =
        '\x7b' :: (ts ++ '\x7d' :: rest) := by
      simpa using skipBlank_append hb (by decide : isBlank '\x7b' = false) (ts ++ '\x7d' :: rest)
    cases members with
    | nil => exact skipValue_emptyObject hopen (skipBlank_append hts (by decide) rest)
    | cons m ms =>
      obtain ⟨cs, hhead⟩ := skipBlank_members hts ('\x7d' :: rest)
      rw [skipValue_object hopen hhead (by decide)]
      exact skipMember_spacedMembers (m :: ms) rest frames (by simp) hj hts
  | _ => exact skipValue_spacedLeaf (by simp [kind]) (by simp [kind]) hj hb ht hr

theorem skipValue_spacedItems : ∀ (js : List Json) {ts : List Char} (rest : List Char)
    (frames : List Frame), js ≠ [] → FloatFreeItems js → SpacedItems js ts →
    skipValue (.array :: frames) (ts ++ ']' :: rest) = skipAfter frames rest
  | [], _, _, _, hne, _, _ => absurd rfl hne
  | [j], _, rest, frames, _, hjs, ⟨b, u, e, rfl, hb, hu, he⟩ => by
    have hj := skipValue_spaced j (e ++ ']' :: rest) (.array :: frames) hjs.1 hb hu
      (noneNext_blanks he (by decide) rest)
    have hend := skipAfter_arrayEnd frames
      (skipBlank_append he (by decide) rest)
    simpa using hj.trans hend
  | j :: k :: js, _, rest, frames, _, hjs, ⟨b, u, e, ts, rfl, hb, hu, he, hts⟩ => by
    have hj := skipValue_spaced j (e ++ ',' :: (ts ++ ']' :: rest)) (.array :: frames) hjs.1 hb hu
      (noneNext_blanks he (by decide) _)
    have hcomma := skipAfter_arrayComma frames
      (skipBlank_append he (by decide) (ts ++ ']' :: rest))
    have hitems := skipValue_spacedItems (k :: js) rest frames (by simp) hjs.2 hts
    simpa using (hj.trans hcomma).trans hitems

theorem skipMember_spacedMembers : ∀ (ms : List (String × Json)) {ts : List Char}
    (rest : List Char) (frames : List Frame), ms ≠ [] → FloatFreeMembers ms → SpacedMembers ms ts →
    skipMember (.object :: frames) (ts ++ '\x7d' :: rest) = skipAfter frames rest
  | [], _, _, _, hne, _, _ => absurd rfl hne
  | [(key, j)], _, rest, frames, _, hms, ⟨b, c, d, u, e, rfl, hb, hc, hd, hu, he⟩ => by
    have hkey := skipMember_key (.object :: frames) key hb hc
      (d ++ (u ++ (e ++ '\x7d' :: rest)))
    have hj := skipValue_spaced j (e ++ '\x7d' :: rest) (.object :: frames) hms.1 hd hu
      (noneNext_blanks he (by decide) rest)
    have hend := skipAfter_objectEnd frames
      (skipBlank_append he (by decide) rest)
    simpa using (hkey.trans hj).trans hend
  | (key, j) :: m :: ms, _, rest, frames, _, hms,
      ⟨b, c, d, u, e, ts, rfl, hb, hc, hd, hu, he, hts⟩ => by
    have hkey := skipMember_key (.object :: frames) key hb hc
      (d ++ (u ++ (e ++ ',' :: (ts ++ '\x7d' :: rest))))
    have hj := skipValue_spaced j (e ++ ',' :: (ts ++ '\x7d' :: rest)) (.object :: frames) hms.1 hd
      hu (noneNext_blanks he (by decide) _)
    have hcomma := skipAfter_objectComma frames
      (skipBlank_append he (by decide) (ts ++ '\x7d' :: rest))
    have hmembers := skipMember_spacedMembers (m :: ms) rest frames (by simp) hms.2 hts
    simpa using ((hkey.trans hj).trans hcomma).trans hmembers

end

/-! ## Objects -/

/-- A value is cut out of the text without the blanks before it. -/
theorem value?_spaced {j : Json} {t : List Char} (hj : j.FloatFree) (hb : Blanks b)
    (ht : j.Spaced t) (hr : NoneNext NumberStyle.isPart rest) :
    value? (b ++ (t ++ rest)) = some (t, rest) := by
  obtain ⟨c, cs, rfl, hblank, -⟩ := exists_head_of_spaced hj ht
  have hskip := skipValue_spaced j rest [] hj blanks_nil ht hr
  rw [skipAfter_nil, List.nil_append] at hskip
  have htake : (c :: cs ++ rest).take ((c :: cs ++ rest).length - rest.length) = c :: cs := by
    rw [List.length_append, Nat.add_sub_cancel, List.take_left]
  rw [value?, List.cons_append, skipBlank_append hb hblank, ← List.cons_append, hskip]
  simp only [htake]

/-- A member is cut out with its key read and its value as written. -/
theorem member?_spaced {j : Json} {u es : List Char} (key : String) (hj : j.FloatFree)
    (hb : Blanks b) (hc : Blanks cs) (hd : Blanks ds) (hu : j.Spaced u) (he : Blanks es)
    (hsign : NumberStyle.isPart c = false) (rest : List Char) :
    member? (b ++ (strText key ++ (cs ++ ':' :: (ds ++ (u ++ (es ++ c :: rest)))))) =
      some ((key, u), es ++ c :: rest) := by
  have hvalue := value?_spaced hj hd hu (noneNext_blanks he hsign rest)
  rw [member?, strText, List.cons_append, List.cons_append, skipBlank_append hb (by decide),
    List.append_assoc, List.singleton_append]
  simp [readString_strText, skipBlank_append hc (by decide : isBlank ':' = false), hvalue]

section Separated
variable {α : Type} {item? : List Char → Option (α × List Char)}
  {shorter : ∀ {cs a rest}, item? cs = some (a, rest) → rest.length < cs.length} {close : Char}
  {a : α}

theorem separated_last (hitem : item? cs = some (a, ds)) (hb : skipBlank ds = close :: rest) :
    separated item? shorter close cs = some ([a], rest) := by
  unfold separated
  split
  next h =>
    rw [hitem] at h
    cases h
  next h =>
    rw [hitem] at h
    cases h
    split
    next h =>
      rw [hb] at h
      cases h
      rw [if_pos rfl]
    next h =>
      rw [hb] at h
      cases h

/-- An item with a comma behind it comes before the others. -/
theorem separated_comma (hitem : item? cs = some (a, ds)) (hb : skipBlank ds = ',' :: rest)
    (hclose : ',' ≠ close) : separated item? shorter close cs =
      (separated item? shorter close rest).map fun p => (a :: p.1, p.2) := by
  conv_lhs => unfold separated
  split
  next h =>
    rw [hitem] at h
    cases h
  next h =>
    rw [hitem] at h
    cases h
    split
    next h =>
      rw [hb] at h
      cases h
      rw [if_neg hclose, if_pos rfl]
    next h =>
      rw [hb] at h
      cases h

end Separated

/-- The key of a member with a text of its value. -/
def Tells (m : String × Json) (p : String × List Char) : Prop := m.1 = p.1 ∧ m.2.Spaced p.2

theorem separated_spacedMembers : ∀ (ms : List (String × Json)) {ts : List Char} (rest : List Char),
    ms ≠ [] → FloatFreeMembers ms → SpacedMembers ms ts →
    ∃ ps, separated member? member?_length '\x7d' (ts ++ '\x7d' :: rest) = some (ps, rest) ∧
      List.Forall₂ Tells ms ps
  | [], _, _, hne, _, _ => absurd rfl hne
  | [(key, j)], _, rest, _, hms, ⟨b, c, d, u, e, rfl, hb, hc, hd, hu, he⟩ => by
    have hmember := member?_spaced key hms.1 hb hc hd hu he
      (by decide : NumberStyle.isPart '\x7d' = false) rest
    refine ⟨[(key, u)], ?_, .cons ⟨rfl, hu⟩ .nil⟩
    simpa using separated_last hmember (skipBlank_append he (by decide) rest)
  | (key, j) :: m :: ms, _, rest, _, hms,
      ⟨b, c, d, u, e, ts, rfl, hb, hc, hd, hu, he, hts⟩ => by
    have hmember := member?_spaced key hms.1 hb hc hd hu he
      (by decide : NumberStyle.isPart ',' = false) (ts ++ '\x7d' :: rest)
    obtain ⟨ps, hps, htells⟩ := separated_spacedMembers (m :: ms) rest (by simp) hms.2 hts
    have hcomma : separated member? member?_length '\x7d' _ = _ := separated_comma hmember
      (skipBlank_append he (by decide) (ts ++ '\x7d' :: rest)) (by decide)
    refine ⟨(key, u) :: ps, ?_, .cons ⟨rfl, hu⟩ htells⟩
    rw [hps] at hcomma
    simpa using hcomma

/-- An object comes apart into its keys and the texts of its values. -/
theorem object?_spaced {ms : List (String × Json)} {t : List Char} (hms : FloatFreeMembers ms)
    (h : (Json.obj ms).Spaced t) : ∃ ps, object? t = some ps ∧ List.Forall₂ Tells ms ps := by
  obtain ⟨ts, rfl, hts⟩ := h
  cases ms with
  | nil =>
    refine ⟨[], ?_, .nil⟩
    have hempty : skipBlank (ts ++ ['\x7d']) = ['\x7d'] := skipBlank_append hts (by decide) []
    simp [object?, enclosed?, hempty]
  | cons m ms =>
    obtain ⟨cs, hhead⟩ := skipBlank_members hts ['\x7d']
    obtain ⟨ps, hps, htells⟩ := separated_spacedMembers (m :: ms) [] (by simp) hms hts
    exact ⟨ps, by simp [object?, enclosed?, hhead, hps], htells⟩

end Reader
end Json
end WireSchema
