import WireSchema.Proofs.Layout

/-! Where a number starts, the longest one that the grammar admits there is taken: it is read if its
value is in range and no word goes on behind it, and otherwise the complaint is about its first
character. -/
namespace WireSchema

/-- A number behind its sign: hexadecimal or binary digits behind their mark, or decimal digits with
a point among them, an exponent, or both. -/
inductive NumberForm : List Char → Prop where
  | hexadecimal {c : Char} {ds : List Char} : c = 'x' ∨ c = 'X' → Digits 16 ds → ds ≠ [] →
      NumberForm ('0' :: c :: ds)
  | binary {c : Char} {ds : List Char} : c = 'b' ∨ c = 'B' → Digits 2 ds → ds ≠ [] →
      NumberForm ('0' :: c :: ds)
  | whole {ds : List Char} : Digits 10 ds → ds ≠ [] → NumberForm ds
  | point {ds f e : List Char} {exponent : Option (List Char × List Char)} : Digits 10 ds →
      ds ≠ [] → Digits 10 f → Numeral.Exponent e exponent → NumberForm (ds ++ '.' :: (f ++ e))
  | leadingPoint {f e : List Char} {exponent : Option (List Char × List Char)} : Digits 10 f →
      f ≠ [] → Numeral.Exponent e exponent → NumberForm ('.' :: (f ++ e))
  | exponent {ds e : List Char} {exponent : List Char × List Char} : Digits 10 ds → ds ≠ [] →
      Numeral.Exponent e (some exponent) → NumberForm (ds ++ e)

/-- A number with its sign. -/
def NumberText (w : List Char) : Prop := ∃ negative u, w = minus negative ++ u ∧ NumberForm u

/-- The longest number at the head of a text. -/
structure LongestNumber (w text : List Char) : Prop where
  number : NumberText w
  head : w <+: text
  longest : ∀ v, NumberText v → v <+: text → v.length ≤ w.length

/-- The mark of a base other than ten stands at the head. -/
def IsBased (u : List Char) : Prop :=
  ∃ mark base ds, BaseMark mark base ∧ mark ≠ [] ∧ u = mark ++ ds

/-- Neither hexadecimal nor binary, and with a point or an exponent. -/
def FloatForm (u : List Char) : Prop := ¬ IsBased u ∧ ('.' ∈ u ∨ 'e' ∈ u ∨ 'E' ∈ u)

/-- The value is an integer of 64 bits, or rounds to a finite number. -/
inductive Admissible (negative : Bool) : List Char → Prop where
  | integer {mark ds : List Char} {base : Nat} {n : Int} : BaseMark mark base → Digits base ds →
      ds ≠ [] → n = (if negative then -1 else 1) * digitsValue base ds → -2 ^ 63 ≤ n → n < 2 ^ 63 →
      Admissible negative (mark ++ ds)
  | float {w : List Char} {n : Numeral} : n.Written w → n.HasDigit → n.isWhole = false →
      n.value < Binary64.overflowBound → Admissible negative w

/-! ## Decimal numerals -/

namespace Numeral
variable {n m : Numeral} {w v f e s : List Char} {c : Char}

/-- A text is the text of one numeral at most. -/
theorem Written.unique (h : Written w n) (h' : Written w m) : n = m := by
  rw [← ofText_written h (stops_nil n), ofText_written h' (stops_nil m)]

theorem Exponent.mem {exponent : Option (List Char × List Char)} (h : Exponent e exponent)
    (hc : c ∈ e) : isDigitOf 10 c = true ∨ c ∈ ['e', 'E', '+', '-'] := by
  cases h with
  | none => simp at hc
  | some hletter hsign hds =>
    simp only [List.mem_cons, List.mem_append] at hc
    rcases hc with rfl | hc | hc
    · rcases hletter with rfl | rfl <;> simp
    · rcases hsign with rfl | rfl | rfl <;> simp_all
    · exact .inl (hds c hc)

theorem Written.mem (h : Written w n) (hc : c ∈ w) :
    isDigitOf 10 c = true ∨ c ∈ ['.', 'e', 'E', '+', '-'] := by
  obtain ⟨hw, hf, he⟩ := h
  simp only [List.mem_append] at hc
  rcases hc with hc | hc | hc
  · exact .inl (hw c hc)
  · cases hf with
    | none => simp at hc
    | some hds =>
      rcases List.mem_cons.1 hc with rfl | hc
      · simp
      · exact .inl (hds c hc)
  · rcases he.mem hc with hdigit | hmem
    · exact .inl hdigit
    · exact .inr (List.mem_cons_of_mem _ hmem)

/-- A numeral shows that it is no whole number. -/
theorem Written.mem_of_not_whole (h : Written w n) (hn : n.isWhole = false) :
    '.' ∈ w ∨ 'e' ∈ w ∨ 'E' ∈ w := by
  obtain ⟨hw, hf, he⟩ := h
  cases hf with
  | some => simp
  | none =>
    cases he with
    | none => simp [isWhole] at hn
    | some hc => rcases hc with rfl | rfl <;> simp

/-! What is read of each part is at least as long as any such part that stands there. -/

theorem Fraction.length_le {fraction : Option (List Char)} (h : Fraction f fraction)
    (hn : n.fraction = fractionOf (f ++ s)) : f.length ≤ n.fractionLength := by
  cases h with
  | none => simp
  | some hds =>
    rw [List.cons_append, fractionOf, List.takeWhile_append_of_pos hds] at hn
    simp [fractionLength, hn]

theorem Exponent.length_le {exponent : Option (List Char × List Char)} (h : Exponent e exponent)
    (hn : n.exponent = exponentOf (e ++ s)) : e.length ≤ n.exponentLength := by
  cases h with
  | none => simp
  | some hc hs hds hne =>
    rw [List.cons_append, exponentOf_cons, splitSign_append hs hds hne,
      List.takeWhile_append_of_pos hds, if_pos ⟨hc, by simp [hne]⟩] at hn
    simp only [exponentLength, hn, List.length_cons, List.length_append]
    omega

theorem length_le_whole (hw : Digits 10 w) : w.length ≤ (ofText (w ++ s)).length := by
  have hwhole : (ofText (w ++ s)).whole = w ++ s.takeWhile (isDigitOf 10) :=
    List.takeWhile_append_of_pos hw
  rw [length, hwhole, List.length_append]
  omega

theorem length_le_fraction {fraction : Option (List Char)} (hw : Digits 10 w)
    (hf : Fraction f fraction) (hs : NoneNext (isDigitOf 10) (f ++ s)) :
    (w ++ f).length ≤ (ofText (w ++ (f ++ s))).length := by
  obtain ⟨g, r, hr, hg, -, -⟩ := exists_fraction (f ++ s) hs
  have hread : ofText (w ++ (f ++ s)) = ⟨w, fractionOf (f ++ s), exponentOf r⟩ := by
    rw [hr] at hs hg ⊢
    exact ofText_append hw hs hg
  have hlen : f.length ≤ (ofText (w ++ (f ++ s))).fractionLength :=
    hf.length_le (by rw [hread])
  rw [length, List.length_append]
  rw [hread] at hlen ⊢
  exact le_trans (Nat.add_le_add_left hlen _) (Nat.le_add_right _ _)

theorem length_le_exponent {fraction : Option (List Char)}
    {exponent : Option (List Char × List Char)} (hw : Digits 10 w) (hf : Fraction f fraction)
    (he : Exponent e exponent) (hs : NoneNext (isDigitOf 10) (e ++ s))
    (hpoint : '.' ∉ (e ++ s).head?) :
    (w ++ (f ++ e)).length ≤ (ofText (w ++ (f ++ (e ++ s)))).length := by
  have hfraction := fractionOf_append hf hs fun _ => hpoint
  have hread : ofText (w ++ (f ++ (e ++ s))) = ⟨w, fraction, exponentOf (e ++ s)⟩ := by
    rw [ofText_append hw (hf.noneNext hs) (hfraction.symm ▸ hf), hfraction]
  have hlen : e.length ≤ (ofText (w ++ (f ++ (e ++ s)))).exponentLength :=
    he.length_le (by rw [hread])
  rw [length, fractionLength_eq (f := f) (by rw [hread]; exact hf)]
  rw [hread] at hlen ⊢
  simp only [List.length_append]
  omega

/-- No numeral at the head of a text is longer than the one that is read there. -/
theorem Written.length_le (h : Written v n) (hv : v <+: w) : v.length ≤ (ofText w).length := by
  obtain ⟨s, rfl⟩ := hv
  obtain ⟨hw, hf, he⟩ := h
  rw [List.append_assoc, List.append_assoc]
  -- Only the last part of the numeral can be read longer than it is, so the cases tell which it is.
  cases he with
  | none =>
    rw [List.append_nil]
    cases hf with
    | none =>
      rw [List.append_nil]
      exact length_le_whole hw
    | some hds =>
      apply length_le_fraction hw (.some hds)
      simp [NoneNext, show isDigitOf 10 '.' = false by decide]
  | some hc hs hds hne =>
    have he := Exponent.some hc hs hds hne
    exact length_le_exponent hw hf he he.starts.1 he.starts.2

/-- Where a number starts, there is a digit before the exponent. -/
theorem hasDigit_ofText (h : startsUnsigned w = true) : (ofText w).HasDigit := by
  cases w with
  | nil => cases h
  | cons c cs =>
    simp only [startsUnsigned, Bool.or_eq_true, Bool.and_eq_true, decide_eq_true_eq] at h
    rcases h with hdigit | ⟨rfl, hdigit⟩
    · left
      simp [ofText, hdigit]
    · right
      cases cs with
      | nil => cases hdigit
      | cons d cs =>
        replace hdigit : isDigitOf 10 d = true := hdigit
        refine ⟨d :: cs.takeWhile (isDigitOf 10), ?_, by simp⟩
        simp [ofText, fractionOf, hdigit, show isDigitOf 10 '.' = false by decide]

/-- A numeral rounds to a finite number exactly if its value is below the bound. -/
theorem isFinite_toBinary64_iff :
    n.toBinary64.isFinite = true ↔ n.value < Binary64.overflowBound := by
  rw [value_eq, ← natOfDigits_eq]
  exact Binary64.isFinite_ofDecimal_iff

end Numeral

/-! ## Forms of numbers -/

section Forms
variable {negative : Bool} {u v cs mark ds rest : List Char} {base : Nat} {n : Numeral} {t : Token}
  {x : Scalar}

theorem numberForm_of_based (hmark : BaseMark mark base) (hne : mark ≠ []) (hds : Digits base ds)
    (hds' : ds ≠ []) : NumberForm (mark ++ ds) := by
  cases hmark with
  | decimal => exact absurd rfl hne
  | hexadecimal hc => exact .hexadecimal hc hds hds'
  | binary hc => exact .binary hc hds hds'

theorem numberForm_of_written (hw : n.Written u) (hn : n.HasDigit) : NumberForm u := by
  obtain @⟨whole, f, e, fraction, exponent, hwhole, hf, he⟩ := hw
  cases hf with
  | none =>
    have hne : whole ≠ [] := by
      rcases hn with hne | ⟨ds, hnone, -⟩
      · exact hne
      · cases hnone
    cases he with
    | none => simpa using NumberForm.whole hwhole hne
    | some hc hs hds hds' => exact .exponent hwhole hne (.some hc hs hds hds')
  | some hds =>
    by_cases hne : whole = []
    · subst hne
      rcases hn with hne | ⟨ds, hsome, hne⟩
      · exact absurd rfl hne
      · cases hsome
        exact .leadingPoint hds hne he
    · exact .point hwhole hne hds he

/-- A number has the mark of its base, or it is a decimal numeral. -/
theorem NumberForm.based_or_written (h : NumberForm u) :
    (∃ mark base ds, BaseMark mark base ∧ mark ≠ [] ∧ Digits base ds ∧ ds ≠ [] ∧ u = mark ++ ds) ∨
      ∃ n : Numeral, n.Written u ∧ n.HasDigit := by
  cases h with
  | hexadecimal hc hds hne =>
    exact .inl ⟨_, _, _, .hexadecimal hc, by simp, hds, hne, rfl⟩
  | binary hc hds hne => exact .inl ⟨_, _, _, .binary hc, by simp, hds, hne, rfl⟩
  | whole hds hne =>
    exact .inr ⟨_, Numeral.written_digits hds, .inl hne⟩
  | point hds hne hf he => exact .inr ⟨_, .mk hds (.some hf) he, .inl hne⟩
  | leadingPoint hf hne he =>
    have hnil : Digits 10 [] := by simp [Digits]
    exact .inr ⟨_, .mk hnil (.some hf) he, .inr ⟨_, rfl, hne⟩⟩
  | exponent hds hne he => exact .inr ⟨_, .mk hds .none he, .inl hne⟩

/-- A number starts where the text of one stands. -/
theorem NumberForm.startsUnsigned (h : NumberForm u) (rest : List Char) :
    startsUnsigned (u ++ rest) = true := by
  have hdigit (ds s : List Char) (hds : Digits 10 ds) (hne : ds ≠ []) :
      WireSchema.startsUnsigned (ds ++ s) = true := by
    obtain ⟨d, ds, rfl⟩ := List.exists_cons_of_ne_nil hne
    simp [WireSchema.startsUnsigned, hds d (by simp)]
  cases h with
  | hexadecimal => rfl
  | binary => rfl
  | whole hds hne => exact hdigit _ _ hds hne
  | point hds hne => simpa using hdigit _ _ hds hne
  | leadingPoint hf hne =>
    obtain ⟨d, f, rfl⟩ := List.exists_cons_of_ne_nil hne
    simp [WireSchema.startsUnsigned, hf d (by simp)]
  | exponent hds hne => simpa using hdigit _ _ hds hne

theorem BaseMark.exists_letter (h : BaseMark mark base) (hne : mark ≠ []) :
    ∃ c, mark = ['0', c] ∧ (c = 'x' ∨ c = 'X' ∨ c = 'b' ∨ c = 'B') := by
  cases h with
  | decimal => exact absurd rfl hne
  | hexadecimal hc => exact ⟨_, rfl, by rcases hc with rfl | rfl <;> simp⟩
  | binary hc => exact ⟨_, rfl, by rcases hc with rfl | rfl <;> simp⟩

theorem BaseMark.length_eq (h : BaseMark mark base) (hne : mark ≠ []) : mark.length = 2 := by
  obtain ⟨c, rfl, -⟩ := h.exists_letter hne
  rfl

/-- The letter of a mark stands in no decimal numeral. -/
theorem not_isBased_of_written (hw : n.Written u) : ¬ IsBased u := by
  rintro ⟨mark, base, ds, hmark, hne, rfl⟩
  obtain ⟨c, rfl, hc⟩ := hmark.exists_letter hne
  have hmem := hw.mem (c := c) (by simp)
  rcases hc with rfl | rfl | rfl | rfl <;> revert hmem <;> decide

theorem floatForm_of_written (hw : n.Written u) (hn : n.isWhole = false) : FloatForm u :=
  ⟨not_isBased_of_written hw, hw.mem_of_not_whole hn⟩

theorem not_floatForm_of_digits (hmark : BaseMark mark base) (hds : Digits base ds) :
    ¬ FloatForm (mark ++ ds) := by
  rintro ⟨hbased, hmem⟩
  by_cases hne : mark = []
  · subst hne
    cases hmark
    rcases hmem with hmem | hmem | hmem
    · exact absurd (hds _ hmem) (by decide)
    · exact absurd (hds _ hmem) (by decide)
    · exact absurd (hds _ hmem) (by decide)
  · exact hbased ⟨mark, base, ds, hmark, hne, rfl⟩

/-- Digits show their base. -/
theorem base_unique {mark' ds' : List Char} {base' : Nat} (hmark : BaseMark mark base)
    (hds : Digits base ds) (hmark' : BaseMark mark' base') (hds' : Digits base' ds')
    (h : mark ++ ds = mark' ++ ds') : base = base' ∧ ds = ds' := by
  have hdecimal {w : List Char} (hw : Digits 10 w) : ¬ IsBased w :=
    not_isBased_of_written (Numeral.written_digits hw)
  by_cases hne : mark = []
  · subst hne
    cases hmark
    by_cases hne' : mark' = []
    · subst hne'
      cases hmark'
      exact ⟨rfl, h⟩
    · exact absurd ⟨_, _, _, hmark', hne', h⟩ (hdecimal hds)
  · by_cases hne' : mark' = []
    · subst hne'
      cases hmark'
      exact absurd ⟨_, _, _, hmark, hne, h.symm⟩ (hdecimal hds')
    · have hread : baseMark (mark ++ ds) = some (base, ds) := baseMark_append hmark hne
      rw [h, baseMark_append hmark' hne'] at hread
      cases hread
      exact ⟨rfl, rfl⟩

/-! ## Values in range -/

theorem admissible_integer_iff {k : Int} (hmark : BaseMark mark base) (hds : Digits base ds)
    (hne : ds ≠ []) (hk : k = (if negative then -1 else 1) * digitsValue base ds) :
    Admissible negative (mark ++ ds) ↔ -2 ^ 63 ≤ k ∧ k < 2 ^ 63 := by
  constructor
  · intro h
    generalize hu : mark ++ ds = u at h
    cases h with
    | integer hmark' hds' _ hn hlow hhigh =>
      obtain ⟨rfl, rfl⟩ := base_unique hmark hds hmark' hds' hu
      rw [hk, ← hn]
      exact ⟨hlow, hhigh⟩
    | float hw _ hn =>
      subst hu
      exact absurd (floatForm_of_written hw hn) (not_floatForm_of_digits hmark hds)
  · rintro ⟨hlow, hhigh⟩
    exact .integer hmark hds hne hk hlow hhigh

theorem admissible_float_iff (hw : n.Written u) (hdigit : n.HasDigit) (hn : n.isWhole = false) :
    Admissible negative u ↔ n.toBinary64.isFinite = true := by
  rw [Numeral.isFinite_toBinary64_iff]
  constructor
  · intro h
    cases h with
    | integer hmark hds =>
      exact absurd (floatForm_of_written hw hn) (not_floatForm_of_digits hmark hds)
    | float hw' _ _ hlt => rwa [hw.unique hw']
  · exact .float hw hdigit hn

/-- What becomes of a number that no word runs into: it is taken if it is in range, and refused if
not, but never because nothing could be read. -/
def Judged (negative : Bool) (u : List Char) : Except SyntaxFault Token → Prop
  | .ok t => Admissible negative u ∧ ∃ v, t = .literal v ∧ SpellsNumber negative u v
  | .error fault => ¬ Admissible negative u ∧ ∀ s, fault ≠ .invalidFloat s

theorem judged_integerToken (hmark : BaseMark mark base) (hds : Digits base ds) (hne : ds ≠ []) :
    Judged negative (mark ++ ds) (integerToken negative base ds) := by
  rw [integerToken_eq hmark hds hne rfl]
  generalize hk : (if negative then -1 else 1) * (digitsValue base ds : Int) = k
  have hadm := admissible_integer_iff hmark hds hne hk.symm
  split
  next hfits => exact ⟨hadm.2 hfits, _, rfl, .integer hmark hds hne hk.symm hfits.1 hfits.2⟩
  next hfits => exact ⟨mt hadm.1 hfits, by simp⟩

theorem judged_token (hw : n.Written u) (hdigit : n.HasDigit) :
    Judged negative u (n.token negative) := by
  by_cases hwhole : n.isWhole = true
  · obtain ⟨rfl, hds⟩ := hw.eq_whole hwhole
    rw [Numeral.token, if_pos hwhole]
    exact judged_integerToken .decimal hds (hw.ne_nil hdigit)
  · have htoken : n.token negative = _ := Numeral.token_of_hasDigit hdigit
    rw [if_neg hwhole, floatToken] at htoken
    have hadm : Admissible negative u ↔ _ :=
      admissible_float_iff hw hdigit (by simpa using hwhole)
    by_cases hfinite : n.toBinary64.isFinite = true
    · rw [if_pos hfinite] at htoken
      have hspells := Numeral.spellsNumber_of_token hw hdigit htoken
      rw [htoken]
      exact ⟨hadm.2 hfinite, hspells⟩
    · rw [if_neg hfinite] at htoken
      rw [htoken]
      exact ⟨mt hadm.1 hfinite, by simp⟩

/-! ## The longest number -/

/-- No numeral goes on behind the zero of a mark. -/
theorem length_ofText_of_mark {r : List Char} (h : baseMark cs = some (base, r)) :
    (Numeral.ofText cs).length = 1 := by
  obtain ⟨mark, rfl, hmark, hlen⟩ := baseMark_eq_some h
  obtain ⟨c, rfl, hc⟩ := hmark.exists_letter (by rintro rfl; simp at hlen)
  rcases hc with rfl | rfl | rfl | rfl <;> rfl

theorem length_le_span {p : Char → Bool} {s : List Char} (hv : ∀ d ∈ v, p d = true)
    (hds : ∀ d ∈ ds, p d = true) (hrest : NoneNext p rest) (h : v ++ s = ds ++ rest) :
    v.length ≤ ds.length := by
  have hspan := takeWhile_span hds hrest
  rw [← h, List.takeWhile_append_of_pos hv] at hspan
  simp [← hspan]

/-- Behind a mark a number takes all the digits there are; where there are none, only the zero of
the mark is a number. -/
theorem NumberForm.length_le_of_mark (hv : NumberForm v) (hmark : BaseMark mark base)
    (hne : mark ≠ []) (hds : Digits base ds) (hrest : NoneNext (isDigitOf base) rest)
    (hpre : v <+: mark ++ (ds ++ rest)) :
    v.length ≤ if ds = [] then 1 else (mark ++ ds).length := by
  have hread : baseMark (mark ++ (ds ++ rest)) = some (base, ds ++ rest) :=
    baseMark_append hmark hne
  rcases hv.based_or_written with ⟨mark', base', ds', hmark', hne', hds', hpos, rfl⟩ | ⟨n, hw, hn⟩
  · obtain ⟨s, hs⟩ := hpre
    rw [← hs, List.append_assoc, baseMark_append hmark' hne'] at hread
    obtain ⟨rfl, hafter⟩ : base' = base ∧ ds' ++ s = ds ++ rest := by simpa using hread
    have hle := length_le_span hds' hds hrest hafter
    have hpos' := List.length_pos_of_ne_nil hpos
    have hds_ne : ds ≠ [] := List.ne_nil_of_length_pos (by omega)
    rw [if_neg hds_ne, List.length_append, List.length_append, hmark.length_eq hne,
      hmark'.length_eq hne']
    omega
  · have hle := hw.length_le hpre
    rw [length_ofText_of_mark hread] at hle
    split
    · exact hle
    next hds' =>
      have := List.length_pos_of_ne_nil hds'
      rw [List.length_append]
      omega

theorem unsignedNumber_markOnly (h : baseMark cs = some (base, rest))
    (hrest : NoneNext (isDigitOf base) rest) :
    unsignedNumber negative cs = .error (.malformedInteger base) := by
  have hnone : ([] ++ rest).takeWhile (isDigitOf base) = [] := takeWhile_span (by simp) hrest
  rw [List.nil_append] at hnone
  simp only [unsignedNumber, h, hnone, if_pos]

/-- How the number `u` is read where `rest` is behind it. -/
inductive Reading (negative : Bool) (u rest : List Char) : Prop where
  | judged {outcome : Except SyntaxFault Token} : Judged negative u outcome →
      unsignedNumber negative (u ++ rest) = outcome.map (·, u.length) → Reading negative u rest
  | markOnly {base : Nat} : ¬ NoneNext Text.isWordPart rest →
      unsignedNumber negative (u ++ rest) = .error (.malformedInteger base) →
      Reading negative u rest

/-- Where a number starts, it is the longest one there that is read or refused. -/
theorem exists_reading (negative : Bool) (h : startsUnsigned cs = true) :
    ∃ u rest, cs = u ++ rest ∧ NumberForm u ∧
      (∀ v, NumberForm v → v <+: cs → v.length ≤ u.length) ∧ Reading negative u rest := by
  cases hbase : baseMark cs with
  | some p =>
    obtain ⟨base, r⟩ := p
    obtain ⟨mark, rfl, hmark, hlen⟩ := baseMark_eq_some hbase
    have hne : mark ≠ [] := by
      rintro rfl
      simp at hlen
    obtain ⟨ds, rest, rfl, hds, hrest⟩ := exists_span (isDigitOf base) r
    by_cases hds' : ds = []
    · -- The grammar admits the zero alone, and the letter of the mark is what runs into it.
      subst hds'
      obtain ⟨c, rfl, hc⟩ := hmark.exists_letter hne
      have hzero : Digits 10 ['0'] := by simp [Digits, show isDigitOf 10 '0' = true by decide]
      refine ⟨['0'], c :: rest, rfl, .whole hzero (by simp), ?_,
        .markOnly ?_ (unsignedNumber_markOnly hbase hrest)⟩
      · intro v hv hpre
        simpa using hv.length_le_of_mark hmark hne hds hrest hpre
      · intro hnext
        have hc' := hnext c rfl
        rcases hc with rfl | rfl | rfl | rfl <;> revert hc' <;> decide +kernel
    · refine ⟨mark ++ ds, rest, by simp, numberForm_of_based hmark hne hds hds', ?_,
        .judged (judged_integerToken hmark hds hds')
          (unsignedNumber_based hmark hne hds hds' hrest)⟩
      intro v hv hpre
      have hle := hv.length_le_of_mark hmark hne hds hrest hpre
      rwa [if_neg hds'] at hle
  | none =>
    obtain ⟨u, rest, hcs, hw, -, -⟩ := Numeral.exists_written cs
    have hdigit := Numeral.hasDigit_ofText h
    refine ⟨u, rest, hcs, numberForm_of_written hw hdigit, ?_, .judged (judged_token hw hdigit) ?_⟩
    · intro v hv hpre
      rw [← Numeral.length_eq hw]
      rcases hv.based_or_written with ⟨mark, base, ds, hmark, hne, -, -, rfl⟩ | ⟨n, hn, -⟩
      · obtain ⟨s, rfl⟩ := hpre
        rw [List.append_assoc, baseMark_append hmark hne] at hbase
        cases hbase
      · exact hn.length_le hpre
    · rw [← hcs, unsignedNumber, hbase, ← Numeral.length_eq hw]

/-- What is read has the kind that its characters show. -/
theorem SpellsNumber.kind (h : SpellsNumber negative u x) :
    ((∃ y, x = .float y) ↔ FloatForm u) ∧ ((∃ k, x = .int k) ↔ ¬ FloatForm u) := by
  cases h with
  | integer hmark hds =>
    have hform := not_floatForm_of_digits hmark hds
    exact ⟨iff_of_false (by simp) hform, iff_of_true ⟨_, rfl⟩ hform⟩
  | float hw _ hn =>
    have hform := floatForm_of_written hw hn
    exact ⟨iff_of_true ⟨_, rfl⟩ hform, iff_of_false (by simp) (not_not.2 hform)⟩

end Forms

namespace Lexer
variable {negative : Bool} {c : Char} {u cs rest text : List Char} {t : Token} {fault : SyntaxFault}

theorem longestNumber_minus (hstart : startsUnsigned cs = true) (hu : NumberForm u)
    (hpre : u <+: cs) (hlongest : ∀ v, NumberForm v → v <+: cs → v.length ≤ u.length) :
    LongestNumber (minus negative ++ u) (minus negative ++ cs) := by
  refine ⟨⟨negative, u, rfl, hu⟩, (List.prefix_append_right_inj _).2 hpre, ?_⟩
  rintro _ ⟨sign, v, rfl, hv⟩ hv'
  -- Neither part begins with a minus, so the signs are the same.
  have hsign : sign = negative := by
    obtain ⟨s, hs⟩ := hv'
    rw [List.append_assoc] at hs
    have hstart' := hv.startsUnsigned s
    cases sign <;> cases negative
    · rfl
    · exact absurd hs (head_ne_minus hstart' cs)
    · exact absurd hs.symm (head_ne_minus hstart _)
    · rfl
  subst hsign
  have hle := hlongest v hv ((List.prefix_append_right_inj _).1 hv')
  simp only [List.length_append]
  omega

theorem number_fault (hstart : startsUnsigned cs = true)
    (h : unsignedNumber negative cs = .error fault) :
    number (minus negative ++ cs) = .error fault := by
  rw [number, signedNumber_minus negative hstart, h]
  rfl

/-- A number that runs into a word is refused. -/
theorem number_malformed (hstart : startsUnsigned (u ++ rest) = true)
    (h : unsignedNumber negative (u ++ rest) = .ok (t, u.length))
    (hrest : ¬ NoneNext Text.isWordPart rest) :
    number (minus negative ++ u ++ rest) = .error .malformedNumber := by
  have hany : rest.head?.any Text.isWordPart = true := by
    by_contra hnone
    exact hrest (noneNext_of_any hnone)
  rw [number_minus_eq hstart h, if_pos hany]

theorem token_of_startsNumber (h : startsNumber (c :: cs) = true) :
    c ≠ '#' ∧ Text.isBlank c = false ∧ token c cs = number (c :: cs) := by
  have hhead : c = '-' ∨ c = '.' ∨ isDigitOf 10 c = true := by
    by_cases hminus : c = '-'
    · exact .inl hminus
    · rw [startsNumber_cons hminus] at h
      simp only [Bool.or_eq_true, Bool.and_eq_true, decide_eq_true_eq] at h
      tauto
  have hbreak : Text.isBreak c = false := by
    rcases hhead with rfl | rfl | hdigit
    · decide +kernel
    · decide +kernel
    · exact isBreak_of_isDigit (isDigitOf_ten ▸ hdigit)
  have hquote : c ≠ '"' := by
    rintro rfl
    simp [show isDigitOf 10 '"' = false by decide] at hhead
  simp only [Text.isBreak, Bool.or_eq_false_iff, decide_eq_false_iff_not] at hbreak
  refine ⟨hbreak.2, hbreak.1, ?_⟩
  rw [token, if_neg hquote, if_pos h]

theorem tokensFrom_number {w : List Char} {loc : Location} (hw : w ≠ [])
    (hstart : startsNumber (w ++ rest) = true) (h : number (w ++ rest) = .ok (t, w.length)) :
    tokensFrom loc (w ++ rest) = (tokensFrom (loc.after w) rest).map (⟨t, loc⟩ :: ·) := by
  obtain ⟨c, w, rfl⟩ := List.exists_cons_of_ne_nil hw
  rw [List.cons_append] at hstart h ⊢
  obtain ⟨hhash, hblank, htoken⟩ := token_of_startsNumber hstart
  exact tokensFrom_token hhash hblank (htoken.trans h)

theorem tokensFrom_number_fault {loc : Location} (hstart : startsNumber text = true)
    (h : number text = .error fault) : tokensFrom loc text = .error ⟨loc, fault⟩ := by
  cases text with
  | nil => cases hstart
  | cons c cs =>
    obtain ⟨hhash, hblank, htoken⟩ := token_of_startsNumber hstart
    exact tokensFrom_fault hhash hblank (htoken.trans h)

theorem number_of_reading (hstart : startsUnsigned (u ++ rest) = true)
    (h : Reading negative u rest) :
    (NoneNext Text.isWordPart rest ∧ Admissible negative u →
      ∃ v, number (minus negative ++ u ++ rest) = .ok (.literal v, (minus negative ++ u).length) ∧
        SpellsNumber negative u v) ∧
    (¬ (NoneNext Text.isWordPart rest ∧ Admissible negative u) →
      ∃ fault, number (minus negative ++ u ++ rest) = .error fault ∧
        ∀ s, fault ≠ .invalidFloat s) := by
  cases h with
  | @markOnly base hword h =>
    refine ⟨fun hgood => absurd hgood.1 hword, fun _ => ⟨.malformedInteger base, ?_, by simp⟩⟩
    rw [List.append_assoc]
    exact number_fault hstart h
  | @judged outcome hjudged h =>
    cases outcome with
    | error fault =>
      obtain ⟨hadm, hfault⟩ := hjudged
      refine ⟨fun hgood => absurd hgood.2 hadm, fun _ => ⟨fault, ?_, hfault⟩⟩
      rw [List.append_assoc]
      exact number_fault hstart h
    | ok t =>
      obtain ⟨hadm, v, rfl, hspells⟩ := hjudged
      refine ⟨fun hgood => ⟨v, number_minus hstart h hgood.1, hspells⟩, fun hbad => ?_⟩
      have hword : ¬ NoneNext Text.isWordPart rest := fun hnone => hbad ⟨hnone, hadm⟩
      exact ⟨_, number_malformed hstart h hword, by simp⟩

/-- Where a number starts, the longest one that the grammar admits is the one that counts. It is
read if its value is in range and no word goes on behind it: then exactly its characters are taken,
and a float is read exactly if they show one. Otherwise the complaint is about its first character,
and it is never that a float could not be read. -/
theorem number_takes_longest (loc : Location) (h : startsNumber text = true) :
    ∃ negative u rest, text = minus negative ++ u ++ rest ∧ NumberForm u ∧
      LongestNumber (minus negative ++ u) text ∧
      (NoneNext Text.isWordPart rest ∧ Admissible negative u →
        ∃ v, number text = .ok (.literal v, (minus negative ++ u).length) ∧
          SpellsNumber negative u v ∧ ((∃ x, v = .float x) ↔ FloatForm u) ∧
          ((∃ k, v = .int k) ↔ ¬ FloatForm u) ∧
          tokensFrom loc text =
            (tokensFrom (loc.after (minus negative ++ u)) rest).map (⟨.literal v, loc⟩ :: ·)) ∧
      (¬ (NoneNext Text.isWordPart rest ∧ Admissible negative u) →
        ∃ fault, number text = .error fault ∧ (∀ s, fault ≠ .invalidFloat s) ∧
          tokensFrom loc text = .error ⟨loc, fault⟩) := by
  obtain ⟨negative, cs, rfl, hstart⟩ := startsNumber_eq_true h
  obtain ⟨u, rest, rfl, hu, hlongest, hread⟩ := exists_reading negative hstart
  obtain ⟨hgood, hbad⟩ := number_of_reading hstart hread
  have hlong : LongestNumber (minus negative ++ u) (minus negative ++ (u ++ rest)) :=
    longestNumber_minus hstart hu (List.prefix_append u rest) hlongest
  rw [← List.append_assoc] at h hlong ⊢
  refine ⟨negative, u, rest, rfl, hu, hlong, ?_, ?_⟩
  · intro hcond
    obtain ⟨v, hnumber, hspells⟩ := hgood hcond
    have hw : minus negative ++ u ≠ [] := by simp [hspells.ne_nil]
    exact ⟨v, hnumber, hspells, hspells.kind.1, hspells.kind.2, tokensFrom_number hw h hnumber⟩
  · intro hcond
    obtain ⟨fault, hnumber, hfault⟩ := hbad hcond
    exact ⟨fault, hnumber, hfault, tokensFrom_number_fault h hnumber⟩

/-- Of `1.2.3` the number is `1.2`, and what follows it is another. -/
theorem number_takes_longest_version :
    startsNumber ['1', '.', '2', '.', '3'] = true ∧
      LongestNumber ['1', '.', '2'] ['1', '.', '2', '.', '3'] ∧
      SpellsNumber false ['1', '.', '2'] (.float ⟨0x3FF3333333333333⟩) := by
  have hstart : startsNumber ['1', '.', '2', '.', '3'] = true := by decide
  have hnumber : number ['1', '.', '2', '.', '3'] =
      .ok (.literal (.float ⟨0x3FF3333333333333⟩), 3) := by decide +kernel
  obtain ⟨negative, u, rest, htext, hu, hlong, hgood, hbad⟩ := number_takes_longest .start hstart
  by_cases hcond : NoneNext Text.isWordPart rest ∧ Admissible negative u
  · obtain ⟨v, hv, hspells, -⟩ := hgood hcond
    obtain ⟨rfl, hlen⟩ : Scalar.float _ = v ∧ 3 = (minus negative ++ u).length := by
      simpa using hnumber.symm.trans hv
    obtain ⟨hw, -⟩ : ['1', '.', '2'] = minus negative ++ u ∧ ['.', '3'] = rest :=
      List.append_inj htext hlen
    refine ⟨hstart, hw ▸ hlong, ?_⟩
    cases negative with
    | false =>
      rw [show ['1', '.', '2'] = u from hw]
      exact hspells
    | true => cases hw
  · obtain ⟨fault, hfault, -⟩ := hbad hcond
    rw [hnumber] at hfault
    cases hfault

/-- An `e` that no digit follows is no exponent, and the number before it runs into a word. -/
example : tokens "1e+" = .error ⟨⟨1, 1⟩, .malformedNumber⟩ := by
  decide +kernel

end Lexer
end WireSchema
