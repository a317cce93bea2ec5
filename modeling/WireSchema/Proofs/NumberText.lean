import WireSchema.Proofs.ShortestDecimal
import WireSchema.Proofs.Spelling

/-! What a number is written as is a numeral, and the numeral is worth the decimal it is written
from. So no style writes two numbers in the same way. -/
namespace WireSchema

section Digits
variable {ds : List Char}

theorem Digits.append {base : Nat} {es : List Char} (hds : Digits base ds) (hes : Digits base es) :
    Digits base (ds ++ es) := by
  intro d hd
  rcases List.mem_append.1 hd with hd | hd
  · exact hds d hd
  · exact hes d hd

theorem digits_zeros (n : Nat) : Digits 10 (NumberStyle.zeros n) := by
  intro d hd
  rw [List.eq_of_mem_replicate hd]
  decide

theorem length_zeros (n : Nat) : (NumberStyle.zeros n).length = n := List.length_replicate

theorem digitsValue_zeros (n : Nat) : digitsValue 10 (NumberStyle.zeros n) = 0 := by
  induction n with
  | zero => rfl
  | succ n ih =>
    rw [NumberStyle.zeros, List.replicate_succ', digitsValue_append, ← NumberStyle.zeros, ih,
      zero_mul, zero_add]
    decide

end Digits

namespace NumberStyle
variable {style : NumberStyle} {ds : List Char} {k : ℤ}

/-- The text is a numeral of that value, and it shows that it is no whole number if the style asks
for that. -/
def Writes (style : NumberStyle) (w : List Char) (q : ℚ) : Prop :=
  ∃ n : Numeral, n.Written w ∧ n.value = q ∧ (style.keepPoint = true → n.isWhole = false)

/-- Zeros are put where digits are lacking, and they change no value. -/
theorem positional_writes (hds : Digits 10 ds) :
    style.Writes (style.positional ds k) (digitsValue 10 ds * 10 ^ (k - ds.length)) := by
  have hzero : Digits 10 ['0'] := by simp [Digits]; decide
  rw [positional]
  by_cases hk : k ≤ 0
  · rw [if_pos hk]
    have hdigits := (digits_zeros (-k).toNat).append hds
    refine ⟨⟨['0'], some (zeros (-k).toNat ++ ds), none⟩, ?_, ?_, fun _ => rfl⟩
    · simpa using Numeral.Written.mk hzero (.some hdigits) .none
    · have hexp : 0 - ((zeros (-k).toNat ++ ds).length : ℤ) = k - ds.length := by
        rw [List.length_append, length_zeros]
        omega
      have hvalue : digitsValue 10 (['0'] ++ (zeros (-k).toNat ++ ds)) = digitsValue 10 ds := by
        rw [digitsValue_append, digitsValue_append, digitsValue_zeros,
          show digitsValue 10 ['0'] = 0 by decide, zero_mul, zero_mul, zero_add, zero_add]
      rw [Numeral.value_eq, Option.getD_some, hvalue, ← hexp]
      rfl
  rw [if_neg hk]
  by_cases hlen : (ds.length : ℤ) ≤ k
  · rw [if_pos hlen]
    have hdigits := hds.append (digits_zeros (k.toNat - ds.length))
    have hvalue : (digitsValue 10 (ds ++ zeros (k.toNat - ds.length)) : ℚ) =
        digitsValue 10 ds * 10 ^ (k - ds.length) := by
      have hexp : k - ds.length = (k.toNat - ds.length : Nat) := by omega
      rw [digitsValue_append, digitsValue_zeros, length_zeros, hexp, zpow_natCast]
      simp
    by_cases hpoint : style.keepPoint = true
    · refine ⟨⟨ds ++ zeros (k.toNat - ds.length), some ['0'], none⟩, ?_, ?_, fun _ => rfl⟩
      · simpa [hpoint] using Numeral.Written.mk hdigits (.some hzero) .none
      · simpa [Numeral.value, Numeral.power, show digitsValue 10 ['0'] = 0 by decide] using hvalue
    · refine ⟨⟨ds ++ zeros (k.toNat - ds.length), none, none⟩, ?_, ?_, fun h => absurd h hpoint⟩
      · simpa [hpoint] using Numeral.Written.mk hdigits .none .none
      · simpa [Numeral.value, Numeral.power, show digitsValue 10 [] = 0 by decide] using hvalue
  · rw [if_neg hlen]
    have htake : Digits 10 (ds.take k.toNat) := fun d hd => hds d (List.mem_of_mem_take hd)
    have hdrop : Digits 10 (ds.drop k.toNat) := fun d hd => hds d (List.mem_of_mem_drop hd)
    refine ⟨⟨ds.take k.toNat, some (ds.drop k.toNat), none⟩, ?_, ?_, fun _ => rfl⟩
    · simpa using Numeral.Written.mk htake (.some hdrop) .none
    · have hexp : 0 - ((ds.drop k.toNat).length : ℤ) = k - ds.length := by
        rw [List.length_drop]
        omega
      rw [Numeral.value_eq, Option.getD_some, List.take_append_drop, ← hexp]
      rfl

/-- The exponent makes up for where the point stands. -/
theorem scientific_writes (hds : Digits 10 ds) (hne : ds ≠ []) :
    style.Writes (style.scientific ds k) (digitsValue 10 ds * 10 ^ (k - ds.length)) := by
  have htake : Digits 10 (ds.take 1) := fun d hd => hds d (List.mem_of_mem_take hd)
  have hdrop : Digits 10 (ds.drop 1) := fun d hd => hds d (List.mem_of_mem_drop hd)
  have hlen : 0 < ds.length := List.length_pos_iff.2 hne
  rw [scientific]
  generalize hsign : (if k - 1 < 0 then ['-'] else if style.plusSign then ['+'] else []) = sign
  have hcases : sign = [] ∨ sign = ['+'] ∨ sign = ['-'] := by
    rw [← hsign]
    split_ifs <;> simp
  generalize hes : Nat.toDigits 10 (k - 1).natAbs = es
  have hexponent : Numeral.Exponent ('e' :: (sign ++ es)) (some (sign, es)) := by
    rw [← hes]
    exact .some (.inl rfl) hcases (digits_toDigits _) Nat.toDigits_ne_nil
  have hpower (whole : List Char) (fraction : Option (List Char)) :
      Numeral.power ⟨whole, fraction, some (sign, es)⟩ = k - 1 := by
    simp only [Numeral.power, natOfDigits_eq, ← hes, digitsValue_toDigits, ← hsign]
    by_cases hneg : k - 1 < 0
    · rw [if_pos hneg, if_pos rfl]
      omega
    · have hplus : (if style.plusSign then ['+'] else []) ≠ ['-'] := by split_ifs <;> simp
      rw [if_neg hneg, if_neg hplus]
      omega
  by_cases hone : ds.length ≤ 1
  · have hnil : ds.drop 1 = [] := List.drop_eq_nil_of_le hone
    refine ⟨⟨ds.take 1, none, some (sign, es)⟩, ?_, ?_, fun _ => rfl⟩
    · simpa [hone, hnil] using Numeral.Written.mk htake .none hexponent
    · have hall : ds.take 1 = ds := List.take_of_length_le hone
      rw [Numeral.value_eq, hpower, hall, show ds.length = 1 by omega]
      simp
  · refine ⟨⟨ds.take 1, some (ds.drop 1), some (sign, es)⟩, ?_, ?_, fun _ => rfl⟩
    · simpa [hone] using Numeral.Written.mk htake (.some hdrop) hexponent
    · rw [Numeral.value_eq, hpower, Option.getD_some, List.take_append_drop, List.length_drop]
      congr 2
      omega

/-- Every style writes the decimal it is given, in one form or the other. -/
theorem magnitude_writes (style : NumberStyle) (d : Decimal) :
    style.Writes (style.magnitude d) d.value := by
  have hds := digits_toDigits d.digits
  have hne : Nat.toDigits 10 d.digits ≠ [] := Nat.toDigits_ne_nil
  have hvalue : d.value = digitsValue 10 (Nat.toDigits 10 d.digits) *
      10 ^ ((Nat.toDigits 10 d.digits).length + d.exp - (Nat.toDigits 10 d.digits).length) := by
    rw [digitsValue_toDigits, add_sub_cancel_left, Decimal.value]
  rw [magnitude, hvalue]
  split
  · exact positional_writes hds
  · split
    · exact positional_writes hds
    · exact scientific_writes hds hne

/-- A numeral is told from its text. -/
theorem Writes.unique {w : List Char} {q r : ℚ} (hq : style.Writes w q) (hr : style.Writes w r) :
    q = r := by
  obtain ⟨n, hn, rfl, -⟩ := hq
  obtain ⟨m, hm, rfl, -⟩ := hr
  have hstops (n : Numeral) : n.Stops [] := ⟨by simp [NoneNext], by simp, by simp, by simp⟩
  have hnm := Numeral.ofText_written hn (hstops n)
  rw [Numeral.ofText_written hm (hstops m)] at hnm
  rw [hnm]

/-- A numeral has no sign before it. -/
theorem Writes.head_ne_minus {w : List Char} {q : ℚ} (h : style.Writes w q) : '-' ∉ w.head? := by
  obtain ⟨n, @⟨whole, f, e, fraction, exponent, hw, hf, he⟩, -, -⟩ := h
  cases whole with
  | cons d ds =>
    have hd := hw d (by simp)
    rintro ⟨⟩
    exact absurd hd (by decide)
  | nil =>
    cases hf with
    | some => simp
    | none =>
      cases he with
      | none => simp
      | some hc => rcases hc with rfl | rfl <;> simp

/-- A character of a number that is written. -/
def isPart (c : Char) : Bool := isDigitOf 10 c || c ∈ ['.', 'e', 'E', '+', '-']

theorem isPart_of_isDigitOf {c : Char} (h : isDigitOf 10 c = true) : isPart c = true := by
  simp [isPart, h]

theorem Writes.isPart {w : List Char} {q : ℚ} (h : style.Writes w q) :
    ∀ c ∈ w, NumberStyle.isPart c = true := by
  obtain ⟨n, ⟨hw, hf, he⟩, -, -⟩ := h
  intro c hc
  rcases List.mem_append.1 hc with hc | hc
  · exact isPart_of_isDigitOf (hw c hc)
  rcases List.mem_append.1 hc with hc | hc
  · cases hf with
    | none => simp at hc
    | some hds =>
      rcases List.mem_cons.1 hc with rfl | hc
      · decide
      · exact isPart_of_isDigitOf (hds c hc)
  · cases he with
    | none => simp at hc
    | some he hs hds _ =>
      rcases List.mem_cons.1 hc with rfl | hc
      · rcases he with rfl | rfl <;> decide
      rcases List.mem_append.1 hc with hc | hc
      · rcases hs with rfl | rfl | rfl
        · simp at hc
        · rw [List.mem_singleton.1 hc]
          decide
        · rw [List.mem_singleton.1 hc]
          decide
      · exact isPart_of_isDigitOf (hds c hc)

/-- A text that keeps the point has one, or an exponent. -/
theorem Writes.exists_mark {w : List Char} {q : ℚ} (h : style.Writes w q)
    (hpoint : style.keepPoint = true) : ∃ c ∈ w, c = '.' ∨ c = 'e' ∨ c = 'E' := by
  obtain ⟨n, ⟨hw, hf, he⟩, -, hwhole⟩ := h
  cases hf with
  | some => exact ⟨'.', by simp, .inl rfl⟩
  | none =>
    cases he with
    | none => exact absurd (hwhole hpoint) (by simp [Numeral.isWhole])
    | @some c _ _ hc => exact ⟨c, by simp, .inr hc⟩

variable {x y : Binary64}

theorem toList_write (hx : x.isFinite = true) : (style.write x).toList =
    minus x.isNegative ++ style.magnitude (Decimal.shortest style.tie x) := by
  rw [write, if_pos hx, String.toList_ofList]
  cases x.isNegative <;> rfl

theorem isPart_write (hx : x.isFinite = true) : ∀ c ∈ (style.write x).toList, isPart c = true := by
  intro c hc
  rw [toList_write hx] at hc
  rcases List.mem_append.1 hc with hc | hc
  · cases hneg : x.isNegative <;> simp [minus, hneg] at hc
    rw [hc]
    decide
  · exact (style.magnitude_writes _).isPart c hc

/-- What is written can be told from an integer. -/
theorem exists_mark_write (hpoint : style.keepPoint = true) (hx : x.isFinite = true) :
    ∃ c ∈ (style.write x).toList, c = '.' ∨ c = 'e' ∨ c = 'E' := by
  obtain ⟨c, hc, hmark⟩ := (style.magnitude_writes _).exists_mark hpoint
  rw [toList_write hx]
  exact ⟨c, List.mem_append_right _ hc, hmark⟩

/-- No two numbers are written in the same way. -/
theorem write_inj (hx : x.isFinite = true) (hy : y.isFinite = true)
    (h : style.write x = style.write y) : x = y := by
  rw [← String.toList_inj, toList_write hx, toList_write hy] at h
  have hwx := style.magnitude_writes (Decimal.shortest style.tie x)
  have hwy := style.magnitude_writes (Decimal.shortest style.tie y)
  have hsame : x.isNegative = y.isNegative ∧ style.magnitude (Decimal.shortest style.tie x) =
      style.magnitude (Decimal.shortest style.tie y) := by
    cases hnx : x.isNegative <;> cases hny : y.isNegative <;> simp [minus, hnx, hny] at h
    · exact ⟨rfl, h⟩
    · exact absurd (by simp [h]) hwx.head_ne_minus
    · exact absurd (by simp [← h]) hwy.head_ne_minus
    · exact ⟨rfl, h⟩
  rw [← hsame.2] at hwy
  exact Decimal.eq_of_shortest_value_eq hsame.1 (hwx.unique hwy)

end NumberStyle
end WireSchema
