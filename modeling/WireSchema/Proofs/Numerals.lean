import WireSchema.Proofs.Characters
import WireSchema.Proofs.Gathering
import WireSchema.Proofs.Outcomes
import WireSchema.Proofs.Rounding

/-! Number literals as they are written, what they are worth, and where they end. -/
namespace WireSchema

/-- What comes next in the first text, if anything does, is a break or comes next in the second
too. -/
def NextIn (rest' rest : List Char) : Prop :=
  ∀ c ∈ rest'.head?, Text.isBreak c = true ∨ c ∈ rest.head?

theorem NextIn.refl (rest : List Char) : NextIn rest rest := fun _ h => .inr h

theorem NextIn.mem {rest' rest : List Char} {c : Char} (h : NextIn rest' rest)
    (hc : c ∈ rest'.head?) (hbreak : Text.isBreak c = false) : c ∈ rest.head? := by
  rcases h c hc with h | h
  · simp [h] at hbreak
  · exact h

/-- Nothing of the class comes next. -/
def NoneNext (p : Char → Bool) (rest : List Char) : Prop := ∀ c ∈ rest.head?, p c = false

section Spans
variable {p : Char → Bool} {ds rest rest' : List Char}

/-- What ends a token before one text ends it before any text that goes on alike or with a break. -/
theorem NoneNext.mono (h : NoneNext p rest) (hp : ∀ c, Text.isBreak c = true → p c = false)
    (hn : NextIn rest' rest) : NoneNext p rest' := by
  intro c hc
  rcases hn c hc with hbreak | hmem
  · exact hp c hbreak
  · exact h c hmem

theorem NoneNext.any (h : NoneNext p rest) : rest.head?.any p = false := by
  cases rest with
  | nil => rfl
  | cons c rest => exact h c rfl

/-- A text begins with a longest run of a class. -/
theorem exists_span (p : Char → Bool) (cs : List Char) :
    ∃ ds rest, cs = ds ++ rest ∧ (∀ d ∈ ds, p d = true) ∧ NoneNext p rest := by
  induction cs with
  | nil => exact ⟨[], [], rfl, by simp, by simp [NoneNext]⟩
  | cons c cs ih =>
    by_cases hc : p c = true
    · obtain ⟨ds, rest, rfl, hds, hrest⟩ := ih
      exact ⟨c :: ds, rest, rfl, by simpa [hc] using hds, hrest⟩
    · exact ⟨[], c :: cs, rfl, by simp, by simpa [NoneNext] using hc⟩

theorem takeWhile_span (hds : ∀ d ∈ ds, p d = true) (hrest : NoneNext p rest) :
    (ds ++ rest).takeWhile p = ds := by
  rw [List.takeWhile_append_of_pos hds]
  cases rest with
  | nil => simp
  | cons c rest => simp [hrest c rfl]

end Spans

/-! ## Digits -/

/-- All are digits to that base. -/
def Digits (base : Nat) (ds : List Char) : Prop := ∀ d ∈ ds, isDigitOf base d = true

/-- The number that some digits stand for, the last one counting least. -/
def digitsValue (base : Nat) (ds : List Char) : Nat :=
  Nat.ofDigits base (ds.reverse.map digitValue)

/-- The value that the loop gathers is the one that the digits have by their places. -/
theorem natOfDigits_eq (base : Nat) (ds : List Char) :
    natOfDigits base ds = digitsValue base ds := by
  induction ds using List.reverseRecOn with
  | nil => rfl
  | append_singleton ds d ih =>
    have hstep : natOfDigits base (ds ++ [d]) = base * natOfDigits base ds + digitValue d := by
      simp [natOfDigits]
    rw [hstep, ih]
    simp [digitsValue, Nat.ofDigits_cons, add_comm]

/-- Digits in front count for more by as many places as digits follow. -/
theorem digitsValue_append (base : Nat) (ds es : List Char) :
    digitsValue base (ds ++ es) = digitsValue base ds * base ^ es.length + digitsValue base es := by
  simp [digitsValue, Nat.ofDigits_append]
  ring

theorem digits_toDigits (n : Nat) : Digits 10 (Nat.toDigits 10 n) := by
  intro d hd
  rw [isDigitOf_ten]
  exact Nat.isDigit_of_mem_toDigits (by norm_num) (by norm_num) hd

/-- The decimal digits of a number stand for it. -/
theorem digitsValue_toDigits (n : Nat) : digitsValue 10 (Nat.toDigits 10 n) = n := by
  have hfold (ds : List Char) (hds : Digits 10 ds) (k : Nat) :
      ds.foldl (fun m d => 10 * m + digitValue d) k =
        ds.foldl (fun m d => 10 * m + (d.toNat - '0'.toNat)) k := by
    refine List.foldl_ext _ _ _ fun m d hd => ?_
    rw [digitValue_of_isDigit (isDigitOf_ten ▸ hds d hd)]
  rw [← natOfDigits_eq, natOfDigits, hfold _ (digits_toDigits n), ← Nat.ofDigitChars_eq_foldl,
    Nat.ofDigitChars_ten_toDigits]

/-! ## Decimal numerals -/

namespace Numeral
variable {n : Numeral} {w f e rest r : List Char}

/-- A point and digits, or neither. -/
inductive Fraction : List Char → Option (List Char) → Prop where
  | none : Fraction [] none
  | some {ds : List Char} : Digits 10 ds → Fraction ('.' :: ds) (some ds)

/-- An exponent with its sign, or none. -/
inductive Exponent : List Char → Option (List Char × List Char) → Prop where
  | none : Exponent [] none
  | some {c : Char} {sign ds : List Char} : c = 'e' ∨ c = 'E' →
      sign = [] ∨ sign = ['+'] ∨ sign = ['-'] → Digits 10 ds → ds ≠ [] →
      Exponent (c :: (sign ++ ds)) (some (sign, ds))

inductive Written : List Char → Numeral → Prop where
  | mk {whole f e : List Char} {fraction : Option (List Char)}
      {exponent : Option (List Char × List Char)} :
      Digits 10 whole → Fraction f fraction → Exponent e exponent →
      Written (whole ++ (f ++ e)) ⟨whole, fraction, exponent⟩

/-- There is a digit before the exponent. -/
def HasDigit (n : Numeral) : Prop := n.whole ≠ [] ∨ ∃ ds, n.fraction = some ds ∧ ds ≠ []

/-- The exact value. -/
def value (n : Numeral) : ℚ :=
  let fraction := n.fraction.getD []
  (digitsValue 10 n.whole + digitsValue 10 fraction / 10 ^ fraction.length) * 10 ^ n.power

/-- The value of all the digits together, with the point behind the last one. -/
theorem value_eq (n : Numeral) : n.value =
    digitsValue 10 (n.whole ++ n.fraction.getD []) *
      10 ^ (n.power - (n.fraction.getD []).length) := by
  rw [digitsValue_append, zpow_sub₀ (by norm_num), zpow_natCast, value]
  push_cast
  field_simp

/-- Not even the reading of a fraction rounds more than once. -/
theorem toBinary64_isNearest (h : n.toBinary64.isFinite = true) :
    n.toBinary64.IsNearest n.value := by
  rw [value_eq, ← natOfDigits_eq]
  exact Binary64.ofDecimal_isNearest h

/-- A fraction is read back whole, if what follows is neither a digit nor a point that it lacks. -/
theorem fractionOf_append {fraction : Option (List Char)} (h : Fraction f fraction)
    (hdigit : NoneNext (isDigitOf 10) r) (hpoint : fraction = none → '.' ∉ r.head?) :
    fractionOf (f ++ r) = fraction := by
  cases h with
  | none =>
    cases r with
    | nil => rfl
    | cons c r =>
      have hc : c ≠ '.' := by simpa using hpoint rfl
      rw [List.nil_append, fractionOf]
      rintro cs ⟨⟩
      exact hc rfl
  | some hds => rw [List.cons_append, fractionOf, takeWhile_span hds hdigit]

/-- Any text starts with a fraction, if only the empty one. -/
theorem exists_fraction (r : List Char) (hr : NoneNext (isDigitOf 10) r) :
    ∃ f rest, r = f ++ rest ∧ Fraction f (fractionOf r) ∧ NoneNext (isDigitOf 10) rest ∧
      (fractionOf r = none → '.' ∉ rest.head?) := by
  by_cases hpoint : '.' ∈ r.head?
  · obtain ⟨cs, rfl⟩ : ∃ cs, r = '.' :: cs := by
      cases r with
      | nil => simp at hpoint
      | cons c cs => exact ⟨cs, by simpa using hpoint⟩
    obtain ⟨ds, rest, rfl, hds, hrest⟩ := exists_span (isDigitOf 10) cs
    rw [fractionOf, takeWhile_span hds hrest]
    exact ⟨'.' :: ds, rest, rfl, .some hds, hrest, by simp⟩
  · have hnone : fractionOf r = none := fractionOf_append .none hr fun _ => hpoint
    exact ⟨[], r, rfl, hnone ▸ .none, hr, fun _ => hpoint⟩

theorem splitSign_append {sign ds : List Char} (hs : sign = [] ∨ sign = ['+'] ∨ sign = ['-'])
    (hds : Digits 10 ds) (hne : ds ≠ []) : splitSign (sign ++ ds ++ r) = (sign, ds ++ r) := by
  rcases hs with rfl | rfl | rfl
  · cases ds with
    | nil => exact absurd rfl hne
    | cons d ds =>
      have hd := hds d (by simp)
      rw [splitSign.eq_def]
      split
      next heq => simp [(List.cons.inj heq).1, show isDigitOf 10 '+' = false by decide] at hd
      next heq => simp [(List.cons.inj heq).1, show isDigitOf 10 '-' = false by decide] at hd
      next => rfl
  · rfl
  · rfl

theorem splitSign_spec (cs : List Char) :
    ((splitSign cs).1 = [] ∨ (splitSign cs).1 = ['+'] ∨ (splitSign cs).1 = ['-']) ∧
      cs = (splitSign cs).1 ++ (splitSign cs).2 := by
  rw [splitSign.eq_def]
  split <;> simp

theorem exponentOf_cons (c : Char) (cs : List Char) :
    exponentOf (c :: cs) =
      if (c = 'e' ∨ c = 'E') ∧ (splitSign cs).2.takeWhile (isDigitOf 10) ≠ [] then
        some ((splitSign cs).1, (splitSign cs).2.takeWhile (isDigitOf 10))
      else none := rfl

theorem exponentOf_append {exponent : Option (List Char × List Char)} (h : Exponent e exponent)
    (hdigit : NoneNext (isDigitOf 10) r) (he : 'e' ∉ r.head?) (hE : 'E' ∉ r.head?) :
    exponentOf (e ++ r) = exponent := by
  cases h with
  | none =>
    cases r with
    | nil => rfl
    | cons c r =>
      have hc : ¬ (c = 'e' ∨ c = 'E') := by simpa using And.intro he hE
      rw [List.nil_append, exponentOf_cons, if_neg fun h => hc h.1]
  | some hc hs hds hne =>
    rw [List.cons_append, exponentOf_cons, splitSign_append hs hds hne,
      takeWhile_span hds hdigit, if_pos ⟨hc, hne⟩]

/-- Any text starts with an exponent, if only the empty one. An `e` without digits behind it is left
where it is. -/
theorem exists_exponent (r : List Char) (hr : NoneNext (isDigitOf 10) r) :
    ∃ e rest, r = e ++ rest ∧ Exponent e (exponentOf r) ∧ NoneNext (isDigitOf 10) rest ∧
      (exponentOf r = none → rest = r) := by
  cases r with
  | nil => exact ⟨[], [], rfl, .none, hr, fun _ => rfl⟩
  | cons c cs =>
    obtain ⟨hsign, hcs⟩ := splitSign_spec cs
    obtain ⟨ds, rest, hafter, hds, hrest⟩ := exists_span (isDigitOf 10) (splitSign cs).2
    rw [exponentOf_cons, hafter, takeWhile_span hds hrest]
    split
    next h =>
      refine ⟨c :: ((splitSign cs).1 ++ ds), rest, ?_, .some h.1 hsign hds h.2, hrest, by simp⟩
      rw [List.cons_append, List.append_assoc, ← hafter, ← hcs]
    next => exact ⟨[], c :: cs, rfl, .none, hr, fun _ => rfl⟩

theorem Written.ne_nil (h : Written w n) (hn : n.HasDigit) : w ≠ [] := by
  obtain @⟨whole, f, e, fraction, exponent, hw, hf, he⟩ := h
  rcases hn with hn | ⟨ds, hds, -⟩
  · simp only at hn
    simp [hn]
  · cases hf with
    | none => cases hds
    | some => simp

/-- Digits alone are a numeral. -/
theorem written_digits (h : Digits 10 w) : Written w ⟨w, none, none⟩ := by
  simpa using Written.mk h .none .none

theorem Written.eq_whole (h : Written w n) (hn : n.isWhole = true) :
    w = n.whole ∧ Digits 10 n.whole := by
  obtain ⟨hw, hf, he⟩ := h
  obtain ⟨rfl, rfl⟩ : _ = none ∧ _ = none := by simpa [isWhole] using hn
  cases hf
  cases he
  exact ⟨by simp, hw⟩

theorem fractionLength_eq (h : Fraction f n.fraction) : n.fractionLength = f.length := by
  generalize hf : n.fraction = fraction at h
  rw [fractionLength, hf]
  cases h <;> simp

theorem exponentLength_eq (h : Exponent e n.exponent) : n.exponentLength = e.length := by
  generalize he : n.exponent = exponent at h
  rw [exponentLength, he]
  cases h <;> simp

/-- The characters that are taken are all that were written. -/
theorem length_eq (h : Written w n) : n.length = w.length := by
  obtain ⟨hw, hf, he⟩ := h
  rw [length, fractionLength_eq hf, exponentLength_eq he]
  simp [add_assoc]

/-- The three parts are read one behind the other. -/
theorem ofText_append {whole : List Char} (hw : Digits 10 whole)
    (hr : NoneNext (isDigitOf 10) (f ++ r)) (hf : Fraction f (fractionOf (f ++ r))) :
    ofText (whole ++ (f ++ r)) = ⟨whole, fractionOf (f ++ r), exponentOf r⟩ := by
  have hlen : fractionLength ⟨whole, fractionOf (f ++ r), none⟩ = f.length :=
    fractionLength_eq hf
  simp only [ofText, takeWhile_span hw hr, List.drop_left, hlen]

/-- The text behind a numeral does not go on with it. -/
structure Stops (n : Numeral) (rest : List Char) : Prop where
  digit : NoneNext (isDigitOf 10) rest
  lower : 'e' ∉ rest.head?
  upper : 'E' ∉ rest.head?
  point : n.isWhole = true → '.' ∉ rest.head?

theorem stops_nil (n : Numeral) : n.Stops [] := by
  constructor <;> simp [NoneNext]

theorem Stops.mono {rest' : List Char} (h : Stops n rest) (hn : NextIn rest' rest) :
    Stops n rest' where
  digit := h.digit.mono (fun _ => isDigitOf_of_isBreak (by norm_num)) hn
  lower hc := h.lower (hn.mem hc (by decide))
  upper hc := h.upper (hn.mem hc (by decide))
  point hw hc := h.point hw (hn.mem hc (by decide))

theorem Fraction.noneNext {fraction : Option (List Char)} (h : Fraction f fraction)
    (hr : NoneNext (isDigitOf 10) r) : NoneNext (isDigitOf 10) (f ++ r) := by
  cases h with
  | none => exact hr
  | some => simp [NoneNext, show isDigitOf 10 '.' = false by decide]

/-- An exponent begins with a letter. -/
theorem Exponent.starts {x : List Char × List Char} (h : Exponent e (Option.some x)) :
    NoneNext (isDigitOf 10) (e ++ r) ∧ '.' ∉ (e ++ r).head? := by
  cases h with
  | some hc =>
    rcases hc with rfl | rfl
    · simp [NoneNext, show isDigitOf 10 'e' = false by decide]
    · simp [NoneNext, show isDigitOf 10 'E' = false by decide]

theorem Exponent.noneNext {exponent : Option (List Char × List Char)} (h : Exponent e exponent)
    (hr : NoneNext (isDigitOf 10) r) : NoneNext (isDigitOf 10) (e ++ r) := by
  cases exponent with
  | none =>
    cases h
    exact hr
  | some => exact h.starts.1

theorem Exponent.not_point {exponent : Option (List Char × List Char)} (h : Exponent e exponent)
    (hr : exponent = Option.none → '.' ∉ r.head?) : '.' ∉ (e ++ r).head? := by
  cases exponent with
  | none =>
    cases h
    exact hr rfl
  | some => exact h.starts.2

/-- A numeral is read whole, unless more of it follows. -/
theorem ofText_written (h : Written w n) (hs : Stops n rest) : ofText (w ++ rest) = n := by
  obtain ⟨hw, hf, he⟩ := h
  have hdigit := he.noneNext hs.digit
  have hfraction := fractionOf_append hf hdigit fun hnone =>
    he.not_point fun hnone' => hs.point (by simp [isWhole, hnone, hnone'])
  rw [List.append_assoc, List.append_assoc,
    ofText_append hw (hf.noneNext hdigit) (hfraction.symm ▸ hf), hfraction,
    exponentOf_append he hs.digit hs.lower hs.upper]

/-- Every text begins with a numeral, though perhaps an empty one. -/
theorem exists_written (cs : List Char) :
    ∃ w rest, cs = w ++ rest ∧ Written w (ofText cs) ∧ NoneNext (isDigitOf 10) rest ∧
      ((ofText cs).isWhole = true → '.' ∉ rest.head?) := by
  obtain ⟨whole, r, rfl, hw, hr⟩ := exists_span (isDigitOf 10) cs
  obtain ⟨f, r, rfl, hf, hr', hpoint⟩ := exists_fraction r hr
  rw [ofText_append hw hr hf]
  obtain ⟨e, rest, rfl, he, hrest, hnone⟩ := exists_exponent r hr'
  refine ⟨whole ++ (f ++ e), rest, by simp, .mk hw hf he, hrest, fun hwhole => ?_⟩
  obtain ⟨hf', he'⟩ : fractionOf (f ++ (e ++ rest)) = none ∧ exponentOf (e ++ rest) = none := by
    simpa [isWhole] using hwhole
  rw [hnone he']
  exact hpoint hf'

theorem not_startsUnsigned (hdigit : NoneNext (isDigitOf 10) r) (hpoint : '.' ∉ r.head?) :
    startsUnsigned r = false := by
  cases r with
  | nil => rfl
  | cons c r =>
    have hc : c ≠ '.' := by simpa using hpoint
    simp [startsUnsigned, hdigit c rfl, hc]

/-- A number starts where a numeral has a digit. -/
theorem startsUnsigned_written (h : Written w n) (hs : Stops n rest) :
    startsUnsigned (w ++ rest) = true ↔ n.HasDigit := by
  obtain @⟨whole, f, e, fraction, exponent, hw, hf, he⟩ := h
  have hdigit := he.noneNext hs.digit
  cases whole with
  | cons d ds => simp [startsUnsigned, HasDigit, hw d (by simp)]
  | nil =>
    cases hf with
    | none =>
      have hpoint := he.not_point fun hnone => hs.point (by simp [isWhole, hnone])
      simp [not_startsUnsigned hdigit hpoint, HasDigit]
    | @some ds hds =>
      cases ds with
      | nil =>
        have hany := hdigit.any
        rw [List.head?_append] at hany
        simp [startsUnsigned, HasDigit, hany, show isDigitOf 10 '.' = false by decide]
      | cons d ds => simp [startsUnsigned, HasDigit, hds d (by simp)]

end Numeral
/-! ## Numbers -/

section Numbers
variable {negative : Bool} {w ds mark cs rest rest' : List Char} {base : Nat} {t : Token}

/-- The mark of a base, or nothing for base ten. -/
inductive BaseMark : List Char → Nat → Prop where
  | decimal : BaseMark [] 10
  | hexadecimal {c : Char} : c = 'x' ∨ c = 'X' → BaseMark ['0', c] 16
  | binary {c : Char} : c = 'b' ∨ c = 'B' → BaseMark ['0', c] 2

/-- The characters of a number behind its sign, and the number. -/
inductive SpellsNumber (negative : Bool) : List Char → Scalar → Prop where
  | integer {mark ds : List Char} {base : Nat} {n : Int} : BaseMark mark base → Digits base ds →
      ds ≠ [] → n = (if negative then -1 else 1) * digitsValue base ds → -2 ^ 63 ≤ n → n < 2 ^ 63 →
      SpellsNumber negative (mark ++ ds) (.int n)
  | float {w : List Char} {n : Numeral} {x : Binary64} : n.Written w → n.HasDigit →
      n.isWhole = false → x.isNegative = negative →
      x.IsNearest (if negative then -n.value else n.value) → SpellsNumber negative w (.float x)

/-- The bounds of 64 bits. -/
theorem fitsInt64_iff {n : Int} : fitsInt64 n = true ↔ -2 ^ 63 ≤ n ∧ n < 2 ^ 63 := by
  simp only [fitsInt64, Bool.and_eq_true, decide_eq_true_eq]
  omega

theorem BaseMark.base_le (h : BaseMark mark base) : base ≤ 16 := by
  cases h <;> norm_num

theorem integerToken_eq {n : Int} (hmark : BaseMark mark base) (hds : Digits base ds)
    (hne : ds ≠ []) (hn : n = (if negative then -1 else 1) * digitsValue base ds) :
    integerToken negative base ds =
      if -2 ^ 63 ≤ n ∧ n < 2 ^ 63 then .ok (.literal (.int n)) else .error .integerOutOfRange := by
  rw [← natOfDigits_eq] at hn
  simp only [integerToken_eq_natOfDigits hmark.base_le hds hne hn, fitsInt64_iff]

theorem integerToken_eq_ok (hmark : BaseMark mark base) (hds : Digits base ds) (hne : ds ≠ [])
    (h : integerToken negative base ds = .ok t) :
    ∃ n : Int, t = .literal (.int n) ∧ n = (if negative then -1 else 1) * digitsValue base ds ∧
      -2 ^ 63 ≤ n ∧ n < 2 ^ 63 := by
  rw [integerToken_eq hmark hds hne rfl] at h
  generalize (if negative then -1 else 1) * (digitsValue base ds : Int) = n at h ⊢
  split at h
  next hfits =>
    cases h
    exact ⟨n, rfl, rfl, hfits⟩
  next => cases h

/-- The sign is put on a number that is already rounded, and rounding is the same on both sides of
zero. -/
theorem floatToken_eq_ok {x : Binary64} {q : ℚ} (h : floatToken negative x = .ok t)
    (hsign : x.isNegative = false) (hnear : x.isFinite = true → x.IsNearest q) :
    ∃ y : Binary64, t = .literal (.float y) ∧ y.isNegative = negative ∧
      y.IsNearest (if negative then -q else q) := by
  rw [floatToken] at h
  by_cases hfinite : x.isFinite = true
  · rw [if_pos hfinite] at h
    cases h
    refine ⟨_, rfl, ?_, (hnear hfinite).signed negative⟩
    cases negative with
    | false => exact hsign
    | true => simp [Binary64.isNegative_neg, hsign]
  · rw [if_neg hfinite] at h
    cases h

theorem baseMark_cons_cons (a b : Char) (cs : List Char) :
    baseMark (a :: b :: cs) =
      if a = '0' then
        if b = 'x' ∨ b = 'X' then some (16, cs)
        else if b = 'b' ∨ b = 'B' then some (2, cs) else none
      else none := by
  by_cases ha : a = '0'
  · rw [ha, if_pos rfl]
    rfl
  · rw [if_neg ha, baseMark.eq_def]
    split
    next heq => exact absurd (List.cons.inj heq).1 ha
    next => rfl

/-- A base is marked by two characters. -/
theorem baseMark_eq_some (h : baseMark cs = some (base, rest)) :
    ∃ mark, cs = mark ++ rest ∧ BaseMark mark base ∧ mark.length = 2 := by
  match cs with
  | [] => simp [baseMark] at h
  | [a] => simp [baseMark] at h
  | a :: b :: cs =>
    rw [baseMark_cons_cons] at h
    split at h
    next ha =>
      subst ha
      split at h
      next hb =>
        cases h
        exact ⟨['0', b], rfl, .hexadecimal hb, rfl⟩
      next =>
        split at h
        next hb =>
          cases h
          exact ⟨['0', b], rfl, .binary hb, rfl⟩
        next => cases h
    next => cases h

theorem baseMark_append (h : BaseMark mark base) (hne : mark ≠ []) :
    baseMark (mark ++ rest) = some (base, rest) := by
  cases h with
  | decimal => exact absurd rfl hne
  | hexadecimal hc => rcases hc with rfl | rfl <;> rfl
  | binary hc => rcases hc with rfl | rfl <;> rfl

/-- Plain digits are never taken for a mark. -/
theorem baseMark_digits {ds : List Char} (h : Digits 10 ds) : baseMark ds = none := by
  match ds with
  | [] => rfl
  | [d] => simp [baseMark]
  | d :: e :: ds =>
    have he := h e (by simp)
    have hne (c : Char) (hc : isDigitOf 10 c = false) : e ≠ c := by
      rintro rfl
      simp [hc] at he
    simp [baseMark_cons_cons, hne 'x' (by decide), hne 'X' (by decide), hne 'b' (by decide),
      hne 'B' (by decide)]

/-- Whether there is a mark shows in the first two characters. -/
theorem baseMark_eq_none_mono (h : baseMark (w ++ rest) = none) (hw : w ≠ [])
    (hn : NextIn rest' rest) : baseMark (w ++ rest') = none := by
  have htail (a b : Char) (cs cs' : List Char) (h : baseMark (a :: b :: cs) = none) :
      baseMark (a :: b :: cs') = none := by
    rw [baseMark_cons_cons] at h ⊢
    split_ifs at h ⊢ <;> simp_all
  match w with
  | [] => exact absurd rfl hw
  | a :: b :: w => exact htail a b _ _ h
  | [a] =>
    cases rest' with
    | nil => simp [baseMark]
    | cons b rest' =>
      rcases hn b rfl with hbreak | hb
      · have hne (d : Char) (hd : Text.isBreak d = false) : b ≠ d := by
          rintro rfl
          simp [hd] at hbreak
        simp [baseMark_cons_cons, hne 'x' (by decide), hne 'X' (by decide), hne 'b' (by decide),
          hne 'B' (by decide)]
      · obtain ⟨r, rfl⟩ : ∃ r, rest = b :: r := by
          cases rest with
          | nil => simp at hb
          | cons c r => exact ⟨r, by simpa using hb⟩
        exact htail a b _ _ h

/-- Digits behind a mark are read up to the first that the base does not have. -/
theorem unsignedNumber_based (hmark : BaseMark mark base) (hne : mark ≠ [])
    (hds : Digits base ds) (hds' : ds ≠ []) (hrest : NoneNext (isDigitOf base) rest) :
    unsignedNumber negative (mark ++ ds ++ rest) =
      (integerToken negative base ds).map (·, (mark ++ ds).length) := by
  have hlen : mark.length = 2 := by
    cases hmark with
    | decimal => exact absurd rfl hne
    | hexadecimal => rfl
    | binary => rfl
  simp only [unsignedNumber, List.append_assoc, baseMark_append hmark hne,
    takeWhile_span hds hrest, if_neg hds', List.length_append, hlen, Nat.add_comm 2]

/-- Without a mark, the longest numeral in front is read. -/
theorem unsignedNumber_decimal {n : Numeral} (hw : n.Written w) (hs : n.Stops rest)
    (hmark : baseMark (w ++ rest) = none) :
    unsignedNumber negative (w ++ rest) = (n.token negative).map (·, w.length) := by
  simp only [unsignedNumber, hmark, Numeral.ofText_written hw hs, Numeral.length_eq hw]

/-- Digits to the end of the text are an integer, whatever their base. -/
theorem unsignedNumber_integer (hmark : BaseMark mark base) (hds : Digits base ds)
    (hne : ds ≠ []) :
    unsignedNumber negative (mark ++ ds) =
      (integerToken negative base ds).map (·, (mark ++ ds).length) := by
  by_cases hmark' : mark = []
  · subst hmark'
    cases hmark
    have hnone : baseMark (ds ++ []) = none := by
      rw [List.append_nil]
      exact baseMark_digits hds
    have hread : unsignedNumber negative (ds ++ []) = _ :=
      unsignedNumber_decimal (Numeral.written_digits hds) (Numeral.stops_nil _) hnone
    rw [List.append_nil] at hread
    exact hread
  · have hread : unsignedNumber negative (mark ++ ds ++ []) = _ :=
      unsignedNumber_based hmark hmark' hds hne (by simp [NoneNext])
    rwa [List.append_nil] at hread

/-- An integer that is read is spelled by its digits. -/
theorem spellsNumber_of_integerToken (hmark : BaseMark mark base) (hds : Digits base ds)
    (hne : ds ≠ []) (h : integerToken negative base ds = .ok t) :
    ∃ v, t = .literal v ∧ SpellsNumber negative (mark ++ ds) v := by
  obtain ⟨n, rfl, hn, hlow, hhigh⟩ := integerToken_eq_ok hmark hds hne h
  exact ⟨_, rfl, .integer hmark hds hne hn hlow hhigh⟩

/-- A numeral with a digit is never refused as a float. -/
theorem Numeral.token_of_hasDigit {n : Numeral} (h : n.HasDigit) :
    n.token negative =
      if n.isWhole then integerToken negative 10 n.whole else floatToken negative n.toBinary64 := by
  have hread : n.toBinary64? = some n.toBinary64 := by
    rw [toBinary64?, if_neg]
    rintro ⟨hwhole, hfraction⟩
    rcases h with h | ⟨ds, hds, hne⟩
    · exact h hwhole
    · rw [hds] at hfraction
      exact hne hfraction
  rw [token, hread]

theorem Numeral.spellsNumber_of_token {n : Numeral} (hw : n.Written w) (hdigit : n.HasDigit)
    (h : n.token negative = .ok t) : ∃ v, t = .literal v ∧ SpellsNumber negative w v := by
  rw [token_of_hasDigit hdigit] at h
  by_cases hwhole : n.isWhole = true
  · rw [if_pos hwhole] at h
    obtain ⟨rfl, hds⟩ := hw.eq_whole hwhole
    exact spellsNumber_of_integerToken .decimal hds (hw.ne_nil hdigit) h
  · rw [if_neg hwhole] at h
    obtain ⟨x, rfl, hsign, hnear⟩ := floatToken_eq_ok h (Binary64.isNegative_ofDecimal _ _)
      toBinary64_isNearest
    exact ⟨_, rfl, .float hw hdigit (by simpa using hwhole) hsign hnear⟩

/-- What is read is spelled there, and it is read the same when less follows. -/
def ReadsNumber (negative : Bool) (w rest : List Char) (t : Token) : Prop :=
  (∃ v, t = .literal v ∧ SpellsNumber negative w v) ∧
    ∀ rest', NextIn rest' rest →
      unsignedNumber negative (w ++ rest') = .ok (t, w.length) ∧ startsUnsigned (w ++ rest') = true

theorem readsNumber_based (hmark : BaseMark mark base) (hne : mark ≠ [])
    (hds : Digits base ds) (hds' : ds ≠ []) (hrest : NoneNext (isDigitOf base) rest)
    (h : integerToken negative base ds = .ok t) :
    ReadsNumber negative (mark ++ ds) rest t := by
  refine ⟨spellsNumber_of_integerToken hmark hds hds' h, fun rest' hn => ⟨?_, ?_⟩⟩
  · have hrest' := hrest.mono (fun _ => isDigitOf_of_isBreak hmark.base_le) hn
    rw [unsignedNumber_based hmark hne hds hds' hrest', h]
    rfl
  · cases hmark with
    | decimal => exact absurd rfl hne
    | hexadecimal => rfl
    | binary => rfl

theorem readsNumber_decimal {n : Numeral} (hw : n.Written w) (hdigit : n.HasDigit)
    (hs : n.Stops rest) (hmark : baseMark (w ++ rest) = none)
    (h : n.token negative = .ok t) : ReadsNumber negative w rest t := by
  refine ⟨Numeral.spellsNumber_of_token hw hdigit h, fun rest' hn => ⟨?_, ?_⟩⟩
  · rw [unsignedNumber_decimal hw (hs.mono hn)
      (baseMark_eq_none_mono hmark (hw.ne_nil hdigit) hn), h]
    rfl
  · exact (Numeral.startsUnsigned_written hw (hs.mono hn)).2 hdigit

theorem unsignedNumber_eq_ok {k : Nat} (h : unsignedNumber negative cs = .ok (t, k))
    (hstart : startsUnsigned cs = true) (he : 'e' ∉ (cs.drop k).head?)
    (hE : 'E' ∉ (cs.drop k).head?) :
    ∃ w rest, cs = w ++ rest ∧ k = w.length ∧ ReadsNumber negative w rest t := by
  rw [unsignedNumber] at h
  split at h
  next base r hmark =>
    obtain ⟨mark, rfl, hmark', hlen⟩ := baseMark_eq_some hmark
    obtain ⟨ds, rest, rfl, hds, hrest⟩ := exists_span (isDigitOf base) r
    rw [takeWhile_span hds hrest] at h
    by_cases hne : ds = []
    · rw [if_pos hne] at h
      cases h
    · rw [if_neg hne] at h
      obtain ⟨t', ht, heq⟩ := map_eq_ok.1 h
      cases heq
      have hmark_ne : mark ≠ [] := by
        rintro rfl
        simp at hlen
      exact ⟨mark ++ ds, rest, by simp, by simp [hlen, Nat.add_comm 2],
        readsNumber_based hmark' hmark_ne hds hne hrest ht⟩
  next hmark =>
    obtain ⟨t', ht, heq⟩ := map_eq_ok.1 h
    cases heq
    obtain ⟨w, rest, hcs, hw, hdigit, hpoint⟩ := Numeral.exists_written cs
    rw [Numeral.length_eq hw] at he hE ⊢
    generalize Numeral.ofText cs = n at *
    subst hcs
    rw [List.drop_left] at he hE
    have hs : n.Stops rest := ⟨hdigit, he, hE, hpoint⟩
    have hn := (Numeral.startsUnsigned_written hw hs).1 hstart
    exact ⟨w, rest, rfl, rfl, readsNumber_decimal hw hn hs hmark ht⟩

end Numbers
end WireSchema
