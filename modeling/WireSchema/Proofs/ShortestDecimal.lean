import WireSchema.Decimal.Shortest
import WireSchema.Proofs.Rounding

/-! The shortest decimal of a number lies among the reals that are rounded to it. Seventeen digits
are always enough to find it. The reals that are rounded to one number lie apart from those that are
rounded to another, and so two numbers with the same decimal are the same. -/
namespace WireSchema
namespace Binary64

/-- The bits without the sign. -/
def magnitude (x : Binary64) : Nat := x.bits.toNat % 2 ^ 63

theorem exponentField_eq (x : Binary64) : x.exponentField = x.magnitude / 2 ^ 52 := by
  have := x.bits.toNat_lt
  rw [exponentField, magnitude]
  omega

theorem fraction_eq (x : Binary64) : x.fraction = x.magnitude % 2 ^ 52 := by
  rw [fraction, magnitude]
  omega

theorem significand_mod_two (x : Binary64) : x.significand % 2 = x.magnitude % 2 := by
  have hfrac := fraction_eq x
  rw [significand]
  split <;> omega

theorem significand_ne_zero {x : Binary64} (h : 0 < x.magnitude) : x.significand ≠ 0 := by
  have hfrac := fraction_eq x
  have hfield := exponentField_eq x
  rw [significand]
  split <;> omega

end Binary64

namespace Decimal

/-- The exact value. -/
def value (d : Decimal) : ℚ := d.digits * 10 ^ d.exp

variable {i : Neighbourhood} {g k : ℤ} {d : Nat} {q : ℚ} {tie : Tie}

namespace Neighbourhood

def lower (i : Neighbourhood) : ℚ := i.low * 2 ^ i.exp

def upper (i : Neighbourhood) : ℚ := i.high * 2 ^ i.exp

/-- The real belongs to the neighbourhood. -/
def Holds (i : Neighbourhood) (q : ℚ) : Prop :=
  if i.closed then i.lower ≤ q ∧ q ≤ i.upper else i.lower < q ∧ q < i.upper

theorem Holds.le (h : i.Holds q) : i.lower ≤ q ∧ q ≤ i.upper := by
  rw [Holds] at h
  split at h
  · exact h
  · exact ⟨h.1.le, h.2.le⟩

theorem Holds.of_lt (hlow : i.lower < q) (hhigh : q < i.upper) : i.Holds q := by
  rw [Holds]
  split
  · exact ⟨hlow.le, hhigh.le⟩
  · exact ⟨hlow, hhigh⟩

/-- Only a closed neighbourhood has ends. -/
theorem Holds.closed_of_end (h : i.Holds q) (hq : q = i.lower ∨ q = i.upper) :
    i.closed = true := by
  by_contra hc
  rw [Holds, if_neg hc] at h
  rcases hq with rfl | rfl
  · exact lt_irrefl _ h.1
  · exact lt_irrefl _ h.2

end Neighbourhood

/-- The unit of a neighbourhood and the step of a grid, as whole multiples of one number. -/
theorem Neighbourhood.exists_common (i : Neighbourhood) (g : ℤ) :
    ∃ u : ℚ, 0 < u ∧ (2 : ℚ) ^ i.exp = i.unit g * u ∧ (10 : ℚ) ^ g = i.step g * u := by
  have htwo := Binary64.zpow_eq_div 2 i.exp (by simp)
  have hten := Binary64.zpow_eq_div 10 g (by simp)
  rw [Nat.cast_ofNat] at htwo hten
  refine ⟨1 / ((2 ^ (-i.exp).toNat : Nat) * (10 ^ (-g).toNat : Nat)), by positivity, ?_, ?_⟩
  · rw [htwo, unit, Nat.pow_eq, Nat.pow_eq, Nat.cast_mul]
    field_simp
  · rw [hten, step, Nat.pow_eq, Nat.pow_eq, Nat.cast_mul]
    field_simp

theorem Neighbourhood.contains_iff : i.contains g d = true ↔ i.Holds (d * 10 ^ g) := by
  obtain ⟨u, hu, htwo, hten⟩ := i.exists_common g
  have hle (a b : Nat) : (a : ℚ) * u ≤ b * u ↔ a ≤ b := by
    rw [mul_le_mul_iff_of_pos_right hu, Nat.cast_le]
  have hlt (a b : Nat) : (a : ℚ) * u < b * u ↔ a < b := by
    rw [mul_lt_mul_iff_of_pos_right hu, Nat.cast_lt]
  simp only [contains, Holds, lower, upper, htwo, hten, ← mul_assoc, ← Nat.cast_mul, hle, hlt]
  cases i.closed <;> simp

theorem Neighbourhood.gridFloor_spec (i : Neighbourhood) (g : ℤ) :
    i.gridFloor g * (10 : ℚ) ^ g ≤ i.value * 2 ^ i.exp ∧
      i.value * (2 : ℚ) ^ i.exp < (i.gridFloor g + 1) * 10 ^ g := by
  obtain ⟨u, hu, htwo, hten⟩ := i.exists_common g
  have hstep : 0 < i.step g :=
    Nat.mul_pos (Nat.pow_pos (by norm_num)) (Nat.pow_pos (by norm_num))
  rw [htwo, hten, ← mul_assoc, ← mul_assoc, ← mul_assoc, mul_le_mul_iff_of_pos_right hu,
    mul_lt_mul_iff_of_pos_right hu]
  constructor
  · exact_mod_cast Nat.div_mul_le_self _ _
  · exact_mod_cast Nat.lt_mul_of_div_lt (Nat.lt_succ_self _) hstep

/-- A point of the grid that is found lies inside. If none is found, then both neighbours of the
value lie outside. -/
theorem onGrid_cases (tie : Tie) (i : Neighbourhood) (g : ℤ) :
    (∃ d : Nat, onGrid tie i g = some d ∧ i.Holds (d * 10 ^ g)) ∨
      onGrid tie i g = none ∧ ¬ i.Holds (i.gridFloor g * 10 ^ g) ∧
        ¬ i.Holds ((i.gridFloor g + 1) * 10 ^ g) := by
  have hdown : i.contains g (i.gridFloor g) = true ↔ i.Holds (i.gridFloor g * 10 ^ g) :=
    Neighbourhood.contains_iff
  have hup : i.contains g (i.gridFloor g + 1) = true ↔ i.Holds ((i.gridFloor g + 1) * 10 ^ g) := by
    rw [Neighbourhood.contains_iff, Nat.cast_add_one]
  have hfloor (h : i.contains g (i.gridFloor g) = true) :
      ∃ d : Nat, some (i.gridFloor g) = some d ∧ i.Holds (d * 10 ^ g) := ⟨_, rfl, hdown.1 h⟩
  have hceil (h : i.contains g (i.gridFloor g + 1) = true) :
      ∃ d : Nat, some (i.gridFloor g + 1) = some d ∧ i.Holds (d * 10 ^ g) :=
    ⟨_, rfl, by exact_mod_cast hup.1 h⟩
  unfold onGrid
  dsimp only
  split
  next h _ => exact .inl (hfloor h)
  next _ h => exact .inl (hceil h)
  next h h' => exact .inr ⟨rfl, by simp [← hdown]; exact h, by simp [← hup]; exact h'⟩
  next h h' =>
    left
    split
    · exact hfloor h
    split
    · exact hceil h'
    cases tie with
    | up => exact hceil h'
    | even =>
      dsimp only
      split
      · exact hfloor h
      · exact hceil h'

/-- A grid finer than the neighbourhood has a point in it, next to the value. -/
theorem exists_onGrid (tie : Tie) (hlow : i.low < i.value) (hhigh : i.value < i.high)
    (hstep : (10 : ℚ) ^ g < i.upper - i.lower) :
    ∃ d : Nat, onGrid tie i g = some d ∧ i.Holds (d * 10 ^ g) := by
  rcases onGrid_cases tie i g with h | ⟨-, hdown, hup⟩
  · exact h
  obtain ⟨hle, hlt⟩ := i.gridFloor_spec g
  have hpos : (0 : ℚ) < 2 ^ i.exp := by positivity
  have hvalue : i.lower < i.value * 2 ^ i.exp ∧ i.value * 2 ^ i.exp < i.upper := by
    rw [Neighbourhood.lower, Neighbourhood.upper, mul_lt_mul_iff_of_pos_right hpos,
      mul_lt_mul_iff_of_pos_right hpos]
    exact ⟨by exact_mod_cast hlow, by exact_mod_cast hhigh⟩
  -- The floor can only be outside below, and the point above it only outside above.
  have hbelow : i.gridFloor g * (10 : ℚ) ^ g ≤ i.lower := by
    by_contra h
    exact hdown (Neighbourhood.Holds.of_lt (not_le.1 h) (by linarith))
  have habove : i.upper ≤ (i.gridFloor g + 1) * (10 : ℚ) ^ g := by
    by_contra h
    exact hup (Neighbourhood.Holds.of_lt (by linarith) (not_le.1 h))
  linarith

/-- The scale is not too high. -/
theorem zpow_scaleOf_le {num den : Nat} (hnum : 0 < num) (hden : 0 < den) :
    (10 : ℚ) ^ (scaleOf num den - 1) ≤ num / den := by
  have hden' : (0 : ℚ) < den := by exact_mod_cast hden
  rw [scaleOf]
  split
  next h =>
    have hone : 1 ≤ num / den := (Nat.one_le_div_iff hden).2 h
    have hwidth : 10 ^ (width (num / den) - 1) ≤ num / den := by
      by_cases hw : width (num / den) - 1 = 0
      · rw [hw]
        exact hone
      · by_contra hlt
        have := (Nat.length_toDigits_le_iff (by norm_num) (by omega)).2 (not_le.1 hlt)
        rw [width] at *
        omega
    have hpos : 1 ≤ width (num / den) := Nat.length_toDigits_pos
    have hexp : (width (num / den) : ℤ) - 1 = (width (num / den) - 1 : Nat) := by omega
    rw [hexp, zpow_natCast]
    calc (10 : ℚ) ^ (width (num / den) - 1) ≤ (num / den : Nat) := by exact_mod_cast hwidth
      _ ≤ num / den := Nat.cast_div_le
  next h =>
    have hlt : (den - 1) / num < 10 ^ width ((den - 1) / num) :=
      (Nat.length_toDigits_le_iff (by norm_num) Nat.length_toDigits_pos).1 le_rfl
    have hle : den ≤ num * 10 ^ width ((den - 1) / num) := by
      have := Nat.lt_mul_of_div_lt hlt hnum
      rw [mul_comm]
      omega
    rw [show (1 : ℤ) - width ((den - 1) / num) - 1 = -(width ((den - 1) / num) : ℤ) by ring,
      zpow_neg, zpow_natCast, le_div_iff₀ hden', inv_mul_le_iff₀ (by positivity), mul_comm]
    exact_mod_cast hle

theorem trimZeros_value (n : Nat) (d : Decimal) : (trimZeros n d).value = d.value := by
  induction n generalizing d with
  | zero => rfl
  | succ n ih =>
    rw [trimZeros]
    split
    next h =>
      have hdigits : (d.digits : ℚ) = (d.digits / 10 : Nat) * 10 := by
        exact_mod_cast (Nat.div_mul_cancel (Nat.dvd_of_mod_eq_zero h)).symm
      rw [ih, value, value, hdigits, zpow_add_one₀ (by norm_num)]
      ring
    next => rfl

/-- The first grid that has a point inside ends the search, and one does. -/
theorem firstHit_holds {n : Nat} {ns : List Nat} (hn : n ∈ ns)
    (h : ∃ d : Nat, onGrid tie i (k - n) = some d) : i.Holds (firstHit tie i k ns).value := by
  induction ns with
  | nil => simp at hn
  | cons m ns ih =>
    rw [firstHit]
    rcases onGrid_cases tie i (k - m) with ⟨d, hd, hholds⟩ | ⟨hnone, -, -⟩
    · rw [hd]
      dsimp only
      rw [trimZeros_value]
      exact hholds
    · rw [hnone]
      dsimp only
      apply ih
      rcases List.mem_cons.1 hn with rfl | hn
      · obtain ⟨d, hd⟩ := h
        rw [hnone] at hd
        cases hd
      · exact hn

/-- Sixteen digits behind the first are finer than the neighbourhood of any number. -/
theorem value_lt_mul (x : Binary64) :
    (neighbourhood x).value < 10 ^ 16 * ((neighbourhood x).high - (neighbourhood x).low) := by
  have hlt := x.significand_lt
  simp only [neighbourhood]
  split
  next h =>
    have hs : x.significand = 2 ^ 52 := by
      rw [Binary64.significand, if_neg (by omega), h.1]
      rfl
    omega
  next => omega

theorem shortest_holds (tie : Tie) {x : Binary64} (hx : x.significand ≠ 0) :
    (neighbourhood x).Holds (shortest tie x).value := by
  rw [shortest, if_neg hx]
  dsimp only
  generalize hi : neighbourhood x = i
  have hlow : i.low < i.value := by
    rw [← hi]
    simp only [neighbourhood]
    split <;> omega
  have hhigh : i.value < i.high := by
    rw [← hi]
    simp [neighbourhood]
  have hfine := value_lt_mul x
  rw [hi] at hfine
  have hvalue : (0 : ℚ) < 2 ^ i.exp := by positivity
  generalize hk : scaleOf (i.value * Nat.pow 2 i.exp.toNat) (Nat.pow 2 (-i.exp).toNat) = k
  have hscale : (10 : ℚ) ^ (k - 1) ≤ i.value * 2 ^ i.exp := by
    have hzpow := Binary64.zpow_eq_div 2 i.exp (by simp)
    rw [Nat.cast_ofNat] at hzpow
    rw [hzpow, ← mul_div_assoc, ← Nat.cast_mul, ← hk]
    exact zpow_scaleOf_le (Nat.mul_pos (by omega) (Nat.pow_pos (by norm_num)))
      (Nat.pow_pos (by norm_num))
  have hstep : (10 : ℚ) ^ (k - (17 : Nat)) < i.upper - i.lower := by
    have hsplit : (10 : ℚ) ^ (k - 1) = 10 ^ (k - (17 : Nat)) * 10 ^ 16 := by
      rw [← zpow_natCast, ← zpow_add₀ (by norm_num)]
      congr 1
      push_cast
      ring
    have hfine' : (i.value : ℚ) < 10 ^ 16 * (i.high - i.low) := by
      rw [← Nat.cast_sub (by omega)]
      exact_mod_cast hfine
    have hlt : (i.value : ℚ) * 2 ^ i.exp < 10 ^ 16 * (i.high - i.low) * 2 ^ i.exp :=
      mul_lt_mul_of_pos_right hfine' hvalue
    rw [Neighbourhood.upper, Neighbourhood.lower]
    linarith
  obtain ⟨d, hd, -⟩ := exists_onGrid tie hlow hhigh hstep
  exact firstHit_holds (n := 17) (by decide) ⟨d, hd⟩

/-! ## Numbers next to each other -/

/-- The neighbourhood of a number ends where that of the next one begins. -/
theorem lower_succ {x y : Binary64} (h : y.magnitude = x.magnitude + 1) :
    (neighbourhood y).lower = (neighbourhood x).upper := by
  have hx := x.exponentField_eq
  have hx' := x.fraction_eq
  have hy := y.exponentField_eq
  have hy' := y.fraction_eq
  simp only [Neighbourhood.lower, Neighbourhood.upper, neighbourhood]
  by_cases hcarry : x.magnitude % 2 ^ 52 = 2 ^ 52 - 1
  · have hfield : y.exponentField = x.exponentField + 1 := by omega
    have hfrac : y.fraction = 0 := by omega
    have hsig : y.significand = 2 ^ 52 := by
      rw [Binary64.significand, if_neg (by omega), hfrac]
      rfl
    by_cases hsub : x.exponentField = 0
    · -- From the last subnormal number to the first normal one the step does not change.
      have hsig' : x.significand = 2 ^ 52 - 1 := by
        rw [Binary64.significand, if_pos hsub]
        omega
      have hexp : y.exponent = x.exponent := by
        rw [Binary64.exponent, Binary64.exponent, hfield, hsub]
        rfl
      rw [if_neg (by omega), hsig, hsig', hexp]
      norm_num
    · -- Below a power of two the way down is half as long, in a unit twice as large.
      have hsig' : x.significand = 2 ^ 53 - 1 := by
        rw [Binary64.significand, if_neg hsub]
        omega
      have hexp : y.exponent - 2 = x.exponent - 2 + 1 := by
        rw [Binary64.exponent, Binary64.exponent, hfield]
        omega
      rw [if_pos (by omega), hsig, hsig', hexp, zpow_add_one₀ (by norm_num)]
      norm_num
      ring
  · have hfield : y.exponentField = x.exponentField := by omega
    have hfrac : y.fraction = x.fraction + 1 := by omega
    have hsig : y.significand = x.significand + 1 := by
      rw [Binary64.significand, Binary64.significand, hfield, hfrac]
      split <;> omega
    have hexp : y.exponent = x.exponent := by rw [Binary64.exponent, Binary64.exponent, hfield]
    have hlow : 4 * (x.significand + 1) - 2 = 4 * x.significand + 2 := by omega
    rw [if_neg (by omega), hsig, hexp, hlow]

theorem lower_lt_upper (x : Binary64) : (neighbourhood x).lower < (neighbourhood x).upper := by
  rw [Neighbourhood.lower, Neighbourhood.upper, mul_lt_mul_iff_of_pos_right (by positivity),
    Nat.cast_lt]
  simp only [neighbourhood]
  omega

/-- The neighbourhoods come in the order of the magnitudes, and only those of numbers next to each
other touch. -/
theorem upper_le_lower {x y : Binary64} (h : x.magnitude < y.magnitude) :
    (neighbourhood x).upper ≤ (neighbourhood y).lower ∧
      (y.magnitude ≠ x.magnitude + 1 → (neighbourhood x).upper < (neighbourhood y).lower) := by
  induction hn : y.magnitude - x.magnitude using Nat.strong_induction_on generalizing y with
  | _ n ih =>
    by_cases hnext : y.magnitude = x.magnitude + 1
    · rw [lower_succ hnext]
      exact ⟨le_rfl, fun hne => absurd hnext hne⟩
    · let z : Binary64 := ⟨UInt64.ofNat (y.magnitude - 1)⟩
      have hy : y.magnitude < 2 ^ 63 := Nat.mod_lt _ (by norm_num)
      have hz : z.magnitude = y.magnitude - 1 := by
        simp only [Binary64.magnitude, z, UInt64.toNat_ofNat'] at hy ⊢
        omega
      obtain ⟨hle, -⟩ := ih (z.magnitude - x.magnitude) (by omega) (y := z) (by omega) rfl
      have hlt := lower_lt_upper z
      rw [lower_succ (show y.magnitude = z.magnitude + 1 by omega)]
      exact ⟨by linarith, fun _ => by linarith⟩

theorem not_lt_of_value_eq {tie : Tie} {x y : Binary64}
    (h : (shortest tie x).value = (shortest tie y).value) : ¬ x.magnitude < y.magnitude := by
  intro hlt
  obtain ⟨hle, hapart⟩ := upper_le_lower hlt
  have hy := shortest_holds tie (Binary64.significand_ne_zero (by omega : 0 < y.magnitude))
  rw [← h] at hy
  by_cases hx : x.significand = 0
  · have hzero : (shortest tie x).value = 0 := by simp [shortest, hx, value]
    have hpos : 0 < (neighbourhood x).upper := by
      simp only [Neighbourhood.upper, neighbourhood]
      positivity
    linarith [hy.le.1]
  · have hx := shortest_holds tie hx
    have hend : (shortest tie x).value = (neighbourhood x).upper :=
      le_antisymm hx.le.2 (hle.trans hy.le.1)
    have hend' : (shortest tie x).value = (neighbourhood y).lower :=
      le_antisymm (hend.trans_le hle) hy.le.1
    have hnext : y.magnitude = x.magnitude + 1 := by
      by_contra hne
      exact absurd (hapart hne) (by rw [← hend, ← hend']; exact lt_irrefl _)
    -- The common end belongs to both, and so both significands are even.
    have hevenx := hx.closed_of_end (.inr hend)
    have heveny := hy.closed_of_end (.inl hend')
    simp only [neighbourhood, decide_eq_true_eq, Binary64.significand_mod_two] at hevenx heveny
    omega

/-- Two numbers of one sign with the same decimal are the same. -/
theorem eq_of_shortest_value_eq {tie : Tie} {x y : Binary64}
    (hsign : x.isNegative = y.isNegative) (h : (shortest tie x).value = (shortest tie y).value) :
    x = y := by
  have hxy := not_lt_of_value_eq h
  have hyx := not_lt_of_value_eq h.symm
  have hx := x.bits.toNat_lt
  have hy := y.bits.toNat_lt
  have hbits : x.bits.toNat = y.bits.toNat := by
    simp only [Binary64.isNegative, decide_eq_decide] at hsign
    simp only [Binary64.magnitude] at hxy hyx
    omega
  exact congrArg Binary64.mk (UInt64.toNat_inj.1 hbits)

end Decimal
end WireSchema
