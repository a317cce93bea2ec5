import Mathlib
import WireSchema.Binary64

/-! A decimal is read as the binary64 nearest to it. -/
namespace WireSchema
namespace Binary64
variable {x y : Binary64} {q : ℚ} {num den : Nat}

/-- The number that a finite pattern stands for. -/
def toRat (x : Binary64) : ℚ :=
  (if x.isNegative then -1 else 1) * (x.significand * 2 ^ x.exponent)

/-- No finite number is closer, and where another one is as close, this is the even one. -/
structure IsNearest (x : Binary64) (q : ℚ) : Prop where
  finite : x.isFinite = true
  le : ∀ y : Binary64, y.isFinite = true → |x.toRat - q| ≤ |y.toRat - q|
  even : ∀ y : Binary64, y.isFinite = true → |y.toRat - q| = |x.toRat - q| →
    y.toRat ≠ x.toRat → Even x.significand

/-- Rounding is off by half a unit at most, and by just half only if the result is even. -/
theorem roundDiv_error (num : Nat) (hden : 0 < den) :
    |(roundDiv num den : ℚ) - num / den| ≤ 1 / 2 ∧
      (|(roundDiv num den : ℚ) - num / den| = 1 / 2 → Even (roundDiv num den)) := by
  have hpos : (0 : ℚ) < den := by exact_mod_cast hden
  have hdiv : (num : ℚ) / den = (num / den : Nat) + (num % den : Nat) / den := by
    field_simp
    exact_mod_cast (Nat.div_add_mod num den).symm
  have hlt : ((num % den : Nat) : ℚ) < den := by exact_mod_cast Nat.mod_lt num hden
  have hnonneg : (0 : ℚ) ≤ (num % den : Nat) / den := by positivity
  rw [roundDiv]
  split
  next h =>
    have hle : ((num % den : Nat) : ℚ) / den ≤ 1 / 2 := by
      rw [div_le_iff₀ hpos]
      have : (2 * (num % den : Nat) : ℚ) ≤ den := by exact_mod_cast (by omega)
      linarith
    rw [hdiv, sub_add_cancel_left, abs_neg, abs_of_nonneg hnonneg]
    refine ⟨hle, fun heq => ?_⟩
    rw [div_eq_iff hpos.ne'] at heq
    have heq' : 2 * (num % den) = den := by
      have : (2 * (num % den : Nat) : ℚ) = den := by linarith
      exact_mod_cast this
    exact Nat.even_iff.2 (by omega)
  next h =>
    have hge : (1 : ℚ) / 2 ≤ (num % den : Nat) / den := by
      rw [le_div_iff₀ hpos]
      have : (den : ℚ) ≤ 2 * (num % den : Nat) := by exact_mod_cast (by omega)
      linarith
    have hle : ((num % den : Nat) : ℚ) / den ≤ 1 := (div_le_one hpos).2 hlt.le
    have habs : |((num / den + 1 : Nat) : ℚ) - num / den| = 1 - (num % den : Nat) / den := by
      rw [hdiv, Nat.cast_add, Nat.cast_one, abs_of_nonneg (by linarith)]
      ring
    rw [habs]
    refine ⟨by linarith, fun heq => ?_⟩
    have heq' : 2 * (num % den) = den := by
      have : ((num % den : Nat) : ℚ) / den = 1 / 2 := by linarith
      rw [div_eq_iff hpos.ne'] at this
      have : (2 * (num % den : Nat) : ℚ) = den := by linarith
      exact_mod_cast this
    exact Nat.even_iff.2 (by omega)

/-- The rounded quotient is the nearest whole number. -/
theorem roundDiv_nearest (hden : 0 < den) (j : ℤ) :
    |(roundDiv num den : ℚ) - num / den| ≤ |(j : ℚ) - num / den| ∧
      (|(j : ℚ) - num / den| = |(roundDiv num den : ℚ) - num / den| → j ≠ roundDiv num den →
        Even (roundDiv num den)) := by
  obtain ⟨herr, heven⟩ := roundDiv_error num hden
  by_cases hj : j = roundDiv num den
  · simp [hj]
  · have hone : (1 : ℚ) ≤ |(j : ℚ) - roundDiv num den| := by
      have : (1 : ℤ) ≤ |j - roundDiv num den| := Int.one_le_abs (sub_ne_zero.2 hj)
      exact_mod_cast this
    have htri := abs_sub_le (j : ℚ) (num / den) (roundDiv num den)
    rw [abs_sub_comm ((num : ℚ) / den)] at htri
    exact ⟨by linarith, fun heq _ => heven (by linarith)⟩

theorem zpow_eq_div (b : Nat) (k : ℤ) (hb : b ≠ 0) :
    ((b : ℚ) ^ k) = (b ^ k.toNat : Nat) / (b ^ (-k).toNat : Nat) := by
  have hb' : (b : ℚ) ≠ 0 := by exact_mod_cast hb
  push_cast
  rw [← zpow_natCast, ← zpow_natCast, ← zpow_sub₀ hb']
  congr 1
  omega

/-- Whether a power of two is reached can be told in whole numbers, without a division. -/
theorem two_zpow_le_div_iff (hden : 0 < den) (k : ℤ) :
    (2 : ℚ) ^ k ≤ num / den ↔ den * Nat.pow 2 k.toNat ≤ num * Nat.pow 2 (-k).toNat := by
  have hpos : (0 : ℚ) < den := by exact_mod_cast hden
  have hpow : (0 : ℚ) < (2 ^ (-k).toNat : Nat) := by positivity
  have hzpow := zpow_eq_div 2 k (by simp)
  rw [Nat.cast_ofNat] at hzpow
  rw [hzpow, div_le_div_iff₀ hpow hpos, mul_comm _ (den : ℚ)]
  exact_mod_cast Iff.rfl

theorem floorLog_le (hnum : num ≠ 0) (hden : 0 < den) :
    (2 : ℚ) ^ floorLog num den ≤ num / den := by
  have hpos : (0 : ℚ) < den := by exact_mod_cast hden
  rw [floorLog]
  split
  next h => exact (two_zpow_le_div_iff hden _).2 h
  next h =>
    have hn : (2 : ℚ) ^ (num.log2 : ℤ) ≤ num := by exact_mod_cast Nat.log2_self_le hnum
    have hd : (den : ℚ) ≤ 2 ^ (den.log2 + 1 : ℤ) := by
      exact_mod_cast Nat.lt_log2_self.le
    rw [le_div_iff₀ hpos]
    calc (2 : ℚ) ^ ((num.log2 : ℤ) - den.log2 - 1) * den
        ≤ 2 ^ ((num.log2 : ℤ) - den.log2 - 1) * 2 ^ (den.log2 + 1 : ℤ) := by gcongr
      _ = 2 ^ (num.log2 : ℤ) := by
          rw [← zpow_add₀ (by norm_num)]
          congr 1
          ring
      _ ≤ num := hn

theorem div_lt_floorLog (hden : 0 < den) :
    (num / den : ℚ) < 2 ^ (floorLog num den + 1) := by
  have hpos : (0 : ℚ) < den := by exact_mod_cast hden
  rw [floorLog]
  split
  next h =>
    have hn : (num : ℚ) < 2 ^ (num.log2 + 1 : ℤ) := by exact_mod_cast Nat.lt_log2_self
    have hd : (2 : ℚ) ^ (den.log2 : ℤ) ≤ den := by
      exact_mod_cast Nat.log2_self_le hden.ne'
    rw [div_lt_iff₀ hpos]
    calc (num : ℚ) < 2 ^ (num.log2 + 1 : ℤ) := hn
      _ = 2 ^ ((num.log2 : ℤ) - den.log2 + 1) * 2 ^ (den.log2 : ℤ) := by
          rw [← zpow_add₀ (by norm_num)]
          congr 1
          ring
      _ ≤ 2 ^ ((num.log2 : ℤ) - den.log2 + 1) * den := by gcongr
  next h =>
    rw [sub_add_cancel]
    exact not_le.1 (fun hle => h ((two_zpow_le_div_iff hden _).1 hle))

theorem significand_lt (x : Binary64) : x.significand < 2 ^ 53 := by
  have : x.fraction < 2 ^ 52 := Nat.mod_lt _ (by norm_num)
  rw [significand]
  split <;> omega

theorem exponent_ge (x : Binary64) : -1074 ≤ x.exponent := by
  rw [exponent]
  omega

/-- The magnitude is the significand at the place that the exponent gives. -/
theorem abs_toRat (x : Binary64) : |x.toRat| = x.significand * 2 ^ x.exponent := by
  rw [toRat, abs_mul, abs_of_nonneg (show (0 : ℚ) ≤ x.significand * 2 ^ x.exponent by positivity)]
  split <;> simp

/-- A pattern that adds an exponent to a significand. The significand may be `2 ^ 53`, and the
carry then makes the next exponent. -/
theorem fields_of_bits {e m : Nat} (hx : x.bits.toNat = e * 2 ^ 52 + m) (hm : m ≤ 2 ^ 53)
    (he : e = 0 ∨ 2 ^ 52 ≤ m) (hlt : x.bits.toNat < infinity.bits.toNat) :
    x.exponentField < 2047 ∧ x.isNegative = false ∧
      (x.significand = m ∧ x.exponent = (e : ℤ) - 1074 ∨
        m = 2 ^ 53 ∧ x.significand = 2 ^ 52 ∧ x.exponent = (e : ℤ) - 1073) := by
  have hinf : infinity.bits.toNat = 2047 * 2 ^ 52 := by decide
  rw [hinf] at hlt
  have hfield : x.exponentField = x.bits.toNat / 2 ^ 52 := by
    rw [exponentField]
    omega
  have hfrac : x.fraction = x.bits.toNat % 2 ^ 52 := rfl
  refine ⟨by omega, by simp [isNegative]; omega, ?_⟩
  rw [significand, exponent, hfrac, hfield, hx]
  by_cases hnormal : m < 2 ^ 52
  · have he0 : e = 0 := by omega
    subst he0
    left
    rw [if_pos (by omega)]
    omega
  · rw [if_neg (by omega)]
    by_cases hcarry : m = 2 ^ 53
    · right
      omega
    · left
      omega

/-- Bits that are put together of an exponent and a significand have the value of the two, also
where the significand carries into the exponent. -/
theorem toRat_of_bits {e m : Nat} (hx : x.bits.toNat = e * 2 ^ 52 + m) (hm : m ≤ 2 ^ 53)
    (he : e = 0 ∨ 2 ^ 52 ≤ m) (hlt : x.bits.toNat < infinity.bits.toNat) :
    x.toRat = m * 2 ^ ((e : ℤ) - 1074) := by
  obtain ⟨-, hneg, ⟨hs, hexp⟩ | ⟨rfl, hs, hexp⟩⟩ := fields_of_bits hx hm he hlt
  · simp [toRat, hneg, hs, hexp]
  · have hstep : (e : ℤ) - 1073 = ((e : ℤ) - 1074) + 1 := by ring
    simp only [toRat, hneg, hs, hexp, hstep, zpow_add_one₀ (two_ne_zero' ℚ)]
    push_cast
    ring

theorem even_significand_of_bits {e m : Nat} (hx : x.bits.toNat = e * 2 ^ 52 + m)
    (hm : m ≤ 2 ^ 53) (he : e = 0 ∨ 2 ^ 52 ≤ m) (hlt : x.bits.toNat < infinity.bits.toNat)
    (heven : Even m) : Even x.significand := by
  obtain ⟨-, -, ⟨hs, -⟩ | ⟨-, hs, -⟩⟩ := fields_of_bits hx hm he hlt
  · exact hs ▸ heven
  · rw [hs]
    decide

/-- A number with an exponent at least as high is a whole multiple. -/
theorem exists_mul_of_exponent_ge {e : ℤ} (h : e ≤ y.exponent) :
    ∃ j : ℤ, y.toRat = j * 2 ^ e := by
  refine ⟨(if y.isNegative then -1 else 1) * (y.significand * 2 ^ (y.exponent - e).toNat), ?_⟩
  have hpow : (2 : ℚ) ^ y.exponent = 2 ^ (y.exponent - e).toNat * 2 ^ e := by
    rw [← zpow_natCast, ← zpow_add₀ (by norm_num)]
    congr 1
    omega
  rw [toRat, hpow]
  split <;> push_cast <;> ring

/-- A number with a lower exponent is below `2 ^ 52` of the higher one. -/
theorem abs_toRat_lt_of_exponent_lt {e : ℤ} (h : y.exponent < e) :
    |y.toRat| < 2 ^ 52 * 2 ^ e := by
  have hs : (y.significand : ℚ) < 2 ^ 53 := by exact_mod_cast significand_lt y
  have hpow : (2 : ℚ) ^ y.exponent ≤ 2 ^ (e - 1) := zpow_le_zpow_right₀ (by norm_num) (by omega)
  have hpos : (0 : ℚ) < 2 ^ y.exponent := by positivity
  calc |y.toRat| = y.significand * 2 ^ y.exponent := abs_toRat y
    _ < 2 ^ 53 * 2 ^ y.exponent := by gcongr
    _ ≤ 2 ^ 53 * 2 ^ (e - 1) := by gcongr
    _ = 2 ^ 52 * 2 ^ e := by
        rw [zpow_sub_one₀ (by norm_num)]
        ring

/-- A nearest whole number does not cross a whole number. -/
theorem nearest_le {m k : Nat} {s : ℚ} (h : ∀ j : ℤ, |(m : ℚ) - s| ≤ |(j : ℚ) - s|)
    (hs : s ≤ k) : m ≤ k := by
  have hk := h k
  rw [Int.cast_natCast, abs_of_nonneg (sub_nonneg.2 hs)] at hk
  have : (m : ℚ) ≤ k := by linarith [le_abs_self ((m : ℚ) - s)]
  exact_mod_cast this

theorem dist_nearest_le {m k : Nat} {s : ℚ} (h : ∀ j : ℤ, |(m : ℚ) - s| ≤ |(j : ℚ) - s|)
    (hs : k ≤ s) : |(m : ℚ) - s| ≤ s - k := by
  have hk := h k
  rwa [Int.cast_natCast, abs_sub_comm (k : ℚ), abs_of_nonneg (sub_nonneg.2 hs)] at hk

theorem le_nearest {m k : Nat} {s : ℚ} (h : ∀ j : ℤ, |(m : ℚ) - s| ≤ |(j : ℚ) - s|)
    (hs : k ≤ s) : k ≤ m := by
  have : (k : ℚ) ≤ m := by linarith [dist_nearest_le h hs, neg_abs_le ((m : ℚ) - s)]
  exact_mod_cast this

/-- A number with a lower exponent lies below all significands of full length, and so it is farther
away than the nearest of them. -/
theorem dist_lt_of_exponent_lt {m : Nat} {s : ℚ} {e : ℤ}
    (h : ∀ j : ℤ, |(m : ℚ) - s| ≤ |(j : ℚ) - s|) (hs : 2 ^ 52 ≤ s) (hy : y.exponent < e) :
    |(m : ℚ) - s| * 2 ^ e < |y.toRat - s * 2 ^ e| := by
  have hpos : (0 : ℚ) < 2 ^ e := by positivity
  have hlow : |(m : ℚ) - s| ≤ s - 2 ^ 52 := by
    exact_mod_cast dist_nearest_le h (by exact_mod_cast hs)
  have hylt := abs_toRat_lt_of_exponent_lt hy
  calc |(m : ℚ) - s| * 2 ^ e ≤ (s - 2 ^ 52) * 2 ^ e := mul_le_mul_of_nonneg_right hlow hpos.le
    _ < s * 2 ^ e - y.toRat := by
        rw [sub_mul]
        linarith [le_abs_self y.toRat]
    _ ≤ |y.toRat - s * 2 ^ e| := by
        rw [abs_sub_comm]
        exact le_abs_self _

/-- The nearest whole multiple of a power of two is the nearest number, if the multiple has as many
digits as a significand, or the power is the least one. -/
theorem isNearest_of_bits {e m : Nat} {s : ℚ} (hx : x.bits.toNat = e * 2 ^ 52 + m)
    (hlt : x.bits.toNat < infinity.bits.toNat) (hs : s ≤ 2 ^ 53) (he : e = 0 ∨ 2 ^ 52 ≤ s)
    (hle : ∀ j : ℤ, |(m : ℚ) - s| ≤ |(j : ℚ) - s|)
    (heven : ∀ j : ℤ, |(j : ℚ) - s| = |(m : ℚ) - s| → j ≠ m → Even m) :
    IsNearest x (s * 2 ^ ((e : ℤ) - 1074)) := by
  have hpos : (0 : ℚ) < 2 ^ ((e : ℤ) - 1074) := by positivity
  have hm : m ≤ 2 ^ 53 := nearest_le hle (by exact_mod_cast hs)
  have he' : e = 0 ∨ 2 ^ 52 ≤ m := he.imp_right fun h52 => le_nearest hle (by exact_mod_cast h52)
  have hval := toRat_of_bits hx hm he' hlt
  have hdist (r : ℚ) : |r * 2 ^ ((e : ℤ) - 1074) - s * 2 ^ ((e : ℤ) - 1074)| =
      |r - s| * 2 ^ ((e : ℤ) - 1074) := by
    rw [← sub_mul, abs_mul, abs_of_pos hpos]
  have hbelow (y : Binary64) (hy : ¬ (e : ℤ) - 1074 ≤ y.exponent) :
      |(m : ℚ) - s| * 2 ^ ((e : ℤ) - 1074) < |y.toRat - s * 2 ^ ((e : ℤ) - 1074)| := by
    have := exponent_ge y
    exact dist_lt_of_exponent_lt hle (he.resolve_left (by omega)) (not_le.1 hy)
  refine ⟨?_, fun y _ => ?_, fun y _ heq hne => ?_⟩
  · have := (fields_of_bits hx hm he' hlt).1
    simp [isFinite]
    omega
  · rw [hval, hdist]
    by_cases hy : (e : ℤ) - 1074 ≤ y.exponent
    · obtain ⟨j, hj⟩ := exists_mul_of_exponent_ge hy
      rw [hj, hdist]
      exact mul_le_mul_of_nonneg_right (hle j) hpos.le
    · exact (hbelow y hy).le
  · rw [hval, hdist] at heq
    by_cases hy : (e : ℤ) - 1074 ≤ y.exponent
    · obtain ⟨j, hj⟩ := exists_mul_of_exponent_ge hy
      rw [hj, hdist] at heq
      refine even_significand_of_bits hx hm he' hlt (heven j ?_ ?_)
      · exact mul_right_cancel₀ hpos.ne' heq
      · rintro rfl
        exact hne (by rw [hj, hval, Int.cast_natCast])
    · exact absurd heq (hbelow y hy).ne'

theorem toNat_bits_of_isFinite {n : Nat}
    (h : (⟨UInt64.ofNat (min infinity.bits.toNat n)⟩ : Binary64).isFinite = true) :
    (UInt64.ofNat (min infinity.bits.toNat n)).toNat = n ∧ n < infinity.bits.toNat := by
  have hinf : infinity.bits.toNat = 0x7FF0000000000000 := by decide
  by_cases hn : n < infinity.bits.toNat
  · rw [Nat.min_eq_right hn.le]
    refine ⟨UInt64.toNat_ofNat_of_lt ?_, hn⟩
    rw [hinf] at hn
    simp only [UInt64.size]
    omega
  · rw [Nat.min_eq_left (not_lt.1 hn), hinf] at h
    exact absurd h (by decide)

/-- The least positive number is `2 ^ -1074`. -/
theorem zpow_le_abs_toRat (h : y.toRat ≠ 0) : (2 : ℚ) ^ (-1074 : ℤ) ≤ |y.toRat| := by
  rw [abs_toRat]
  have hs : (1 : ℚ) ≤ y.significand := by
    refine Nat.one_le_cast.2 (Nat.one_le_iff_ne_zero.2 fun hs => h ?_)
    simp [toRat, hs]
  calc (2 : ℚ) ^ (-1074 : ℤ) ≤ 2 ^ y.exponent := zpow_le_zpow_right₀ (by norm_num) (exponent_ge y)
    _ ≤ y.significand * 2 ^ y.exponent := le_mul_of_one_le_left (by positivity) hs

/-- Less than half of the least positive number is read as zero. -/
theorem zero_isNearest (hq : 0 ≤ q) (hlt : 2 * q < 2 ^ (-1074 : ℤ)) : IsNearest zero q := by
  have hzero : zero.toRat = 0 := by simp [toRat, show zero.significand = 0 by decide]
  refine ⟨by decide, fun y _ => ?_, fun y _ _ _ => by decide⟩
  rw [hzero, zero_sub, abs_neg, abs_of_nonneg hq]
  by_cases hy : y.toRat = 0
  · rw [hy, zero_sub, abs_neg, abs_of_nonneg hq]
  · have hle := zpow_le_abs_toRat hy
    have htri := abs_sub_abs_le_abs_sub y.toRat q
    rw [abs_of_nonneg hq] at htri
    linarith

/-- A ratio in units of a power of two. -/
theorem scaled_mul_zpow (num den : Nat) (e : ℤ) :
    ((num * Nat.pow 2 (-e).toNat : Nat) : ℚ) / (den * Nat.pow 2 e.toNat : Nat) * 2 ^ e =
      num / den := by
  have hzpow := zpow_eq_div 2 e (by simp)
  rw [Nat.cast_ofNat] at hzpow
  have hpos : ((2 ^ e.toNat : Nat) : ℚ) ≠ 0 := by positivity
  have hpos' : ((2 ^ (-e).toNat : Nat) : ℚ) ≠ 0 := by positivity
  rw [hzpow, Nat.pow_eq, Nat.pow_eq, Nat.cast_mul, Nat.cast_mul]
  field_simp

/-! The unit is chosen so that a ratio has as many digits as a significand. -/

theorem scaled_lt {e : ℤ} (hden : 0 < den) (he : floorLog num den - 52 ≤ e) :
    ((num * Nat.pow 2 (-e).toNat : Nat) : ℚ) / (den * Nat.pow 2 e.toNat : Nat) < 2 ^ 53 := by
  have hpow : (0 : ℚ) < 2 ^ e := by positivity
  refine lt_of_mul_lt_mul_right ?_ hpow.le
  calc _ = (num : ℚ) / den := scaled_mul_zpow num den e
    _ < 2 ^ (floorLog num den + 1) := div_lt_floorLog hden
    _ ≤ 2 ^ (53 + e) := zpow_le_zpow_right₀ (by norm_num) (by omega)
    _ = 2 ^ 53 * 2 ^ e := by rw [zpow_add₀ (by norm_num)]; norm_num

theorem le_scaled (hnum : num ≠ 0) (hden : 0 < den) {e : ℤ} (he : e = floorLog num den - 52) :
    2 ^ 52 ≤ ((num * Nat.pow 2 (-e).toNat : Nat) : ℚ) / (den * Nat.pow 2 e.toNat : Nat) := by
  have hpow : (0 : ℚ) < 2 ^ e := by positivity
  refine le_of_mul_le_mul_right ?_ hpow
  calc (2 : ℚ) ^ 52 * 2 ^ e = 2 ^ (52 + e) := by rw [zpow_add₀ (by norm_num)]; norm_num
    _ = 2 ^ floorLog num den := by congr 1; omega
    _ ≤ num / den := floorLog_le hnum hden
    _ = _ := (scaled_mul_zpow num den e).symm

/-- A ratio is rounded to a nearest number, of two equally near ones to the even one. -/
theorem ofRatio_isNearest (hden : 0 < den) (h : (ofRatio num den).isFinite = true) :
    IsNearest (ofRatio num den) (num / den) := by
  rw [ofRatio] at h ⊢
  by_cases hnum : num = 0
  · rw [if_pos hnum, hnum, Nat.cast_zero, zero_div]
    exact zero_isNearest le_rfl (by rw [mul_zero]; positivity)
  · rw [if_neg hnum] at h ⊢
    dsimp only at h ⊢
    generalize hE : max (-1074) (floorLog num den - 52) = E at h ⊢
    have hden' : 0 < den * Nat.pow 2 E.toNat := Nat.mul_pos hden (Nat.pow_pos (by norm_num))
    have hscale := scaled_mul_zpow num den E
    have hlower : (E + 1074).toNat = 0 ∨ (2 : ℚ) ^ 52 ≤
        ((num * Nat.pow 2 (-E).toNat : Nat) : ℚ) / (den * Nat.pow 2 E.toNat : Nat) := by
      by_cases he : E = -1074
      · left
        omega
      · exact Or.inr (le_scaled hnum hden (by omega))
    obtain ⟨hbits, hlt⟩ := toNat_bits_of_isFinite h
    have hnear := isNearest_of_bits hbits (lt_of_eq_of_lt hbits hlt)
      (scaled_lt hden (by omega)).le hlower
      (fun j => (roundDiv_nearest hden' j).1) (fun j => (roundDiv_nearest hden' j).2)
    have hexp : ((E + 1074).toNat : ℤ) - 1074 = E := by omega
    rwa [hexp, hscale] at hnear

/-- The number of digits bounds a number. -/
theorem mul_zpow_lt (digits : Nat) (exp : ℤ) :
    (digits : ℚ) * 10 ^ exp < 10 ^ ((Nat.toDigits 10 digits).length + exp) := by
  have hlt : digits < 10 ^ (Nat.toDigits 10 digits).length :=
    (Nat.length_toDigits_le_iff (by norm_num) Nat.length_toDigits_pos).1 le_rfl
  have hlt' : (digits : ℚ) < 10 ^ ((Nat.toDigits 10 digits).length : ℤ) := by exact_mod_cast hlt
  rw [zpow_add₀ (by norm_num)]
  exact mul_lt_mul_of_pos_right hlt' (by positivity)

/-- A decimal as a ratio. -/
theorem decimal_ratio (digits : Nat) (exp : ℤ) :
    ((digits * Nat.pow 10 exp.toNat : Nat) : ℚ) / (Nat.pow 10 (-exp).toNat : Nat) =
      digits * 10 ^ exp := by
  have hzpow := zpow_eq_div 10 exp (by simp)
  rw [Nat.cast_ofNat] at hzpow
  rw [hzpow, Nat.pow_eq, Nat.pow_eq, Nat.cast_mul, mul_div_assoc]

/-- What a decimal says exactly is rounded once. -/
theorem ofDecimal_isNearest {digits : Nat} {exp : ℤ}
    (h : (ofDecimal digits exp).isFinite = true) :
    IsNearest (ofDecimal digits exp) (digits * 10 ^ exp) := by
  rw [ofDecimal] at h ⊢
  by_cases hzero : digits = 0 ∨ (Nat.toDigits 10 digits).length + exp < -330
  · rw [if_pos hzero]
    refine zero_isNearest (by positivity) ?_
    rcases hzero with rfl | hscale
    · simp
    · calc 2 * ((digits : ℚ) * 10 ^ exp) < 2 * 10 ^ ((Nat.toDigits 10 digits).length + exp) := by
            linarith [mul_zpow_lt digits exp]
        _ ≤ 2 * 10 ^ (-331 : ℤ) := by
            gcongr
            · norm_num
            · omega
        _ ≤ 2 ^ (-1074 : ℤ) := by
            have hpow : 2 * 2 ^ 1074 ≤ 10 ^ 331 := by decide +kernel
            have hpow' : (2 : ℚ) * 2 ^ 1074 ≤ 10 ^ 331 := by exact_mod_cast hpow
            rw [zpow_neg, zpow_neg, ← div_eq_mul_inv, div_le_iff₀ (by positivity)]
            rw [← one_div, one_div_mul_eq_div, le_div_iff₀ (by positivity)]
            exact_mod_cast hpow'
  · rw [if_neg hzero] at h ⊢
    by_cases hinf : 310 < (Nat.toDigits 10 digits).length + exp
    · rw [if_pos hinf] at h
      exact absurd h (by decide)
    · rw [if_neg hinf] at h ⊢
      rw [← decimal_ratio]
      exact ofRatio_isNearest (Nat.pow_pos (by norm_num)) h

/-! Numbers that are too large. -/

/-- Rounding stays below an even number up to half a unit before it: there the tie goes to that
number. -/
theorem roundDiv_lt_iff (hden : 0 < den) {k : Nat} (hk : Even k) :
    roundDiv num den < k ↔ (num / den : ℚ) < k - 1 / 2 := by
  obtain ⟨herr, heven⟩ := roundDiv_error num hden
  rw [abs_le] at herr
  constructor
  · intro hlt
    have hle : (roundDiv num den : ℚ) + 1 ≤ k := by exact_mod_cast hlt
    refine lt_of_le_of_ne (by linarith) fun heq => ?_
    -- Halfway between the two, the even one of them is taken.
    have hm : roundDiv num den + 1 = k := by
      have : (roundDiv num den : ℚ) + 1 = k := by linarith
      exact_mod_cast this
    have hhalf : (roundDiv num den : ℚ) - num / den = -(1 / 2) := by
      rw [heq, ← hm]
      push_cast
      ring
    have hodd := (heven (by rw [hhalf]; norm_num)).add_one
    rw [hm] at hodd
    exact Nat.not_even_iff_odd.2 hodd hk
  · intro hlt
    have hlt' : (roundDiv num den : ℚ) < k := by linarith
    exact_mod_cast hlt'

theorem isFinite_ofNat_iff {n : Nat} :
    (⟨UInt64.ofNat (min infinity.bits.toNat n)⟩ : Binary64).isFinite = true ↔
      n < infinity.bits.toNat := by
  constructor
  · intro h
    exact (toNat_bits_of_isFinite h).2
  · intro h
    have hinf : infinity.bits.toNat = 0x7FF0000000000000 := by decide
    rw [Nat.min_eq_right h.le]
    rw [hinf] at h
    have hbits : (UInt64.ofNat n).toNat = n :=
      UInt64.toNat_ofNat_of_lt (by simp only [UInt64.size]; omega)
    simp only [isFinite, exponentField, hbits, decide_eq_true_eq]
    omega

/-- Where rounding goes beyond the largest number: half a unit above it. -/
def overflowBound : ℚ := 2 ^ 1024 - 2 ^ 970

theorem overflowBound_eq : overflowBound = (2 ^ 53 - 1 / 2) * 2 ^ (971 : ℤ) := by
  have h970 : (2 : ℚ) ^ (971 : ℤ) = 2 * 2 ^ 970 := by
    rw [show (971 : ℤ) = ((970 + 1 : Nat) : ℤ) from rfl, zpow_natCast, pow_succ, mul_comm]
  have h1024 : (2 : ℚ) ^ 1024 = 2 ^ 54 * 2 ^ 970 := by rw [← pow_add]
  rw [overflowBound, h970, h1024]
  generalize (2 : ℚ) ^ 970 = unit
  ring

theorem two_zpow_lt_overflowBound : (2 : ℚ) ^ (1023 : ℤ) < overflowBound := by
  have h1023 : (2 : ℚ) ^ (1023 : ℤ) = 2 ^ 52 * 2 ^ (971 : ℤ) := by
    rw [← zpow_natCast, ← zpow_add₀ (by norm_num)]
    rfl
  rw [overflowBound_eq, h1023]
  exact mul_lt_mul_of_pos_right (by norm_num) (by positivity)

theorem overflowBound_lt_two_zpow : overflowBound < 2 ^ (1024 : ℤ) := by
  have h1024 : (2 : ℚ) ^ (1024 : ℤ) = 2 ^ 53 * 2 ^ (971 : ℤ) := by
    rw [← zpow_natCast, ← zpow_add₀ (by norm_num)]
    rfl
  rw [overflowBound_eq, h1024]
  exact mul_lt_mul_of_pos_right (by norm_num) (by positivity)

/-- Below the topmost binade nothing is out of range and above it everything is; only there does it
matter how the significand is rounded. -/
theorem bits_lt_infinity_iff {m : Nat} {s : ℚ} {e : ℤ}
    (hround : ∀ k : Nat, Even k → (m < k ↔ s < k - 1 / 2)) (hs : s < 2 ^ 53)
    (he : e = -1074 ∨ 2 ^ 52 ≤ s) :
    (e + 1074).toNat * 2 ^ 52 + m < 2047 * 2 ^ 52 ↔ s * 2 ^ e < overflowBound := by
  have hpos : (0 : ℚ) < 2 ^ e := by positivity
  rcases lt_trichotomy e 971 with hlow | rfl | hhigh
  · have hm : m < 2 ^ 53 + 2 := by
      rw [hround _ (by decide)]
      push_cast
      linarith
    refine iff_of_true (by omega) ?_
    calc s * 2 ^ e < 2 ^ 53 * 2 ^ e := mul_lt_mul_of_pos_right hs hpos
      _ = 2 ^ (53 + e) := by rw [zpow_add₀ (by norm_num)]; norm_num
      _ ≤ 2 ^ (1023 : ℤ) := zpow_le_zpow_right₀ (by norm_num) (by omega)
      _ < overflowBound := two_zpow_lt_overflowBound
  · have hbits : ((971 : ℤ) + 1074).toNat * 2 ^ 52 + m < 2047 * 2 ^ 52 ↔ m < 2 ^ 53 := by omega
    have hcast : ((2 ^ 53 : Nat) : ℚ) = 2 ^ 53 := by norm_num
    rw [hbits, hround _ (by decide), hcast, overflowBound_eq, mul_lt_mul_iff_left₀ hpos]
  · have hs52 := he.resolve_left (by omega)
    have hm : ¬ m < 2 ^ 52 := by
      rw [hround _ (by decide)]
      push_cast
      linarith
    refine iff_of_false (by omega) (not_lt.2 ?_)
    calc overflowBound ≤ 2 ^ (1024 : ℤ) := overflowBound_lt_two_zpow.le
      _ ≤ 2 ^ (52 + e) := zpow_le_zpow_right₀ (by norm_num) (by omega)
      _ = 2 ^ 52 * 2 ^ e := by rw [zpow_add₀ (by norm_num)]; norm_num
      _ ≤ s * 2 ^ e := mul_le_mul_of_nonneg_right hs52 hpos.le

/-- Infinity is given from the middle between the largest number and the next power of two on. -/
theorem isFinite_ofRatio_iff (hden : 0 < den) :
    (ofRatio num den).isFinite = true ↔ (num / den : ℚ) < overflowBound := by
  rw [ofRatio]
  by_cases hnum : num = 0
  · rw [if_pos hnum, hnum, Nat.cast_zero, zero_div]
    exact iff_of_true (by decide) (lt_trans (by positivity) two_zpow_lt_overflowBound)
  · rw [if_neg hnum]
    dsimp only
    generalize hE : max (-1074) (floorLog num den - 52) = E
    have hden' : 0 < den * Nat.pow 2 E.toNat := Nat.mul_pos hden (Nat.pow_pos (by norm_num))
    have hinf : infinity.bits.toNat = 2047 * 2 ^ 52 := by decide
    rw [isFinite_ofNat_iff, hinf, ← scaled_mul_zpow num den E]
    refine bits_lt_infinity_iff (fun k => roundDiv_lt_iff hden') (scaled_lt hden (by omega)) ?_
    by_cases hbottom : E = -1074
    · exact Or.inl hbottom
    · exact Or.inr (le_scaled hnum hden (by omega))

/-- The number of digits bounds a number from below too. -/
theorem zpow_le_mul_zpow {digits : Nat} (hdigits : digits ≠ 0) (exp : ℤ) :
    (10 : ℚ) ^ ((Nat.toDigits 10 digits).length + exp - 1) ≤ digits * 10 ^ exp := by
  obtain ⟨k, hk⟩ : ∃ k, (Nat.toDigits 10 digits).length = k + 1 :=
    Nat.exists_eq_succ_of_ne_zero Nat.length_toDigits_pos.ne'
  have hle : 10 ^ k ≤ digits := by
    rcases Nat.eq_zero_or_pos k with rfl | hpos
    · simpa using Nat.one_le_iff_ne_zero.2 hdigits
    · by_contra hlt
      have := (Nat.length_toDigits_le_iff (by norm_num) hpos).2 (not_le.1 hlt)
      omega
  have hle' : (10 : ℚ) ^ (k : ℤ) ≤ digits := by exact_mod_cast hle
  calc (10 : ℚ) ^ ((Nat.toDigits 10 digits).length + exp - 1) = 10 ^ (k : ℤ) * 10 ^ exp := by
        rw [← zpow_add₀ (by norm_num), hk]
        congr 1
        push_cast
        ring
    _ ≤ digits * 10 ^ exp := mul_le_mul_of_nonneg_right hle' (by positivity)

/-- A decimal is read as a finite number exactly if it is below the bound. -/
theorem isFinite_ofDecimal_iff {digits : Nat} {exp : ℤ} :
    (ofDecimal digits exp).isFinite = true ↔ (digits * 10 ^ exp : ℚ) < overflowBound := by
  rw [ofDecimal]
  by_cases hzero : digits = 0 ∨ (Nat.toDigits 10 digits).length + exp < -330
  · rw [if_pos hzero]
    refine iff_of_true (by decide) (lt_of_lt_of_le ?_ two_zpow_lt_overflowBound.le)
    rcases hzero with rfl | hscale
    · simp
    · calc (digits * 10 ^ exp : ℚ) < 10 ^ ((Nat.toDigits 10 digits).length + exp) :=
            mul_zpow_lt digits exp
        _ ≤ 1 := zpow_le_one_of_nonpos₀ (by norm_num) (by omega)
        _ ≤ 2 ^ (1023 : ℤ) := one_le_zpow₀ (by norm_num) (by norm_num)
  · rw [if_neg hzero]
    push Not at hzero
    by_cases hinf : 310 < (Nat.toDigits 10 digits).length + exp
    · rw [if_pos hinf]
      refine iff_of_false (by decide) (not_lt.2 ?_)
      have hpow : 2 ^ 1024 ≤ 10 ^ 310 := by decide +kernel
      calc overflowBound ≤ 2 ^ (1024 : ℤ) := overflowBound_lt_two_zpow.le
        _ ≤ 10 ^ (310 : ℤ) := by exact_mod_cast hpow
        _ ≤ 10 ^ ((Nat.toDigits 10 digits).length + exp - 1) :=
            zpow_le_zpow_right₀ (by norm_num) (by omega)
        _ ≤ digits * 10 ^ exp := zpow_le_mul_zpow hzero.1 exp
    · have hden : 0 < Nat.pow 10 (-exp).toNat := Nat.pow_pos (by norm_num)
      rw [if_neg hinf, isFinite_ofRatio_iff hden, decimal_ratio]

/-! The other sign. -/

theorem toNat_bits_neg (x : Binary64) :
    (-x).bits.toNat = (x.bits.toNat + 2 ^ 63) % 2 ^ 64 := UInt64.toNat_add _ _

theorem exponentField_neg (x : Binary64) : (-x).exponentField = x.exponentField := by
  rw [exponentField, exponentField, toNat_bits_neg]
  omega

theorem fraction_neg (x : Binary64) : (-x).fraction = x.fraction := by
  rw [fraction, fraction, toNat_bits_neg]
  omega

theorem isNegative_neg (x : Binary64) : (-x).isNegative = !x.isNegative := by
  have := x.bits.toNat_lt
  rw [isNegative, isNegative, toNat_bits_neg, ← decide_not, decide_eq_decide]
  omega

theorem significand_neg (x : Binary64) : (-x).significand = x.significand := by
  rw [significand, significand, exponentField_neg, fraction_neg]

theorem isFinite_neg (x : Binary64) : (-x).isFinite = x.isFinite := by
  rw [isFinite, isFinite, exponentField_neg]

theorem toRat_neg (x : Binary64) : (-x).toRat = -x.toRat := by
  rw [toRat, toRat, isNegative_neg, significand_neg, exponent, exponent, exponentField_neg]
  cases x.isNegative <;> simp

/-- Rounding is the same on both sides of zero. -/
theorem IsNearest.neg (h : IsNearest x q) : IsNearest (-x) (-q) := by
  have hdist (y : Binary64) : |y.toRat - -q| = |(-y).toRat - q| := by
    rw [toRat_neg, ← abs_neg]
    ring_nf
  have hneg (y : Binary64) : (- -y).toRat = y.toRat := by rw [toRat_neg, toRat_neg, neg_neg]
  refine ⟨(isFinite_neg x).trans h.finite, fun y hy => ?_, fun y hy heq hne => ?_⟩
  · rw [hdist, hdist, hneg]
    exact h.le (-y) ((isFinite_neg y).trans hy)
  · rw [hdist, hdist, hneg] at heq
    rw [significand_neg]
    refine h.even (-y) ((isFinite_neg y).trans hy) heq fun he => hne ?_
    rw [toRat_neg, ← he, toRat_neg, neg_neg]

/-- A sign before a number. -/
theorem IsNearest.signed (h : IsNearest x q) (negative : Bool) :
    IsNearest (if negative then -x else x) (if negative then -q else q) := by
  cases negative with
  | false => exact h
  | true => exact h.neg

theorem isNegative_ofRatio (num den : Nat) : (ofRatio num den).isNegative = false := by
  have hinf : infinity.bits.toNat = 0x7FF0000000000000 := by decide
  rw [ofRatio]
  split
  · decide
  · simp only [isNegative, UInt64.toNat_ofNat', decide_eq_false_iff_not]
    omega

/-- What is read from digits has no sign yet. -/
theorem isNegative_ofDecimal (digits : Nat) (exp : ℤ) :
    (ofDecimal digits exp).isNegative = false := by
  rw [ofDecimal]
  split
  · decide
  · split
    · decide
    · exact isNegative_ofRatio _ _

end Binary64
end WireSchema
