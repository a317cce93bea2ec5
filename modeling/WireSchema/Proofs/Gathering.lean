import Mathlib
import WireSchema.Token.Numeral

/-! Digits that are gathered one by one in 128 bits: the number there is exact after each of them,
it can be negated, and only what 128 bits cannot hold is refused. -/
namespace WireSchema
namespace Int128
variable {m : Int128} {x y base : Nat} {d : Char} {ds : List Char}

/-- A number as 128 bits, if they can hold it. -/
def ofNat? (n : Nat) : Option Int128 := if n < 2 ^ 127 then some (.ofNat 128 n) else none

/-- The bits hold a number that can be negated. -/
structure Holds (m : Int128) (n : Nat) : Prop where
  value : m.toInt = n
  negOverflow : m.negOverflow = false
  negated : (-m).toInt = -n

theorem toInt_ofNat (h : x < 2 ^ 127) : (BitVec.ofNat 128 x).toInt = x := by
  have hnat : (BitVec.ofNat 128 x).toNat = x := by
    rw [BitVec.toNat_ofNat]
    exact Nat.mod_eq_of_lt (by omega)
  rw [BitVec.toInt_eq_toNat_of_lt (by omega), hnat]

theorem holds_ofNat (h : x < 2 ^ 127) : Holds (.ofNat 128 x) x := by
  have hvalue := toInt_ofNat h
  -- Only the least number has no negative, and this one is not below zero.
  have hneg : (BitVec.ofNat 128 x).negOverflow = false := by
    rw [BitVec.negOverflow, hvalue, beq_eq_false_iff_ne]
    omega
  refine ⟨hvalue, hneg, ?_⟩
  rw [BitVec.toInt_neg_of_not_negOverflow (by simp [hneg]), hvalue]

theorem ofNat?_of_lt (h : x < 2 ^ 127) : ofNat? x = some (.ofNat 128 x) := if_pos h

theorem ofNat?_eq_none_iff : ofNat? x = none ↔ 2 ^ 127 ≤ x := by
  rw [ofNat?]
  split <;> simp <;> omega

theorem holds_of_ofNat? (h : ofNat? x = some m) : m.Holds x := by
  rw [ofNat?] at h
  split at h
  next hx =>
    cases h
    exact holds_ofNat hx
  next => cases h

/-! ## One digit more -/

/-- A product is refused exactly if it is too large. -/
theorem mul?_ofNat (hx : x < 2 ^ 127) (hy : y < 2 ^ 127) :
    mul? (.ofNat 128 x) (.ofNat 128 y) = ofNat? (x * y) := by
  have hover : (BitVec.ofNat 128 x).smulOverflow (.ofNat 128 y) = decide (¬ x * y < 2 ^ 127) := by
    rw [BitVec.smulOverflow, toInt_ofNat hx, toInt_ofNat hy, ← Int.natCast_mul, Bool.eq_iff_iff]
    simp only [Bool.or_eq_true, decide_eq_true_eq]
    omega
  rw [mul?, hover, ofNat?, BitVec.ofNat_mul]
  simp only [decide_eq_true_eq, ite_not]

theorem add?_ofNat (hx : x < 2 ^ 127) (hy : y < 2 ^ 127) :
    add? (.ofNat 128 x) (.ofNat 128 y) = ofNat? (x + y) := by
  have hover : (BitVec.ofNat 128 x).saddOverflow (.ofNat 128 y) = decide (¬ x + y < 2 ^ 127) := by
    rw [BitVec.saddOverflow, toInt_ofNat hx, toInt_ofNat hy, Bool.eq_iff_iff]
    simp only [Bool.or_eq_true, decide_eq_true_eq]
    omega
  rw [add?, hover, ofNat?, BitVec.ofNat_add]
  simp only [decide_eq_true_eq, ite_not]

/-- One digit more: refused if the bits do not suffice for the exact value. -/
theorem push?_ofNat (hbase : base ≤ 16) (hx : x < 2 ^ 127) (hd : isDigitOf base d = true) :
    push? base (.ofNat 128 x) d = ofNat? (base * x + digitValue d) := by
  have hdigit : digitValue d < base := by simpa [isDigitOf] using hd
  simp only [push?, mul?_ofNat hx (show base < 2 ^ 127 by omega), Nat.mul_comm x base, if_pos hd]
  by_cases hshift : base * x < 2 ^ 127
  · rw [ofNat?_of_lt hshift, ← add?_ofNat hshift (by omega)]
    rfl
  · rw [ofNat?_eq_none_iff.2 (by omega), ofNat?_eq_none_iff.2 (by omega)]
    rfl

/-! ## All the digits -/

theorem le_foldl_digits (hds : ∀ d ∈ ds, isDigitOf base d = true) :
    x ≤ ds.foldl (fun n d => base * n + digitValue d) x := by
  induction ds generalizing x with
  | nil => exact le_rfl
  | cons d ds ih =>
    obtain ⟨hd, hds⟩ := List.forall_mem_cons.1 hds
    have hbase : 0 < base := by
      have hlt : digitValue d < base := by simpa [isDigitOf] using hd
      omega
    calc x ≤ base * x + digitValue d :=
          le_trans (Nat.le_mul_of_pos_left x hbase) (Nat.le_add_right _ _)
      _ ≤ _ := ih hds

/-- To look at the bits after every digit is to look at the exact number once, at the end: it never
falls, so what is too large on the way is too large at the end. -/
theorem foldlM_push? (hbase : base ≤ 16) (hds : ∀ d ∈ ds, isDigitOf base d = true)
    (hx : x < 2 ^ 127) :
    ds.foldlM (push? base) (.ofNat 128 x) =
      ofNat? (ds.foldl (fun n d => base * n + digitValue d) x) := by
  induction ds generalizing x with
  | nil => exact (ofNat?_of_lt hx).symm
  | cons d ds ih =>
    obtain ⟨hd, hds⟩ := List.forall_mem_cons.1 hds
    rw [List.foldlM_cons, push?_ofNat hbase hx hd, List.foldl_cons]
    by_cases hnext : base * x + digitValue d < 2 ^ 127
    · rw [ofNat?_of_lt hnext, ← ih hds hnext]
      rfl
    · have hnext' : 2 ^ 127 ≤ base * x + digitValue d := Nat.le_of_not_lt hnext
      rw [ofNat?_eq_none_iff.2 hnext', ofNat?_eq_none_iff.2 (hnext'.trans (le_foldl_digits hds))]
      rfl

/-- The digits are gathered as long as their exact value fits. -/
theorem gather?_eq (hbase : base ≤ 16) (hds : ∀ d ∈ ds, isDigitOf base d = true) :
    gather? base ds = ofNat? (natOfDigits base ds) := foldlM_push? hbase hds (by norm_num)

end Int128

/-- Whether 128 bits are enough makes no difference to what is read: a number that they cannot hold
is out of range anyway. -/
theorem integerToken_eq_natOfDigits {negative : Bool} {base : Nat} {ds : List Char} {n : Int}
    (hbase : base ≤ 16) (hds : ∀ d ∈ ds, isDigitOf base d = true) (hne : ds ≠ [])
    (hn : n = (if negative then -1 else 1) * natOfDigits base ds) :
    integerToken negative base ds =
      if fitsInt64 n then .ok (.literal (.int n)) else .error .integerOutOfRange := by
  rw [integerToken, Int128.ofDigits?, if_neg hne, Int128.gather?_eq hbase hds]
  cases hm : Int128.ofNat? (natOfDigits base ds) with
  | none =>
    have hlarge := Int128.ofNat?_eq_none_iff.1 hm
    have hfits : ¬ fitsInt64 n = true := by
      simp only [fitsInt64, Bool.and_eq_true, decide_eq_true_eq]
      cases negative <;> simp at hn <;> omega
    rw [if_neg hfits]
  | some m =>
    have hholds := Int128.holds_of_ofNat? hm
    have hsigned : (if negative then -m else m).toInt = n := by
      cases negative with
      | false => simpa [hn] using hholds.value
      | true => simpa [hn] using hholds.negated
    simp only [hsigned]

end WireSchema
