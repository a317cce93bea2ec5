import Mathlib
import WireSchema.Text.Word
import WireSchema.Token.Numeral

/-! The classes of characters that the reader of tokens tells apart, and which of them share no
character. -/
namespace WireSchema
namespace Text
variable {c : Char}

theorem inRanges_append (rs ss : List CodeRange) :
    inRanges (rs ++ ss) c = (inRanges rs c || inRanges ss c) := List.any_append

/-- Classes that share no code point exclude each other. -/
theorem inRanges_disjoint {rs ss : List CodeRange}
    (h : ∀ r ∈ rs, ∀ s ∈ ss, r.2 < s.1 ∨ s.2 < r.1) (hc : inRanges rs c = true) :
    inRanges ss c = false := by
  obtain ⟨r, hr, hlow, hhigh⟩ := inRanges_eq_true.1 hc
  by_contra hs
  obtain ⟨s, hs, hlow', hhigh'⟩ := inRanges_eq_true.1 (by simpa using hs)
  have := h r hr s hs
  omega

theorem toNat_inj {d : Char} : c.toNat = d.toNat ↔ c = d := by
  refine ⟨fun h => Char.ext (UInt32.toNat_inj.1 h), fun h => h ▸ rfl⟩

theorem decide_eq_char (d : Char) : decide (c = d) = inRanges [(d.toNat, d.toNat)] c := by
  rw [Bool.eq_iff_iff, decide_eq_true_eq, inRanges_eq_true, ← toNat_inj]
  simp only [List.mem_singleton, exists_eq_left]
  omega

/-- What stands between tokens: a blank, or the mark of a comment. -/
def isBreak (c : Char) : Bool := isBlank c || c = '#'

def breakRanges : List CodeRange := blankRanges ++ [(0x23, 0x23)]

def letterRanges : List CodeRange := [(0x41, 0x5A), (0x61, 0x7A)] ++ alphabeticRanges

def wordStartRanges : List CodeRange := letterRanges ++ [(0x5F, 0x5F)]

def wordPartRanges : List CodeRange :=
  letterRanges ++ ([(0x30, 0x39)] ++ numericRanges) ++ [(0x5F, 0x5F)]

theorem isBreak_eq : isBreak c = inRanges breakRanges c := by
  rw [isBreak, breakRanges, inRanges_append, isBlank, decide_eq_char]
  rfl

/-- ASCII letters and those beyond are ranges alike. -/
theorem isAlphabetic_eq : isAlphabetic c = inRanges letterRanges c := by
  rw [isAlphabetic, letterRanges, inRanges_append, Bool.eq_iff_iff]
  simp [Char.isAlpha, Char.isUpper, Char.isLower, inRanges, UInt32.le_iff_toNat_le]

theorem isWordStart_eq : isWordStart c = inRanges wordStartRanges c := by
  rw [isWordStart, wordStartRanges, inRanges_append, isAlphabetic_eq, decide_eq_char]
  rfl

theorem isDigit_eq : c.isDigit = inRanges [(0x30, 0x39)] c := by
  rw [Bool.eq_iff_iff]
  simp [Char.isDigit, inRanges, UInt32.le_iff_toNat_le]

theorem isWordPart_eq : isWordPart c = inRanges wordPartRanges c := by
  rw [isWordPart, isAlphanumeric, isNumeric, wordPartRanges, inRanges_append, inRanges_append,
    inRanges_append, isAlphabetic_eq, isDigit_eq, decide_eq_char]
  rfl

/-- A word ends at a break. -/
theorem isWordPart_of_isBreak (h : isBreak c = true) : isWordPart c = false := by
  rw [isBreak_eq] at h
  rw [isWordPart_eq]
  exact inRanges_disjoint (by decide +kernel) h

/-- No word starts with a digit. -/
theorem isDigit_of_isWordStart (h : isWordStart c = true) : c.isDigit = false := by
  rw [isWordStart_eq] at h
  rw [isDigit_eq]
  exact inRanges_disjoint (by decide +kernel) h

end Text

variable {c : Char} {base : Nat}

theorem isDigit_iff : c.isDigit = true ↔ '0' ≤ c ∧ c ≤ '9' := by
  simp [Char.isDigit, Char.le_def]

theorem digitValue_of_isDigit (h : c.isDigit = true) : digitValue c = c.toNat - '0'.toNat := by
  rw [digitValue, if_pos (isDigit_iff.1 h)]

theorem isDigitOf_ten : isDigitOf 10 c = c.isDigit := by
  rw [isDigitOf, Bool.eq_iff_iff, decide_eq_true_eq, isDigit_iff, digitValue]
  by_cases h : '0' ≤ c ∧ c ≤ '9'
  · have hle : c.toNat ≤ 0x39 := UInt32.le_iff_toNat_le.1 h.2
    have h0 : '0'.toNat = 0x30 := rfl
    rw [if_pos h]
    exact ⟨fun _ => h, fun _ => by omega⟩
  · rw [if_neg h]
    exact ⟨fun hlt => by split_ifs at hlt <;> omega, fun h' => absurd h' h⟩

/-- A digit stands in one of three ranges. -/
theorem inRanges_of_isDigitOf (hbase : base ≤ 16) (h : isDigitOf base c = true) :
    Text.inRanges [(0x30, 0x39), (0x41, 0x46), (0x61, 0x66)] c = true := by
  simp only [isDigitOf, digitValue, decide_eq_true_eq, Char.le_def, UInt32.le_iff_toNat_le] at h
  rw [Text.inRanges_eq_true]
  simp only [List.mem_cons, List.not_mem_nil, exists_eq_or_imp]
  have h0 : '0'.val.toNat = 0x30 := rfl
  have h9 : '9'.val.toNat = 0x39 := rfl
  have ha : 'a'.val.toNat = 0x61 := rfl
  have hf : 'f'.val.toNat = 0x66 := rfl
  have hA : 'A'.val.toNat = 0x41 := rfl
  have hF : 'F'.val.toNat = 0x46 := rfl
  have hc : c.val.toNat = c.toNat := rfl
  split_ifs at h <;> omega

/-- A break ends a run of digits to any base up to 16. -/
theorem isDigitOf_of_isBreak (hbase : base ≤ 16) (h : Text.isBreak c = true) :
    isDigitOf base c = false := by
  by_contra hdigit
  have hranges := inRanges_of_isDigitOf hbase (by simpa using hdigit)
  rw [Text.isBreak_eq, Text.inRanges_disjoint (by decide +kernel) hranges] at h
  cases h

theorem isBreak_of_isDigit (h : c.isDigit = true) : Text.isBreak c = false := by
  by_contra hbreak
  have hdigit : isDigitOf 10 c = false := isDigitOf_of_isBreak (by norm_num) (by simpa using hbreak)
  rw [isDigitOf_ten, h] at hdigit
  cases hdigit

end WireSchema
