import WireSchema.Proofs.LongestNumber

/-! Integers are read exactly: an integer of any length, to any base and with any number of leading
zeros is worth what its digits say, or it is out of range. -/
namespace WireSchema

/-- The character is the digit to that base for the number. From ten on digits are letters, small or
capital. -/
def StandsFor (base : Nat) (c : Char) (d : Nat) : Prop :=
  d < base ∧ (c = Nat.digitChar d ∨ c = (Nat.digitChar d).toUpper)

/-- An integer as it is written: perhaps a minus, perhaps the mark of a base, and digits to that
base, each with the number that it stands for. -/
structure IntegerLiteral where
  negative : Bool
  mark : List Char
  base : Nat
  digits : List (Char × Nat)
  marked : BaseMark mark base
  standFor : ∀ d ∈ digits, StandsFor base d.1 d.2
  nonempty : digits ≠ []

namespace IntegerLiteral
variable (l : IntegerLiteral)

/-- All but the minus. -/
def unsigned : List Char := l.mark ++ l.digits.map Prod.fst

def chars : List Char := minus l.negative ++ l.unsigned

def text : String := String.ofList l.chars

/-- The first `k` digits as they are written. -/
def leading (k : Nat) : List Char := (l.digits.take k).map Prod.fst

/-- What the first `k` digits are worth. -/
def worth (k : Nat) : Nat := Nat.ofDigits l.base ((l.digits.take k).map Prod.snd).reverse

def value : Int := (if l.negative then -1 else 1) * l.worth l.digits.length

def InRange : Prop := -2 ^ 63 ≤ l.value ∧ l.value ≤ 2 ^ 63 - 1

instance : Decidable l.InRange := inferInstanceAs (Decidable (_ ∧ _))

end IntegerLiteral

/-- On one line the column counts the characters. -/
theorem Location.after_of_not_mem {loc : Location} {cs : List Char} (h : '\n' ∉ cs) :
    loc.after cs = ⟨loc.line, loc.column + .ofNat cs.length⟩ := by
  induction cs generalizing loc with
  | nil => simp
  | cons c cs ih =>
    obtain ⟨hc, hcs⟩ : '\n' ≠ c ∧ '\n' ∉ cs := by simpa using h
    rw [after_cons, ih hcs, next, if_neg (Ne.symm hc)]
    simp [UInt32.add_assoc, UInt32.add_comm 1]

/-! ## Digits -/

section Digits
variable {base : Nat} {c : Char} {d : Nat} {ds : List (Char × Nat)}

/-- The value of a digit is what it stands for, in either case. -/
theorem digitValue_of_standsFor (hbase : base ≤ 16) (h : StandsFor base c d) :
    digitValue c = d := by
  obtain ⟨hd, hc⟩ := h
  have hd' : d < 16 := by omega
  rcases hc with rfl | rfl
  · interval_cases d <;> rfl
  · interval_cases d <;> rfl

theorem isDigitOf_of_standsFor (hbase : base ≤ 16) (h : StandsFor base c d) :
    isDigitOf base c = true := by
  rw [isDigitOf, digitValue_of_standsFor hbase h]
  exact decide_eq_true h.1

theorem digitsValue_of_standFor (hbase : base ≤ 16) (h : ∀ d ∈ ds, StandsFor base d.1 d.2) :
    digitsValue base (ds.map Prod.fst) = Nat.ofDigits base (ds.map Prod.snd).reverse := by
  have hvalues : (ds.map Prod.fst).map digitValue = ds.map Prod.snd := by
    rw [List.map_map]
    exact List.map_congr_left fun d hd => digitValue_of_standsFor hbase (h d hd)
  rw [digitsValue, List.map_reverse, hvalues]

end Digits

namespace IntegerLiteral
variable (l : IntegerLiteral)

theorem digits_leading (k : Nat) : Digits l.base (l.leading k) := by
  intro c hc
  obtain ⟨d, hd, rfl⟩ := List.mem_map.1 hc
  exact isDigitOf_of_standsFor l.marked.base_le (l.standFor d (List.mem_of_mem_take hd))

/-- What the first digits come to in whole numbers, whatever number of bits they need. -/
theorem natOfDigits_leading (k : Nat) : natOfDigits l.base (l.leading k) = l.worth k := by
  rw [natOfDigits_eq]
  exact digitsValue_of_standFor l.marked.base_le fun d hd => l.standFor d (List.mem_of_mem_take hd)

theorem leading_length : l.leading l.digits.length = l.digits.map Prod.fst := by
  rw [leading, List.take_length]

/-- More digits are never worth less. -/
theorem worth_le (k : Nat) : l.worth k ≤ l.worth l.digits.length := by
  have hsplit : l.leading l.digits.length = l.leading k ++ (l.digits.drop k).map Prod.fst := by
    rw [leading_length, leading, ← List.map_append, List.take_append_drop]
  have hdigits := l.digits_leading l.digits.length
  rw [← natOfDigits_leading, ← natOfDigits_leading, hsplit, natOfDigits, natOfDigits,
    List.foldl_append]
  rw [hsplit] at hdigits
  exact Int128.le_foldl_digits fun d hd => hdigits d (List.mem_append_right _ hd)

theorem natAbs_value : l.value.natAbs = l.worth l.digits.length := by
  cases h : l.negative <;> simp [value, h]

/-- The digits so far are worth no more than all of them. -/
theorem worth_le_of_inRange (h : l.InRange) (k : Nat) : l.worth k ≤ 2 ^ 63 := by
  have hall : l.worth l.digits.length ≤ 2 ^ 63 := by
    obtain ⟨hlow, hhigh⟩ := h
    rw [← natAbs_value]
    omega
  exact (l.worth_le k).trans hall

/-- What is there in 128 bits after each digit. -/
theorem gather?_leading (k : Nat) :
    Int128.gather? l.base (l.leading k) = Int128.ofNat? (l.worth k) := by
  rw [Int128.gather?_eq l.marked.base_le (l.digits_leading k), natOfDigits_leading]

/-! ## The whole text -/

theorem digits_chars : Digits l.base (l.digits.map Prod.fst) :=
  l.leading_length ▸ l.digits_leading l.digits.length

theorem digits_ne_nil : l.digits.map Prod.fst ≠ [] := by simpa using l.nonempty

theorem chars_ne_nil : l.chars ≠ [] := by simp [chars, unsigned, l.nonempty]

/-- Read without its sign, the literal is in range or refused. -/
theorem unsignedNumber_eq : unsignedNumber l.negative l.unsigned =
    if l.InRange then .ok (.literal (.int l.value), l.unsigned.length)
    else .error .integerOutOfRange := by
  have hvalue : l.value =
      (if l.negative then -1 else 1) * (digitsValue l.base (l.digits.map Prod.fst) : Int) := by
    rw [value, ← natOfDigits_leading, leading_length, natOfDigits_eq]
  have hrange : l.InRange ↔ -2 ^ 63 ≤ l.value ∧ l.value < 2 ^ 63 := by
    unfold InRange
    omega
  rw [unsigned, unsignedNumber_integer l.marked l.digits_chars l.digits_ne_nil,
    integerToken_eq l.marked l.digits_chars l.digits_ne_nil hvalue]
  simp only [hrange]
  split <;> rfl

theorem startsUnsigned_unsigned : startsUnsigned (l.unsigned ++ []) = true := by
  refine NumberForm.startsUnsigned ?_ []
  have hds := l.digits_chars
  have hne := l.digits_ne_nil
  obtain ⟨negative, mark, base, digits, marked⟩ := l
  cases marked with
  | decimal => exact .whole hds hne
  | hexadecimal hc => exact .hexadecimal hc hds hne
  | binary hc => exact .binary hc hds hne

theorem startsNumber_chars : startsNumber (l.chars ++ []) = true := by
  rw [chars, List.append_assoc]
  exact Lexer.startsNumber_minus l.negative l.startsUnsigned_unsigned

/-- An integer stands on one line. -/
theorem newline_not_mem_chars : '\n' ∉ l.chars := by
  have hdigit : isDigitOf l.base '\n' = false :=
    isDigitOf_of_isBreak l.marked.base_le (by decide)
  have hds : '\n' ∉ l.digits.map Prod.fst := by
    intro hmem
    simp [l.digits_chars _ hmem] at hdigit
  have hmark {mark : List Char} {base : Nat} (h : BaseMark mark base) : '\n' ∉ mark := by
    cases h with
    | decimal => simp
    | hexadecimal hc => rcases hc with rfl | rfl <;> decide
    | binary hc => rcases hc with rfl | rfl <;> decide
  have hminus : '\n' ∉ minus l.negative := by
    cases l.negative <;> decide
  simp [chars, unsigned, hds, hmark l.marked, hminus]

theorem after_chars : Location.start.after l.chars = ⟨1, .ofNat (1 + l.text.length)⟩ := by
  rw [Location.after_of_not_mem l.newline_not_mem_chars, text, String.length_ofList,
    UInt32.ofNat_add]
  rfl

/-- An integer in range is the only token of its text. -/
theorem tokens_of_inRange (h : l.InRange) : tokens l.text =
    .ok [⟨.literal (.int l.value), .start⟩, ⟨.eof, ⟨1, .ofNat (1 + l.text.length)⟩⟩] := by
  have hread : unsignedNumber l.negative (l.unsigned ++ []) =
      .ok (.literal (.int l.value), l.unsigned.length) := by
    rw [List.append_nil, unsignedNumber_eq, if_pos h]
  have hnumber : Lexer.number (l.chars ++ []) = .ok (.literal (.int l.value), l.chars.length) :=
    Lexer.number_minus l.startsUnsigned_unsigned hread (by simp [NoneNext])
  have htokens : Lexer.tokensFrom .start (l.chars ++ []) = _ :=
    Lexer.tokensFrom_number l.chars_ne_nil l.startsNumber_chars hnumber
  rw [List.append_nil, after_chars, Lexer.tokensFrom] at htokens
  rw [tokens, text, String.toList_ofList, htokens]
  rfl

theorem tokens_of_not_inRange (h : ¬ l.InRange) :
    tokens l.text = .error ⟨.start, .integerOutOfRange⟩ := by
  have hread : unsignedNumber l.negative (l.unsigned ++ []) = .error .integerOutOfRange := by
    rw [List.append_nil, unsignedNumber_eq, if_neg h]
  have hnumber : Lexer.number (l.chars ++ []) = .error .integerOutOfRange := by
    rw [chars, List.append_assoc]
    exact Lexer.number_fault l.startsUnsigned_unsigned hread
  have htokens : Lexer.tokensFrom .start (l.chars ++ []) = _ :=
    Lexer.tokensFrom_number_fault l.startsNumber_chars hnumber
  rw [tokens, text, String.toList_ofList, ← List.append_nil l.chars, htokens]

/-- An integer is read as what its digits are worth, with its sign, if that fits into 64 bits, and
nothing else is read; otherwise it is refused as out of range at its first character. The 128 bits
in which the digits are gathered hold exactly what the digits so far are worth, in a form that can
be negated. They run out only if that is `2 ^ 127` or more: never for an integer that is in
range. -/
theorem tokens_text_exact :
    (tokens l.text =
        .ok [⟨.literal (.int l.value), .start⟩, ⟨.eof, ⟨1, .ofNat (1 + l.text.length)⟩⟩] ↔
      l.InRange) ∧
    (¬ l.InRange → tokens l.text = .error ⟨.start, .integerOutOfRange⟩ ∧
      SyntaxFault.integerOutOfRange.message = "integer literal out of range") ∧
    (∀ k, (∀ m, Int128.gather? l.base (l.leading k) = some m → m.Holds (l.worth k)) ∧
      (Int128.gather? l.base (l.leading k) = none ↔ 2 ^ 127 ≤ l.worth k)) ∧
    (l.InRange → ∀ k, Int128.gather? l.base (l.leading k) ≠ none) := by
  refine ⟨⟨fun h => ?_, l.tokens_of_inRange⟩, fun h => ⟨l.tokens_of_not_inRange h, rfl⟩, ?_, ?_⟩
  · by_contra hrange
    rw [l.tokens_of_not_inRange hrange] at h
    cases h
  · intro k
    rw [gather?_leading]
    exact ⟨fun m hm => Int128.holds_of_ofNat? hm, Int128.ofNat?_eq_none_iff⟩
  · intro h k
    have hle := l.worth_le_of_inRange h k
    rw [gather?_leading, ne_eq, Int128.ofNat?_eq_none_iff]
    omega

/-- `0x8000000000000000` with forty zeros behind its mark, which are more digits than 128 bits
hold. -/
def padded (negative : Bool) : IntegerLiteral where
  negative := negative
  mark := ['0', 'x']
  base := 16
  digits := List.replicate 40 ('0', 0) ++ ('8', 8) :: List.replicate 15 ('0', 0)
  marked := .hexadecimal (.inl rfl)
  standFor d hd := by
    have hd' : d = ('0', 0) ∨ d = ('8', 8) := by
      simp only [List.mem_append, List.mem_cons, List.mem_replicate] at hd
      tauto
    rcases hd' with rfl | rfl <;> exact ⟨by norm_num, .inl rfl⟩
  nonempty := by simp

/-- With a minus it is the least integer, and without one it is just out of range. -/
theorem tokens_text_exact_padded :
    tokens "-0x00000000000000000000000000000000000000008000000000000000" =
        .ok [⟨.literal (.int (-2 ^ 63)), ⟨1, 1⟩⟩, ⟨.eof, ⟨1, 60⟩⟩] ∧
      tokens "0x00000000000000000000000000000000000000008000000000000000" =
        .error ⟨⟨1, 1⟩, .integerOutOfRange⟩ := by
  have hin : (padded true).InRange := by decide +kernel
  have hout : ¬ (padded false).InRange := by decide +kernel
  exact ⟨(tokens_text_exact (padded true)).1.2 hin, ((tokens_text_exact (padded false)).2.1 hout).1⟩

end IntegerLiteral
end WireSchema
