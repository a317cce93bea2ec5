import WireSchema.Proofs.Numerals
import WireSchema.Token.Lexer

/-! The characters of each token, and that the reader of tokens takes exactly such characters. How
it reads a token depends on what follows only by the next character, and a break is as good as the
end of the text. -/
namespace WireSchema

/-- What a backslash and a character stand for. -/
def escapes : List (Char × Char) :=
  [('"', '"'), ('\\', '\\'), ('n', '\n'), ('t', '\t'), ('r', '\r')]

/-- The characters between the quotes of a string, and its content. A backslash that escapes
nothing is kept. -/
inductive Quoted : List Char → List Char → Prop where
  | nil : Quoted [] []
  | plain {c : Char} {body s : List Char} : c ≠ '"' → c ≠ '\\' → c ≠ '\n' → Quoted body s →
      Quoted (c :: body) (c :: s)
  | escape {c d : Char} {body s : List Char} : (c, d) ∈ escapes → Quoted body s →
      Quoted ('\\' :: c :: body) (d :: s)
  | kept {c : Char} {body s : List Char} : (∀ d, (c, d) ∉ escapes) → Quoted body s →
      Quoted ('\\' :: c :: body) ('\\' :: c :: s)

def minus (negative : Bool) : List Char := if negative then ['-'] else []

def decimalText (n : Int) : List Char := minus (n < 0) ++ Nat.toDigits 10 n.natAbs

/-- The characters of a token. The end of the text has none. -/
inductive Spells : List Char → Token → Prop where
  | word {c : Char} {cs : List Char} : Text.isWordStart c = true →
      (∀ d ∈ cs, Text.isWordPart d = true) → Spells (c :: cs) (.word (String.ofList (c :: cs)))
  | string {body s : List Char} : Quoted body s →
      Spells ('"' :: (body ++ ['"'])) (.literal (.str (String.ofList s)))
  | number {negative : Bool} {w : List Char} {v : Scalar} : SpellsNumber negative w v →
      Spells (minus negative ++ w) (.literal v)
  | punct (p : Punct) : Spells p.text.toList (.punct p)

/-- A word or a number ends where no character of a word follows. -/
def Ends : Token → List Char → Prop
  | .word _, rest => NoneNext Text.isWordPart rest
  | .literal (.int _), rest => NoneNext Text.isWordPart rest
  | .literal (.float _), rest => NoneNext Text.isWordPart rest
  | _, _ => True

theorem SpellsNumber.ne_nil {negative : Bool} {w : List Char} {v : Scalar}
    (h : SpellsNumber negative w v) : w ≠ [] := by
  cases h with
  | integer _ _ hds => simp [hds]
  | float hw hdigit => exact hw.ne_nil hdigit

/-- Every token is spelled with something. -/
theorem Spells.ne_nil {w : List Char} {t : Token} (h : Spells w t) : w ≠ [] := by
  cases h with
  | word => simp
  | string => simp
  | number h => simp [h.ne_nil]
  | punct p => cases p <;> simp [Punct.text]

namespace Lexer
variable {c : Char} {cs w rest rest' : List Char} {t : Token} {n : Nat}

/-! ## Strings -/

/-- An escape stands for what it stands for anywhere in a string. -/
theorem quoted_unescape {body s : List Char} (d : Char) (h : Quoted body s) :
    Quoted ('\\' :: d :: body) (unescape d ++ s) := by
  rw [unescape]
  split_ifs with h₁ h₂ h₃ h₄ h₅
  · exact .escape (by simp [escapes, h₁]) h
  · exact .escape (by simp [escapes, h₂]) h
  · exact .escape (by simp [escapes, h₃]) h
  · exact .escape (by simp [escapes, h₄]) h
  · exact .escape (by simp [escapes, h₅]) h
  · exact .kept (by simp [escapes, *]) h

/-- A string is read up to its first quote that is not escaped, whatever follows that. -/
theorem stringBody_eq_ok {s : List Char} (h : stringBody cs = .ok (s, n)) :
    ∃ body rest, cs = body ++ '"' :: rest ∧ n = body.length + 1 ∧ Quoted body s ∧
      ∀ rest', stringBody (body ++ '"' :: rest') = .ok (s, n) := by
  fun_induction stringBody cs generalizing s n with
  | case1 => cases h
  | case2 cs =>
    cases h
    exact ⟨[], cs, rfl, rfl, .nil, fun rest' => by rw [stringBody.eq_def]; rfl⟩
  | case3 => cases h
  | case4 => cases h
  | case5 d ds hquote hline ih =>
    obtain ⟨⟨s, m⟩, hm, heq⟩ := map_eq_ok.1 h
    cases heq
    obtain ⟨body, rest, rfl, rfl, hs, hstable⟩ := ih hm
    refine ⟨'\\' :: d :: body, rest, rfl, rfl, quoted_unescape d hs, fun rest' => ?_⟩
    rw [List.cons_append, List.cons_append, stringBody.eq_3, hstable rest']
    rfl
  | case6 c cs hquote hline hback ih =>
    obtain ⟨⟨s, m⟩, hm, heq⟩ := map_eq_ok.1 h
    cases heq
    obtain ⟨body, rest, rfl, rfl, hs, hstable⟩ := ih hm
    refine ⟨c :: body, rest, rfl, rfl, .plain hquote hback hline hs, fun rest' => ?_⟩
    rw [List.cons_append, stringBody.eq_def]
    simp only [if_neg hquote, if_neg hline, if_neg hback, hstable rest']
    rfl

/-! ## Numbers -/

/-- A number may start with a minus, and then goes on like any other. -/
theorem startsNumber_eq_true (h : startsNumber cs = true) :
    ∃ negative w, cs = minus negative ++ w ∧ startsUnsigned w = true := by
  rw [startsNumber.eq_def] at h
  split at h
  next cs => exact ⟨true, cs, rfl, h⟩
  next => exact ⟨false, cs, rfl, h⟩

theorem head_ne_minus (h : startsUnsigned cs = true) : ∀ w, cs ≠ '-' :: w := by
  rintro w rfl
  simp [startsUnsigned, show isDigitOf 10 '-' = false by decide] at h

theorem startsNumber_minus (negative : Bool) (h : startsUnsigned cs = true) :
    startsNumber (minus negative ++ cs) = true := by
  cases negative with
  | true => exact h
  | false =>
    rw [startsNumber.eq_def]
    split
    next w heq => exact absurd heq (head_ne_minus h w)
    next => exact h

/-- The minus is read apart, and counted with the rest. -/
theorem signedNumber_minus (negative : Bool) (h : startsUnsigned cs = true) :
    signedNumber (minus negative ++ cs) =
      (unsignedNumber negative cs).map fun (t, k) => (t, k + (minus negative).length) := by
  cases negative with
  | true => rfl
  | false =>
    have hplain : signedNumber cs = unsignedNumber false cs := by
      rw [signedNumber.eq_def]
      split
      next w => exact absurd rfl (head_ne_minus h w)
      next => rfl
    change signedNumber cs = _
    rw [hplain]
    cases unsignedNumber false cs <;> rfl

theorem isWordPart_e : Text.isWordPart 'e' = true ∧ Text.isWordPart 'E' = true := by
  decide +kernel

theorem noneNext_of_any (h : ¬ cs.head?.any Text.isWordPart = true) :
    NoneNext Text.isWordPart cs := by
  cases cs with
  | nil => simp [NoneNext]
  | cons c cs => simpa [NoneNext] using h

/-- Behind a number stands nothing that could carry it on as a word. -/
theorem ends_of_spellsNumber {negative : Bool} {v : Scalar} (h : SpellsNumber negative w v)
    (hrest : NoneNext Text.isWordPart rest) : Ends (.literal v) rest := by
  cases h <;> exact hrest

/-- A number is refused if it runs into a word. -/
theorem number_minus_eq {negative : Bool} (hstart : startsUnsigned (w ++ rest) = true)
    (h : unsignedNumber negative (w ++ rest) = .ok (t, w.length)) :
    number (minus negative ++ w ++ rest) =
      if rest.head?.any Text.isWordPart then .error .malformedNumber
      else .ok (t, (minus negative ++ w).length) := by
  have hlen : w.length + (minus negative).length = (minus negative ++ w).length := by
    rw [List.length_append, Nat.add_comm]
  have hsigned := signedNumber_minus negative hstart
  rw [h, ← List.append_assoc] at hsigned
  rw [number, hsigned]
  simp only [Except.map, bind, Except.bind, hlen, List.drop_left]
  cases rest.head?.any Text.isWordPart <;> rfl

theorem number_minus {negative : Bool} (hstart : startsUnsigned (w ++ rest) = true)
    (h : unsignedNumber negative (w ++ rest) = .ok (t, w.length))
    (hrest : NoneNext Text.isWordPart rest) :
    number (minus negative ++ w ++ rest) = .ok (t, (minus negative ++ w).length) := by
  rw [number_minus_eq hstart h, hrest.any]
  rfl

/-- A number that is read is spelled by what was read, and what follows could be anything that ends
it as well. -/
theorem number_eq_ok (h : number cs = .ok (t, n)) (hstart : startsNumber cs = true) :
    ∃ w rest, cs = w ++ rest ∧ n = w.length ∧ Spells w t ∧ Ends t rest ∧
      ∀ rest', NextIn rest' rest →
        number (w ++ rest') = .ok (t, n) ∧ startsNumber (w ++ rest') = true := by
  obtain ⟨negative, cs, rfl, hunsigned⟩ := startsNumber_eq_true hstart
  obtain ⟨⟨t', n'⟩, hsigned, h⟩ := bind_eq_ok.1 h
  obtain ⟨hend, h⟩ := throw_guard_eq_ok.1 h
  cases h
  rw [signedNumber_minus negative hunsigned] at hsigned
  obtain ⟨⟨t', k⟩, hk, heq⟩ := map_eq_ok.1 hsigned
  cases heq
  have hnext := noneNext_of_any hend
  rw [Nat.add_comm, List.drop_length_add_append] at hnext
  obtain ⟨w, rest, rfl, rfl, ⟨v, rfl, hspells⟩, hstable⟩ := unsignedNumber_eq_ok hk hunsigned
    (fun he => by simpa [isWordPart_e] using hnext _ he)
    (fun hE => by simpa [isWordPart_e] using hnext _ hE)
  rw [List.drop_left] at hnext
  refine ⟨minus negative ++ w, rest, by simp, by simp [Nat.add_comm], .number hspells,
    ends_of_spellsNumber hspells hnext, fun rest' hn => ?_⟩
  obtain ⟨hread, hstart'⟩ := hstable rest' hn
  refine ⟨?_, ?_⟩
  · have hnext' := hnext.mono (fun _ => Text.isWordPart_of_isBreak) hn
    rw [number_minus hstart' hread hnext', List.length_append, Nat.add_comm]
  · rw [List.append_assoc]
    exact startsNumber_minus negative hstart'

/-! ## Words and signs -/

theorem startsNumber_cons (hc : c ≠ '-') :
    startsNumber (c :: cs) = (isDigitOf 10 c || (c = '.' && cs.head?.any (isDigitOf 10))) := by
  rw [startsNumber.eq_def]
  split
  next heq => exact absurd (List.cons.inj heq).1 hc
  next => rfl

/-- A character that is neither a sign nor a point shows at once whether a number starts. -/
theorem startsNumber_eq_false (hc : c ≠ '-') (hpoint : c ≠ '.')
    (h : startsNumber (c :: cs) = false) : startsNumber (c :: rest) = false := by
  rw [startsNumber_cons hc] at h ⊢
  simp_all

theorem isWordStart_ne (h : Text.isWordStart c = true) : c ≠ '-' ∧ c ≠ '.' := by
  have hminus : Text.isWordStart '-' = false := by decide +kernel
  have hpoint : Text.isWordStart '.' = false := by decide +kernel
  refine ⟨?_, ?_⟩ <;> rintro rfl <;> simp_all

theorem text_of_ofChar? {p : Punct} (h : Punct.ofChar? c = some p) : p.text.toList = [c] := by
  rw [Punct.ofChar?] at h
  split_ifs at h with h₁ h₂ h₃ h₄ h₅ h₆ h₇ h₈ h₉ <;> cases h <;> simp_all [Punct.text]

theorem ofChar?_ne {p : Punct} (h : Punct.ofChar? c = some p) : c ≠ '-' ∧ c ≠ '.' := by
  refine ⟨?_, ?_⟩ <;> rintro rfl <;> simp [Punct.ofChar?] at h

/-- A mark of one character, or an arrow. -/
theorem sign_eq_ok (h : sign c cs = .ok (t, n)) (hstart : startsNumber (c :: cs) = false) :
    ∃ w rest p, cs = w ++ rest ∧ n = w.length + 1 ∧ t = .punct p ∧ p.text.toList = c :: w ∧
      ∀ rest', sign c (w ++ rest') = .ok (t, n) ∧ startsNumber (c :: (w ++ rest')) = false := by
  rw [sign] at h
  split at h
  next p hp =>
    cases h
    obtain ⟨hminus, hpoint⟩ := ofChar?_ne hp
    refine ⟨[], cs, p, rfl, rfl, rfl, text_of_ofChar? hp, fun rest' => ⟨?_, ?_⟩⟩
    · rw [sign, hp]
    · exact startsNumber_eq_false hminus hpoint hstart
  next hnone =>
    split at h
    next harrow =>
      cases h
      obtain ⟨rfl, hhead⟩ := harrow
      obtain ⟨rest, rfl⟩ : ∃ rest, cs = '>' :: rest := by
        cases cs with
        | nil => simp at hhead
        | cons d rest => exact ⟨rest, by simpa using hhead⟩
      exact ⟨['>'], rest, .arrow, rfl, rfl, rfl, rfl, fun rest' => ⟨rfl, rfl⟩⟩
    next => cases h

/-- A token is read as it is spelled, and it is read the same when less follows, or a break. -/
theorem token_eq_ok (h : token c cs = .ok (t, n)) :
    ∃ w rest, cs = w ++ rest ∧ n = w.length + 1 ∧ Spells (c :: w) t ∧ Ends t rest ∧
      ∀ rest', NextIn rest' rest → token c (w ++ rest') = .ok (t, n) := by
  rw [token] at h
  split at h
  next hquote =>
    subst hquote
    obtain ⟨⟨s, m⟩, hs, heq⟩ := map_eq_ok.1 h
    cases heq
    obtain ⟨body, rest, rfl, rfl, hquoted, hstable⟩ := stringBody_eq_ok hs
    refine ⟨body ++ ['"'], rest, by simp, by simp, .string hquoted, trivial, fun rest' _ => ?_⟩
    rw [token, if_pos rfl, List.append_assoc, List.singleton_append, hstable rest']
    rfl
  next hquote =>
    split at h
    next hstart =>
      obtain ⟨w, rest, hcs, rfl, hspells, hends, hstable⟩ := number_eq_ok h hstart
      obtain ⟨d, w, rfl⟩ := List.exists_cons_of_ne_nil hspells.ne_nil
      cases hcs
      refine ⟨w, rest, rfl, rfl, hspells, hends, fun rest' hn => ?_⟩
      obtain ⟨hread, hstart'⟩ := hstable rest' hn
      rw [token, if_neg hquote, ← List.cons_append, if_pos hstart', hread]
    next hstart =>
      rw [Bool.not_eq_true] at hstart
      split at h
      next hword =>
        obtain ⟨w, rest, rfl, hw, hrest⟩ := exists_span Text.isWordPart cs
        rw [takeWhile_span hw hrest] at h
        cases h
        obtain ⟨hminus, hpoint⟩ := isWordStart_ne hword
        refine ⟨w, rest, rfl, rfl, .word hword hw, hrest, fun rest' hn => ?_⟩
        have hrest' := hrest.mono (fun _ => Text.isWordPart_of_isBreak) hn
        rw [token, if_neg hquote, startsNumber_eq_false hminus hpoint hstart, if_neg (by simp),
          if_pos hword, takeWhile_span hw hrest']
      next hword =>
        obtain ⟨w, rest, p, rfl, rfl, rfl, htext, hstable⟩ := sign_eq_ok h hstart
        refine ⟨w, rest, rfl, rfl, htext ▸ .punct p, trivial, fun rest' _ => ?_⟩
        obtain ⟨hread, hstart'⟩ := hstable rest'
        rw [token, if_neg hquote, hstart', if_neg (by simp), if_neg hword, hread]

end Lexer
end WireSchema
