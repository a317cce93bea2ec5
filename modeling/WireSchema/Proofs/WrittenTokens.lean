import WireSchema.Proofs.Layout

/-! Tokens written one behind the other, with breaks between them, are read back. -/
namespace WireSchema

/-- A character that an escape stands for is written as the escape. -/
def escapeChar (c : Char) : List Char :=
  match escapes.find? (·.2 = c) with
  | some (e, _) => ['\\', e]
  | none => [c]

namespace Token

/-- The plainest text of a token. Fractions and the end of the text have none. -/
def written : Token → List Char
  | .word w => w.toList
  | .literal (.int n) => decimalText n
  | .literal (.str s) => '"' :: (s.toList.flatMap escapeChar ++ ['"'])
  | .punct p => p.text.toList
  | .literal (.float _) | .eof => []

/-- A word that is one by its characters, an integer of 64 bits, any string and any sign. -/
def Writable : Token → Prop
  | .word w => ∃ c cs, w.toList = c :: cs ∧ Text.isWordStart c = true ∧
      ∀ d ∈ cs, Text.isWordPart d = true
  | .literal (.int n) => -2 ^ 63 ≤ n ∧ n < 2 ^ 63
  | .literal (.str _) | .punct _ => True
  | .literal (.float _) | .eof => False

end Token

/-- Blanks, and comments that end with their line. -/
inductive Filler : List Char → Prop where
  | nil : Filler []
  | blank {c : Char} {g : List Char} : Text.isBlank c = true → Filler g → Filler (c :: g)
  | comment {body g : List Char} : '\n' ∉ body → Filler g → Filler ('#' :: (body ++ '\n' :: g))

/-- Tokens with something before each of them and something behind the last. -/
def spread (pieces : List (List Char × Token)) (last : List Char) : List Char :=
  pieces.flatMap (fun p => p.1 ++ p.2.written) ++ last

namespace Lexer
variable {loc : Location} {c : Char} {w : List Char} {t : Token}

/-! ## Single tokens -/

theorem quoted_escapeChar (c : Char) {body s : List Char} (h : Quoted body s) :
    Quoted (escapeChar c ++ body) (c :: s) := by
  rw [escapeChar]
  split
  next e d hfind =>
    have hd : d = c := by simpa using List.find?_some hfind
    exact .escape (hd ▸ List.mem_of_find?_eq_some hfind) h
  next hnone =>
    have hne : c ≠ '"' ∧ c ≠ '\\' ∧ c ≠ '\n' := by
      simp [escapes] at hnone
      tauto
    exact .plain hne.1 hne.2.1 hne.2.2 h

/-- A string is written so that it is read back, character by character. -/
theorem quoted_flatMap (s : List Char) : Quoted (s.flatMap escapeChar) s := by
  induction s with
  | nil => exact .nil
  | cons c s ih => exact quoted_escapeChar c ih

theorem unescape_of_mem {d : Char} (h : (c, d) ∈ escapes) : unescape c = [d] := by
  simp only [escapes, List.mem_cons, Prod.mk.injEq, List.not_mem_nil, or_false] at h
  rcases h with ⟨rfl, rfl⟩ | ⟨rfl, rfl⟩ | ⟨rfl, rfl⟩ | ⟨rfl, rfl⟩ | ⟨rfl, rfl⟩ <;> rfl

theorem unescape_of_not_mem (h : ∀ d, (c, d) ∉ escapes) : unescape c = ['\\', c] := by
  have hne {d : Char} (e : Char) (hmem : (d, e) ∈ escapes) : c ≠ d := by
    rintro rfl
    exact h e hmem
  simp [unescape, hne (d := '"') '"' (by decide), hne (d := '\\') '\\' (by decide),
    hne (d := 'n') '\n' (by decide), hne (d := 't') '\t' (by decide),
    hne (d := 'r') '\r' (by decide)]

/-- The body of a string is read up to the closing quote. -/
theorem stringBody_quoted {body s : List Char} (h : Quoted body s) (rest : List Char) :
    stringBody (body ++ '"' :: rest) = .ok (s, body.length + 1) := by
  induction h with
  | nil => rw [List.nil_append, stringBody.eq_def]; rfl
  | plain hquote hback hline _ ih =>
    rw [List.cons_append, stringBody.eq_def]
    simp only [if_neg hquote, if_neg hline, if_neg hback, ih]
    rfl
  | escape hmem _ ih =>
    rw [List.cons_append, List.cons_append, stringBody.eq_3, ih, unescape_of_mem hmem]
    rfl
  | kept hmem _ ih =>
    rw [List.cons_append, List.cons_append, stringBody.eq_3, ih, unescape_of_not_mem hmem]
    rfl

theorem token_string (s : String) :
    token '"' (s.toList.flatMap escapeChar ++ ['"']) =
      .ok (.literal (.str s), (s.toList.flatMap escapeChar ++ ['"']).length + 1) := by
  rw [token, if_pos rfl, stringBody_quoted (quoted_flatMap s.toList)]
  simp [Except.map]

theorem token_word (hc : Text.isWordStart c = true) (hw : ∀ d ∈ w, Text.isWordPart d = true) :
    token c w = .ok (.word (String.ofList (c :: w)), w.length + 1) := by
  have hquote : c ≠ '"' := by
    rintro rfl
    exact absurd hc (by decide +kernel)
  obtain ⟨hminus, hpoint⟩ := isWordStart_ne hc
  have hstart : startsNumber (c :: w) = false := by
    simp [startsNumber_cons hminus, isDigitOf_ten, Text.isDigit_of_isWordStart hc, hpoint]
  rw [token, if_neg hquote, hstart, if_neg (by simp), if_pos hc, List.takeWhile_eq_self_iff.2 hw]
  rfl

theorem integerToken_natAbs {n : Int} (hlow : -2 ^ 63 ≤ n) (hhigh : n < 2 ^ 63) :
    integerToken (n < 0) 10 (Nat.toDigits 10 n.natAbs) = .ok (.literal (.int n)) := by
  have hn : n = (if decide (n < 0) = true then -1 else 1) *
      (digitsValue 10 (Nat.toDigits 10 n.natAbs) : Int) := by
    rw [digitsValue_toDigits]
    by_cases hneg : n < 0
    · rw [if_pos (decide_eq_true hneg)]
      omega
    · rw [if_neg (by simpa using hneg)]
      omega
  rw [integerToken_eq .decimal (digits_toDigits n.natAbs) Nat.toDigits_ne_nil hn,
    if_pos ⟨hlow, hhigh⟩]

/-- An integer of 64 bits that is written in decimals is read back. -/
theorem number_decimalText {n : Int} (hlow : -2 ^ 63 ≤ n) (hhigh : n < 2 ^ 63) :
    startsNumber (decimalText n) = true ∧
      number (decimalText n) = .ok (.literal (.int n), (decimalText n).length) := by
  let numeral : Numeral := ⟨Nat.toDigits 10 n.natAbs, none, none⟩
  have hds : Digits 10 (Nat.toDigits 10 n.natAbs) := digits_toDigits n.natAbs
  have hwritten : numeral.Written (Nat.toDigits 10 n.natAbs) := Numeral.written_digits hds
  have hstops : numeral.Stops [] := Numeral.stops_nil numeral
  have hstart := (Numeral.startsUnsigned_written hwritten hstops).2 (.inl Nat.toDigits_ne_nil)
  have hread : unsignedNumber (n < 0) (Nat.toDigits 10 n.natAbs ++ []) =
      .ok (.literal (.int n), (Nat.toDigits 10 n.natAbs).length) := by
    have hinteger : unsignedNumber (n < 0) ([] ++ Nat.toDigits 10 n.natAbs) = _ :=
      unsignedNumber_integer .decimal hds Nat.toDigits_ne_nil
    rw [integerToken_natAbs hlow hhigh, List.nil_append] at hinteger
    rw [List.append_nil]
    exact hinteger
  have hnumber := number_minus hstart hread (by simp [NoneNext])
  rw [List.append_nil] at hstart hnumber
  exact ⟨startsNumber_minus _ hstart, hnumber⟩

theorem head_decimalText (n : Int) :
    ∃ c w, decimalText n = c :: w ∧ (c = '-' ∨ c.isDigit = true) := by
  by_cases hneg : n < 0
  · exact ⟨'-', Nat.toDigits 10 n.natAbs, by simp [decimalText, minus, hneg], .inl rfl⟩
  · obtain ⟨c, w, hw⟩ := List.exists_cons_of_ne_nil (Nat.toDigits_ne_nil (n := n.natAbs) (b := 10))
    refine ⟨c, w, by simp [decimalText, minus, hneg, hw], .inr ?_⟩
    rw [← isDigitOf_ten]
    exact digits_toDigits n.natAbs c (by rw [hw]; simp)

theorem isBreak_of_isWordPart (h : Text.isWordPart c = true) : Text.isBreak c = false := by
  by_contra hbreak
  rw [Text.isWordPart_of_isBreak (by simpa using hbreak)] at h
  cases h

/-- At the end of a text, a token is read as it is written, and it does not look like a break. -/
theorem token_written (h : t.Writable) :
    ∃ c w, t.written = c :: w ∧ Text.isBreak c = false ∧ token c w = .ok (t, w.length + 1) := by
  match t with
  | .word s =>
    obtain ⟨c, w, hs, hc, hw⟩ := h
    refine ⟨c, w, hs, isBreak_of_isWordPart (Text.isWordPart_of_isWordStart hc), ?_⟩
    rw [token_word hc hw, ← hs, String.ofList_toList]
  | .literal (.str s) => exact ⟨'"', _, rfl, by decide +kernel, token_string s⟩
  | .punct p => cases p <;> exact ⟨_, _, rfl, by decide +kernel, by decide +kernel⟩
  | .literal (.int n) =>
    obtain ⟨hstart, hnumber⟩ := number_decimalText h.1 h.2
    obtain ⟨c, w, hw, hc⟩ := head_decimalText n
    have hquote : c ≠ '"' := by
      rintro rfl
      simp at hc
    have hbreak : Text.isBreak c = false := by
      rcases hc with rfl | hc
      · decide +kernel
      · exact isBreak_of_isDigit hc
    refine ⟨c, w, hw, hbreak, ?_⟩
    rw [hw] at hstart hnumber
    rw [token, if_neg hquote, if_pos hstart, hnumber]
    rfl

/-- A token that is read at the end of a text is read before a break. -/
theorem token_before_break {r : List Char} (h : token c w = .ok (t, w.length + 1))
    (hr : NextIn r []) : token c (w ++ r) = .ok (t, w.length + 1) := by
  obtain ⟨w', rest, rfl, hlen, -, -, hstable⟩ := token_eq_ok h
  obtain rfl : rest = [] := by
    rw [List.length_append] at hlen
    exact List.eq_nil_of_length_eq_zero (by omega)
  rw [List.append_nil] at hstable ⊢
  exact hstable r hr

/-! ## Token after token -/

/-- Fillers in front are skipped. -/
theorem tokensFrom_filler {g : List Char} (h : Filler g) (r : List Char) :
    tokensFrom loc (g ++ r) = tokensFrom (loc.after g) r := by
  induction h generalizing loc with
  | nil => rfl
  | blank hc _ ih => rw [List.cons_append, tokensFrom_blank hc, ih, Location.after_cons]
  | @comment body g hbody _ ih =>
    have htext : '#' :: (body ++ '\n' :: g) ++ r = '#' :: (body ++ '\n' :: (g ++ r)) := by simp
    rw [htext, tokensFrom_comment hbody (by simp), tokensFrom_blank (by decide), ih]
    simp

theorem nextIn_filler {g r : List Char} (h : Filler g) (hr : g ≠ [] ∨ r = []) :
    NextIn (g ++ r) [] := by
  intro c hc
  left
  cases h with
  | nil => simp_all
  | blank hblank =>
    obtain rfl := Option.some.inj hc
    simp [Text.isBreak, hblank]
  | comment =>
    obtain rfl := Option.some.inj hc
    simp [Text.isBreak]

theorem nextIn_spread {pieces : List (List Char × Token)} {last : List Char}
    (hpieces : ∀ p ∈ pieces, Filler p.1 ∧ p.1 ≠ []) (hlast : Filler last) :
    NextIn (spread pieces last) [] := by
  cases pieces with
  | nil => simpa [spread] using nextIn_filler (r := []) hlast (.inr rfl)
  | cons p pieces =>
    obtain ⟨hfiller, hne⟩ := hpieces p (by simp)
    simpa [spread] using nextIn_filler hfiller (.inl hne)

/-- Tokens that are kept apart are read back one by one. By induction along the pieces. -/
theorem tokensFrom_spread {pieces : List (List Char × Token)} {last : List Char}
    (hpieces : ∀ p ∈ pieces, Filler p.1 ∧ p.2.Writable) (hgaps : ∀ p ∈ pieces.tail, p.1 ≠ [])
    (hlast : Filler last) :
    ∃ ls, tokensFrom loc (spread pieces last) = .ok ls ∧
      ls.map Lexeme.token = pieces.map Prod.snd ++ [.eof] := by
  induction pieces generalizing loc with
  | nil =>
    refine ⟨[⟨.eof, loc.after last⟩], ?_, rfl⟩
    have hfiller : tokensFrom loc (last ++ []) = _ := tokensFrom_filler hlast []
    simpa [spread, tokensFrom] using hfiller
  | cons p pieces ih =>
    obtain ⟨⟨hfiller, hwritable⟩, hrest⟩ := List.forall_mem_cons.1 hpieces
    obtain ⟨c, w, hw, hbreak, htoken⟩ := token_written hwritable
    obtain ⟨hblank, hhash⟩ : Text.isBlank c = false ∧ c ≠ '#' := by
      simpa [Text.isBreak] using hbreak
    have hnext : NextIn (spread pieces last) [] :=
      nextIn_spread (fun q hq => ⟨(hrest q hq).1, hgaps q hq⟩) hlast
    have htext : spread (p :: pieces) last = p.1 ++ c :: (w ++ spread pieces last) := by
      simp [spread, hw]
    have hgaps' : ∀ q ∈ pieces.tail, q.1 ≠ [] := fun q hq => hgaps q (List.mem_of_mem_tail hq)
    obtain ⟨ls, hls, htokens⟩ :
        ∃ ls, tokensFrom ((loc.after p.1).after (c :: w)) (spread pieces last) = .ok ls ∧
          ls.map Lexeme.token = pieces.map Prod.snd ++ [.eof] := ih hrest hgaps'
    refine ⟨⟨p.2, loc.after p.1⟩ :: ls, ?_, by simp [htokens]⟩
    rw [htext, tokensFrom_filler hfiller,
      tokensFrom_token hhash hblank (token_before_break htoken hnext), hls]
    rfl

end Lexer

/-- Tokens that are written with a break between each two are read back, and nothing else is. -/
theorem tokens_spread {pieces : List (List Char × Token)} {last : List Char}
    (hpieces : ∀ p ∈ pieces, Filler p.1 ∧ p.2.Writable) (hgaps : ∀ p ∈ pieces.tail, p.1 ≠ [])
    (hlast : Filler last) :
    ∃ ls, tokens (String.ofList (spread pieces last)) = .ok ls ∧
      ls.map Lexeme.token = pieces.map Prod.snd ++ [.eof] := by
  rw [tokens, String.toList_ofList]
  exact Lexer.tokensFrom_spread hpieces hgaps hlast

/-- The least integer, a string with all that is escaped in it, an arrow behind a comment, and a
word that starts like a number to base sixteen. -/
theorem tokens_spread_extremes :
    let pieces : List (List Char × Token) :=
      [([], .literal (.int (-2 ^ 63))), ("\t".toList, .literal (.str "\\\"\\n\n\r\t#")),
        ("#\"\n".toList, .punct .arrow), (" ".toList, .word "xFF")]
    (∀ p ∈ pieces, Filler p.1 ∧ p.2.Writable) ∧ (∀ p ∈ pieces.tail, p.1 ≠ []) ∧ Filler ['\n'] ∧
      ∃ ls, tokens (String.ofList (spread pieces ['\n'])) = .ok ls ∧
        ls.map Lexeme.token = pieces.map Prod.snd ++ [.eof] := by
  intro pieces
  have hpieces : ∀ p ∈ pieces, Filler p.1 ∧ p.2.Writable := by
    have hF : Text.isWordPart 'F' = true := by decide
    have hword : Token.Writable (.word "xFF") := ⟨'x', ['F', 'F'], rfl, by decide, by simp [hF]⟩
    simp only [pieces, List.forall_mem_cons, List.not_mem_nil, false_implies, implies_true]
    exact ⟨⟨.nil, by norm_num [Token.Writable]⟩, ⟨.blank (by decide) .nil, trivial⟩,
      ⟨.comment (by decide : '\n' ∉ ['"']) .nil, trivial⟩, ⟨.blank (by decide) .nil, hword⟩,
      trivial⟩
  have hgaps : ∀ p ∈ pieces.tail, p.1 ≠ [] := by simp [pieces]
  have hlast : Filler ['\n'] := .blank (by decide) .nil
  exact ⟨hpieces, hgaps, hlast, tokens_spread hpieces hgaps hlast⟩

end WireSchema
