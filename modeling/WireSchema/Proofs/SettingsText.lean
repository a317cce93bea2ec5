import WireSchema.ProjectConfig
import WireSchema.Proofs.Concatenation

/-! No document is a text of settings. A setting is a key and an equals sign behind it on the same
line; a document opens with a keyword, which would do as a key, but a name or a brace comes next.
Before the keyword there are blanks and comments, and not all that a document admits there may stand
among settings; but if it may not, the text of settings ends in a complaint at once. -/
namespace WireSchema
namespace Toml
variable {c : Char} {cs body r w : List Char} {loc : Location} {ls : List Lexeme}

/-! ## Characters -/

/-- The character opens a setting or a comment. -/
def isOpening (c : Char) : Bool := isBare c || c = '"' || c = '\'' || c = '#'

def openingRanges : List Text.CodeRange :=
  [(0x41, 0x5A), (0x61, 0x7A)] ++ [(0x30, 0x39)] ++ [(0x5F, 0x5F)] ++ [(0x2D, 0x2D)] ++
    [(0x22, 0x22)] ++ [(0x27, 0x27)] ++ [(0x23, 0x23)]

theorem isOpening_eq : isOpening c = Text.inRanges openingRanges c := by
  have halpha : c.isAlpha = Text.inRanges [(0x41, 0x5A), (0x61, 0x7A)] c := by
    rw [Bool.eq_iff_iff]
    simp [Char.isAlpha, Char.isUpper, Char.isLower, Text.inRanges, UInt32.le_iff_toNat_le]
  simp only [isOpening, isBare, openingRanges, Char.isAlphanum, halpha, Text.isDigit_eq,
    Text.decide_eq_char, Text.inRanges_append]
  rfl

theorem isOpening_of_isBare (h : isBare c = true) : isOpening c = true := by
  simp [isOpening, h]

theorem isOpening_of_isBlank (h : Text.isBlank c = true) : isOpening c = false := by
  rw [isOpening_eq]
  exact Text.inRanges_disjoint (by simp [Text.blankRanges, openingRanges]) h

theorem isPlain_of_isOpening (h : isOpening c = true) : isPlain c = true := by
  rw [isOpening_eq] at h
  obtain ⟨r, hr, hlow, hhigh⟩ := Text.inRanges_eq_true.1 h
  have hbound : ∀ r ∈ openingRanges, 0x20 ≤ r.1 ∧ r.2 < 0x7F := by simp [openingRanges]
  have := hbound r hr
  have hlow' : 0x20 ≤ c.toNat := by omega
  have hne : c.toNat ≠ 0x7F := by omega
  simp [isPlain, hlow', hne]

theorem isBlank_of_isSpace (h : isSpace c = true) : Text.isBlank c = true := by
  simp only [isSpace, Bool.or_eq_true, decide_eq_true_eq] at h
  rcases h with rfl | rfl <;> decide

theorem isPlain_of_isSpace (h : isSpace c = true) : isPlain c = true := by
  simp only [isSpace, Bool.or_eq_true, decide_eq_true_eq] at h
  rcases h with rfl | rfl <;> decide

theorem isSpace_of_isOpening (h : isOpening c = true) : isSpace c = false := by
  by_contra hspace
  have hblank := isOpening_of_isBlank (isBlank_of_isSpace (by simpa using hspace))
  rw [h] at hblank
  cases hblank

/-! ## What stands before the first setting -/

/-- Only a line feed ends a line, alone or behind a carriage return. -/
theorem lineEnd_eq_zero (hnewline : c ≠ '\n') (hreturn : c ≠ '\r' ∨ cs.head? ≠ some '\n') :
    lineEnd (c :: cs) = 0 := by
  unfold lineEnd
  split <;> simp_all

theorem settings_space (h : isSpace c = true) : settings (c :: cs) = settings cs := by
  rw [settings, if_pos h]

theorem settings_newline (cs : List Char) : settings ('\n' :: cs) = settings cs := by
  rw [settings]
  simp [isSpace, lineEnd]

theorem settings_return (cs : List Char) : settings ('\r' :: '\n' :: cs) = settings cs := by
  rw [settings]
  simp [isSpace, lineEnd]

theorem settings_comment (cs : List Char) :
    settings ('#' :: cs) = settings (cs.drop (cs.takeWhile isPlain).length) := by
  rw [settings]
  simp [isSpace, lineEnd]

/-- What is neither a blank nor a comment has to be a setting. -/
theorem settings_eq_none (hspace : isSpace c = false) (hline : lineEnd (c :: cs) = 0)
    (hhash : c ≠ '#') (h : setting (c :: cs) = none) : settings (c :: cs) = none := by
  rw [settings, if_neg (by simp [hspace]), if_neg (by simp [hline]), if_neg hhash]
  split
  · rfl
  next s rest hs =>
    rw [h] at hs
    cases hs

/-- No key starts here, and so no setting does. -/
theorem setting_eq_none (h : isOpening c = false) : setting (c :: cs) = none := by
  simp only [isOpening, Bool.or_eq_false_iff, decide_eq_false_iff_not] at h
  obtain ⟨⟨⟨hbare, hquote⟩, hquote'⟩, -⟩ := h
  have hkey : key (c :: cs) = none := by
    simp [key, hbare, hquote, hquote']
  rw [setting, hkey]
  rfl

/-- A character that opens nothing is a blank or a fault. -/
theorem settings_skip (h : isOpening c = false) (hcs : settings cs = none) :
    settings (c :: cs) = none := by
  by_cases hspace : isSpace c = true
  · rw [settings_space hspace, hcs]
  by_cases hnewline : c = '\n'
  · rw [hnewline, settings_newline, hcs]
  by_cases hreturn : c ≠ '\r' ∨ cs.head? ≠ some '\n'
  · have hhash : c ≠ '#' := by
      rintro rfl
      cases h
    exact settings_eq_none (by simpa using hspace) (lineEnd_eq_zero hnewline hreturn) hhash
      (setting_eq_none h)
  · obtain ⟨rfl, hhead⟩ : c = '\r' ∧ cs.head? = some '\n' := by simpa using hreturn
    obtain ⟨rest, rfl⟩ := List.head?_eq_some_iff.1 hhead
    rw [settings_newline] at hcs
    rw [settings_return, hcs]

/-- A comment ends among settings where it does in a document, or at a fault before that. -/
theorem settings_skip_comment (hbody : '\n' ∉ body) (hr : ∀ c ∈ r.head?, c = '\n')
    (hsettings : settings r = none) : settings ('#' :: (body ++ r)) = none := by
  have hplain : isPlain '\n' = false := by decide
  obtain ⟨plain, rest, rfl, hall, hnext⟩ := exists_span isPlain body
  cases rest with
  | nil =>
    have hspan : (plain ++ [] ++ r).takeWhile isPlain = plain := by
      rw [List.append_nil]
      exact takeWhile_span hall fun c hc => hr c hc ▸ hplain
    rw [settings_comment, hspan, List.append_nil, List.drop_left, hsettings]
  | cons d rest =>
    have hd : isPlain d = false := hnext d rfl
    have hopening : isOpening d = false := by
      by_contra h
      rw [isPlain_of_isOpening (by simpa using h)] at hd
      cases hd
    have hspan : (plain ++ d :: rest ++ r).takeWhile isPlain = plain := by
      rw [List.append_assoc]
      exact takeWhile_span hall fun c hc => by simp_all
    rw [settings_comment, hspan, List.append_assoc, List.drop_left, List.cons_append]
    cases rest with
    | nil => exact settings_skip hopening hsettings
    | cons e rest =>
      have hspace : isSpace d = false := by
        by_contra h
        rw [isPlain_of_isSpace (by simpa using h)] at hd
        cases hd
      have hne : d ≠ '\n' ∧ e ≠ '\n' := by
        constructor <;> rintro rfl <;> simp at hbody
      have hhash : d ≠ '#' := by
        rintro rfl
        cases hopening
      exact settings_eq_none hspace (lineEnd_eq_zero hne.1 (.inr (by simpa using hne.2))) hhash
        (setting_eq_none hopening)

/-! ## The first setting -/

/-- A word of plain letters, and then another word or a brace. -/
def Opens (ls : List Lexeme) : Prop :=
  ∃ w l m rest, ls = ⟨.word w, l⟩ :: m :: rest ∧ (∀ c ∈ w.toList, isBare c = true) ∧
    (m.token = .punct .openBrace ∨ ∃ v, m.token = .word v)

/-- The first character of a word or a brace. -/
theorem head_of_spells {t : Token} (h : Spells (c :: w) t)
    (ht : t = .punct .openBrace ∨ ∃ v, t = .word v) :
    c = '\x7b' ∨ Text.isWordStart c = true := by
  generalize hcs : c :: w = cs at h
  rcases ht with rfl | ⟨v, rfl⟩
  · cases h with
    | punct =>
      cases hcs
      exact .inl rfl
  · cases h with
    | word hstart =>
      cases hcs
      exact .inr hstart

/-- Behind the blanks of a line there is no equals sign before a word or a brace. -/
theorem head_dropWhile_of_tokens {m : Lexeme} (h : Lexer.tokensFrom loc r = .ok (m :: ls))
    (hm : m.token = .punct .openBrace ∨ ∃ v, m.token = .word v) :
    (r.dropWhile isSpace).head? ≠ some '=' := by
  induction r using Lexer.reading_induction generalizing loc ls with
  | nil => simp
  | comment body r hbody hr ih => simp [isSpace]
  | blank c r hc ih =>
    rw [Lexer.tokensFrom_blank hc] at h
    rw [List.dropWhile_cons]
    split
    · exact ih h
    · rw [List.head?_cons]
      rintro ⟨⟩
      revert hc
      decide
  | fault c r fault hhash hblank ht =>
    rw [Lexer.tokensFrom_fault hhash hblank ht] at h
    cases h
  | token c w r t hhash hblank hspells _ hstable ih =>
    rw [Lexer.tokensFrom_token hhash hblank (hstable r (.refl r))] at h
    obtain ⟨ls', -, hls⟩ := map_eq_ok.1 h
    cases hls
    have hspace : isSpace c = false := by
      by_contra hspace
      rw [isBlank_of_isSpace (by simpa using hspace)] at hblank
      cases hblank
    rw [List.dropWhile_cons, if_neg (by simp [hspace]), List.head?_cons]
    rintro ⟨⟩
    rcases head_of_spells hspells hm with hc | hc
    · revert hc
      decide
    · revert hc
      decide +kernel

/-- A key ends where a word of the document does, if a word or a brace comes next. -/
theorem head_not_bare_of_tokens {m : Lexeme} (h : Lexer.tokensFrom loc r = .ok (m :: ls))
    (hm : m.token = .punct .openBrace ∨ ∃ v, m.token = .word v)
    (hnext : NoneNext Text.isWordPart r) : NoneNext isBare r := by
  induction r using Lexer.reading_induction with
  | nil => simp [NoneNext]
  | comment body r hbody hr ih =>
    rintro _ ⟨⟩
    decide
  | blank c r hc ih =>
    rintro _ ⟨⟩
    by_contra hbare
    have hopening := isOpening_of_isBare (by simpa using hbare)
    rw [isOpening_of_isBlank hc] at hopening
    cases hopening
  | fault c r fault hhash hblank ht =>
    rw [Lexer.tokensFrom_fault hhash hblank ht] at h
    cases h
  | token c w r t hhash hblank hspells _ hstable ih =>
    rw [Lexer.tokensFrom_token hhash hblank (hstable r (.refl r))] at h
    obtain ⟨ls', -, hls⟩ := map_eq_ok.1 h
    cases hls
    rintro _ ⟨⟩
    rcases head_of_spells hspells hm with rfl | hc
    · decide
    · have hpart := hnext c rfl
      rw [Text.isWordPart_of_isWordStart hc] at hpart
      cases hpart

/-- A key with no equals sign behind it. -/
theorem setting_of_word (hbare : ∀ d ∈ c :: w, isBare d = true) (hnext : NoneNext isBare r)
    (hequals : (r.dropWhile isSpace).head? ≠ some '=') : setting (c :: (w ++ r)) = none := by
  have hquote : c ≠ '"' ∧ c ≠ '\'' := by
    have hc := hbare c (by simp)
    constructor <;> rintro rfl <;> revert hc <;> decide
  have hspan : (c :: (w ++ r)).takeWhile isBare = c :: w := takeWhile_span hbare hnext
  have hkey : key (c :: (w ++ r)) = some (String.ofList (c :: w), r) := by
    simp only [key, List.head?_cons, Option.some.injEq, hquote.1, hquote.2, or_self, if_false,
      hspan]
    simp
  rw [setting, hkey, Option.bind_eq_bind, Option.bind_some]
  dsimp only
  split
  next cs he =>
    rw [he] at hequals
    exact absurd rfl hequals
  · rfl

/-- Tokens that open like a document are not those of settings. -/
theorem settings_of_tokens (h : Lexer.tokensFrom loc cs = .ok ls) (hopens : Opens ls) :
    settings cs = none := by
  induction cs using Lexer.reading_induction generalizing loc ls with
  | nil =>
    rw [Lexer.tokensFrom] at h
    cases h
    obtain ⟨w, l, m, rest, hls, -⟩ := hopens
    cases hls
  | comment body r hbody hr ih =>
    rw [Lexer.tokensFrom_comment hbody hr] at h
    exact settings_skip_comment hbody hr (ih h hopens)
  | blank c r hc ih =>
    rw [Lexer.tokensFrom_blank hc] at h
    exact settings_skip (isOpening_of_isBlank hc) (ih h hopens)
  | fault c r fault hhash hblank ht =>
    rw [Lexer.tokensFrom_fault hhash hblank ht] at h
    cases h
  | token c w r t hhash hblank hspells hends hstable ih =>
    rw [Lexer.tokensFrom_token hhash hblank (hstable r (.refl r))] at h
    obtain ⟨ls', hread, rfl⟩ := map_eq_ok.1 h
    obtain ⟨keyword, l, m, rest, hls, hbare, hm⟩ := hopens
    obtain ⟨hl, rfl⟩ := List.cons.inj hls
    obtain ⟨rfl, rfl⟩ := Lexeme.mk.inj hl
    have hbare' : ∀ d ∈ c :: w, isBare d = true := by
      generalize hcs : c :: w = cs at hspells
      cases hspells with
      | word => simpa using hbare
    have hc := isOpening_of_isBare (hbare' c (by simp))
    have hline : lineEnd (c :: (w ++ r)) = 0 := by
      refine lineEnd_eq_zero ?_ (.inl ?_) <;> rintro rfl <;> cases hc
    exact settings_eq_none (isSpace_of_isOpening hc) hline hhash
      (setting_of_word hbare' (head_not_bare_of_tokens hread hm hends)
        (head_dropWhile_of_tokens hread hm))

/-! ## Documents -/

theorem Opens.append (h : Opens ls) (us : List Lexeme) : Opens (ls ++ us) := by
  obtain ⟨w, l, m, rest, rfl, hw, hm⟩ := h
  exact ⟨w, l, m, rest ++ us, rfl, hw, hm⟩

/-- The words that open a definition would do as keys. -/
theorem isBare_of_mem_keyword {keyword : String}
    (h : keyword ∈ ["const", "struct", "service", "options"]) :
    ∀ c ∈ keyword.toList, isBare c = true := by
  have hall : (["const", "struct", "service", "options"].all fun w => w.toList.all isBare) =
      true := by
    decide
  simpa using List.all_eq_true.1 hall keyword h

/-- A definition opens with a keyword, and a word or a brace comes next. -/
theorem opens_of_definition {x : Definition} (h : Grammar.Definition ls x) : Opens ls := by
  cases h with
  | constant => exact ⟨_, _, _, _, rfl, isBare_of_mem_keyword (by simp), .inr ⟨_, rfl⟩⟩
  | struct => exact ⟨_, _, _, _, rfl, isBare_of_mem_keyword (by simp), .inr ⟨_, rfl⟩⟩
  | service => exact ⟨_, _, _, _, rfl, isBare_of_mem_keyword (by simp), .inr ⟨_, rfl⟩⟩
  | options h =>
    obtain ⟨-⟩ := h
    exact ⟨_, _, _, _, rfl, isBare_of_mem_keyword (by simp), .inl rfl⟩

theorem opens_of_document {doc : Document} (h : Grammar.Document ls doc) : Opens ls := by
  cases h with
  | one h => exact opens_of_definition h
  | cons h _ => exact (opens_of_definition h).append _

/-- A byte order mark, which settings may start with, starts no token. -/
theorem tokensFrom_mark (loc : Location) (cs : List Char) :
    ∃ e, Lexer.tokensFrom loc ('\uFEFF' :: cs) = .error e := by
  have hword : Text.isWordStart '\uFEFF' = false := by decide +kernel
  have hnumber : startsNumber ('\uFEFF' :: cs) = false := by
    rw [Lexer.startsNumber_cons (by decide)]
    simp [show isDigitOf 10 '\uFEFF' = false by decide]
  have htoken : Lexer.token '\uFEFF' cs = .error (.unexpectedChar '\uFEFF') := by
    rw [Lexer.token, if_neg (by decide), hnumber, if_neg (by simp), hword, if_neg (by simp)]
    rfl
  exact ⟨_, Lexer.tokensFrom_fault (by decide) (by decide) htoken⟩

end Toml

namespace Document

/-- No text is both a document and a file of settings. -/
theorem toml_eq_none {text : String} {doc : Document} (h : ofText text = .ok doc) :
    Toml.ofText text = none := by
  obtain ⟨ls, hderiv, htokens, -⟩ := derivation_of_ofText h
  rw [Toml.ofText]
  split
  next cs hcs =>
    obtain ⟨e, he⟩ := Toml.tokensFrom_mark .start cs
    rw [hcs, he] at htokens
    cases htokens
  · exact Toml.settings_of_tokens htokens ((Toml.opens_of_document hderiv).append _)

/-- A project cannot be set up from a schema. -/
theorem load_of_document {files : Files} {path text : String} {doc : Document}
    (htext : files.readText path = .ok text) (h : ofText text = .ok doc) (fallback : String) :
    ProjectConfig.load files path fallback = .error (.malformed path) := by
  have hnone : ProjectConfig.ofToml? text = none := by
    rw [ProjectConfig.ofToml?, toml_eq_none h]
    rfl
  simp [ProjectConfig.load, htext, hnone, Except.mapError]
  rfl

end Document
end WireSchema
