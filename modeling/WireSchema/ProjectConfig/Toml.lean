import WireSchema.Token.Numeral

/-! The flat part of TOML: comments, and keys with strings or integers. Tables, arrays, dates,
floats and booleans are refused with everything that is not TOML, because no setting is one. -/
namespace WireSchema
namespace Toml

inductive Item where
  | str (s : String)
  | int (n : Int)
deriving DecidableEq, Repr

def isSpace (c : Char) : Bool := c = ' ' || c = '\t'

/-- Controls other than the tab stand nowhere but at the ends of lines. -/
def isPlain (c : Char) : Bool := c = '\t' || (0x20 ≤ c.toNat && c.toNat ≠ 0x7F)

def isBare (c : Char) : Bool := c.isAlphanum || c = '_' || c = '-'

/-- Length of the line end at the head of a text; 0 if there is none. -/
def lineEnd : List Char → Nat
  | '\n' :: _ => 1
  | '\r' :: '\n' :: _ => 2
  | _ => 0

/-- Length of the spaces and line ends at the head of a text. -/
def gap : List Char → Nat
  | [] => 0
  | c :: cs => if isSpace c ∨ lineEnd (c :: cs) ≠ 0 then gap cs + 1 else 0

/-- The character that so many hexadecimal digits name. -/
def hexChar? (width : Nat) (cs : List Char) : Option Char :=
  let ds := cs.take width
  let n := natOfDigits 16 ds
  if ds.length = width ∧ ds.all (isDigitOf 16) ∧ n.isValidChar then some (Char.ofNat n) else none

/-- The character of an escape, and the length of the escape after its backslash. -/
def escape? : List Char → Option (Char × Nat)
  | [] => none
  | c :: cs =>
    if c = '"' ∨ c = '\\' then some (c, 1)
    else if c = 'b' then some ('\x08', 1)
    else if c = 't' then some ('\t', 1)
    else if c = 'n' then some ('\n', 1)
    else if c = 'f' then some ('\x0c', 1)
    else if c = 'r' then some ('\r', 1)
    else if c = 'u' then (hexChar? 4 cs).map (·, 5)
    else if c = 'U' then (hexChar? 8 cs).map (·, 9)
    else none

/-- Puts a character before what is read. -/
def before (c : Char) (r : Option (List Char × List Char)) : Option (List Char × List Char) :=
  r.map fun r => (c :: r.1, r.2)

/-- A string with escapes, from behind its opening quote, and what follows it. -/
def basic (cs : List Char) : Option (List Char × List Char) :=
  match cs with
  | [] => none
  | c :: cs =>
    if c = '"' then some ([], cs)
    else if c = '\\' then
      match escape? cs with
      | some (d, n) => before d (basic (cs.drop n))
      | none => none
    else if isPlain c then before c (basic cs)
    else none
termination_by cs.length

/-- A string without escapes, from behind its opening quote, and what follows it. -/
def verbatim : List Char → Option (List Char × List Char)
  | [] => none
  | c :: cs =>
    if c = '\'' then some ([], cs)
    else if isPlain c then before c (verbatim cs)
    else none

/-- Length of the break between two lines that a backslash joins, from behind the backslash; 0 if
it joins none. -/
def join (cs : List Char) : Nat :=
  let spaces := (cs.takeWhile isSpace).length
  let newline := lineEnd (cs.drop spaces)
  if newline = 0 then 0 else spaces + newline + gap (cs.drop (spaces + newline))

/-- How many more of the same sign follow at once. -/
def more (sign : Char) (cs : List Char) : Nat := (cs.takeWhile (· = sign)).length

/-- A string of several lines, from behind its opening quotes and the line end after them, and
what follows it. Three quotes close it, and one or two more before them belong to it. Only the
double quote admits escapes. Line ends become line feeds. -/
def multiline (quote : Char) (cs : List Char) : Option (List Char × List Char) :=
  match cs with
  | [] => none
  | c :: cs =>
    if c = quote then
      if 2 ≤ more quote cs then
        some (List.replicate (min (more quote cs) 4 - 2) quote, cs.drop (min (more quote cs) 4))
      else before c (multiline quote cs)
    else if c = '\\' ∧ quote = '"' then
      if join cs ≠ 0 then multiline quote (cs.drop (join cs))
      else
        match escape? cs with
        | some (d, n) => before d (multiline quote (cs.drop n))
        | none => none
    else if lineEnd (c :: cs) ≠ 0 then
      before '\n' (multiline quote (cs.drop (lineEnd (c :: cs) - 1)))
    else if isPlain c then before c (multiline quote cs)
    else none
termination_by cs.length

/-- A string on one line, from its opening quote on, and what follows it. -/
def line : List Char → Option (String × List Char)
  | '"' :: cs => (basic cs).map fun r => (String.ofList r.1, r.2)
  | '\'' :: cs => (verbatim cs).map fun r => (String.ofList r.1, r.2)
  | _ => none

def string (cs : List Char) : Option (String × List Char) :=
  match cs with
  | a :: b :: c :: rest =>
    if (a = '"' ∨ a = '\'') ∧ a = b ∧ b = c then
      (multiline a (rest.drop (lineEnd rest))).map fun r => (String.ofList r.1, r.2)
    else line cs
  | _ => line cs

/-- Digits with single underscores between them, as far as they go. -/
def spacedDigits (base : Nat) : List Char → List Char
  | [] => []
  | c :: cs =>
    if isDigitOf base c ∨ (c = '_' ∧ cs.head?.any (isDigitOf base)) then
      c :: spacedDigits base cs
    else []

/-- The number at the head of a text, and what follows it. -/
def natural (base : Nat) (cs : List Char) : Option (Nat × List Char) :=
  let ds := spacedDigits base cs
  if cs.head?.any (isDigitOf base) then
    some (natOfDigits base (ds.filter (· ≠ '_')), cs.drop ds.length)
  else none

/-- A decimal number has no zero at its head, unless it is zero. -/
def decimal : List Char → Option (Nat × List Char)
  | '0' :: cs => some (0, cs)
  | cs => natural 10 cs

/-- The base that a mark after a zero names. -/
def baseOf? (mark : Char) : Option Nat :=
  if mark = 'x' then some 16 else if mark = 'o' then some 8 else if mark = 'b' then some 2 else none

/-- A number without a base mark may have a sign. -/
def signed : List Char → Option (Int × List Char)
  | '+' :: cs => (decimal cs).map fun r => (r.1, r.2)
  | '-' :: cs => (decimal cs).map fun r => (-r.1, r.2)
  | cs => (decimal cs).map fun r => (r.1, r.2)

def integer (cs : List Char) : Option (Int × List Char) :=
  match cs with
  | '0' :: mark :: rest =>
    match baseOf? mark with
    | some base => (natural base rest).map fun r => (r.1, r.2)
    | none => signed cs
  | _ => signed cs

/-- A string, or an integer of 64 bits. -/
def item (cs : List Char) : Option (Item × List Char) :=
  if cs.head? = some '"' ∨ cs.head? = some '\'' then (string cs).map fun r => (.str r.1, r.2)
  else do
    let (n, rest) ← integer cs
    if fitsInt64 n then return (.int n, rest) else none

def key (cs : List Char) : Option (String × List Char) :=
  if cs.head? = some '"' ∨ cs.head? = some '\'' then line cs
  else
    let k := cs.takeWhile isBare
    if k = [] then none else some (String.ofList k, cs.drop k.length)

/-- Skips spaces and a comment. -/
def lineRest (cs : List Char) : List Char :=
  match cs.dropWhile isSpace with
  | '#' :: cs => cs.dropWhile isPlain
  | cs => cs

/-- A key, its item and the line end after them, or the end of the text. -/
def setting (cs : List Char) : Option ((String × Item) × List Char) := do
  let (k, cs) ← key cs
  match cs.dropWhile isSpace with
  | '=' :: cs =>
    let (v, cs) ← item (cs.dropWhile isSpace)
    let rest := lineRest cs
    if rest = [] ∨ lineEnd rest ≠ 0 then return ((k, v), rest) else none
  | _ => none

theorem length_dropWhile_le (p : Char → Bool) (cs : List Char) :
    (cs.dropWhile p).length ≤ cs.length := (List.dropWhile_suffix p).length_le

theorem before_eq_some {c : Char} {r : Option (List Char × List Char)} {s rest : List Char} :
    before c r = some (s, rest) ↔ ∃ t, r = some (t, rest) ∧ c :: t = s := by
  simp [before, Option.map_eq_some_iff]

theorem basic_length {cs s rest : List Char} (h : basic cs = some (s, rest)) :
    rest.length < cs.length := by
  fun_induction basic cs generalizing s with
  | case1 => simp at h
  | case2 => simp_all
  | case3 cs hc d n he ih =>
    obtain ⟨t, ht, -⟩ := before_eq_some.1 h
    have := ih ht
    simp at this ⊢
    omega
  | case4 => simp at h
  | case5 c cs hc hb hp ih =>
    obtain ⟨t, ht, -⟩ := before_eq_some.1 h
    exact Nat.lt_succ_of_lt (ih ht)
  | case6 => simp at h

theorem verbatim_length {cs s rest : List Char} (h : verbatim cs = some (s, rest)) :
    rest.length < cs.length := by
  fun_induction verbatim cs generalizing s with
  | case1 => simp at h
  | case2 => simp_all
  | case3 c cs hc hp ih =>
    obtain ⟨t, ht, -⟩ := before_eq_some.1 h
    exact Nat.lt_succ_of_lt (ih ht)
  | case4 => simp at h

theorem multiline_length {quote : Char} {cs s rest : List Char}
    (h : multiline quote cs = some (s, rest)) : rest.length < cs.length := by
  fun_induction multiline quote cs generalizing s with
  | case1 => simp at h
  | case2 =>
    cases h
    rw [List.length_cons, List.length_drop]
    omega
  | case3 _ _ ih =>
    obtain ⟨t, ht, -⟩ := before_eq_some.1 h
    exact Nat.lt_succ_of_lt (ih ht)
  | case4 _ _ _ _ _ ih =>
    have := ih h
    simp at this ⊢
    omega
  | case5 _ _ _ _ _ _ _ _ ih =>
    obtain ⟨t, ht, -⟩ := before_eq_some.1 h
    have := ih ht
    simp at this ⊢
    omega
  | case6 => simp at h
  | case7 _ _ _ _ _ ih =>
    obtain ⟨t, ht, -⟩ := before_eq_some.1 h
    have := ih ht
    simp at this ⊢
    omega
  | case8 _ _ _ _ _ _ ih =>
    obtain ⟨t, ht, -⟩ := before_eq_some.1 h
    exact Nat.lt_succ_of_lt (ih ht)
  | case9 => simp at h

theorem line_length {cs rest : List Char} {s : String} (h : line cs = some (s, rest)) :
    rest.length < cs.length := by
  unfold line at h
  split at h
  · obtain ⟨⟨t, r⟩, ht, he⟩ := Option.map_eq_some_iff.1 h
    cases he
    exact Nat.lt_succ_of_lt (basic_length ht)
  · obtain ⟨⟨t, r⟩, ht, he⟩ := Option.map_eq_some_iff.1 h
    cases he
    exact Nat.lt_succ_of_lt (verbatim_length ht)
  · simp at h

theorem string_length {cs rest : List Char} {s : String} (h : string cs = some (s, rest)) :
    rest.length ≤ cs.length := by
  unfold string at h
  split at h
  next a b c cs =>
    split at h
    · obtain ⟨⟨t, r⟩, ht, he⟩ := Option.map_eq_some_iff.1 h
      cases he
      have := multiline_length ht
      simp at this ⊢
      omega
    · exact Nat.le_of_lt (line_length h)
  · exact Nat.le_of_lt (line_length h)

theorem natural_length {base n : Nat} {cs rest : List Char} (h : natural base cs = some (n, rest)) :
    rest.length ≤ cs.length := by
  unfold natural at h
  split at h
  · cases h
    simp
  · simp at h

theorem decimal_length {n : Nat} {cs rest : List Char} (h : decimal cs = some (n, rest)) :
    rest.length ≤ cs.length := by
  unfold decimal at h
  split at h
  · cases h
    simp
  · exact natural_length h

theorem signed_length {n : Int} {cs rest : List Char} (h : signed cs = some (n, rest)) :
    rest.length ≤ cs.length := by
  unfold signed at h
  split at h <;> obtain ⟨⟨m, r⟩, hm, he⟩ := Option.map_eq_some_iff.1 h <;> cases he
  · exact Nat.le_succ_of_le (decimal_length hm)
  · exact Nat.le_succ_of_le (decimal_length hm)
  · exact decimal_length hm

theorem integer_length {n : Int} {cs rest : List Char} (h : integer cs = some (n, rest)) :
    rest.length ≤ cs.length := by
  unfold integer at h
  split at h
  · split at h
    · obtain ⟨⟨m, r⟩, hm, he⟩ := Option.map_eq_some_iff.1 h
      cases he
      have := natural_length hm
      simp
      omega
    · exact signed_length h
  · exact signed_length h

theorem item_length {v : Item} {cs rest : List Char} (h : item cs = some (v, rest)) :
    rest.length ≤ cs.length := by
  unfold item at h
  split at h
  · obtain ⟨⟨s, r⟩, hs, he⟩ := Option.map_eq_some_iff.1 h
    cases he
    exact string_length hs
  · obtain ⟨⟨n, r⟩, hn, h⟩ := Option.bind_eq_some_iff.1 h
    simp only at h
    split at h
    · cases h
      exact integer_length hn
    · simp at h

theorem key_length {k : String} {cs rest : List Char} (h : key cs = some (k, rest)) :
    rest.length < cs.length := by
  unfold key at h
  split at h
  · exact line_length h
  · simp only at h
    split at h
    · simp at h
    next hk =>
      cases h
      have hpos := List.length_pos_iff.2 hk
      have hle := (List.takeWhile_prefix (l := cs) isBare).length_le
      simp
      omega

theorem lineRest_length (cs : List Char) : (lineRest cs).length ≤ cs.length := by
  have hs := length_dropWhile_le isSpace cs
  unfold lineRest
  split
  next ds hd =>
    rw [hd] at hs
    exact Nat.le_trans (length_dropWhile_le isPlain ds) (Nat.le_of_succ_le hs)
  · exact hs

/-- A setting is at least one character long. -/
theorem setting_length {s : String × Item} {cs rest : List Char}
    (h : setting cs = some (s, rest)) : rest.length < cs.length := by
  obtain ⟨⟨k, cs₁⟩, hk, h⟩ := Option.bind_eq_some_iff.1 h
  have h₁ := key_length hk
  have h₂ := length_dropWhile_le isSpace cs₁
  simp only at h
  split at h
  next cs₂ he =>
    obtain ⟨⟨v, cs₃⟩, hv, h⟩ := Option.bind_eq_some_iff.1 h
    have h₃ := item_length hv
    have h₄ := length_dropWhile_le isSpace cs₂
    have h₅ := lineRest_length cs₃
    simp only at h
    split at h
    · cases h
      simp [he] at h₂
      omega
    · simp at h
  · simp at h

/-- The settings of a text in order; none if it is no flat TOML document. -/
def settings (cs : List Char) : Option (List (String × Item)) :=
  match cs with
  | [] => some []
  | c :: cs =>
    if isSpace c then settings cs
    else if lineEnd (c :: cs) ≠ 0 then settings (cs.drop (lineEnd (c :: cs) - 1))
    else if c = '#' then settings (cs.drop (cs.takeWhile isPlain).length)
    else
      match h : setting (c :: cs) with
      | none => none
      | some (s, rest) =>
        have : rest.length < cs.length + 1 := setting_length h
        (settings rest).map (s :: ·)
termination_by cs.length

/-- The settings of a text, which may start with a byte order mark. -/
def ofText (text : String) : Option (List (String × Item)) :=
  match text.toList with
  | '\uFEFF' :: cs => settings cs
  | cs => settings cs

end Toml
end WireSchema
