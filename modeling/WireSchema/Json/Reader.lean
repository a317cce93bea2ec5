import WireSchema.Token.Numeral

/-! JSON texts, read one level at a time: an object comes apart into its keys and the texts of its
values, an array into the texts of its items, and only what is wanted is read further. -/
namespace WireSchema
namespace Json.Reader

def isBlank (c : Char) : Bool := c = ' ' || c = '\n' || c = '\t' || c = '\r'

def skipBlank (cs : List Char) : List Char := cs.dropWhile isBlank

/-- What follows four hexadecimal digits, and their value. -/
def hex4? : List Char → Option (Nat × List Char)
  | a :: b :: c :: d :: cs =>
    if [a, b, c, d].all (isDigitOf 16) then some (natOfDigits 16 [a, b, c, d], cs) else none
  | _ => none

/-- The character that an escape of one letter stands for. -/
def escaped? (c : Char) : Option Char :=
  if c = '"' ∨ c = '\\' ∨ c = '/' then some c
  else if c = 'b' then some '\x08'
  else if c = 'f' then some '\x0c'
  else if c = 'n' then some '\n'
  else if c = 'r' then some '\r'
  else if c = 't' then some '\t'
  else none

def isSurrogate (n : Nat) : Bool := 0xD800 ≤ n && n ≤ 0xDFFF

/-- The second half of a character beyond 16 bits, of which the first half is given. -/
def lowSurrogate? (high : Nat) : List Char → Option (Char × List Char)
  | '\\' :: 'u' :: cs =>
    match hex4? cs with
    | some (low, rest) =>
      if 0xDC00 ≤ low ∧ low ≤ 0xDFFF then
        some (Char.ofNat (0x10000 + (high - 0xD800) * 0x400 + (low - 0xDC00)), rest)
      else none
    | none => none
  | _ => none

/-- A character written in hexadecimal, from behind `\u`, and what follows it. A character beyond
16 bits is written as two surrogates; a surrogate alone is no character. -/
def unicode? (cs : List Char) : Option (Char × List Char) :=
  match hex4? cs with
  | none => none
  | some (n, rest) =>
    if !isSurrogate n then some (Char.ofNat n, rest)
    else if n < 0xDC00 then lowSurrogate? n rest
    else none

/-- Skips a string, from behind its opening quote. Surrogates need not be in pairs. -/
def skipString : List Char → Option (List Char)
  | [] => none
  | c :: cs =>
    if c = '"' then some cs
    else if c = '\\' then
      match cs with
      | 'u' :: a :: b :: c :: d :: cs =>
        if [a, b, c, d].all (isDigitOf 16) then skipString cs else none
      | e :: cs => if (escaped? e).isSome then skipString cs else none
      | [] => none
    else if c.toNat < 0x20 then none
    else skipString cs

def skipDigits (cs : List Char) : List Char := cs.dropWhile (isDigitOf 10)

/-- What follows one digit or more. -/
def digits? (cs : List Char) : Option (List Char) :=
  if cs.head?.any (isDigitOf 10) then some (skipDigits cs) else none

def skipSign : List Char → List Char
  | '+' :: cs => cs
  | '-' :: cs => cs
  | cs => cs

def skipExponent (cs : List Char) : Option (List Char) :=
  match cs with
  | c :: rest => if c = 'e' ∨ c = 'E' then digits? (skipSign rest) else some cs
  | [] => some []

def skipFraction (cs : List Char) : Option (List Char) :=
  match cs with
  | '.' :: rest => do skipExponent (← digits? rest)
  | _ => skipExponent cs

/-- Skips a number without its sign. It has no zero at its head, unless its whole part is zero. -/
def skipUnsigned : List Char → Option (List Char)
  | '0' :: cs => if cs.head?.any (isDigitOf 10) then none else skipFraction cs
  | cs => do skipFraction (← digits? cs)

/-- Skips a value that has no parts. -/
def skipLeaf : List Char → Option (List Char)
  | 'n' :: 'u' :: 'l' :: 'l' :: cs => some cs
  | 't' :: 'r' :: 'u' :: 'e' :: cs => some cs
  | 'f' :: 'a' :: 'l' :: 's' :: 'e' :: cs => some cs
  | '"' :: cs => skipString cs
  | '-' :: cs => skipUnsigned cs
  | cs => skipUnsigned cs

variable {cs rest : List Char}

theorem skipBlank_length (cs : List Char) : (skipBlank cs).length ≤ cs.length :=
  (List.dropWhile_suffix isBlank).length_le

theorem length_lt_of_skipBlank {c : Char} (h : skipBlank cs = c :: rest) :
    rest.length < cs.length := by
  have := skipBlank_length cs
  rw [h, List.length_cons] at this
  exact this

theorem skipString_length (h : skipString cs = some rest) : rest.length < cs.length := by
  fun_induction skipString cs <;> simp_all <;> omega

theorem digits?_length (h : digits? cs = some rest) : rest.length < cs.length := by
  unfold digits? skipDigits at h
  split at h
  next hd =>
    cases h
    cases cs with
    | nil => simp at hd
    | cons c cs =>
      simp at hd
      rw [List.dropWhile_cons_of_pos hd]
      exact Nat.lt_succ_of_le (List.dropWhile_suffix _).length_le
  · simp at h

theorem skipSign_length (cs : List Char) : (skipSign cs).length ≤ cs.length := by
  unfold skipSign
  split <;> simp

theorem skipExponent_length (h : skipExponent cs = some rest) : rest.length ≤ cs.length := by
  unfold skipExponent at h
  split at h
  next c ds =>
    split at h
    · have := digits?_length h
      have := skipSign_length ds
      simp
      omega
    · cases h
      exact Nat.le_refl _
  · cases h
    exact Nat.le_refl _

theorem skipFraction_length (h : skipFraction cs = some rest) : rest.length ≤ cs.length := by
  unfold skipFraction at h
  split at h
  next ds =>
    obtain ⟨es, he, h⟩ := Option.bind_eq_some_iff.1 h
    have := digits?_length he
    have := skipExponent_length h
    simp
    omega
  · exact skipExponent_length h

theorem skipUnsigned_length (h : skipUnsigned cs = some rest) : rest.length < cs.length := by
  unfold skipUnsigned at h
  split at h
  · split at h
    · simp at h
    · exact Nat.lt_succ_of_le (skipFraction_length h)
  · obtain ⟨es, he, h⟩ := Option.bind_eq_some_iff.1 h
    exact Nat.lt_of_le_of_lt (skipFraction_length h) (digits?_length he)

theorem skipLeaf_length (h : skipLeaf cs = some rest) : rest.length < cs.length := by
  unfold skipLeaf at h
  split at h
  · cases h
    simp only [List.length_cons]
    omega
  · cases h
    simp only [List.length_cons]
    omega
  · cases h
    simp only [List.length_cons]
    omega
  · exact Nat.lt_succ_of_lt (skipString_length h)
  · exact Nat.lt_succ_of_lt (skipUnsigned_length h)
  · exact skipUnsigned_length h

/-- What a value may stand in. -/
inductive Frame where
  | array
  | object

mutual

/-- Skips a value, and then the rest of all that it stands in. -/
def skipValue (frames : List Frame) (cs : List Char) : Option (List Char) :=
  match h : skipBlank cs with
  | '[' :: inner =>
    have := length_lt_of_skipBlank h
    match h' : skipBlank inner with
    | ']' :: rest =>
      have := length_lt_of_skipBlank h'
      skipAfter frames rest
    | _ => skipValue (.array :: frames) inner
  | '\x7b' :: inner =>
    have := length_lt_of_skipBlank h
    match h' : skipBlank inner with
    | '\x7d' :: rest =>
      have := length_lt_of_skipBlank h'
      skipAfter frames rest
    | _ => skipMember (.object :: frames) inner
  | _ =>
    match h' : skipLeaf (skipBlank cs) with
    | none => none
    | some rest =>
      have := Nat.lt_of_lt_of_le (skipLeaf_length h') (skipBlank_length cs)
      skipAfter frames rest
termination_by cs.length

/-- Skips a key, its value, and then the rest of all that they stand in. -/
def skipMember (frames : List Frame) (cs : List Char) : Option (List Char) :=
  match h : skipBlank cs with
  | '"' :: key =>
    have := length_lt_of_skipBlank h
    match hk : skipString key with
    | none => none
    | some rest =>
      have := skipString_length hk
      match hc : skipBlank rest with
      | ':' :: value =>
        have := length_lt_of_skipBlank hc
        skipValue frames value
      | _ => none
  | _ => none
termination_by cs.length

/-- Skips from behind a value the rest of all that it stands in. -/
def skipAfter (frames : List Frame) (cs : List Char) : Option (List Char) :=
  match frames, h : skipBlank cs with
  | [], _ => some cs
  | .array :: frames, ',' :: rest =>
    have := length_lt_of_skipBlank h
    skipValue (.array :: frames) rest
  | .array :: frames, ']' :: rest =>
    have := length_lt_of_skipBlank h
    skipAfter frames rest
  | .object :: frames, ',' :: rest =>
    have := length_lt_of_skipBlank h
    skipMember (.object :: frames) rest
  | .object :: frames, '\x7d' :: rest =>
    have := length_lt_of_skipBlank h
    skipAfter frames rest
  | _, _ => none
termination_by cs.length

end

mutual

theorem skipValue_length (frames : List Frame) (cs rest : List Char)
    (h : skipValue frames cs = some rest) : rest.length < cs.length := by
  unfold skipValue at h
  split at h
  next inner hb =>
    have := length_lt_of_skipBlank hb
    split at h
    next ds hd =>
      have := length_lt_of_skipBlank hd
      have := skipAfter_length frames ds rest h
      omega
    next =>
      have := skipValue_length (.array :: frames) inner rest h
      omega
  next inner hb =>
    have := length_lt_of_skipBlank hb
    split at h
    next ds hd =>
      have := length_lt_of_skipBlank hd
      have := skipAfter_length frames ds rest h
      omega
    next =>
      have := skipMember_length (.object :: frames) inner rest h
      omega
  next =>
    split at h
    next => simp at h
    next ds hl =>
      have := Nat.lt_of_lt_of_le (skipLeaf_length hl) (skipBlank_length cs)
      have := skipAfter_length frames ds rest h
      omega
termination_by cs.length

theorem skipMember_length (frames : List Frame) (cs rest : List Char)
    (h : skipMember frames cs = some rest) : rest.length < cs.length := by
  unfold skipMember at h
  split at h
  next key hb =>
    have := length_lt_of_skipBlank hb
    split at h
    next => simp at h
    next ds hk =>
      have := skipString_length hk
      split at h
      next value hc =>
        have := length_lt_of_skipBlank hc
        have := skipValue_length frames value rest h
        omega
      next => simp at h
  next => simp at h
termination_by cs.length

theorem skipAfter_length (frames : List Frame) (cs rest : List Char)
    (h : skipAfter frames cs = some rest) : rest.length ≤ cs.length := by
  unfold skipAfter at h
  split at h
  next => simp_all
  next fs ds hb =>
    have := length_lt_of_skipBlank hb
    have := skipValue_length (.array :: fs) ds rest h
    omega
  next fs ds hb =>
    have := length_lt_of_skipBlank hb
    have := skipAfter_length fs ds rest h
    omega
  next fs ds hb =>
    have := length_lt_of_skipBlank hb
    have := skipMember_length (.object :: fs) ds rest h
    omega
  next fs ds hb =>
    have := length_lt_of_skipBlank hb
    have := skipAfter_length fs ds rest h
    omega
  next => simp at h
termination_by cs.length

end

/-- The text of a value, without the blanks around it, and what follows. -/
def value? (cs : List Char) : Option (List Char × List Char) :=
  match skipValue [] (skipBlank cs) with
  | none => none
  | some rest => some ((skipBlank cs).take ((skipBlank cs).length - rest.length), rest)

theorem value?_length {v : List Char} (h : value? cs = some (v, rest)) :
    rest.length < cs.length := by
  unfold value? at h
  split at h
  · simp at h
  next hs =>
    cases h
    exact Nat.lt_of_lt_of_le (skipValue_length _ _ _ hs) (skipBlank_length cs)

/-- The one value that a whole text consists of. -/
def whole? (text : String) : Option (List Char) := do
  let (v, rest) ← value? text.toList
  if skipBlank rest = [] then some v else none

def escape? : List Char → Option (Char × List Char)
  | 'u' :: cs => unicode? cs
  | c :: cs => (escaped? c).map fun e => (e, cs)
  | [] => none

theorem hex4?_length {n : Nat} (h : hex4? cs = some (n, rest)) : rest.length < cs.length := by
  unfold hex4? at h
  split at h
  · split at h
    · cases h
      simp
      omega
    · simp at h
  · simp at h

theorem lowSurrogate?_length {high : Nat} {c : Char} (h : lowSurrogate? high cs = some (c, rest)) :
    rest.length < cs.length := by
  unfold lowSurrogate? at h
  split at h
  · split at h
    next hl =>
      split at h
      · rw [Option.some.injEq, Prod.mk.injEq] at h
        rw [← h.2]
        exact Nat.lt_succ_of_lt (Nat.lt_succ_of_lt (hex4?_length hl))
      · simp at h
    · simp at h
  · simp at h

theorem unicode?_length {c : Char} (h : unicode? cs = some (c, rest)) :
    rest.length < cs.length := by
  unfold unicode? at h
  split at h
  · simp at h
  next hh =>
    have := hex4?_length hh
    split at h
    · cases h
      exact this
    · split at h
      · exact Nat.lt_trans (lowSurrogate?_length h) this
      · simp at h

theorem escape?_length {c : Char} (h : escape? cs = some (c, rest)) : rest.length < cs.length := by
  unfold escape? at h
  split at h
  · exact Nat.lt_succ_of_lt (unicode?_length h)
  · obtain ⟨e, _, he⟩ := Option.map_eq_some_iff.1 h
    cases he
    simp
  · simp at h

/-- The characters of a string, from behind its opening quote, and what follows. -/
def readString (cs : List Char) : Option (List Char × List Char) :=
  match cs with
  | [] => none
  | c :: cs =>
    if c = '"' then some ([], cs)
    else if c = '\\' then
      match h : escape? cs with
      | none => none
      | some (e, rest) =>
        have := escape?_length h
        (readString rest).map fun p => (e :: p.1, p.2)
    else if c.toNat < 0x20 then none
    else (readString cs).map fun p => (c :: p.1, p.2)
termination_by cs.length

theorem readString_length {s : List Char} (h : readString cs = some (s, rest)) :
    rest.length < cs.length := by
  fun_induction readString cs generalizing s rest with
  | case1 => simp at h
  | case2 => simp_all
  | case3 => simp at h
  | case4 cs e ds he _ _ ih =>
    obtain ⟨p, hp, hs⟩ := Option.map_eq_some_iff.1 h
    cases hs
    have := ih hp
    have := escape?_length he
    simp
    omega
  | case5 => simp at h
  | case6 c cs _ _ _ ih =>
    obtain ⟨p, hp, hs⟩ := Option.map_eq_some_iff.1 h
    cases hs
    exact Nat.lt_succ_of_lt (ih hp)

/-- One key with the text of its value, and what follows. -/
def member? (cs : List Char) : Option ((String × List Char) × List Char) :=
  match skipBlank cs with
  | '"' :: key =>
    match readString key with
    | none => none
    | some (name, rest) =>
      match skipBlank rest with
      | ':' :: rest => (value? rest).map fun p => ((String.ofList name, p.1), p.2)
      | _ => none
  | _ => none

theorem member?_length {m : String × List Char} (h : member? cs = some (m, rest)) :
    rest.length < cs.length := by
  unfold member? at h
  split at h
  next key hb =>
    have := length_lt_of_skipBlank hb
    split at h
    next => simp at h
    next ds hk =>
      have := readString_length hk
      split at h
      next value hd =>
        have := length_lt_of_skipBlank hd
        obtain ⟨p, hp, he⟩ := Option.map_eq_some_iff.1 h
        cases he
        have := value?_length hp
        omega
      next => simp at h
  next => simp at h

/-- Reads items one after the other, with commas between them, up to the closing character. -/
def separated {α : Type} (item? : List Char → Option (α × List Char))
    (shorter : ∀ {cs a rest}, item? cs = some (a, rest) → rest.length < cs.length)
    (close : Char) (cs : List Char) : Option (List α × List Char) :=
  match h : item? cs with
  | none => none
  | some (a, rest) =>
    have := shorter h
    match hb : skipBlank rest with
    | c :: rest' =>
      have := length_lt_of_skipBlank hb
      if c = close then some ([a], rest')
      else if c = ',' then
        (separated item? shorter close rest').map fun p => (a :: p.1, p.2)
      else none
    | [] => none
termination_by cs.length

/-- What stands between an opening and a closing character that end the text. -/
def enclosed? {α : Type} (item? : List Char → Option (α × List Char))
    (shorter : ∀ {cs a rest}, item? cs = some (a, rest) → rest.length < cs.length)
    (opening closing : Char) (text : List Char) : Option (List α) :=
  match text with
  | [] => none
  | c :: cs =>
    if c ≠ opening then none
    else if skipBlank cs = [closing] then some []
    else
      match separated item? shorter closing cs with
      | some (items, []) => some items
      | _ => none

/-- The keys of an object with the texts of their values. -/
def object? (text : List Char) : Option (List (String × List Char)) :=
  enclosed? member? member?_length '\x7b' '\x7d' text

/-- The texts of an array's items. -/
def array? (text : List Char) : Option (List (List Char)) :=
  enclosed? value? value?_length '[' ']' text

def string? : List Char → Option String
  | '"' :: cs =>
    match readString cs with
    | some (s, []) => some (String.ofList s)
    | _ => none
  | _ => none

/-- A whole number below a limit, without sign, fraction and exponent. -/
def natBelow? (limit : Nat) (text : List Char) : Option Nat :=
  if text ≠ [] ∧ text.all (isDigitOf 10) ∧ natOfDigits 10 text < limit then
    some (natOfDigits 10 text)
  else none

def isNull (text : List Char) : Bool := text = ['n', 'u', 'l', 'l']

/-- A value that may be `null`. -/
def nullable? {α : Type} (read? : List Char → Option α) (text : List Char) : Option (Option α) :=
  if isNull text then some none else (read? text).map some

/-- The value of a key. A key may not be given twice. -/
def get? (members : List (String × List Char)) (key : String) : Option (Option (List Char)) :=
  match members.filter fun m => m.1 = key with
  | [] => some none
  | [m] => some (some m.2)
  | _ => none

/-- Reads the value of a key that has to be there. -/
def required? {α : Type} (members : List (String × List Char)) (key : String)
    (read? : List Char → Option α) : Option α := do
  match ← get? members key with
  | none => none
  | some text => read? text

/-- Reads the value of a key that may be missing or `null`. -/
def optional? {α : Type} (members : List (String × List Char)) (key : String)
    (read? : List Char → Option α) : Option (Option α) := do
  match ← get? members key with
  | none => some none
  | some text => nullable? read? text

end Json.Reader
end WireSchema
