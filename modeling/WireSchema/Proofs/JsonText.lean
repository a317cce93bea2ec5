import WireSchema.Json
import WireSchema.Json.Reader
import WireSchema.Proofs.NumberText

/-! A JSON value is told from its compact text, provided that all floats in it are finite. The first
character tells what kind of value comes, a string reads back, and a number ends where its
characters end. -/
namespace WireSchema
namespace Json

/-! ## Strings -/

section Strings
open Reader

/-- The two digits that are written are read as four. -/
theorem hex4?_hexPair {n : Nat} (hn : n < 0x20) (cs : List Char) :
    hex4? ('0' :: '0' :: (hexPair n ++ cs)) = some (n, cs) := by
  have hdigit : ∀ k < 16, isDigitOf 16 (Nat.digitChar k) = true ∧
      digitValue (Nat.digitChar k) = k := by decide
  obtain ⟨hhigh, hhigh'⟩ := hdigit (n / 16) (by omega)
  obtain ⟨hlow, hlow'⟩ := hdigit (n % 16) (by omega)
  have hvalue : natOfDigits 16 ['0', '0', Nat.digitChar (n / 16), Nat.digitChar (n % 16)] = n := by
    simp only [natOfDigits, List.foldl_cons, List.foldl_nil, hhigh', hlow',
      show digitValue '0' = 0 by decide]
    omega
  simp [hex4?, hexPair, hhigh, hlow, hvalue, show isDigitOf 16 '0' = true by decide]

/-- An escape is read as one character, and reading goes on behind it. -/
theorem readString_escape {cs rest : List Char} {c : Char} (h : escape? cs = some (c, rest)) :
    readString ('\\' :: cs) = (readString rest).map fun p => (c :: p.1, p.2) := by
  rw [readString, if_neg (by decide), if_pos rfl]
  split
  next hnone => simp [h] at hnone
  next e ds hsome =>
    rw [h] at hsome
    cases hsome
    rfl

/-- A character as it is written reads back. -/
theorem readString_strChar (c : Char) (cs : List Char) :
    readString (strChar c ++ cs) = (readString cs).map fun p => (c :: p.1, p.2) := by
  rw [strChar]
  by_cases hquote : c = '"'
  · subst hquote
    exact readString_escape rfl
  by_cases hslash : c = '\\'
  · subst hslash
    exact readString_escape rfl
  by_cases hback : c = '\x08'
  · subst hback
    exact readString_escape rfl
  by_cases hfeed : c = '\x0c'
  · subst hfeed
    exact readString_escape rfl
  by_cases hline : c = '\n'
  · subst hline
    exact readString_escape rfl
  by_cases hreturn : c = '\r'
  · subst hreturn
    exact readString_escape rfl
  by_cases htab : c = '\t'
  · subst htab
    exact readString_escape rfl
  rw [if_neg hquote, if_neg hslash, if_neg hback, if_neg hfeed, if_neg hline, if_neg hreturn,
    if_neg htab]
  by_cases hcontrol : c.toNat < 0x20
  · rw [if_pos hcontrol]
    have hplain : isSurrogate c.toNat = false := by
      simp only [isSurrogate, Bool.and_eq_false_iff, decide_eq_false_iff_not]
      omega
    refine readString_escape ?_
    simp [escape?, unicode?, hex4?_hexPair hcontrol, hplain]
  · rw [if_neg hcontrol, List.singleton_append, readString, if_neg hquote, if_neg hslash,
      if_neg hcontrol]

theorem readString_strText (s : String) (rest : List Char) :
    readString (s.toList.flatMap strChar ++ '"' :: rest) = some (s.toList, rest) := by
  induction s.toList with
  | nil => simp [readString]
  | cons c cs ih => rw [List.flatMap_cons, List.append_assoc, readString_strChar, ih]; rfl

/-- Where a string ends can be told from its own text, whatever follows. -/
theorem strText_append_inj {s t : String} {rest rest' : List Char}
    (h : strText s ++ rest = strText t ++ rest') : s = t ∧ rest = rest' := by
  simp only [strText, List.cons_append, List.append_assoc, List.nil_append, List.cons.injEq,
    true_and] at h
  have hs := readString_strText s rest
  rw [h, readString_strText] at hs
  obtain ⟨hst, hrest⟩ := Prod.mk.inj (Option.some.inj hs)
  exact ⟨String.toList_inj.1 hst.symm, hrest.symm⟩

end Strings

/-! ## Numbers -/

/-- Integers are written in decimal digits, with a sign if they are negative. -/
theorem toList_toString_int (n : Int) : (toString n).toList = decimalText n := by
  cases n with
  | ofNat n => simp [decimalText, minus, toString, Int.repr, Nat.repr]
  | negSucc n => simp [decimalText, minus, toString, Int.repr, Nat.repr]

/-- An integer has digits only, behind its sign. -/
theorem mem_decimalText {n : Int} {c : Char} (h : c ∈ decimalText n) :
    c = '-' ∨ isDigitOf 10 c = true := by
  rcases List.mem_append.1 h with h | h
  · left
    cases hneg : decide (n < 0) <;> simp_all [minus]
  · exact .inr (digits_toDigits n.natAbs c h)

/-- No two integers are written alike. -/
theorem decimalText_inj {n m : Int} (h : decimalText n = decimalText m) : n = m := by
  have hminus (k : Int) : '-' ∉ (Nat.toDigits 10 k.natAbs).head? := by
    intro hmem
    have := digits_toDigits k.natAbs '-' (List.mem_of_mem_head? hmem)
    exact absurd this (by decide)
  have habs (h : Nat.toDigits 10 n.natAbs = Nat.toDigits 10 m.natAbs) : n.natAbs = m.natAbs := by
    rw [← digitsValue_toDigits n.natAbs, h, digitsValue_toDigits]
  by_cases hn : n < 0 <;> by_cases hm : m < 0 <;> simp [decimalText, minus, hn, hm] at h
  · have := habs h
    omega
  · exact absurd (by simp [← h]) (hminus m)
  · exact absurd (by simp [h]) (hminus n)
  · have := habs h
    omega

/-! ## Values -/

mutual

/-- Every float in the value is finite. -/
def Finite : Json → Prop
  | .float x => x.isFinite = true
  | .arr items => FiniteItems items
  | .obj members => FiniteMembers members
  | _ => True

def FiniteItems : List Json → Prop
  | [] => True
  | j :: js => j.Finite ∧ FiniteItems js

def FiniteMembers : List (String × Json) → Prop
  | [] => True
  | (_, j) :: ms => j.Finite ∧ FiniteMembers ms

end

inductive Kind where
  | null
  | bool
  | number
  | string
  | array
  | object
deriving DecidableEq, Repr

def kind : Json → Kind
  | .null => .null
  | .bool _ => .bool
  | .int _ | .float _ => .number
  | .str _ => .string
  | .arr _ => .array
  | .obj _ => .object

/-- What kind of value begins with the character. -/
def Kind.ofChar (c : Char) : Kind :=
  if c = 'n' then .null
  else if c = 't' ∨ c = 'f' then .bool
  else if c = '"' then .string
  else if c = '[' then .array
  else if c = '\x7b' then .object
  else .number

variable {j j' : Json} {rest rest' : List Char}

theorem Kind.ofChar_of_isPart {c : Char} (h : NumberStyle.isPart c = true) :
    Kind.ofChar c = .number ∧ c ≠ ']' := by
  have hne (d : Char) (hd : NumberStyle.isPart d = false) : c ≠ d := by
    rintro rfl
    simp [h] at hd
  have hbool : ¬ (c = 't' ∨ c = 'f') := not_or.2 ⟨hne 't' (by decide), hne 'f' (by decide)⟩
  rw [Kind.ofChar, if_neg (hne 'n' (by decide)), if_neg hbool, if_neg (hne '"' (by decide)),
    if_neg (hne '[' (by decide)), if_neg (hne '\x7b' (by decide))]
  exact ⟨rfl, hne ']' (by decide)⟩

theorem leaf_of_number (hk : j.kind = .number) (hf : j.Finite) :
    j.leaf ≠ [] ∧ ∀ c ∈ j.leaf, NumberStyle.isPart c = true := by
  cases j with
  | int n =>
    rw [leaf, toList_toString_int]
    refine ⟨by simp [decimalText, Nat.toDigits_ne_nil], fun c hc => ?_⟩
    rcases mem_decimalText hc with rfl | hc
    · decide
    · exact NumberStyle.isPart_of_isDigitOf hc
  | float x =>
    rw [Finite] at hf
    obtain ⟨c, hc, -⟩ := floatStyle.exists_mark_write rfl hf
    exact ⟨List.ne_nil_of_mem hc, NumberStyle.isPart_write hf⟩
  | _ => cases hk

theorem compactText_of_number (hk : j.kind = .number) : j.compactText = j.leaf := by
  cases j <;> first | rfl | cases hk

/-- The first character tells the kind, and it does not close an array. -/
theorem exists_head (hf : j.Finite) :
    ∃ c cs, j.compactText = c :: cs ∧ Kind.ofChar c = j.kind ∧ c ≠ ']' := by
  by_cases hk : j.kind = .number
  · obtain ⟨hne, hpart⟩ := leaf_of_number hk hf
    obtain ⟨c, cs, hcs⟩ := List.exists_cons_of_ne_nil hne
    obtain ⟨hkind, hclose⟩ := Kind.ofChar_of_isPart (hpart c (by rw [hcs]; simp))
    exact ⟨c, cs, (compactText_of_number hk).trans hcs, hkind.trans hk.symm, hclose⟩
  · cases j with
    | null => exact ⟨'n', ['u', 'l', 'l'], rfl, rfl, by decide⟩
    | bool b =>
      cases b with
      | false => exact ⟨'f', ['a', 'l', 's', 'e'], rfl, rfl, by decide⟩
      | true => exact ⟨'t', ['r', 'u', 'e'], rfl, rfl, by decide⟩
    | int n => exact absurd rfl hk
    | float x => exact absurd rfl hk
    | str s => exact ⟨'"', _, rfl, rfl, by decide⟩
    | arr items => exact ⟨'[', _, rfl, rfl, by decide⟩
    | obj members => exact ⟨'\x7b', _, rfl, rfl, by decide⟩

/-- The first character tells what kind of value follows. -/
theorem kind_eq_of_append_eq (hf : j.Finite) (hf' : j'.Finite)
    (h : j.compactText ++ rest = j'.compactText ++ rest') : j.kind = j'.kind := by
  obtain ⟨c, cs, hcs, hc, -⟩ := exists_head hf
  obtain ⟨c', cs', hcs', hc', -⟩ := exists_head hf'
  rw [hcs, hcs', List.cons_append, List.cons_append] at h
  rw [← hc, ← hc', (List.cons.inj h).1]

/-- An integer has no mark of a float. -/
theorem leaf_int_ne_leaf_float {n : Int} {x : Binary64} (hx : x.isFinite = true) :
    (Json.int n).leaf ≠ (Json.float x).leaf := by
  intro h
  obtain ⟨c, hc, hmark⟩ := floatStyle.exists_mark_write rfl hx
  rw [leaf, leaf, toList_toString_int] at h
  have hint : c = '-' ∨ isDigitOf 10 c = true := by
    rw [← h] at hc
    exact mem_decimalText hc
  rcases hmark with rfl | rfl | rfl <;> revert hint <;> decide

theorem leaf_inj_of_number (hk : j.kind = .number) (hk' : j'.kind = .number) (hf : j.Finite)
    (hf' : j'.Finite) (h : j.leaf = j'.leaf) : j = j' := by
  cases j with
  | int n =>
    cases j' with
    | int m =>
      rw [leaf, leaf, toList_toString_int, toList_toString_int] at h
      rw [decimalText_inj h]
    | float y => exact absurd h (leaf_int_ne_leaf_float hf')
    | _ => cases hk'
  | float x =>
    cases j' with
    | int m => exact absurd h.symm (leaf_int_ne_leaf_float hf)
    | float y => rw [NumberStyle.write_inj hf hf' (String.toList_inj.1 h)]
    | _ => cases hk'
  | _ => cases hk

/-- A number ends where its characters end. -/
theorem number_append_inj (hk : j.kind = .number) (hk' : j'.kind = .number) (hf : j.Finite)
    (hf' : j'.Finite) (hr : NoneNext NumberStyle.isPart rest)
    (hr' : NoneNext NumberStyle.isPart rest') (h : j.leaf ++ rest = j'.leaf ++ rest') :
    j = j' ∧ rest = rest' := by
  have hleaf : j.leaf = j'.leaf := by
    rw [← takeWhile_span (leaf_of_number hk hf).2 hr, h,
      takeWhile_span (leaf_of_number hk' hf').2 hr']
  rw [hleaf] at h
  exact ⟨leaf_inj_of_number hk hk' hf hf' hleaf, List.append_cancel_left h⟩

/-- What stands behind the first item of an array. -/
def itemsTail : List Json → List Char
  | [] => []
  | js => ',' :: compactItems js

theorem compactItems_cons (j : Json) (js : List Json) :
    compactItems (j :: js) = j.compactText ++ itemsTail js := by
  cases js <;> simp [compactItems, itemsTail]

/-- Whatever follows the items carries no number on. -/
theorem noneNext_itemsTail (js : List Json) :
    NoneNext NumberStyle.isPart (itemsTail js ++ ']' :: rest) := by
  cases js <;> simp [itemsTail, NoneNext] <;> decide

theorem compactItems_of_itemsTail {js js' : List Json}
    (h : itemsTail js ++ ']' :: rest = itemsTail js' ++ ']' :: rest') :
    compactItems js ++ ']' :: rest = compactItems js' ++ ']' :: rest' := by
  cases js <;> cases js' <;> simp_all [itemsTail, compactItems]

/-- What stands behind the first member of an object. -/
def membersTail : List (String × Json) → List Char
  | [] => []
  | ms => ',' :: compactMembers ms

theorem compactMembers_cons (k : String) (j : Json) (ms : List (String × Json)) :
    compactMembers ((k, j) :: ms) = strText k ++ ':' :: (j.compactText ++ membersTail ms) := by
  cases ms <;> simp [compactMembers, membersTail]

theorem noneNext_membersTail (ms : List (String × Json)) :
    NoneNext NumberStyle.isPart (membersTail ms ++ '\x7d' :: rest) := by
  cases ms <;> simp [membersTail, NoneNext] <;> decide

theorem compactMembers_of_membersTail {ms ms' : List (String × Json)}
    (h : membersTail ms ++ '\x7d' :: rest = membersTail ms' ++ '\x7d' :: rest') :
    compactMembers ms ++ '\x7d' :: rest = compactMembers ms' ++ '\x7d' :: rest' := by
  cases ms <;> cases ms' <;> simp_all [membersTail, compactMembers]

mutual

/-- Values are written so that they can be told apart, and so that it can be told where they end. By
induction along the text of the first. -/
theorem compactText_append_inj (j j' : Json) (rest rest' : List Char) (hf : j.Finite)
    (hf' : j'.Finite) (hr : NoneNext NumberStyle.isPart rest)
    (hr' : NoneNext NumberStyle.isPart rest')
    (h : j.compactText ++ rest = j'.compactText ++ rest') : j = j' ∧ rest = rest' := by
  have hkind := kind_eq_of_append_eq hf hf' h
  by_cases hk : j.kind = .number
  · have hk' := hkind ▸ hk
    rw [compactText_of_number hk, compactText_of_number hk'] at h
    exact number_append_inj hk hk' hf hf' hr hr' h
  cases j with
  | int n => exact absurd rfl hk
  | float x => exact absurd rfl hk
  | null =>
    cases j' with
    | null => exact ⟨rfl, List.append_cancel_left h⟩
    | _ => cases hkind
  | bool b =>
    cases j' with
    | bool b' =>
      cases b <;> cases b' <;> simp [compactText, leaf] at h
      · exact ⟨rfl, h⟩
      · exact ⟨rfl, h⟩
    | _ => cases hkind
  | str s =>
    cases j' with
    | str t =>
      obtain ⟨rfl, hrest⟩ := strText_append_inj h
      exact ⟨rfl, hrest⟩
    | _ => cases hkind
  | arr items =>
    cases j' with
    | arr items' =>
      simp only [compactText, List.cons_append, List.append_assoc, List.cons.injEq, true_and,
        List.nil_append] at h
      obtain ⟨rfl, hrest⟩ := compactItems_append_inj items items' rest rest' hf hf' h
      exact ⟨rfl, hrest⟩
    | _ => cases hkind
  | obj members =>
    cases j' with
    | obj members' =>
      simp only [compactText, List.cons_append, List.append_assoc, List.cons.injEq, true_and,
        List.nil_append] at h
      obtain ⟨rfl, hrest⟩ := compactMembers_append_inj members members' rest rest' hf hf' h
      exact ⟨rfl, hrest⟩
    | _ => cases hkind

theorem compactItems_append_inj (js js' : List Json) (rest rest' : List Char)
    (hf : FiniteItems js) (hf' : FiniteItems js')
    (h : compactItems js ++ ']' :: rest = compactItems js' ++ ']' :: rest') :
    js = js' ∧ rest = rest' := by
  cases js with
  | nil =>
    cases js' with
    | nil => exact ⟨rfl, (List.cons.inj h).2⟩
    | cons j' js' =>
      obtain ⟨c, cs, hcs, -, hclose⟩ := exists_head hf'.1
      rw [compactItems_cons, hcs] at h
      exact absurd (List.cons.inj h).1.symm hclose
  | cons j js =>
    cases js' with
    | nil =>
      obtain ⟨c, cs, hcs, -, hclose⟩ := exists_head hf.1
      rw [compactItems_cons, hcs] at h
      exact absurd (List.cons.inj h).1 hclose
    | cons j' js' =>
      rw [compactItems_cons, compactItems_cons, List.append_assoc, List.append_assoc] at h
      obtain ⟨rfl, htail⟩ := compactText_append_inj j j' _ _ hf.1 hf'.1 (noneNext_itemsTail js)
        (noneNext_itemsTail js') h
      obtain ⟨rfl, hrest⟩ := compactItems_append_inj js js' rest rest' hf.2 hf'.2
        (compactItems_of_itemsTail htail)
      exact ⟨rfl, hrest⟩

/-- The same for members, with a key before each value. -/
theorem compactMembers_append_inj (ms ms' : List (String × Json)) (rest rest' : List Char)
    (hf : FiniteMembers ms) (hf' : FiniteMembers ms')
    (h : compactMembers ms ++ '\x7d' :: rest = compactMembers ms' ++ '\x7d' :: rest') :
    ms = ms' ∧ rest = rest' := by
  cases ms with
  | nil =>
    cases ms' with
    | nil => exact ⟨rfl, (List.cons.inj h).2⟩
    | cons m' ms' =>
      rw [compactMembers_cons] at h
      exact absurd (List.cons.inj h).1 (by decide)
  | cons m ms =>
    cases ms' with
    | nil =>
      rw [compactMembers_cons] at h
      exact absurd (List.cons.inj h).1 (by decide)
    | cons m' ms' =>
      obtain ⟨k, j⟩ := m
      obtain ⟨k', j'⟩ := m'
      rw [compactMembers_cons, compactMembers_cons, List.append_assoc, List.append_assoc] at h
      obtain ⟨rfl, hvalue⟩ := strText_append_inj h
      rw [List.cons_append, List.cons_append, List.append_assoc, List.append_assoc] at hvalue
      obtain ⟨rfl, htail⟩ := compactText_append_inj j j' _ _ hf.1 hf'.1 (noneNext_membersTail ms)
        (noneNext_membersTail ms') (List.cons.inj hvalue).2
      obtain ⟨rfl, hrest⟩ := compactMembers_append_inj ms ms' rest rest' hf.2 hf'.2
        (compactMembers_of_membersTail htail)
      exact ⟨rfl, hrest⟩

end

/-- Two values with the same compact text are the same. -/
theorem compact_inj (hf : j.Finite) (hf' : j'.Finite) (h : j.compact = j'.compact) : j = j' := by
  have htext : j.compactText ++ [] = j'.compactText ++ [] := by
    simpa using String.ofList_inj.1 h
  exact (compactText_append_inj j j' [] [] hf hf' (by simp [NoneNext]) (by simp [NoneNext])
    htext).1

/-! ## Members that may be missing -/

section Missing
variable {α : Type} {key : String} {toJson : α → Json} {part : Option α}

theorem mem_member? {m : String × Json} :
    m ∈ member? key toJson part ↔ ∃ a, part = some a ∧ m = (key, toJson a) := by
  cases part <;> simp [member?]

theorem mem_keys_member? {name : String} :
    name ∈ (member? key toJson part).map Prod.fst ↔ name = key ∧ part.isSome = true := by
  cases part <;> simp [member?]

theorem keys_member?_sublist : ((member? key toJson part).map Prod.fst).Sublist [key] := by
  cases part <;> simp [member?]

end Missing

end Json
end WireSchema
