import Mathlib
import WireSchema.Document

/-! The grammar of documents, as derivations: which tokens can be read as which tree. Nothing here
speaks of a cursor or of looking ahead, and a keyword is a word like any other wherever a name can
stand. -/
namespace WireSchema
namespace Grammar

section Repetition
variable {α : Type}

/-- One or more, one behind the other. -/
inductive Many (G : List Lexeme → α → Prop) : List Lexeme → List α → Prop where
  | one {ts : List Lexeme} {x : α} : G ts x → Many G ts [x]
  | cons {ts us : List Lexeme} {x : α} {xs : List α} :
      G ts x → Many G us xs → Many G (ts ++ us) (x :: xs)

/-- An item, with or without a comma behind it. -/
inductive Item (G : List Lexeme → α → Prop) : List Lexeme → α → Prop where
  | bare {ts : List Lexeme} {x : α} : G ts x → Item G ts x
  | comma {ts : List Lexeme} {x : α} {l : Location} :
      G ts x → Item G (ts ++ [⟨.punct .comma, l⟩]) x

end Repetition

/-- Scalars with a comma between each two. -/
inductive Scalars : List Lexeme → List Scalar → Prop where
  | one {v : Scalar} {l : Location} : Scalars [⟨.literal v, l⟩] [v]
  | cons {v : Scalar} {vs : List Scalar} {ts : List Lexeme} {l m : Location} :
      Scalars ts vs → Scalars (⟨.literal v, l⟩ :: ⟨.punct .comma, m⟩ :: ts) (v :: vs)

inductive Value : List Lexeme → Literal → Prop where
  | scalar {v : Scalar} {l : Location} : Value [⟨.literal v, l⟩] (.scalar v l)
  | empty {l m : Location} :
      Value [⟨.punct .openBrace, l⟩, ⟨.punct .closeBrace, m⟩] (.list [] l)
  | list {vs : List Scalar} {ts : List Lexeme} {l m : Location} : Scalars ts vs →
      Value (⟨.punct .openBrace, l⟩ :: ts ++ [⟨.punct .closeBrace, m⟩]) (.list vs l)

inductive Length : List Lexeme → LengthExpr → Prop where
  | literal {n : Int} {l : Location} : Length [⟨.literal (.int n), l⟩] (.literal n l)
  | constant {w : String} {l : Location} : Length [⟨.word w, l⟩] (.constant w l)

/-- The capacity of a vector, which may be left out. -/
inductive Capacity : List Lexeme → Option LengthExpr → Prop where
  | none : Capacity [] none
  | some {n : LengthExpr} {ts : List Lexeme} {l m : Location} : Length ts n →
      Capacity (⟨.punct .openParen, l⟩ :: ts ++ [⟨.punct .closeParen, m⟩]) (some n)

inductive TypeName : List Lexeme → TypeExpr → Prop where
  | named {w : String} {l : Location} : TypeName [⟨.word w, l⟩] (.named w)
  | vector {w : String} {n : Option LengthExpr} {ts : List Lexeme} {l₁ l₂ l₃ l₄ : Location} :
      Capacity ts n →
      TypeName (⟨.word "vector", l₁⟩ :: ⟨.punct .openAngle, l₂⟩ :: ⟨.word w, l₃⟩ ::
        ⟨.punct .closeAngle, l₄⟩ :: ts) (.vector w n)

/-- The default of a field, which may be left out. -/
inductive Assignment : List Lexeme → Option DefaultExpr → Prop where
  | none : Assignment [] none
  | constant {w : String} {l m : Location} :
      Assignment [⟨.punct .equals, l⟩, ⟨.word w, m⟩] (some (.constant w m))
  | literal {v : Literal} {ts : List Lexeme} {l : Location} : Value ts v →
      Assignment (⟨.punct .equals, l⟩ :: ts) (some (.literal v))

inductive Field : List Lexeme → FieldDef → Prop where
  | mk {w : String} {t : TypeExpr} {e : Option DefaultExpr} {ts us : List Lexeme}
      {l m : Location} : TypeName ts t → Assignment us e →
      Field (⟨.word w, l⟩ :: ⟨.punct .colon, m⟩ :: ts ++ us) ⟨w, t, e, l⟩

inductive Method : List Lexeme → MethodDef → Prop where
  | mk {w request response : String} {l₁ l₂ l₃ l₄ l₅ : Location} :
      Method [⟨.word w, l₁⟩, ⟨.punct .colon, l₂⟩, ⟨.word request, l₃⟩, ⟨.punct .arrow, l₄⟩,
        ⟨.word response, l₅⟩] ⟨w, request, response, l₁⟩

/-- An entry of the options. -/
inductive Entry : List Lexeme → OptionDef → Prop where
  | mk {w s : String} {l₁ l₂ l₃ : Location} :
      Entry [⟨.word w, l₁⟩, ⟨.punct .equals, l₂⟩, ⟨.literal (.str s), l₃⟩] ⟨w, s, l₁⟩

/-- One or more items between braces. -/
inductive Block {α : Type} (G : List Lexeme → α → Prop) : List Lexeme → List α → Prop where
  | mk {ts : List Lexeme} {xs : List α} {l m : Location} : Many (Item G) ts xs →
      Block G (⟨.punct .openBrace, l⟩ :: ts ++ [⟨.punct .closeBrace, m⟩]) xs

inductive Definition : List Lexeme → WireSchema.Definition → Prop where
  | constant {w : String} {v : Literal} {ts : List Lexeme} {l₁ l₂ l₃ : Location} : Value ts v →
      Definition (⟨.word "const", l₁⟩ :: ⟨.word w, l₂⟩ :: ⟨.punct .equals, l₃⟩ :: ts)
        (.constant ⟨w, v, l₁⟩)
  | struct {w : String} {fs : List FieldDef} {ts : List Lexeme} {l₁ l₂ : Location} :
      Block Field ts fs →
      Definition (⟨.word "struct", l₁⟩ :: ⟨.word w, l₂⟩ :: ts) (.struct ⟨w, fs, l₁⟩)
  | service {w : String} {ms : List MethodDef} {ts : List Lexeme} {l₁ l₂ : Location} :
      Block Method ts ms →
      Definition (⟨.word "service", l₁⟩ :: ⟨.word w, l₂⟩ :: ts) (.service ⟨w, ms, l₁⟩)
  | options {es : List OptionDef} {ts : List Lexeme} {l : Location} : Block Entry ts es →
      Definition (⟨.word "options", l⟩ :: ts) (.options es l)

/-- A document is one definition or more. -/
abbrev Document : List Lexeme → WireSchema.Document → Prop := Many Definition

/-! No derivation holds the end of the text, and what is repeated begins with a word. -/

section Tokens
variable {α : Type} {G : List Lexeme → α → Prop}

def EofFree (G : List Lexeme → α → Prop) : Prop :=
  ∀ ⦃ts : List Lexeme⦄ ⦃x : α⦄, G ts x → ∀ l ∈ ts, l.token ≠ .eof

/-- None of the items has the end of the text in it, and so neither has the row. -/
theorem Many.eofFree (hG : EofFree G) : EofFree (Many G) := by
  intro ts xs h
  induction h with
  | one hx => exact hG hx
  | cons hx _ ih =>
    intro l hl
    rcases List.mem_append.1 hl with hl | hl
    · exact hG hx l hl
    · exact ih l hl

theorem Item.eofFree (hG : EofFree G) : EofFree (Item G) := by
  intro ts x h
  cases h with
  | bare hx => exact hG hx
  | comma hx =>
    intro l hl
    rcases List.mem_append.1 hl with hl | hl
    · exact hG hx l hl
    · simp_all

theorem Block.eofFree (hG : EofFree G) : EofFree (Block G) := by
  intro ts xs h
  obtain ⟨h⟩ := h
  have := Many.eofFree (Item.eofFree hG) h
  simpa [or_imp, forall_and] using this

theorem Scalars.eofFree : EofFree Scalars := by
  intro ts vs h
  induction h with
  | one => simp
  | cons _ ih => simpa using ih

theorem Value.eofFree : EofFree Value := by
  intro ts v h
  cases h with
  | scalar => simp
  | empty => simp
  | list h => simpa [or_imp, forall_and] using Scalars.eofFree h

theorem TypeName.eofFree : EofFree TypeName := by
  intro ts t h
  cases h with
  | named => simp
  | vector h =>
    cases h with
    | none => simp
    | some h => cases h <;> simp

theorem Assignment.eofFree : EofFree Assignment := by
  intro ts e h
  cases h with
  | none => simp
  | constant => simp
  | literal h => simpa using Value.eofFree h

theorem Field.eofFree : EofFree Field := by
  intro ts f h
  obtain ⟨ht, he⟩ := h
  simpa [or_imp, forall_and] using And.intro (TypeName.eofFree ht) (Assignment.eofFree he)

theorem Method.eofFree : EofFree Method := by
  intro ts m h
  obtain ⟨⟩ := h
  simp

theorem Entry.eofFree : EofFree Entry := by
  intro ts e h
  obtain ⟨⟩ := h
  simp

/-- The end of the text is no part of a definition. -/
theorem Definition.eofFree : EofFree Definition := by
  intro ts x h
  cases h with
  | constant h => simpa using Value.eofFree h
  | struct h => simpa using Block.eofFree Field.eofFree h
  | service h => simpa using Block.eofFree Method.eofFree h
  | options h => simpa using Block.eofFree Entry.eofFree h

end Tokens

/-! The commas do not matter: a tree can be read off from the other tokens alone. -/

section Commas
variable {α : Type} {G : List Lexeme → α → Prop} {ts : List Lexeme} {x : α}

def withoutCommas (ts : List Lexeme) : List Lexeme :=
  ts.filter fun l => l.token ≠ .punct .comma

@[simp] theorem withoutCommas_nil : withoutCommas [] = [] := rfl

@[simp] theorem withoutCommas_append (ts us : List Lexeme) :
    withoutCommas (ts ++ us) = withoutCommas ts ++ withoutCommas us := List.filter_append ts us

@[simp] theorem withoutCommas_comma (l : Location) (ts : List Lexeme) :
    withoutCommas (⟨.punct .comma, l⟩ :: ts) = withoutCommas ts := by
  simp [withoutCommas]

/-- Only commas go. -/
@[simp] theorem withoutCommas_cons {l : Lexeme} (h : l.token ≠ .punct .comma) (ts : List Lexeme) :
    withoutCommas (l :: ts) = l :: withoutCommas ts := by
  simp [withoutCommas, h]

/-- What is derived at the front of some tokens, commas apart, and what is left behind it are
both determined, provided that what is left can follow. -/
def Determined (G : List Lexeme → α → Prop) (Follow : List Lexeme → Prop) : Prop :=
  ∀ ⦃ts us rest rest' : List Lexeme⦄ ⦃x y : α⦄, G ts x → G us y → Follow rest → Follow rest' →
    withoutCommas ts ++ rest = withoutCommas us ++ rest' → x = y ∧ rest = rest'

/-- The first token is a word. -/
def AtWord (ts : List Lexeme) : Prop := ∃ w l us, ts = ⟨.word w, l⟩ :: us

/-- The first token closes a block. -/
def AtClose (ts : List Lexeme) : Prop := ∃ l us, ts = ⟨.punct .closeBrace, l⟩ :: us

/-- Whatever is derived begins with a word. -/
def Worded (G : List Lexeme → α → Prop) : Prop := ∀ ⦃ts : List Lexeme⦄ ⦃x : α⦄, G ts x → AtWord ts

theorem AtWord.append {ts : List Lexeme} (h : AtWord ts) (us : List Lexeme) :
    AtWord (ts ++ us) := by
  obtain ⟨w, l, vs, rfl⟩ := h
  exact ⟨w, l, vs ++ us, rfl⟩

theorem AtWord.withoutCommas {ts : List Lexeme} (h : AtWord ts) :
    AtWord (withoutCommas ts) := by
  obtain ⟨w, l, us, rfl⟩ := h
  exact ⟨w, l, Grammar.withoutCommas us, by simp⟩

/-- A block cannot end where an item starts. -/
theorem not_atWord_of_atClose {ts : List Lexeme} (h : AtClose ts) : ¬ AtWord ts := by
  rintro ⟨w, l, us, rfl⟩
  obtain ⟨m, vs, h⟩ := h
  simp at h

theorem Many.worded (hG : Worded G) : Worded (Many G) := by
  intro ts xs h
  cases h with
  | one hx => exact hG hx
  | cons hx _ => exact (hG hx).append _

theorem Item.worded (hG : Worded G) : Worded (Item G) := by
  intro ts x h
  cases h with
  | bare hx => exact hG hx
  | comma hx => exact (hG hx).append _

theorem Field.worded : Worded Field := by
  rintro ts f ⟨⟩
  exact ⟨_, _, _, rfl⟩

theorem Method.worded : Worded Method := by
  rintro ts m ⟨⟩
  exact ⟨_, _, _, rfl⟩

theorem Entry.worded : Worded Entry := by
  rintro ts e ⟨⟩
  exact ⟨_, _, _, rfl⟩

/-- Definitions start with their keywords, which are words. -/
theorem Definition.worded : Worded Definition := by
  intro ts x h
  cases h <;> exact ⟨_, _, _, rfl⟩

/-- A comma behind an item is not seen, so it leaves nothing undecided. -/
theorem Item.determined {Follow : List Lexeme → Prop} (hG : Determined G Follow) :
    Determined (Item G) Follow := by
  have bare {ts : List Lexeme} {x : α} (h : Item G ts x) :
      ∃ us, G us x ∧ withoutCommas us = withoutCommas ts := by
    cases h with
    | bare hx => exact ⟨_, hx, rfl⟩
    | comma hx => exact ⟨_, hx, by simp⟩
  intro ts us rest rest' x y hx hy hr hr' h
  obtain ⟨ts', hx, ets⟩ := bare hx
  obtain ⟨us', hy, eus⟩ := bare hy
  rw [← ets, ← eus] at h
  exact hG hx hy hr hr' h

/-- A repetition goes on as long as there is a word. -/
theorem Many.determined {End : List Lexeme → Prop}
    (hG : Determined G fun rest => AtWord rest ∨ End rest) (hw : Worded G)
    (hEnd : ∀ rest, End rest → ¬ AtWord rest) : Determined (Many G) End := by
  intro ts us rest rest' xs ys hxs hys hr hr' h
  induction hxs generalizing us ys with
  | one hx =>
    cases hys with
    | one hy =>
      obtain ⟨rfl, hrest⟩ := hG hx hy (.inr hr) (.inr hr') h
      exact ⟨rfl, hrest⟩
    | cons hy hys =>
      have hmore := (Many.worded hw hys).withoutCommas.append rest'
      rw [withoutCommas_append, List.append_assoc] at h
      obtain ⟨-, rfl⟩ := hG hx hy (.inr hr) (.inl hmore) h
      exact absurd hmore (hEnd _ hr)
  | cons hx hxs ih =>
    have hmore := (Many.worded hw hxs).withoutCommas.append rest
    rw [withoutCommas_append, List.append_assoc] at h
    cases hys with
    | one hy =>
      obtain ⟨-, rfl⟩ := hG hx hy (.inl hmore) (.inr hr') h
      exact absurd hmore (hEnd _ hr')
    | cons hy hys =>
      have hmore' := (Many.worded hw hys).withoutCommas.append rest'
      rw [withoutCommas_append, List.append_assoc] at h
      obtain ⟨rfl, h⟩ := hG hx hy (.inl hmore) (.inl hmore') h
      obtain ⟨rfl, hrest⟩ := ih hys h
      exact ⟨rfl, hrest⟩

/-- The closing brace ends a block, as no item starts with it. -/
theorem Block.determined (hG : Determined G fun rest => AtWord rest ∨ AtClose rest)
    (hw : Worded G) : Determined (Block G) fun _ => True := by
  rintro ts us rest rest' xs ys ⟨hxs⟩ ⟨hys⟩ - - h
  simp at h
  obtain ⟨rfl, hrest⟩ := Many.determined (Item.determined hG) (Item.worded hw)
    (fun _ => not_atWord_of_atClose) hxs hys ⟨_, _, rfl⟩ ⟨_, _, rfl⟩ h.2
  simp_all

/-- More scalars begin with a literal, and so they are not the end. -/
theorem Scalars.not_atClose {vs : List Scalar} (h : Scalars ts vs) (rest : List Lexeme) :
    ¬ AtClose (withoutCommas ts ++ rest) := by
  rintro ⟨l, us, hl⟩
  cases h <;> simp at hl

/-- Without the commas, scalars follow each other up to the brace. -/
theorem Scalars.determined : Determined Scalars AtClose := by
  intro ts us rest rest' vs ws hv hw hr hr' h
  induction hv generalizing us ws with
  | one =>
    cases hw with
    | one => simp_all
    | cons hw =>
      simp at h
      exact absurd (h.2 ▸ hr) (hw.not_atClose rest')
  | cons hv ih =>
    cases hw with
    | one =>
      simp at h
      exact absurd (h.2 ▸ hr') (hv.not_atClose rest)
    | cons hw =>
      simp at h
      obtain ⟨rfl, hrest⟩ := ih hw h.2
      exact ⟨by rw [h.1.1], hrest⟩

/-- A literal is over where its own last token stands. -/
theorem Value.determined : Determined Value fun _ => True := by
  intro ts us rest rest' v w hv hw _ _ h
  cases hv with
  | scalar => cases hw <;> simp_all
  | empty =>
    cases hw with
    | scalar => simp at h
    | empty => simp_all
    | list hws =>
      simp at h
      exact absurd ⟨_, _, h.2.symm⟩ (hws.not_atClose _)
  | list hvs =>
    cases hw with
    | scalar => simp at h
    | empty =>
      simp at h
      exact absurd ⟨_, _, h.2⟩ (hvs.not_atClose _)
    | list hws =>
      simp at h
      obtain ⟨rfl, hrest⟩ := Scalars.determined hvs hws ⟨_, _, rfl⟩ ⟨_, _, rfl⟩ h.2
      simp_all

/-- The first token is none of some signs. -/
def NotAt (ps : List Punct) (ts : List Lexeme) : Prop :=
  ∀ p ∈ ps, ∀ l us, ts ≠ ⟨.punct p, l⟩ :: us

/-- The length is there exactly if a parenthesis is. -/
theorem Capacity.determined : Determined Capacity (NotAt [.openParen]) := by
  intro ts us rest rest' n m hn hm hr hr' h
  cases hn with
  | none =>
    cases hm with
    | none => simpa using h
    | some hm => exact absurd (by simpa using h) (hr .openParen (by simp) _ _)
  | some hn =>
    cases hm with
    | none => exact absurd (by simpa using h.symm) (hr' .openParen (by simp) _ _)
    | some hm => cases hn <;> cases hm <;> simp_all

/-- A bracket behind the first word makes the difference. -/
theorem TypeName.determined : Determined TypeName (NotAt [.openParen, .openAngle]) := by
  intro ts us rest rest' t u ht hu hr hr' h
  cases ht with
  | named =>
    cases hu with
    | named => simp_all
    | vector hm =>
      simp at h
      exact absurd h.2 (hr .openAngle (by simp) _ _)
  | vector hn =>
    cases hu with
    | named =>
      simp at h
      exact absurd h.2.symm (hr' .openAngle (by simp) _ _)
    | vector hm =>
      simp at h
      obtain ⟨rfl, hrest⟩ := Capacity.determined hn hm (fun p hp => hr p (by simp_all))
        (fun p hp => hr' p (by simp_all)) h.2.2.2.2
      exact ⟨by rw [h.2.2.1.1], hrest⟩

/-- The default is there exactly if an equals sign is. -/
theorem Assignment.determined : Determined Assignment (NotAt [.equals]) := by
  intro ts us rest rest' e e' he he' hr hr' h
  cases he with
  | none =>
    cases he' with
    | none => simpa using h
    | constant => exact absurd (by simpa using h) (hr .equals (by simp) _ _)
    | literal => exact absurd (by simpa using h) (hr .equals (by simp) _ _)
  | constant =>
    cases he' with
    | none => exact absurd (by simpa using h.symm) (hr' .equals (by simp) _ _)
    | constant => simp_all
    | literal hv => cases hv <;> simp at h
  | literal hv =>
    cases he' with
    | none => exact absurd (by simpa using h.symm) (hr' .equals (by simp) _ _)
    | constant => cases hv <;> simp at h
    | literal hw =>
      simp at h
      obtain ⟨rfl, hrest⟩ := Value.determined hv hw trivial trivial h.2
      exact ⟨rfl, hrest⟩

theorem notAt_of_atWord_or_atClose {ps : List Punct} (hps : .closeBrace ∉ ps)
    (h : AtWord ts ∨ AtClose ts) : NotAt ps ts := by
  intro p hp l us hts
  rcases h with ⟨w, m, vs, h⟩ | ⟨m, vs, h⟩
  · simp [hts] at h
  · simp [hts] at h
    exact hps (h.1.1 ▸ hp)

/-- Behind a type stands an assignment or what follows the field. -/
theorem Assignment.notAt {e : Option DefaultExpr} {rest : List Lexeme} (he : Assignment ts e)
    (hr : AtWord rest ∨ AtClose rest) :
    NotAt [.openParen, .openAngle] (withoutCommas ts ++ rest) := by
  cases he with
  | none => exact notAt_of_atWord_or_atClose (by simp) hr
  | constant => simp [NotAt]
  | literal => simp [NotAt]

/-- What may follow a field, a word or a brace, starts none of the parts that it may lack. -/
theorem Field.determined : Determined Field fun rest => AtWord rest ∨ AtClose rest := by
  rintro ts us rest rest' f g ⟨ht, he⟩ ⟨hu, he'⟩ hr hr' h
  simp at h
  obtain ⟨rfl, h'⟩ := TypeName.determined ht hu (he.notAt hr) (he'.notAt hr') h.2.2
  obtain ⟨rfl, hrest⟩ := Assignment.determined he he'
    (notAt_of_atWord_or_atClose (by simp) hr) (notAt_of_atWord_or_atClose (by simp) hr') h'
  exact ⟨by rw [h.1.1, h.1.2], hrest⟩

theorem Method.determined {Follow : List Lexeme → Prop} : Determined Method Follow := by
  rintro ts us rest rest' m n ⟨⟩ ⟨⟩ - - h
  simp_all

theorem Entry.determined {Follow : List Lexeme → Prop} : Determined Entry Follow := by
  rintro ts us rest rest' d e ⟨⟩ ⟨⟩ - - h
  simp_all

/-- The keyword determines the kind, and each kind its own end. -/
theorem Definition.determined {Follow : List Lexeme → Prop} : Determined Definition Follow := by
  intro ts us rest rest' x y hx hy _ _ h
  cases hx with
  | constant hv =>
    cases hy with
    | constant hw =>
      simp at h
      obtain ⟨rfl, hrest⟩ := Value.determined hv hw trivial trivial h.2.2.2
      exact ⟨by rw [h.1, h.2.1.1], hrest⟩
    | _ => simp at h
  | struct hfs =>
    cases hy with
    | struct hgs =>
      simp at h
      obtain ⟨rfl, hrest⟩ :=
        Block.determined Field.determined Field.worded hfs hgs trivial trivial h.2.2
      exact ⟨by rw [h.1, h.2.1.1], hrest⟩
    | _ => simp at h
  | service hms =>
    cases hy with
    | service hns =>
      simp at h
      obtain ⟨rfl, hrest⟩ :=
        Block.determined Method.determined Method.worded hms hns trivial trivial h.2.2
      exact ⟨by rw [h.1, h.2.1.1], hrest⟩
    | _ => simp at h
  | options hds =>
    cases hy with
    | options hes =>
      simp at h
      obtain ⟨rfl, hrest⟩ :=
        Block.determined Entry.determined Entry.worded hds hes trivial trivial h.2
      exact ⟨by rw [h.1], hrest⟩
    | _ => simp at h

/-- Two documents that differ only in their commas have the same tree. -/
theorem Document.unique {us : List Lexeme} {d e : WireSchema.Document} (hd : Document ts d)
    (he : Document us e) (h : withoutCommas ts = withoutCommas us) : d = e := by
  have hnil : ∀ rest : List Lexeme, rest = [] → ¬ AtWord rest := by
    rintro rest rfl ⟨w, l, vs, h⟩
    cases h
  exact (Many.determined Definition.determined Definition.worded hnil hd he rfl rfl
    (by simpa using h)).1

end Commas

end Grammar
end WireSchema
