import WireSchema.Proofs.Concatenation
import WireSchema.Proofs.WrittenTokens

/-! Whatever is written into the strings of a text, it stays a document, or stays none. The other
tokens are read as before, if at other places, and the grammar asks of a string only that it is
one. -/
namespace WireSchema

/-- The same text but for what stands between the quotes of some of its strings. -/
inductive Retouched : List Char → List Char → Prop where
  | refl (cs : List Char) : Retouched cs cs
  | blank {c : Char} {cs cs' : List Char} : Text.isBlank c = true → Retouched cs cs' →
      Retouched (c :: cs) (c :: cs')
  | comment {body cs cs' : List Char} : '\n' ∉ body → Retouched ('\n' :: cs) ('\n' :: cs') →
      Retouched ('#' :: (body ++ '\n' :: cs)) ('#' :: (body ++ '\n' :: cs'))
  | token {c : Char} {w cs cs' : List Char} {t : Token} : c ≠ '#' → Text.isBlank c = false →
      Lexer.token c (w ++ cs) = .ok (t, w.length + 1) → Retouched cs cs' →
      Retouched (c :: (w ++ cs)) (c :: (w ++ cs'))
  | string {body body' s s' cs cs' : List Char} : Quoted body s → Quoted body' s' →
      Retouched cs cs' →
      Retouched ('"' :: (body ++ '"' :: cs)) ('"' :: (body' ++ '"' :: cs'))

/-- A text that is retouched still starts with the same character. -/
theorem Retouched.head?_eq {cs cs' : List Char} (h : Retouched cs cs') : cs.head? = cs'.head? := by
  cases h <;> rfl

/-- The token, without what it holds if it is a string. -/
def Token.hollow : Token → Token
  | .literal (.str _) => .literal (.str "")
  | t => t

def Lexeme.hollow (l : Lexeme) : Token := l.token.hollow

/-! ## Tokens -/

namespace Lexer
variable {loc loc' : Location} {cs cs' body r w : List Char} {c : Char} {t : Token}

/-- The tokens of a text without their places and without what its strings hold; none if it cannot
be read. -/
def outline (loc : Location) (cs : List Char) : Option (List Token) :=
  (tokensFrom loc cs).toOption.map fun ls => ls.map Lexeme.hollow

theorem outline_comment (hbody : '\n' ∉ body) (hr : ∀ c ∈ r.head?, c = '\n') :
    outline loc ('#' :: (body ++ r)) = outline (loc.after ('#' :: body)) r := by
  rw [outline, tokensFrom_comment hbody hr, outline]

theorem outline_blank (hc : Text.isBlank c = true) :
    outline loc (c :: cs) = outline (loc.next c) cs := by
  rw [outline, tokensFrom_blank hc, outline]

/-- A token leaves its outline, whatever string it holds. -/
theorem outline_token (hhash : c ≠ '#') (hblank : Text.isBlank c = false)
    (ht : token c (w ++ r) = .ok (t, w.length + 1)) :
    outline loc (c :: (w ++ r)) = (outline (loc.after (c :: w)) r).map (t.hollow :: ·) := by
  rw [outline, tokensFrom_token hhash hblank ht, outline]
  cases tokensFrom (loc.after (c :: w)) r <;> rfl

/-- A text is read the same wherever it starts. -/
theorem outline_relocated (loc loc' : Location) (cs : List Char) :
    outline loc cs = outline loc' cs := by
  induction cs using reading_induction generalizing loc loc' with
  | nil =>
    rw [outline, outline, tokensFrom, tokensFrom]
    rfl
  | comment body r hbody hr ih =>
    rw [outline_comment hbody hr, outline_comment hbody hr]
    exact ih _ _
  | blank c r hc ih =>
    rw [outline_blank hc, outline_blank hc]
    exact ih _ _
  | fault c r fault hhash hblank ht =>
    rw [outline, outline, tokensFrom_fault hhash hblank ht, tokensFrom_fault hhash hblank ht]
    rfl
  | token c w r t hhash hblank _ _ hstable ih =>
    have ht := hstable r (.refl r)
    rw [outline_token hhash hblank ht, outline_token hhash hblank ht, ih _ (loc'.after (c :: w))]

/-- Whatever is quoted is one token, up to the quote that ends it. -/
theorem token_quoted {s : List Char} (h : Quoted body s) (cs : List Char) :
    token '"' ((body ++ ['"']) ++ cs) =
      .ok (.literal (.str (String.ofList s)), (body ++ ['"']).length + 1) := by
  rw [token, if_pos rfl, List.append_assoc, List.singleton_append, stringBody_quoted h]
  simp [Except.map]

theorem outline_quoted {s : List Char} (h : Quoted body s) (cs : List Char) :
    outline loc ('"' :: (body ++ '"' :: cs)) =
      (outline (loc.after ('"' :: (body ++ ['"']))) cs).map (.literal (.str "") :: ·) := by
  have htext : body ++ '"' :: cs = (body ++ ['"']) ++ cs := by simp
  rw [htext, outline_token (by decide) (by decide) (token_quoted h cs)]
  rfl

/-- Retouching shows in no outline, though it moves what follows to other places. -/
theorem outline_retouched (h : Retouched cs cs') (loc loc' : Location) :
    outline loc cs = outline loc' cs' := by
  induction h generalizing loc loc' with
  | refl cs => exact outline_relocated loc loc' cs
  | blank hc _ ih =>
    rw [outline_blank hc, outline_blank hc]
    exact ih _ _
  | comment hbody _ ih =>
    rw [outline_comment hbody (by simp), outline_comment hbody (by simp)]
    exact ih _ _
  | @token c w cs cs' t hhash hblank ht h ih =>
    have ht' : token c (w ++ cs') = .ok (t, w.length + 1) := by
      obtain ⟨w', r, hcs, hlen, -, -, hstable⟩ := token_eq_ok ht
      obtain ⟨rfl, rfl⟩ := List.append_inj hcs (by omega)
      exact hstable cs' fun d hd => .inr (h.head?_eq ▸ hd)
    rw [outline_token hhash hblank ht, outline_token hhash hblank ht',
      ih _ (loc'.after (c :: w))]
  | string hs hs' _ ih =>
    rw [outline_quoted hs, outline_quoted hs', ih]

end Lexer

/-! ## Derivations -/

namespace Grammar
variable {α : Type} {G : List Lexeme → α → Prop} {ts us : List Lexeme}

/-- What is derived from some tokens can be derived from the same tokens with other strings, if
with another tree. -/
def Survives (G : List Lexeme → α → Prop) : Prop :=
  ∀ ⦃ts us : List Lexeme⦄ ⦃x : α⦄, G ts x → us.map Lexeme.hollow = ts.map Lexeme.hollow →
    ∃ y, G us y

theorem nil_of_hollow (h : us.map Lexeme.hollow = ([] : List Lexeme).map Lexeme.hollow) :
    us = [] := by
  simpa using h

/-- What looks like two parts put together consists of two parts that look like them. -/
theorem append_of_hollow {ts' : List Lexeme}
    (h : us.map Lexeme.hollow = (ts ++ ts').map Lexeme.hollow) : ∃ vs vs', us = vs ++ vs' ∧
      vs.map Lexeme.hollow = ts.map Lexeme.hollow ∧
      vs'.map Lexeme.hollow = ts'.map Lexeme.hollow := by
  rw [List.map_append] at h
  exact List.map_eq_append_iff.1 h

theorem cons_of_hollow {l : Lexeme} (h : us.map Lexeme.hollow = (l :: ts).map Lexeme.hollow) :
    ∃ m vs, us = m :: vs ∧ m.hollow = l.hollow ∧ vs.map Lexeme.hollow = ts.map Lexeme.hollow := by
  rw [List.map_cons] at h
  exact List.map_eq_cons_iff.1 h

/-- A word stays where it is. -/
theorem word_of_hollow {w : String} {l : Location}
    (h : us.map Lexeme.hollow = (⟨.word w, l⟩ :: ts).map Lexeme.hollow) : ∃ m vs,
      us = ⟨.word w, m⟩ :: vs ∧ vs.map Lexeme.hollow = ts.map Lexeme.hollow := by
  obtain ⟨⟨t, m⟩, vs, rfl, ht, hvs⟩ := cons_of_hollow h
  rcases t with w' | (n | x | s) | p | _ <;> cases ht
  exact ⟨m, vs, rfl, hvs⟩

/-- A sign stays where it is. -/
theorem punct_of_hollow {p : Punct} {l : Location}
    (h : us.map Lexeme.hollow = (⟨.punct p, l⟩ :: ts).map Lexeme.hollow) : ∃ m vs,
      us = ⟨.punct p, m⟩ :: vs ∧ vs.map Lexeme.hollow = ts.map Lexeme.hollow := by
  obtain ⟨⟨t, m⟩, vs, rfl, ht, hvs⟩ := cons_of_hollow h
  rcases t with w | (n | x | s) | q | _ <;> cases ht
  exact ⟨m, vs, rfl, hvs⟩

/-- Where a literal was, there is one, and an integer is the same. -/
theorem literal_of_hollow {v : Scalar} {l : Location}
    (h : us.map Lexeme.hollow = (⟨.literal v, l⟩ :: ts).map Lexeme.hollow) : ∃ v' m vs,
      us = ⟨.literal v', m⟩ :: vs ∧ (v' = v ∨ ∃ s s', v = .str s ∧ v' = .str s') ∧
        vs.map Lexeme.hollow = ts.map Lexeme.hollow := by
  obtain ⟨⟨t, m⟩, vs, rfl, ht, hvs⟩ := cons_of_hollow h
  cases v with
  | str s =>
    rcases t with w | (n | x | s') | p | _ <;> cases ht
    exact ⟨.str s', m, vs, rfl, .inr ⟨s, s', rfl, rfl⟩, hvs⟩
  | int n =>
    rcases t with w | (n' | x | s') | p | _ <;> cases ht
    exact ⟨.int n, m, vs, rfl, .inl rfl, hvs⟩
  | float x =>
    rcases t with w | (n' | x' | s') | p | _ <;> cases ht
    exact ⟨.float x, m, vs, rfl, .inl rfl, hvs⟩

/-- A row of things survives if each of them does. -/
theorem Many.survives (hG : Survives G) : Survives (Many G) := by
  intro ts us xs h hus
  induction h generalizing us with
  | one h =>
    obtain ⟨y, hy⟩ := hG h hus
    exact ⟨[y], .one hy⟩
  | cons h _ ih =>
    obtain ⟨vs, vs', rfl, hvs, hvs'⟩ := append_of_hollow hus
    obtain ⟨y, hy⟩ := hG h hvs
    obtain ⟨ys, hys⟩ := ih hvs'
    exact ⟨y :: ys, .cons hy hys⟩

theorem Item.survives (hG : Survives G) : Survives (Item G) := by
  intro ts us x h hus
  cases h with
  | bare h =>
    obtain ⟨y, hy⟩ := hG h hus
    exact ⟨y, .bare hy⟩
  | comma h =>
    obtain ⟨vs, vs', rfl, hvs, hvs'⟩ := append_of_hollow hus
    obtain ⟨m, ws, rfl, hws⟩ := punct_of_hollow hvs'
    obtain rfl := nil_of_hollow hws
    obtain ⟨y, hy⟩ := hG h hvs
    exact ⟨y, .comma hy⟩

theorem Block.survives (hG : Survives G) : Survives (Block G) := by
  rintro ts us xs ⟨h⟩ hus
  obtain ⟨vs, vs', rfl, hvs, hvs'⟩ := append_of_hollow hus
  obtain ⟨l, items, rfl, hitems⟩ := punct_of_hollow hvs
  obtain ⟨m, ws, rfl, hws⟩ := punct_of_hollow hvs'
  obtain rfl := nil_of_hollow hws
  obtain ⟨ys, hys⟩ := Many.survives (Item.survives hG) h hitems
  exact ⟨ys, .mk hys⟩

theorem Scalars.survives : Survives Scalars := by
  intro ts us vs h hus
  induction h generalizing us with
  | one =>
    obtain ⟨v, m, ws, rfl, -, hws⟩ := literal_of_hollow hus
    obtain rfl := nil_of_hollow hws
    exact ⟨[v], .one⟩
  | cons _ ih =>
    obtain ⟨v, l, ws, rfl, -, hws⟩ := literal_of_hollow hus
    obtain ⟨m, ws', rfl, hws'⟩ := punct_of_hollow hws
    obtain ⟨vs, hvs⟩ := ih hws'
    exact ⟨v :: vs, .cons hvs⟩

/-- A string in the place of another is a literal as well. -/
theorem Value.survives : Survives Value := by
  intro ts us v h hus
  cases h with
  | scalar =>
    obtain ⟨v, m, ws, rfl, -, hws⟩ := literal_of_hollow hus
    obtain rfl := nil_of_hollow hws
    exact ⟨_, .scalar⟩
  | empty =>
    obtain ⟨l, ws, rfl, hws⟩ := punct_of_hollow hus
    obtain ⟨m, ws', rfl, hws'⟩ := punct_of_hollow hws
    obtain rfl := nil_of_hollow hws'
    exact ⟨_, .empty⟩
  | list h =>
    obtain ⟨vs, vs', rfl, hvs, hvs'⟩ := append_of_hollow hus
    obtain ⟨l, items, rfl, hitems⟩ := punct_of_hollow hvs
    obtain ⟨m, ws, rfl, hws⟩ := punct_of_hollow hvs'
    obtain rfl := nil_of_hollow hws
    obtain ⟨vs, hvs⟩ := Scalars.survives h hitems
    exact ⟨_, .list hvs⟩

theorem Length.survives : Survives Length := by
  intro ts us n h hus
  cases h with
  | literal =>
    obtain ⟨v, m, ws, rfl, rfl | ⟨s, s', hs, -⟩, hws⟩ := literal_of_hollow hus
    · obtain rfl := nil_of_hollow hws
      exact ⟨_, .literal⟩
    · cases hs
  | constant =>
    obtain ⟨m, ws, rfl, hws⟩ := word_of_hollow hus
    obtain rfl := nil_of_hollow hws
    exact ⟨_, .constant⟩

theorem Capacity.survives : Survives Capacity := by
  intro ts us n h hus
  cases h with
  | none =>
    obtain rfl := nil_of_hollow hus
    exact ⟨_, .none⟩
  | some h =>
    obtain ⟨vs, vs', rfl, hvs, hvs'⟩ := append_of_hollow hus
    obtain ⟨l, ws, rfl, hws⟩ := punct_of_hollow hvs
    obtain ⟨m, ws', rfl, hws'⟩ := punct_of_hollow hvs'
    obtain rfl := nil_of_hollow hws'
    obtain ⟨n, hn⟩ := Length.survives h hws
    exact ⟨_, .some hn⟩

theorem TypeName.survives : Survives TypeName := by
  intro ts us t h hus
  cases h with
  | named =>
    obtain ⟨m, ws, rfl, hws⟩ := word_of_hollow hus
    obtain rfl := nil_of_hollow hws
    exact ⟨_, .named⟩
  | vector h =>
    obtain ⟨l₁, ws₁, rfl, hws₁⟩ := word_of_hollow hus
    obtain ⟨l₂, ws₂, rfl, hws₂⟩ := punct_of_hollow hws₁
    obtain ⟨l₃, ws₃, rfl, hws₃⟩ := word_of_hollow hws₂
    obtain ⟨l₄, ws₄, rfl, hws₄⟩ := punct_of_hollow hws₃
    obtain ⟨n, hn⟩ := Capacity.survives h hws₄
    exact ⟨_, .vector hn⟩

theorem Assignment.survives : Survives Assignment := by
  intro ts us e h hus
  cases h with
  | none =>
    obtain rfl := nil_of_hollow hus
    exact ⟨_, .none⟩
  | constant =>
    obtain ⟨l, ws, rfl, hws⟩ := punct_of_hollow hus
    obtain ⟨m, ws', rfl, hws'⟩ := word_of_hollow hws
    obtain rfl := nil_of_hollow hws'
    exact ⟨_, .constant⟩
  | literal h =>
    obtain ⟨l, ws, rfl, hws⟩ := punct_of_hollow hus
    obtain ⟨v, hv⟩ := Value.survives h hws
    exact ⟨_, .literal hv⟩

theorem Field.survives : Survives Field := by
  rintro ts us f ⟨ht, he⟩ hus
  obtain ⟨vs, vs', rfl, hvs, hvs'⟩ := append_of_hollow hus
  obtain ⟨l, ws, rfl, hws⟩ := word_of_hollow hvs
  obtain ⟨m, ws', rfl, hws'⟩ := punct_of_hollow hws
  obtain ⟨t, ht⟩ := TypeName.survives ht hws'
  obtain ⟨e, he⟩ := Assignment.survives he hvs'
  exact ⟨_, .mk ht he⟩

theorem Method.survives : Survives Method := by
  rintro ts us m ⟨⟩ hus
  obtain ⟨l₁, ws₁, rfl, hws₁⟩ := word_of_hollow hus
  obtain ⟨l₂, ws₂, rfl, hws₂⟩ := punct_of_hollow hws₁
  obtain ⟨l₃, ws₃, rfl, hws₃⟩ := word_of_hollow hws₂
  obtain ⟨l₄, ws₄, rfl, hws₄⟩ := punct_of_hollow hws₃
  obtain ⟨l₅, ws₅, rfl, hws₅⟩ := word_of_hollow hws₄
  obtain rfl := nil_of_hollow hws₅
  exact ⟨_, .mk⟩

/-- The value of an option may be any string. -/
theorem Entry.survives : Survives Entry := by
  rintro ts us o ⟨⟩ hus
  obtain ⟨l₁, ws₁, rfl, hws₁⟩ := word_of_hollow hus
  obtain ⟨l₂, ws₂, rfl, hws₂⟩ := punct_of_hollow hws₁
  obtain ⟨v, l₃, ws₃, rfl, hv, hws₃⟩ := literal_of_hollow hws₂
  obtain rfl := nil_of_hollow hws₃
  obtain rfl | ⟨s, s', -, rfl⟩ := hv
  · exact ⟨_, .mk⟩
  · exact ⟨_, .mk⟩

/-- No keyword is a string, so the kind of a definition stays the same. -/
theorem Definition.survives : Survives Definition := by
  intro ts us x h hus
  cases h with
  | constant h =>
    obtain ⟨l₁, ws₁, rfl, hws₁⟩ := word_of_hollow hus
    obtain ⟨l₂, ws₂, rfl, hws₂⟩ := word_of_hollow hws₁
    obtain ⟨l₃, ws₃, rfl, hws₃⟩ := punct_of_hollow hws₂
    obtain ⟨v, hv⟩ := Value.survives h hws₃
    exact ⟨_, .constant hv⟩
  | struct h =>
    obtain ⟨l₁, ws₁, rfl, hws₁⟩ := word_of_hollow hus
    obtain ⟨l₂, ws₂, rfl, hws₂⟩ := word_of_hollow hws₁
    obtain ⟨fs, hfs⟩ := Block.survives Field.survives h hws₂
    exact ⟨_, .struct hfs⟩
  | service h =>
    obtain ⟨l₁, ws₁, rfl, hws₁⟩ := word_of_hollow hus
    obtain ⟨l₂, ws₂, rfl, hws₂⟩ := word_of_hollow hws₁
    obtain ⟨ms, hms⟩ := Block.survives Method.survives h hws₂
    exact ⟨_, .service hms⟩
  | options h =>
    obtain ⟨l, ws, rfl, hws⟩ := word_of_hollow hus
    obtain ⟨es, hes⟩ := Block.survives Entry.survives h hws
    exact ⟨_, .options hes⟩

end Grammar

/-! ## Documents -/

namespace Document
variable {text text' : String} {doc : Document}

/-- A text with the outline of a document is a document, though perhaps another one. -/
theorem exists_ofText_of_outline (h : ofText text = .ok doc)
    (houtline : Lexer.outline .start text.toList = Lexer.outline .start text'.toList) :
    ∃ doc', ofText text' = .ok doc' := by
  obtain ⟨ls, hderiv, htokens, -⟩ := derivation_of_ofText h
  rw [Lexer.outline, htokens] at houtline
  obtain ⟨us, hus, heq⟩ := Option.map_eq_some_iff.1 houtline.symm
  obtain ⟨vs, vs', rfl, hvs, hvs'⟩ := Grammar.append_of_hollow heq
  obtain ⟨⟨t, l⟩, rest, rfl, ht, -⟩ := Grammar.cons_of_hollow hvs'
  obtain ⟨doc', hdoc'⟩ := Grammar.Many.survives Grammar.Definition.survives hderiv hvs
  have heof : t = .eof := by
    rcases t with w | (n | x | s) | p | _ <;> cases ht
    rfl
  have hparse : ofLexemes (vs ++ ⟨t, l⟩ :: rest) = .ok doc' := ofLexemes_of_derivation hdoc' heof
  refine ⟨doc', bind_eq_ok.2 ⟨_, ?_, hparse⟩⟩
  cases hread : Lexer.tokensFrom .start text'.toList with
  | error e =>
    rw [hread] at hus
    cases hus
  | ok us =>
    rw [hread] at hus
    rw [tokens, hread, Option.some.inj hus]

/-- A text whose strings are retouched is a document if and only if it was one. -/
theorem exists_ofText_iff_of_retouched (h : Retouched text.toList text'.toList) :
    (∃ doc, ofText text = .ok doc) ↔ ∃ doc, ofText text' = .ok doc := by
  have houtline := Lexer.outline_retouched h .start .start
  constructor
  · rintro ⟨doc, hdoc⟩
    exact exists_ofText_of_outline hdoc houtline
  · rintro ⟨doc, hdoc⟩
    exact exists_ofText_of_outline hdoc houtline.symm

end Document
end WireSchema
