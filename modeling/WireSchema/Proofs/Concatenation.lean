import WireSchema.Proofs.EndOfText
import WireSchema.Proofs.Layout

/-! One document written below another. The line end between them is a break, so no token reaches
across it, and a derivation followed by a derivation is a derivation; the second document only
stands some lines further down. -/
namespace WireSchema

/-! ## The same thing at other places -/

section Relocate
variable (f : Location → Location)

def Lexeme.relocate (l : Lexeme) : Lexeme := ⟨l.token, f l.loc⟩

def Literal.relocate : Literal → Literal
  | .scalar v loc => .scalar v (f loc)
  | .list vs loc => .list vs (f loc)

def LengthExpr.relocate : LengthExpr → LengthExpr
  | .literal n loc => .literal n (f loc)
  | .constant name loc => .constant name (f loc)

def TypeExpr.relocate : TypeExpr → TypeExpr
  | .named name => .named name
  | .vector element length => .vector element (length.map (LengthExpr.relocate f))

def DefaultExpr.relocate : DefaultExpr → DefaultExpr
  | .literal v => .literal (v.relocate f)
  | .constant name loc => .constant name (f loc)

def ConstantDef.relocate (c : ConstantDef) : ConstantDef := ⟨c.name, c.value.relocate f, f c.loc⟩

def FieldDef.relocate (d : FieldDef) : FieldDef :=
  ⟨d.name, d.type.relocate f, d.default.map (DefaultExpr.relocate f), f d.loc⟩

def StructDef.relocate (s : StructDef) : StructDef :=
  ⟨s.name, s.fields.map (FieldDef.relocate f), f s.loc⟩

def MethodDef.relocate (m : MethodDef) : MethodDef :=
  ⟨m.name, m.request, m.response, f m.loc⟩

def ServiceDef.relocate (s : ServiceDef) : ServiceDef :=
  ⟨s.name, s.methods.map (MethodDef.relocate f), f s.loc⟩

def OptionDef.relocate (o : OptionDef) : OptionDef := ⟨o.key, o.value, f o.loc⟩

def Definition.relocate : Definition → Definition
  | .constant c => .constant (c.relocate f)
  | .struct s => .struct (s.relocate f)
  | .service s => .service (s.relocate f)
  | .options entries loc => .options (entries.map (OptionDef.relocate f)) (f loc)

end Relocate

namespace Grammar
variable {α : Type} {G : List Lexeme → α → Prop} {r : α → α} {f : Location → Location}

/-- A derivation at some places is one at any others. -/
def Relocates (f : Location → Location) (G : List Lexeme → α → Prop) (r : α → α) : Prop :=
  ∀ ⦃ts : List Lexeme⦄ ⦃x : α⦄, G ts x → G (ts.map (Lexeme.relocate f)) (r x)

/-- A row of things moves as each of them does. -/
theorem Many.relocates (hG : Relocates f G r) : Relocates f (Many G) (List.map r) := by
  intro ts xs h
  induction h with
  | one h => exact .one (hG h)
  | cons h _ ih =>
    rw [List.map_append]
    exact .cons (hG h) ih

theorem Item.relocates (hG : Relocates f G r) : Relocates f (Item G) r := by
  intro ts x h
  cases h with
  | bare h => exact .bare (hG h)
  | comma h =>
    rw [List.map_append]
    exact .comma (hG h)

theorem Block.relocates (hG : Relocates f G r) : Relocates f (Block G) (List.map r) := by
  rintro ts xs ⟨h⟩
  simp only [List.map_append, List.map_cons, List.map_nil]
  exact .mk (Many.relocates (Item.relocates hG) h)

theorem Scalars.relocates : Relocates f Scalars id := by
  intro ts vs h
  induction h with
  | one => exact .one
  | cons _ ih => exact .cons ih

theorem Value.relocates : Relocates f Value (Literal.relocate f) := by
  intro ts v h
  cases h with
  | scalar => exact .scalar
  | empty => exact .empty
  | list h =>
    simp only [List.map_append, List.map_cons, List.map_nil]
    exact .list (Scalars.relocates h)

theorem Capacity.relocates : Relocates f Capacity (Option.map (LengthExpr.relocate f)) := by
  intro ts n h
  cases h with
  | none => exact .none
  | some h =>
    simp only [List.map_append, List.map_cons, List.map_nil]
    refine .some ?_
    cases h with
    | literal => exact .literal
    | constant => exact .constant

/-- Names have no place of their own in a type. -/
theorem TypeName.relocates : Relocates f TypeName (TypeExpr.relocate f) := by
  intro ts t h
  cases h with
  | named => exact .named
  | vector h => exact .vector (Capacity.relocates h)

theorem Assignment.relocates :
    Relocates f Assignment (Option.map (DefaultExpr.relocate f)) := by
  intro ts e h
  cases h with
  | none => exact .none
  | constant => exact .constant
  | literal h => exact .literal (Value.relocates h)

theorem Field.relocates : Relocates f Field (FieldDef.relocate f) := by
  rintro ts d ⟨ht, he⟩
  simp only [List.map_append, List.map_cons]
  exact .mk (TypeName.relocates ht) (Assignment.relocates he)

theorem Method.relocates : Relocates f Method (MethodDef.relocate f) := by
  rintro ts m ⟨⟩
  exact .mk

theorem Entry.relocates : Relocates f Entry (OptionDef.relocate f) := by
  rintro ts e ⟨⟩
  exact .mk

/-- Every place in a definition is the place of one of its tokens. -/
theorem Definition.relocates : Relocates f Definition (WireSchema.Definition.relocate f) := by
  intro ts x h
  cases h with
  | constant h => exact .constant (Value.relocates h)
  | struct h => exact .struct (Block.relocates Field.relocates h)
  | service h => exact .service (Block.relocates Method.relocates h)
  | options h => exact .options (Block.relocates Entry.relocates h)

/-- One repetition behind another. -/
theorem Many.append {ts us : List Lexeme} {xs ys : List α} (h : Many G ts xs)
    (h' : Many G us ys) : Many G (ts ++ us) (xs ++ ys) := by
  induction h with
  | one hx => exact .cons hx h'
  | cons hx _ ih =>
    rw [List.append_assoc]
    exact .cons hx ih

end Grammar

/-! ## Some lines further down -/

namespace Location
variable (n : Nat) (loc : Location)

/-- The same column, some lines further down. -/
def below : Location := ⟨loc.line + .ofNat n, loc.column⟩

theorem next_below (c : Char) : (loc.below n).next c = (loc.next c).below n := by
  simp only [next, below]
  split
  · rw [UInt32.add_assoc, UInt32.add_assoc, UInt32.add_comm 1]
  · rfl

/-- To read from further down is to come out further down. -/
theorem after_below (cs : List Char) : (loc.below n).after cs = (loc.after cs).below n := by
  induction cs generalizing loc with
  | nil => rfl
  | cons c cs ih => rw [after_cons, after_cons, next_below, ih]

/-- Adds to the line, in whole numbers, wherever the sum can be counted, and keeps the column. -/
def MovesDown (n : Nat) (f : Location → Location) : Prop :=
  ∀ loc : Location, loc.line.toNat + n < 2 ^ 32 →
    (f loc).line.toNat = loc.line.toNat + n ∧ (f loc).column = loc.column

variable {n loc}

/-- The sum of 32 bits is the sum of whole numbers until it passes the largest. -/
theorem movesDown_below : MovesDown n (below n) := by
  intro loc h
  rw [below, UInt32.toNat_add, UInt32.toNat_ofNat', Nat.mod_eq_of_lt (by omega : n < 2 ^ 32)]
  exact ⟨Nat.mod_eq_of_lt h, rfl⟩

theorem MovesDown.eq_below {f : Location → Location} (hf : MovesDown n f)
    (h : loc.line.toNat + n < 2 ^ 32) : f loc = loc.below n := by
  obtain ⟨hline, hcolumn⟩ := hf loc h
  obtain ⟨hline', hcolumn'⟩ := movesDown_below loc h
  rw [Location.mk.injEq]
  exact ⟨UInt32.toNat_inj.1 (hline.trans hline'.symm), hcolumn.trans hcolumn'.symm⟩

end Location

theorem Spells.ne_eof {w : List Char} {t : Token} (h : Spells w t) : t ≠ .eof := by
  cases h <;> simp

namespace Lexer
variable {loc : Location} {text : List Char} {ls : List Lexeme}

/-- A text is read the same wherever it starts. -/
theorem tokensFrom_below (n : Nat) (h : tokensFrom loc text = .ok ls) :
    tokensFrom (loc.below n) text = .ok (ls.map (Lexeme.relocate (Location.below n))) := by
  induction text using reading_induction generalizing loc ls with
  | nil =>
    rw [tokensFrom] at h ⊢
    cases h
    rfl
  | comment body r hbody hr ih =>
    rw [tokensFrom_comment hbody hr] at h ⊢
    rw [Location.after_below]
    exact ih h
  | blank c r hc ih =>
    rw [tokensFrom_blank hc] at h ⊢
    rw [Location.next_below]
    exact ih h
  | fault c r fault hhash hblank ht =>
    rw [tokensFrom_fault hhash hblank ht] at h
    cases h
  | token c w r t hhash hblank _ _ hstable ih =>
    rw [tokensFrom_token hhash hblank (hstable r (.refl r))] at h ⊢
    obtain ⟨ls, hls, rfl⟩ := map_eq_ok.1 h
    rw [Location.after_below, ih hls]
    rfl

theorem isBlank_newline : Text.isBlank '\n' = true := by decide

/-- A line end behind a token ends it just as the end of the text does. -/
theorem nextIn_append_newline (r post : List Char) : NextIn (r ++ '\n' :: post) r := by
  intro c hc
  cases r with
  | nil =>
    obtain rfl : '\n' = c := by simpa using hc
    exact .inl (by simp [Text.isBreak, isBlank_newline])
  | cons d r => exact .inr hc

/-- Behind a text that can be read and a line end, reading goes on as if nothing had been there. -/
theorem tokensFrom_append_newline (h : tokensFrom loc text = .ok ls) :
    ∃ ls', ls = ls' ++ [⟨.eof, loc.after text⟩] ∧ (∀ l ∈ ls', l.token ≠ .eof) ∧
      ∀ post, tokensFrom loc (text ++ '\n' :: post) =
        (tokensFrom ((loc.after text).next '\n') post).map (ls' ++ ·) := by
  induction text using reading_induction generalizing loc ls with
  | nil =>
    rw [tokensFrom] at h
    cases h
    refine ⟨[], rfl, by simp, fun post => ?_⟩
    rw [List.nil_append, tokensFrom_blank isBlank_newline, Location.after_nil]
    cases tokensFrom (loc.next '\n') post <;> rfl
  | comment body r hbody hr ih =>
    rw [tokensFrom_comment hbody hr] at h
    obtain ⟨ls', rfl, heof, hpost⟩ := ih h
    refine ⟨ls', by simp, heof, fun post => ?_⟩
    have hnext : ∀ c ∈ (r ++ '\n' :: post).head?, c = '\n' := by
      intro c hc
      cases r with
      | nil => simpa using hc.symm
      | cons d r => exact hr c hc
    rw [List.cons_append, List.append_assoc, tokensFrom_comment hbody hnext, hpost]
    simp
  | blank c r hc ih =>
    rw [tokensFrom_blank hc] at h
    obtain ⟨ls', rfl, heof, hpost⟩ := ih h
    refine ⟨ls', by simp, heof, fun post => ?_⟩
    rw [List.cons_append, tokensFrom_blank hc, hpost]
    simp
  | fault c r fault hhash hblank ht =>
    rw [tokensFrom_fault hhash hblank ht] at h
    cases h
  | token c w r t hhash hblank hspells _ hstable ih =>
    rw [tokensFrom_token hhash hblank (hstable r (.refl r))] at h
    obtain ⟨ls, hls, rfl⟩ := map_eq_ok.1 h
    obtain ⟨ls', rfl, heof, hpost⟩ := ih hls
    refine ⟨⟨t, loc⟩ :: ls', by simp, by simpa [hspells.ne_eof] using heof, fun post => ?_⟩
    rw [List.cons_append, List.append_assoc,
      tokensFrom_token hhash hblank (hstable _ (nextIn_append_newline r post)), hpost]
    simp only [Location.after_cons, Location.after_append]
    cases tokensFrom (Location.next _ '\n') post <;> rfl

end Lexer

namespace Document

/-- The tokens before the first end of the text are determined. -/
theorem before_eof_unique {ts us after after' : List Lexeme} {e e' : Lexeme}
    (hts : ∀ l ∈ ts, l.token ≠ .eof) (hus : ∀ l ∈ us, l.token ≠ .eof) (he : e.token = .eof)
    (he' : e'.token = .eof) (h : ts ++ e :: after = us ++ e' :: after') : ts = us := by
  induction ts generalizing us with
  | nil =>
    cases us with
    | nil => rfl
    | cons u us =>
      obtain ⟨rfl, -⟩ := List.cons.inj h
      exact absurd he (hus _ (by simp))
  | cons t ts ih =>
    cases us with
    | nil =>
      obtain ⟨rfl, -⟩ := List.cons.inj h
      exact absurd he' (hts _ (by simp))
    | cons u us =>
      obtain ⟨rfl, hrest⟩ := List.cons.inj h
      rw [ih (fun l hl => hts l (.tail _ hl)) (fun l hl => hus l (.tail _ hl)) hrest]

/-- The tokens of a document are those of a derivation, and a line end below them changes none. -/
theorem derivation_of_ofText {text : String} {doc : Document} (h : ofText text = .ok doc) :
    ∃ ls, Grammar.Document ls doc ∧
      Lexer.tokensFrom .start text.toList =
        .ok (ls ++ [⟨.eof, Location.start.after text.toList⟩]) ∧
      ∀ post, Lexer.tokensFrom .start (text.toList ++ '\n' :: post) =
        (Lexer.tokensFrom ((Location.start.after text.toList).next '\n') post).map (ls ++ ·) := by
  obtain ⟨ls, hls, hdoc⟩ := bind_eq_ok.1 h
  obtain ⟨ls', rfl, heof, hpost⟩ := Lexer.tokensFrom_append_newline hls
  obtain ⟨before, eof, after, heq, he, hbefore, hderiv⟩ := derivation_of_ofLexemes hdoc
  obtain rfl := before_eof_unique heof hbefore rfl he heq
  exact ⟨ls', hderiv, hls, hpost⟩

/-- A line end behind the upper text: the lower one starts as many lines down as the upper one has.
-/
theorem start_below_newline (upper : List Char) :
    (Location.start.after upper).next '\n' = Location.start.below (1 + upper.count '\n') := by
  change ((Location.behind []).after upper).next '\n' = _
  rw [Location.after_behind]
  simp [Location.behind, Location.next, Location.below, Location.start, UInt32.add_comm]

/-- No token of a text stands on a line that the text does not have. -/
theorem line_le_of_tokens {text : List Char} {ls : List Lexeme} {eof : Lexeme}
    (h : Lexer.tokensFrom .start text = .ok (ls ++ [eof])) :
    ∀ l ∈ ls, l.loc.line.toNat ≤ 1 + text.count '\n' := by
  have hstart : Lexer.tokensFrom (Location.behind []) text = .ok (ls ++ [eof]) := h
  obtain ⟨ls', hls, hlayout⟩ := Lexer.tokensFrom_eq_ok hstart
  obtain ⟨rfl, -⟩ := List.append_inj' hls rfl
  intro l hl
  obtain ⟨pre, hpre, hloc⟩ := hlayout.exists_behind l hl
  have hcount := hpre.sublist.count_le '\n'
  have hline := Location.line_behind_le pre
  rw [hloc, List.nil_append]
  omega

/-- A document whose tokens have the same places either way is the same either way. -/
theorem relocate_congr {ls : List Lexeme} {doc : Document} {f g : Location → Location}
    (h : Grammar.Document ls doc) (hfg : ∀ l ∈ ls, f l.loc = g l.loc) :
    doc.map (Definition.relocate f) = doc.map (Definition.relocate g) := by
  have htokens : ls.map (Lexeme.relocate f) = ls.map (Lexeme.relocate g) := by
    refine List.map_congr_left fun l hl => ?_
    rw [Lexeme.relocate, Lexeme.relocate, hfg l hl]
  have hf := Grammar.Many.relocates Grammar.Definition.relocates h (f := f)
  have hg := Grammar.Many.relocates Grammar.Definition.relocates h (f := g)
  rw [htokens] at hf
  -- The parser is a function of the tokens, so two derivations of the same ones agree.
  have hparsed {doc : Document} (h : Grammar.Document (ls.map (Lexeme.relocate g)) doc) :
      ofLexemes (ls.map (Lexeme.relocate g) ++ [⟨.eof, .start⟩]) = .ok doc :=
    ofLexemes_of_derivation h rfl
  exact Except.ok.inj ((hparsed hf).symm.trans (hparsed hg))

/-- Two documents, one below the other, are one document: first the definitions of the upper one,
then those of the lower one, which keep their columns and stand below the lines of the upper. Lines
are counted with 32 bits; as long as these suffice for the lines of both, they are moved by a sum of
whole numbers. -/
theorem ofText_append_newline {upper lower : String} {doc doc' : Document}
    (h : ofText upper = .ok doc) (h' : ofText lower = .ok doc') :
    ofText (upper ++ "\n" ++ lower) = .ok (doc ++
      doc'.map (Definition.relocate (Location.below (1 + upper.toList.count '\n')))) ∧
    ((upper ++ "\n" ++ lower).toList.count '\n' + 1 < 2 ^ 32 →
      ∀ f, Location.MovesDown (1 + upper.toList.count '\n') f →
        ofText (upper ++ "\n" ++ lower) = .ok (doc ++ doc'.map (Definition.relocate f))) := by
  obtain ⟨ls, hderiv, -, hpost⟩ := derivation_of_ofText h
  obtain ⟨ls', hderiv', htokens, -⟩ := derivation_of_ofText h'
  have htext : (upper ++ "\n" ++ lower).toList = upper.toList ++ '\n' :: lower.toList := by simp
  have hboth : tokens (upper ++ "\n" ++ lower) = .ok (ls ++
      (ls' ++ [(⟨.eof, Location.start.after lower.toList⟩ : Lexeme)]).map
        (Lexeme.relocate (Location.below (1 + upper.toList.count '\n')))) := by
    rw [tokens, htext, hpost, start_below_newline, Lexer.tokensFrom_below _ htokens]
    rfl
  have hbelow : ofText (upper ++ "\n" ++ lower) = .ok (doc ++
      doc'.map (Definition.relocate (Location.below (1 + upper.toList.count '\n')))) := by
    rw [ofText, hboth, ok_bind, List.map_append, ← List.append_assoc]
    exact ofLexemes_of_derivation
      (hderiv.append (Grammar.Many.relocates Grammar.Definition.relocates hderiv')) rfl
  refine ⟨hbelow, fun hlines f hf => ?_⟩
  rw [htext, List.count_append, List.count_cons_self] at hlines
  rw [hbelow, relocate_congr hderiv' fun l hl => hf.eq_below ?_]
  have hline := line_le_of_tokens htokens l hl
  omega

/-- The comment at the end of the upper text does not swallow the lower one. -/
theorem ofText_append_newline_comment :
    ofText "const n = 1 # one" =
      .ok [.constant ⟨"n", .scalar (.int 1) ⟨1, 11⟩, ⟨1, 1⟩⟩] ∧
    ofText "struct S\n  \x7bx: float = n\x7d" = .ok [.struct ⟨"S",
      [⟨"x", .named "float", some (.constant "n" ⟨2, 15⟩), ⟨2, 4⟩⟩], ⟨1, 1⟩⟩] ∧
    ofText ("const n = 1 # one" ++ "\n" ++ "struct S\n  \x7bx: float = n\x7d") =
      .ok [.constant ⟨"n", .scalar (.int 1) ⟨1, 11⟩, ⟨1, 1⟩⟩, .struct ⟨"S",
        [⟨"x", .named "float", some (.constant "n" ⟨3, 15⟩), ⟨3, 4⟩⟩], ⟨2, 1⟩⟩] := by
  have hupper : ofText "const n = 1 # one" =
      .ok [.constant ⟨"n", .scalar (.int 1) ⟨1, 11⟩, ⟨1, 1⟩⟩] := by decide +kernel
  have hlower : ofText "struct S\n  \x7bx: float = n\x7d" = .ok [.struct ⟨"S",
      [⟨"x", .named "float", some (.constant "n" ⟨2, 15⟩), ⟨2, 4⟩⟩], ⟨1, 1⟩⟩] := by decide +kernel
  obtain ⟨-, hcounted⟩ := ofText_append_newline hupper hlower
  exact ⟨hupper, hlower, hcounted (by decide +kernel) _ Location.movesDown_below⟩

end Document
end WireSchema
