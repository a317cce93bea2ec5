import WireSchema.Proofs.Acceptance
import WireSchema.Proofs.Guarantees
import WireSchema.Proofs.Layout

/-! Every float of a schema is finite. A float that is read is the nearest one to its numeral, and
so it is finite; the scalars of a tree stand among its tokens; and a schema has no scalars but those
of its tree. -/
namespace WireSchema

theorem Spells.isFinite {w : List Char} {x : Binary64} (h : Spells w (.literal (.float x))) :
    x.isFinite = true := by
  cases h with
  | number h =>
    cases h with
    | float _ _ _ _ hnear => exact hnear.finite

theorem Layout.exists_spells {rest before text : List Char} {ls : List Lexeme}
    (h : Layout rest before text ls) : ∀ l ∈ ls, ∃ w, Spells w l.token := by
  induction h with
  | gap => simp
  | token _ _ hspells _ _ ih => exact List.forall_mem_cons.2 ⟨⟨_, hspells⟩, ih⟩

/-- A literal that is too large is refused, so no token holds an infinity. -/
theorem isFinite_of_tokens {text : String} {ls : List Lexeme} (h : tokens text = .ok ls) :
    ∀ l ∈ ls, ∀ x, l.token = .literal (.float x) → x.isFinite = true := by
  intro l hl x hx
  rw [tokens_eq] at h
  obtain ⟨ls', rfl, hlayout⟩ := Lexer.tokensFrom_eq_ok h
  rcases List.mem_append.1 hl with hl | hl
  · obtain ⟨w, hw⟩ := hlayout.exists_spells l hl
    rw [hx] at hw
    exact hw.isFinite
  · rw [List.mem_singleton.1 hl] at hx
    cases hx

namespace Grammar
variable {α : Type} {G : List Lexeme → α → Prop} {ts : List Lexeme}

theorem Item.exists_subset {x : α} (h : Item G ts x) : ∃ us, G us x ∧ us ⊆ ts := by
  cases h with
  | bare hx => exact ⟨_, hx, List.Subset.refl _⟩
  | comma hx => exact ⟨_, hx, List.subset_append_left _ _⟩

theorem Block.exists_subset {xs : List α} (h : Block G ts xs) :
    ∀ x ∈ xs, ∃ us, G us x ∧ us ⊆ ts := by
  intro x hx
  obtain ⟨hmany⟩ := h
  obtain ⟨us, hus, hsub⟩ := hmany.exists_subset x hx
  obtain ⟨vs, hvs, hsub'⟩ := hus.exists_subset
  refine ⟨vs, hvs, fun l hl => ?_⟩
  simp [hsub (hsub' hl)]

/-! The scalars stand among the tokens. -/

theorem Scalars.exists_mem {vs : List Scalar} (h : Scalars ts vs) :
    ∀ s ∈ vs, ∃ l ∈ ts, l.token = .literal s := by
  induction h with
  | one => simp
  | cons _ ih =>
    refine List.forall_mem_cons.2 ⟨⟨_, List.mem_cons_self, rfl⟩, fun s hs => ?_⟩
    obtain ⟨l, hl, hs⟩ := ih s hs
    exact ⟨l, by simp [hl], hs⟩

/-- All that a literal holds is said by its tokens. -/
theorem Value.exists_mem {v : Literal} (h : Value ts v) :
    ∀ s ∈ v.plain.items, ∃ l ∈ ts, l.token = .literal s := by
  intro s hs
  cases h with
  | scalar =>
    rw [List.mem_singleton.1 hs]
    exact ⟨_, List.mem_cons_self, rfl⟩
  | empty => simp [Literal.plain, Value.items] at hs
  | list hvs =>
    obtain ⟨l, hl, hs⟩ := hvs.exists_mem s hs
    exact ⟨l, by simp [hl], hs⟩

theorem Field.exists_mem {f : FieldDef} {v : Literal} (h : Field ts f)
    (hv : f.default = some (.literal v)) : ∀ s ∈ v.plain.items, ∃ l ∈ ts, l.token = .literal s := by
  intro s hs
  obtain ⟨-, hassign⟩ := h
  cases hassign with
  | literal hvalue =>
    cases hv
    obtain ⟨l, hl, hs⟩ := hvalue.exists_mem s hs
    exact ⟨l, by simp [hl], hs⟩
  | _ => cases hv

end Grammar

/-- Every float is finite. -/
def Value.Finite (v : Value) : Prop := ∀ x : Binary64, .float x ∈ v.items → x.isFinite = true

/-- Every float of the constants and of the defaults is finite. -/
structure Schema.Finite (s : Schema) : Prop where
  constants : ∀ c ∈ s.constants.toList, c.2.Finite
  defaults : ∀ t ∈ s.structs.toList, ∀ f ∈ t.2.fields.toList, ∀ v, f.2.default = some v → v.Finite

namespace Document
variable {doc : Document}

/-- Every float of the literals is finite. -/
structure Finite (doc : Document) : Prop where
  constants : ∀ c ∈ doc.constants, c.value.plain.Finite
  defaults : ∀ s ∈ doc.structs, ∀ f ∈ s.fields, ∀ v, f.default = some (.literal v) → v.plain.Finite

/-- A document that is read holds no infinity. -/
theorem finite_of_ofText {text : String} (h : ofText text = .ok doc) : doc.Finite := by
  obtain ⟨ls, hls, hdoc⟩ := bind_eq_ok.1 h
  obtain ⟨before, eof, behind, rfl, -, -, hderived⟩ := derivation_of_ofLexemes hdoc
  have hfinite {us : List Lexeme} {v : Literal} (hsub : us ⊆ before)
      (hmem : ∀ s ∈ v.plain.items, ∃ l ∈ us, l.token = .literal s) : v.plain.Finite := by
    intro x hx
    obtain ⟨l, hl, hlx⟩ := hmem _ hx
    exact isFinite_of_tokens hls l (List.mem_append_left _ (hsub hl)) x hlx
  constructor
  · intro c hc
    obtain ⟨x, hx, hxc⟩ := List.mem_filterMap.1 hc
    obtain ⟨us, hus, hsub⟩ := hderived.exists_subset x hx
    cases hus with
    | constant hvalue =>
      cases hxc
      exact hfinite (fun l hl => hsub (by simp [hl])) hvalue.exists_mem
    | _ => cases hxc
  · intro s hs f hf v hv
    obtain ⟨x, hx, hxs⟩ := List.mem_filterMap.1 hs
    obtain ⟨us, hus, hsub⟩ := hderived.exists_subset x hx
    cases hus with
    | struct hblock =>
      cases hxs
      obtain ⟨vs, hvs, hsub'⟩ := hblock.exists_subset f hf
      exact hfinite (fun l hl => hsub (by simp [hsub' hl])) (hvs.exists_mem hv)
    | _ => cases hxs

theorem Finite.elaborate (h : doc.Finite) : doc.elaborate.Finite := by
  constructor
  · intro c hc
    simp only [Document.elaborate, Table.toList_ofList, List.mem_map] at hc
    obtain ⟨d, hd, rfl⟩ := hc
    exact h.constants d hd
  · intro t ht f hf v hv
    simp only [Document.elaborate, Table.toList_ofList, List.mem_map] at ht
    obtain ⟨s, hs, rfl⟩ := ht
    simp only [StructDef.elaborate, Table.toList_ofList, List.mem_map] at hf
    obtain ⟨d, hd, rfl⟩ := hf
    obtain ⟨e, he, hv⟩ := Option.bind_eq_some_iff.1 hv
    cases e with
    | literal w =>
      cases hv
      exact h.defaults s hs d hd w he
    | constant name loc =>
      obtain ⟨c, hc, rfl⟩ := Option.map_eq_some_iff.1 hv
      exact h.constants c (List.mem_of_find?_eq_some hc)

end Document
end WireSchema
