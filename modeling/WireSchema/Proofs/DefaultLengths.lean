import WireSchema.Proofs.SchemaText

/-! The length of a vector and the length of its default are checked apart from each other. Each is
held to its own rules, and a default list may have more items than the vector can. -/
namespace WireSchema

/-- A list has no more items than the vector it is the default of. -/
def Field.DefaultFits (f : Field) : Prop :=
  ∀ n items, f.shape.capacity? = some n → f.default = some (.list items) → items.length ≤ n

def Schema.DefaultsFit (s : Schema) : Prop :=
  ∀ t ∈ s.structs.values, ∀ f ∈ t.fields.values, f.DefaultFits

/-- The same of a field as it is written, with the constants that it names. -/
def FieldDef.DefaultFits (env : String → Option Value) (f : FieldDef) : Prop :=
  ∀ length default n items, f.type.length? = some length →
    length.value? env = some (.scalar (.int n)) → f.default = some default →
      default.value? env = some (.list items) → (items.length : Int) ≤ n

def Document.DefaultsFit (doc : Document) : Prop :=
  ∀ s ∈ doc.structs, ∀ f ∈ s.fields, f.DefaultFits doc.constantValue?

/-! ## The same schema with other lengths -/

section Resized
variable (n : Nat)

def Shape.resized : Shape Nat → Shape Nat
  | .vector (some _) => .vector (some n)
  | shape => shape

def Field.resized (f : Field) : Field := { f with shape := f.shape.resized n }

def Struct.resized (s : Struct) : Struct := { s with fields := s.fields.map (Field.resized n) }

/-- Every vector that has a length has this one. -/
def Schema.resized (s : Schema) : Schema := { s with structs := s.structs.map (Struct.resized n) }

def TypeExpr.resized : TypeExpr → TypeExpr
  | .vector element (some length) => .vector element (some (.literal n length.loc))
  | type => type

def FieldDef.resized (f : FieldDef) : FieldDef := { f with type := f.type.resized n }

def StructDef.resized (s : StructDef) : StructDef := { s with fields := s.fields.map (.resized n) }

def Definition.resized : Definition → Definition
  | .struct s => .struct (s.resized n)
  | d => d

/-- Every vector that is written with a length is written with this one. -/
def Document.resized (doc : Document) : Document := doc.map (Definition.resized n)

end Resized

theorem Shape.capacity?_resized {n : Nat} (s : Shape Nat) :
    (s.resized n).capacity? = s.capacity?.map fun _ => n := by
  rcases s with _ | (_ | m) <;> rfl

/-- With another capacity, a default fits if that is not less than its number of items. -/
theorem Field.defaultFits_resized {n : Nat} {f : Field} :
    (f.resized n).DefaultFits ↔ ∀ items, f.shape.capacity?.isSome = true →
      f.default = some (.list items) → items.length ≤ n := by
  simp only [DefaultFits, resized, Shape.capacity?_resized, Option.map_eq_some_iff]
  constructor
  · intro h items hsome hdefault
    obtain ⟨m, hm⟩ := Option.isSome_iff_exists.1 hsome
    exact h n items ⟨m, hm, rfl⟩ hdefault
  · rintro h _ items ⟨m, hm, rfl⟩ hdefault
    exact h items (by simp [hm]) hdefault

theorem Schema.defaultsFit_resized {n : Nat} {s : Schema} :
    (s.resized n).DefaultsFit ↔ ∀ t ∈ s.structs.values, ∀ f ∈ t.fields.values, ∀ items,
      f.shape.capacity?.isSome = true → f.default = some (.list items) → items.length ≤ n := by
  simp [DefaultsFit, resized, Struct.resized, Table.values_map, Field.defaultFits_resized]

namespace TypeExpr
variable {n : Nat} (type : TypeExpr)

@[simp] theorem name_resized : (type.resized n).name = type.name := by
  rcases type with _ | ⟨_, _ | _⟩ <;> rfl

@[simp] theorem isVector_resized : (type.resized n).isVector = type.isVector := by
  rcases type with _ | ⟨_, _ | _⟩ <;> rfl

/-- A length that was there is replaced, and none is added. -/
theorem length?_resized :
    (type.resized n).length? = type.length?.map fun e => .literal n e.loc := by
  rcases type with _ | ⟨_, _ | _⟩ <;> rfl

end TypeExpr

namespace FieldDef
variable {env : String → Option Value} {structs : List String} {f : FieldDef} {n : Nat}

/-- A length that is written down has a value. -/
theorem WellFormed.exists_length (hf : f.WellFormed env structs) {e : LengthExpr}
    (he : f.type.length? = some e) : ∃ k : Nat, e.value? env = some (.scalar (.int k)) := by
  have hsome : (e.value? env).isSome = true := by
    cases e with
    | literal k loc => rfl
    | constant name loc => exact hf.length_known name loc he
  obtain ⟨v, hv⟩ := Option.isSome_iff_exists.1 hsome
  obtain ⟨k, rfl, hk, -⟩ := hf.length_range e v he hv
  exact ⟨k.toNat, by rw [hv, Int.toNat_of_nonneg (by omega)]⟩

/-- Any capacity of 32 bits but zero is as good as the one before. -/
theorem WellFormed.resized (hf : f.WellFormed env structs) (hlow : 1 ≤ n) (hhigh : n ≤ 0xFFFFFFFF) :
    (f.resized n).WellFormed env structs where
  type_known := by simpa [FieldDef.resized] using hf.type_known
  length_known := by
    intro name loc he
    simp [FieldDef.resized, TypeExpr.length?_resized] at he
  length_range := by
    intro e v he hv
    obtain ⟨e, -, rfl⟩ := Option.map_eq_some_iff.1 ((TypeExpr.length?_resized f.type).symm.trans he)
    cases hv
    exact ⟨n, rfl, by omega, by omega⟩
  default_known := hf.default_known
  default_uniform := hf.default_uniform
  default_fits := by simpa [FieldDef.resized] using hf.default_fits

/-- To resize the definition of a field is to resize the field. -/
theorem elaborate_resized (hf : f.WellFormed env structs) :
    (f.resized n).elaborate env = (f.elaborate env).resized n := by
  have hshape : (f.resized n).type.shape (fun e => (e.value? env).bind Value.capacity?) =
      (f.type.shape fun e => (e.value? env).bind Value.capacity?).resized n := by
    have hlength {e : LengthExpr} := hf.exists_length (e := e)
    rw [FieldDef.resized]
    cases htype : f.type with
    | named name => rfl
    | vector element length =>
      cases length with
      | none => rfl
      | some e =>
        obtain ⟨k, hk⟩ := hlength (by rw [htype]; rfl)
        have hliteral : (LengthExpr.literal n e.loc).value? env = some (.scalar (.int n)) := rfl
        simp [TypeExpr.shape, TypeExpr.resized, hliteral, hk, Value.capacity?, Shape.resized]
  rw [elaborate, hshape]
  simp [elaborate, Field.resized, FieldDef.resized]

/-- Whether a default fits can be told before the field is elaborated. -/
theorem defaultFits_elaborate (hf : f.WellFormed env structs) :
    (f.elaborate env).DefaultFits ↔ f.DefaultFits env := by
  have hcapacity : (f.elaborate env).shape.capacity? =
      f.type.length?.bind fun e => (e.value? env).bind Value.capacity? := Schema.capacity?_shape
  constructor
  · intro h e d k items he hk hd hitems
    obtain ⟨m, hm⟩ := hf.exists_length he
    rw [hk] at hm
    cases hm
    have hfits := h m items (by simp [hcapacity, he, hk, Value.capacity?])
      (by simp [elaborate, hd, hitems])
    omega
  · intro h m items hm hitems
    rw [hcapacity] at hm
    obtain ⟨e, he, hm⟩ := Option.bind_eq_some_iff.1 hm
    obtain ⟨k, hk⟩ := hf.exists_length he
    obtain ⟨d, hd, hitems⟩ := Option.bind_eq_some_iff.1 hitems
    rw [hk] at hm
    cases hm
    exact Int.ofNat_le.1 (h e d k items he hk hd hitems)

end FieldDef

namespace Document
variable {doc : Document} {n : Nat}

@[simp] theorem constants_resized : (doc.resized n).constants = doc.constants := by
  rw [constants, resized, List.filterMap_map]
  refine List.filterMap_congr fun d _ => ?_
  cases d <;> rfl

@[simp] theorem structs_resized :
    (doc.resized n).structs = doc.structs.map (StructDef.resized n) := by
  rw [structs, structs, resized, List.filterMap_map, List.map_filterMap]
  refine List.filterMap_congr fun d _ => ?_
  cases d <;> rfl

@[simp] theorem services_resized : (doc.resized n).services = doc.services := by
  rw [services, resized, List.filterMap_map]
  refine List.filterMap_congr fun d _ => ?_
  cases d <;> rfl

@[simp] theorem options_resized : (doc.resized n).options = doc.options := by
  rw [options, resized, List.flatMap_map]
  refine List.flatMap_congr fun d _ => ?_
  cases d <;> rfl

theorem structNames_resized : (doc.resized n).structNames = doc.structNames := by
  simp [structNames, StructDef.resized]

theorem constantValue?_resized : (doc.resized n).constantValue? = doc.constantValue? := by
  funext name
  simp [constantValue?]

/-- Names, types and defaults stay as they are, so the document is as well formed as before. -/
theorem WellFormed.resized (hw : doc.WellFormed) (hlow : 1 ≤ n) (hhigh : n ≤ 0xFFFFFFFF) :
    (doc.resized n).WellFormed where
  constants_nodup := by simpa [constantNames] using hw.constants_nodup
  structs_nodup := by simpa [structNames_resized] using hw.structs_nodup
  structs_fresh := by simpa [structNames_resized, constantNames] using hw.structs_fresh
  services_nodup := by simpa [serviceNames] using hw.services_nodup
  services_fresh := by
    simpa [structNames_resized, constantNames, serviceNames] using hw.services_fresh
  fields_nodup := by
    simpa [StructDef.resized, FieldDef.resized, Function.comp_def] using hw.fields_nodup
  methods_nodup := by simpa using hw.methods_nodup
  constants_uniform := by simpa using hw.constants_uniform
  fields_wellFormed := by
    rw [structs_resized, List.forall_mem_map]
    intro s hs
    rw [StructDef.resized, List.forall_mem_map]
    intro f hf
    rw [structNames_resized, constantValue?_resized]
    exact (hw.fields_wellFormed s hs f hf).resized hlow hhigh
  messages_known := by simpa [structNames_resized] using hw.messages_known

/-- To resize a document is to resize its schema. -/
theorem elaborate_resized (hw : doc.WellFormed) :
    (doc.resized n).elaborate = doc.elaborate.resized n := by
  have hstruct : ∀ s ∈ doc.structs, (s.resized n).elaborate doc.constantValue? =
      (s.elaborate doc.constantValue?).resized n := by
    intro s hs
    have hfields : ∀ f ∈ s.fields, (f.resized n).elaborate doc.constantValue? =
        (f.elaborate doc.constantValue?).resized n :=
      fun f hf => FieldDef.elaborate_resized (hw.fields_wellFormed s hs f hf)
    simp only [StructDef.elaborate, Struct.resized, StructDef.resized,
      (Table.listed_ofList _).map_eq, Table.toList_ofList, List.map_map]
    congr 2
    exact List.map_congr_left fun f hf => Prod.ext rfl (hfields f hf)
  simp only [elaborate, Schema.resized, constants_resized, structs_resized, services_resized,
    options_resized, constantValue?_resized, (Table.listed_ofList _).map_eq, Table.toList_ofList,
    List.map_map]
  congr 2
  exact List.map_congr_left fun s hs => Prod.ext rfl (hstruct s hs)

theorem defaultsFit_elaborate (hw : doc.WellFormed) :
    doc.elaborate.DefaultsFit ↔ doc.DefaultsFit := by
  simp only [Schema.DefaultsFit, DefaultsFit, elaborate, Table.values, Table.toList_ofList,
    List.map_map, List.forall_mem_map, Function.comp_apply, StructDef.elaborate]
  refine forall₂_congr fun s hs => forall₂_congr fun f hf => ?_
  exact FieldDef.defaultFits_elaborate (hw.fields_wellFormed s hs f hf)

end Document

/-- Defaults fit the vectors of a compiled schema exactly if they are written so. Nothing else sees
to it: with any other length for its vectors the document is accepted as well, and its schema has
the same defaults. -/
theorem defaultsFit_iff_written {text : String} {log : Log} {s : Schema}
    (h : (compile text log).2 = .ok s) :
    ∃ doc, Document.ofText text = .ok doc ∧ (s.DefaultsFit ↔ doc.DefaultsFit) ∧
      ∀ n, 1 ≤ n → n ≤ 0xFFFFFFFF →
        (Compilation.ofDocument (doc.resized n)).outcome = .ok (s.resized n) ∧
          ((s.resized n).DefaultsFit ↔ ∀ t ∈ s.structs.values, ∀ f ∈ t.fields.values, ∀ items,
            f.shape.capacity?.isSome = true → f.default = some (.list items) →
              items.length ≤ n) := by
  obtain ⟨doc, hdoc, hw, rfl⟩ := compile_ok_iff.1 h
  refine ⟨doc, hdoc, Document.defaultsFit_elaborate hw, fun n hlow hhigh => ⟨?_, ?_⟩⟩
  · rw [← Document.elaborate_resized hw]
    exact Compilation.ofDocument_outcome_eq_ok_iff.2 ⟨hw.resized hlow hhigh, rfl⟩
  · exact Schema.defaultsFit_resized

/-- The default fills its vector, until the vector is made shorter. -/
theorem defaultsFit_iff_written_shortened :
    ∃ s doc, (compile "struct S{v:vector<int8_t>(2)={1,2}}" {}).2 = .ok s ∧
      Document.ofText "struct S{v:vector<int8_t>(2)={1,2}}" = .ok doc ∧ s.DefaultsFit ∧
      (Compilation.ofDocument (doc.resized 1)).outcome = .ok (s.resized 1) ∧
      ¬(s.resized 1).DefaultsFit := by
  have hfields : (fun s => s.structs.values.map fun t => t.fields.values) <$>
      (compile "struct S{v:vector<int8_t>(2)={1,2}}" {}).2 =
        .ok [[⟨.primitive .int8, .vector (some 2), some (.list [.int 1, .int 2]), ⟨1, 10⟩⟩]] := by
    decide +kernel
  obtain ⟨s, hs, hfields⟩ := map_eq_ok.1 hfields
  obtain ⟨t, hvalues, ht⟩ := List.map_eq_singleton_iff.1 hfields
  obtain ⟨doc, hdoc, -, hresized⟩ := defaultsFit_iff_written hs
  obtain ⟨haccepted, hfits⟩ := hresized 1 (by decide) (by decide)
  refine ⟨s, doc, hs, hdoc, ?_, haccepted, ?_⟩
  · simp [Schema.DefaultsFit, hvalues, ht, Field.DefaultFits, Shape.capacity?]
  · rw [hfits]
    simp [hvalues, ht, Shape.capacity?]

/-- Two items are the default of a vector of one, both if they are written in place and if they are
a constant. -/
theorem default_longer_than_vector :
    ∃ s t f g, (compile
        "const N=1 const D={1,2} struct S{v:vector<int8_t>(1)={1,2} w:vector<int8_t>(N)=D}" {}).2 =
          .ok s ∧
      s.structs.get? "S" = some t ∧ t.fields.get? "v" = some f ∧ t.fields.get? "w" = some g ∧
      f.shape.capacity? = some 1 ∧ f.default = some (.list [.int 1, .int 2]) ∧
      g.shape.capacity? = some 1 ∧ g.default = some (.list [.int 1, .int 2]) := by
  have hfields : (fun s => (s.structs.get? "S").map
      fun t => (t.fields.get? "v", t.fields.get? "w")) <$> (compile
        "const N=1 const D={1,2} struct S{v:vector<int8_t>(1)={1,2} w:vector<int8_t>(N)=D}" {}).2 =
        .ok (some (
          some ⟨.primitive .int8, .vector (some 1), some (.list [.int 1, .int 2]), ⟨1, 34⟩⟩,
          some ⟨.primitive .int8, .vector (some 1), some (.list [.int 1, .int 2]), ⟨1, 60⟩⟩)) := by
    decide +kernel
  obtain ⟨s, hs, hfields⟩ := map_eq_ok.1 hfields
  obtain ⟨t, ht, hfields⟩ := Option.map_eq_some_iff.1 hfields
  obtain ⟨hf, hg⟩ := Prod.mk.inj hfields
  exact ⟨s, t, _, _, hs, ht, hf, hg, rfl, rfl, rfl, rfl⟩

end WireSchema
