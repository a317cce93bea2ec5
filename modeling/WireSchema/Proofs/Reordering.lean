import WireSchema.Proofs.Acceptance

/-! The order of the definitions does not matter for what each of them means. Names are compared
with those before them, and constants and structs may be used before or behind their definitions;
but a document is accepted for what it holds, and a name stands for the same thing wherever it is
declared. -/
namespace WireSchema

/-- Tables that list the same entries, in whatever order, find the same. -/
theorem Table.get?_of_perm {α : Type} {t t' : Table α} (h : t.Sound) (h' : t'.Sound)
    (hp : t.toList.Perm t'.toList) : t.get? = t'.get? := by
  funext name
  apply Option.ext
  intro a
  rw [get?_eq_some_iff h, get?_eq_some_iff h', hp.mem_iff]

theorem FieldDef.WellFormed.mono {env : String → Option Value} {structs structs' : List String}
    {f : FieldDef} (hf : f.WellFormed env structs) (h : structs ⊆ structs') :
    f.WellFormed env structs' where
  type_known := hf.type_known.imp_right fun hm => h hm
  length_known := hf.length_known
  length_range := hf.length_range
  default_known := hf.default_known
  default_uniform := hf.default_uniform
  default_fits := hf.default_fits

namespace Document
variable {doc doc' : Document} (h : doc.Perm doc')
include h

theorem constants_perm : doc.constants.Perm doc'.constants := h.filterMap _

theorem structs_perm : doc.structs.Perm doc'.structs := h.filterMap _

theorem services_perm : doc.services.Perm doc'.services := h.filterMap _

theorem constantNames_perm : doc.constantNames.Perm doc'.constantNames := (constants_perm h).map _

theorem structNames_perm : doc.structNames.Perm doc'.structNames := (structs_perm h).map _

theorem serviceNames_perm : doc.serviceNames.Perm doc'.serviceNames := (services_perm h).map _

/-- A constant is found wherever it stands, as there is only one of its name. -/
theorem get?_constants_of_perm (hn : doc.constantNames.Nodup) :
    doc.elaborate.constants.get? = doc'.elaborate.constants.get? := by
  have hn' := (constantNames_perm h).nodup_iff.1 hn
  refine Table.get?_of_perm (sound_elaborate_constants hn) (sound_elaborate_constants hn') ?_
  simp only [elaborate, Table.toList_ofList]
  exact (constants_perm h).map _

theorem constantValue?_of_perm (hn : doc.constantNames.Nodup) :
    doc.constantValue? = doc'.constantValue? := by
  have hn' := (constantNames_perm h).nodup_iff.1 hn
  rw [← get?_elaborate_constants hn, ← get?_elaborate_constants hn', get?_constants_of_perm h hn]

/-- Nothing that makes a document well formed depends on its order. -/
theorem WellFormed.perm (hw : doc.WellFormed) : doc'.WellFormed where
  constants_nodup := (constantNames_perm h).nodup_iff.1 hw.constants_nodup
  structs_nodup := (structNames_perm h).nodup_iff.1 hw.structs_nodup
  structs_fresh := by
    intro name hs hc
    exact hw.structs_fresh name ((structNames_perm h).mem_iff.2 hs)
      ((constantNames_perm h).mem_iff.2 hc)
  services_nodup := (serviceNames_perm h).nodup_iff.1 hw.services_nodup
  services_fresh := by
    intro name hv
    have hfresh := hw.services_fresh name ((serviceNames_perm h).mem_iff.2 hv)
    rwa [(structNames_perm h).mem_iff, (constantNames_perm h).mem_iff] at hfresh
  fields_nodup := fun s hs => hw.fields_nodup s ((structs_perm h).mem_iff.2 hs)
  methods_nodup := fun s hs => hw.methods_nodup s ((services_perm h).mem_iff.2 hs)
  constants_uniform := fun c hc => hw.constants_uniform c ((constants_perm h).mem_iff.2 hc)
  fields_wellFormed := by
    intro s hs f hf
    rw [← constantValue?_of_perm h hw.constants_nodup]
    exact (hw.fields_wellFormed s ((structs_perm h).mem_iff.2 hs) f hf).mono
      (structNames_perm h).subset
  messages_known := by
    intro s hs m hm
    have hknown := hw.messages_known s ((services_perm h).mem_iff.2 hs) m hm
    rwa [(structNames_perm h).mem_iff, (structNames_perm h).mem_iff] at hknown

theorem get?_structs_of_perm (hw : doc.WellFormed) :
    doc.elaborate.structs.get? = doc'.elaborate.structs.get? := by
  have hw' := hw.perm h
  refine Table.get?_of_perm (sound_elaborate_structs hw.structs_nodup)
    (sound_elaborate_structs hw'.structs_nodup) ?_
  simp only [elaborate, Table.toList_ofList, constantValue?_of_perm h hw.constants_nodup]
  exact (structs_perm h).map _

theorem get?_services_of_perm (hw : doc.WellFormed) :
    doc.elaborate.services.get? = doc'.elaborate.services.get? := by
  have hw' := hw.perm h
  refine Table.get?_of_perm (sound_elaborate_services hw.services_nodup)
    (sound_elaborate_services hw'.services_nodup) ?_
  simp only [elaborate, Table.toList_ofList]
  exact (services_perm h).map _

end Document

/-- A document is accepted in every order of its definitions or in none, and in each of them every
name stands for the same constant, the same struct with the same fields in the same order, the same
service with the same methods and numbers. -/
theorem Compilation.ofDocument_perm {doc doc' : Document} (h : doc.Perm doc') :
    ((∃ schema, (ofDocument doc).outcome = .ok schema) ↔
      ∃ schema, (ofDocument doc').outcome = .ok schema) ∧
    ∀ schema schema', (ofDocument doc).outcome = .ok schema →
      (ofDocument doc').outcome = .ok schema' → ∀ name,
        schema.constants.get? name = schema'.constants.get? name ∧
        schema.structs.get? name = schema'.structs.get? name ∧
        schema.services.get? name = schema'.services.get? name := by
  simp only [ofDocument_outcome_eq_ok_iff]
  constructor
  · constructor
    · rintro ⟨_, hw, -⟩
      exact ⟨_, hw.perm h, rfl⟩
    · rintro ⟨_, hw, -⟩
      exact ⟨_, hw.perm h.symm, rfl⟩
  · rintro _ _ ⟨hw, rfl⟩ ⟨-, rfl⟩ name
    rw [Document.get?_constants_of_perm h hw.constants_nodup, Document.get?_structs_of_perm h hw,
      Document.get?_services_of_perm h hw]
    exact ⟨rfl, rfl, rfl⟩

/-- A service before the struct it calls with, and a struct before the constant it needs. -/
theorem Compilation.ofDocument_reversed :
    let doc : Document :=
      [.service ⟨"S", [⟨"m", "A", "B", ⟨1, 11⟩⟩, ⟨"n", "B", "B", ⟨1, 18⟩⟩], ⟨1, 1⟩⟩,
        .struct ⟨"A", [⟨"b", .named "B", none, ⟨2, 10⟩⟩], ⟨2, 1⟩⟩,
        .struct ⟨"B", [⟨"x", .named "int8_t", some (.constant "K" ⟨3, 20⟩), ⟨3, 10⟩⟩], ⟨3, 1⟩⟩,
        .constant ⟨"K", .scalar (.int (-1)) ⟨4, 9⟩, ⟨4, 1⟩⟩]
    ∃ schema schema', (ofDocument doc).outcome = .ok schema ∧
      (ofDocument doc.reverse).outcome = .ok schema' ∧ ∀ name,
        schema.constants.get? name = schema'.constants.get? name ∧
        schema.structs.get? name = schema'.structs.get? name ∧
        schema.services.get? name = schema'.services.get? name := by
  intro doc
  have hperm : doc.Perm doc.reverse := (List.reverse_perm doc).symm
  have hok : (ofDocument doc).outcome.toOption.isSome = true := by decide +kernel
  obtain ⟨schema, hschema⟩ := exists_ok_of_isSome hok
  obtain ⟨schema', hschema'⟩ := (ofDocument_perm hperm).1.1 ⟨schema, hschema⟩
  exact ⟨schema, schema', hschema, hschema', (ofDocument_perm hperm).2 _ _ hschema hschema'⟩

end WireSchema
