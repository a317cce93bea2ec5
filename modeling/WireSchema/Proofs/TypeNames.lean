import WireSchema.Proofs.Extension
import WireSchema.Proofs.Guarantees

/-! What a type name means. Fields look for it among the primitive types first, and methods look
among the structs only. So they agree on every name but that of a struct which is called like a
primitive type, and nothing keeps a struct from being called so. -/
namespace WireSchema

/-! ## What a plan includes -/

namespace Plan
variable {s : Schema} {config : ProjectConfig} {plan : Plan} {name : String} {t : Struct}

theorem mem_includesOf {fields : List Field} :
    name ∈ includesOf fields ↔
      ∃ f ∈ fields, f.type.isUserDefined = true ∧ f.type.name = name := by
  simp [includesOf, List.mem_eraseDups]

/-- Sizes decide whether there is a plan, not what it includes. -/
theorem includes_of_ofStructs {structs : Table Struct} {limit : Nat} {memo : WireSize.Memo}
    {entries : List (String × Struct)} {plans : List StructPlan}
    (h : ofStructs structs limit memo entries = .ok plans) :
    (plans.map fun p => (p.name, p.includes)) =
      entries.map fun e => (e.1, includesOf e.2.fields.values) := by
  induction entries generalizing memo plans with
  | nil =>
    cases h
    rfl
  | cons e rest ih =>
    simp only [ofStructs, bind_eq_ok, pure_eq_ok, Except.ok.injEq] at h
    obtain ⟨fixedSize, -, plans, hplans, rfl⟩ := h
    simp [ofStruct, ih hplans]

theorem includes_of_ofSchema (h : ofSchema s config = .ok plan) :
    (plan.structs.map fun p => (p.name, p.includes)) =
      s.structs.toList.map fun e => (e.1, includesOf e.2.fields.values) := by
  obtain ⟨-, plans, hplans, rfl⟩ := ofSchema_eq_ok_iff.1 h
  exact includes_of_ofStructs hplans

/-- What is planned is planned for a struct of the schema. -/
theorem exists_of_mem_structs (hs : s.structs.Sound) (h : ofSchema s config = .ok plan)
    {p : StructPlan} (hp : p ∈ plan.structs) :
    ∃ t, s.structs.get? p.name = some t ∧ p.includes = includesOf t.fields.values := by
  have hmem : (p.name, p.includes) ∈ plan.structs.map fun p => (p.name, p.includes) :=
    List.mem_map_of_mem hp
  rw [includes_of_ofSchema h] at hmem
  obtain ⟨e, he, heq⟩ := List.mem_map.1 hmem
  obtain ⟨hname, hincludes⟩ := Prod.mk.inj heq
  exact ⟨e.2, (Table.get?_eq_some_iff hs).2 (hname ▸ he), hincludes.symm⟩

/-- Each struct has its plan, which includes what its fields name. -/
theorem exists_struct?_of_get? (hs : s.structs.Sound) (h : ofSchema s config = .ok plan)
    (ht : s.structs.get? name = some t) :
    ∃ p, plan.struct? name = some p ∧ p.includes = includesOf t.fields.values := by
  have hmem : (name, includesOf t.fields.values) ∈
      plan.structs.map fun p => (p.name, p.includes) := by
    rw [includes_of_ofSchema h]
    exact List.mem_map_of_mem (f := fun e => (e.1, includesOf e.2.fields.values))
      ((Table.get?_eq_some_iff hs).1 ht)
  obtain ⟨q, hq, heq⟩ := List.mem_map.1 hmem
  have hsome : (plan.struct? name).isSome = true :=
    List.find?_isSome.2 ⟨q, hq, by simpa using congrArg Prod.fst heq⟩
  obtain ⟨p, hp⟩ := Option.isSome_iff_exists.1 hsome
  have hname : p.name = name := by simpa using List.find?_some hp
  obtain ⟨u, hu, hincludes⟩ := exists_of_mem_structs hs h (List.mem_of_find?_eq_some hp)
  rw [hname, ht] at hu
  cases hu
  exact ⟨p, hp, hincludes⟩

end Plan

/-! ## Fields and methods -/

theorem TypeRef.eq_primitive_iff {r : TypeRef} {p : Primitive} :
    r = .primitive p ↔ r.primitive? = some p := by
  cases r <;> simp [primitive?]

namespace Schema
variable {s : Schema} {owner : String} {t : Struct} {f : Field}

/-- The field is one of a declared struct: it has no default, and the plan of its owner includes
that struct. -/
structure MeansStruct (s : Schema) (owner : String) (f : Field) : Prop where
  userDefined : f.type.isUserDefined = true
  declared : f.type.name ∈ s.structs.names
  no_default : f.default = none
  included : ∀ config plan, Plan.ofSchema s config = .ok plan →
    ∃ p, plan.struct? owner = some p ∧ f.type.name ∈ p.includes

/-- The field is a primitive one, and no plan includes a struct of the name. -/
structure MeansPrimitive (s : Schema) (p : Primitive) (f : Field) : Prop where
  type_eq : f.type = .primitive p
  not_included : ∀ config plan, Plan.ofSchema s config = .ok plan →
    ∀ q ∈ plan.structs, f.type.name ∉ q.includes

/-- The types of fields, and what methods take and give. -/
def mentioned (s : Schema) : List String :=
  (s.structs.values.flatMap fun t => t.fields.values.map (·.type.name)) ++
    s.services.values.flatMap fun v => v.methods.values.flatMap fun m => [m.request, m.response]

theorem mem_mentioned {name : String} :
    name ∈ s.mentioned ↔ (∃ t ∈ s.structs.values, ∃ f ∈ t.fields.values, f.type.name = name) ∨
      ∃ v ∈ s.services.values, ∃ m ∈ v.methods.values, m.request = name ∨ m.response = name := by
  simp [mentioned, eq_comm]

/-- The name of a struct means that struct in fields and in methods alike. -/
structure OneMeaning (s : Schema) : Prop where
  fields : ∀ owner t, s.structs.get? owner = some t → ∀ f ∈ t.fields.values,
    f.type.name ∈ s.structs.names → s.MeansStruct owner f
  messages : ∀ v ∈ s.services.values, ∀ m ∈ v.methods.values,
    Primitive.ofName? m.request = none ∧ Primitive.ofName? m.response = none

section Reliable
variable {constants : Table Value} (h : ReliableStructs constants s.structs)
include h

theorem ReliableStructs.reliable_of_mem (ht : s.structs.get? owner = some t)
    (hf : f ∈ t.fields.values) : f.Reliable s.structs := by
  obtain ⟨e, he, rfl⟩ := List.mem_map.1 hf
  exact h.fields_reliable _ ((Table.get?_eq_some_iff h.sound).1 ht) e he

theorem ReliableStructs.meansStruct (ht : s.structs.get? owner = some t)
    (hf : f ∈ t.fields.values) (hname : Primitive.ofName? f.type.name = none) :
    s.MeansStruct owner f := by
  have hreliable := h.reliable_of_mem ht hf
  have hnone : f.type.primitive? = none := hreliable.primitive_hides.trans hname
  have huser : f.type.isUserDefined = true := hreliable.userDefined_iff.2 hnone
  refine ⟨huser, (Table.contains_iff h.sound).1 (hreliable.struct_known hnone), ?_, ?_⟩
  · cases hdefault : f.default with
    | none => rfl
    | some v =>
      obtain ⟨p, hp, -⟩ := hreliable.default_fits v hdefault
      rw [hnone] at hp
      cases hp
  · intro config plan hplan
    obtain ⟨p, hp, hincludes⟩ := Plan.exists_struct?_of_get? h.sound hplan ht
    refine ⟨p, hp, ?_⟩
    rw [hincludes]
    exact Plan.mem_includesOf.2 ⟨f, hf, huser, rfl⟩

/-- A name that is hidden by a primitive type is included nowhere. -/
theorem ReliableStructs.not_included {name : String} {p : Primitive}
    (hname : Primitive.ofName? name = some p) {config : ProjectConfig} {plan : Plan}
    (hplan : Plan.ofSchema s config = .ok plan) : ∀ q ∈ plan.structs, name ∉ q.includes := by
  intro q hq hmem
  obtain ⟨u, hu, hincludes⟩ := Plan.exists_of_mem_structs h.sound hplan hq
  rw [hincludes] at hmem
  obtain ⟨g, hg, huser, rfl⟩ := Plan.mem_includesOf.1 hmem
  have hreliable := h.reliable_of_mem hu hg
  rw [← hreliable.primitive_hides, hreliable.userDefined_iff.1 huser] at hname
  cases hname

theorem ReliableStructs.meansPrimitive (ht : s.structs.get? owner = some t)
    (hf : f ∈ t.fields.values) {p : Primitive} (hname : Primitive.ofName? f.type.name = some p) :
    s.MeansPrimitive p f where
  type_eq := TypeRef.eq_primitive_iff.2 ((h.reliable_of_mem ht hf).primitive_hides.trans hname)
  not_included _ _ hplan := h.not_included hname hplan

end Reliable

theorem ReliableServices.messages_mem {constants : Table Value}
    (h : ReliableServices constants s.structs s.services) (hs : s.structs.Sound) :
    ∀ v ∈ s.services.values, ∀ m ∈ v.methods.values,
      m.request ∈ s.structs.names ∧ m.response ∈ s.structs.names := by
  intro v hv m hm
  obtain ⟨e, he, rfl⟩ := List.mem_map.1 hv
  obtain ⟨d, hd, rfl⟩ := List.mem_map.1 hm
  simpa only [Table.contains_iff hs] using h.messages_known e he d hd

end Schema

/-- The names of structs have one meaning exactly if no struct that is mentioned is called like a
primitive type. A field means the struct of its type name unless the name is that of a primitive
type, which it means then; what a method takes and gives are structs in any case. -/
theorem oneMeaning_iff {text : String} {log : Log} {s : Schema}
    (h : (compile text log).2 = .ok s) :
    (s.OneMeaning ↔ ∀ name ∈ s.structs.names, name ∈ s.mentioned → Primitive.ofName? name = none) ∧
      (∀ owner t, s.structs.get? owner = some t → ∀ f ∈ t.fields.values,
        (Primitive.ofName? f.type.name = none → s.MeansStruct owner f) ∧
          ∀ p, Primitive.ofName? f.type.name = some p → s.MeansPrimitive p f) ∧
      ∀ v ∈ s.services.values, ∀ m ∈ v.methods.values,
        m.request ∈ s.structs.names ∧ m.response ∈ s.structs.names := by
  obtain ⟨-, hstructs, hservices⟩ := Schema.reliable_of_compile h
  have hmessages := hservices.messages_mem hstructs.sound
  refine ⟨⟨?_, ?_⟩, ?_, hmessages⟩
  · intro hone name hname hmentioned
    rcases Schema.mem_mentioned.1 hmentioned with
      ⟨t, ht, f, hf, rfl⟩ | ⟨v, hv, m, hm, rfl | rfl⟩
    · obtain ⟨e, he, rfl⟩ := List.mem_map.1 ht
      have hget := (Table.get?_eq_some_iff hstructs.sound).2 he
      have hmeans := hone.fields e.1 e.2 hget f hf hname
      have hreliable := hstructs.reliable_of_mem hget hf
      rw [← hreliable.primitive_hides]
      exact hreliable.userDefined_iff.1 hmeans.userDefined
    · exact (hone.messages v hv m hm).1
    · exact (hone.messages v hv m hm).2
  · intro hfree
    refine ⟨fun owner t ht f hf hname => ?_, fun v hv m hm => ?_⟩
    · have hmem : t ∈ s.structs.values :=
        List.mem_map_of_mem (f := Prod.snd) ((Table.get?_eq_some_iff hstructs.sound).1 ht)
      exact hstructs.meansStruct ht hf (hfree _ hname
        (Schema.mem_mentioned.2 (.inl ⟨t, hmem, f, hf, rfl⟩)))
    · obtain ⟨hrequest, hresponse⟩ := hmessages v hv m hm
      exact ⟨hfree _ hrequest (Schema.mem_mentioned.2 (.inr ⟨v, hv, m, hm, .inl rfl⟩)),
        hfree _ hresponse (Schema.mem_mentioned.2 (.inr ⟨v, hv, m, hm, .inr rfl⟩))⟩
  · intro owner t ht f hf
    exact ⟨hstructs.meansStruct ht hf, fun p => hstructs.meansPrimitive ht hf⟩

/-- A struct that is called like a primitive type does no harm while nothing mentions it. -/
theorem oneMeaning_iff_unmentioned :
    ∃ s, (compile "struct int8_t{x:string}struct A{a:A}service Q{m:A->A}" {}).2 = .ok s ∧
      "int8_t" ∈ s.structs.names ∧ s.OneMeaning := by
  have hnames : (fun s => (s.structs.names, s.mentioned)) <$>
      (compile "struct int8_t{x:string}struct A{a:A}service Q{m:A->A}" {}).2 =
        .ok (["int8_t", "A"], ["string", "A", "A", "A"]) := by
    decide +kernel
  obtain ⟨s, hs, hnames⟩ := map_eq_ok.1 hnames
  obtain ⟨hstructs, hmentioned⟩ := Prod.mk.inj hnames
  refine ⟨s, hs, by simp [hstructs], (oneMeaning_iff hs).1.2 ?_⟩
  rw [hstructs, hmentioned]
  decide

/-- Beside a struct of that name a field is a primitive one all the same, with a default, and a
method takes the struct. -/
theorem struct_named_int8 :
    ∃ s t f v m, (compile
        "struct int8_t{x:string}struct Box{item:int8_t=5}service Q{m:int8_t->Box}" {}).2 = .ok s ∧
      "int8_t" ∈ s.structs.names ∧
      s.structs.get? "Box" = some t ∧ t.fields.get? "item" = some f ∧ f.type.name = "int8_t" ∧
      f.type.isUserDefined = false ∧ f.default = some (.scalar (.int 5)) ∧
      (∀ config plan, Plan.ofSchema s config = .ok plan →
        ∀ p ∈ plan.structs, "int8_t" ∉ p.includes) ∧
      s.services.get? "Q" = some v ∧ v.methods.get? "m" = some m ∧ m.request = "int8_t" ∧
      Primitive.ofName? m.request = some .int8 := by
  have hparts : (fun s => (s.structs.names, (s.structs.get? "Box").bind (·.fields.get? "item"),
      (s.services.get? "Q").bind (·.methods.get? "m"))) <$> (compile
        "struct int8_t{x:string}struct Box{item:int8_t=5}service Q{m:int8_t->Box}" {}).2 =
        .ok (["int8_t", "Box"],
          some ⟨.primitive .int8, .single, some (.scalar (.int 5)), ⟨1, 35⟩⟩,
          some ⟨0, "int8_t", "Box", ⟨1, 59⟩⟩) := by
    decide +kernel
  obtain ⟨s, hs, hparts⟩ := map_eq_ok.1 hparts
  obtain ⟨hnames, hparts⟩ := Prod.mk.inj hparts
  obtain ⟨hfield, hmethod⟩ := Prod.mk.inj hparts
  obtain ⟨t, ht, hf⟩ := Option.bind_eq_some_iff.1 hfield
  obtain ⟨v, hv, hm⟩ := Option.bind_eq_some_iff.1 hmethod
  refine ⟨s, t, _, v, _, hs, by simp [hnames], ht, hf, rfl, rfl, rfl, ?_, hv, hm, rfl, by decide⟩
  intro config plan hplan
  exact (Schema.reliable_of_compile hs).structs_reliable.not_included (p := .int8) (by decide) hplan

end WireSchema
