import WireSchema.Plan
import WireSchema.Proofs.FixedSizes

/-! What more definitions do to those that were there before: nothing. Neither what a name stands
for changes nor what is planned for it, although sizes are worked out in another order and with
another memo. -/
namespace WireSchema

/-- The second table has the entries of the first, in the same order, and finds them. -/
structure Table.Extends {α : Type} (t t' : Table α) : Prop where
  sublist : t.toList.Sublist t'.toList
  get? : ∀ name a, t.get? name = some a → t'.get? name = some a

/-- A sublist with sound tables on both sides is an extension. -/
theorem Table.extends_of_sublist {α : Type} {t t' : Table α} (h : t.Sound) (h' : t'.Sound)
    (hs : t.toList.Sublist t'.toList) : t.Extends t' := by
  refine ⟨hs, fun name a ha => ?_⟩
  rw [get?_eq_some_iff h] at ha
  rw [get?_eq_some_iff h']
  exact hs.subset ha

section Fields
variable {env env' : String → Option Value} {structs : List String} {f : FieldDef}

theorem DefaultExpr.value?_mono (h : ∀ name v, env name = some v → env' name = some v)
    {e : DefaultExpr} {v : Value} (hv : e.value? env = some v) : e.value? env' = some v := by
  cases e with
  | literal l => exact hv
  | constant name loc => exact h name v hv

theorem LengthExpr.value?_mono (h : ∀ name v, env name = some v → env' name = some v)
    {e : LengthExpr} {v : Value} (hv : e.value? env = some v) : e.value? env' = some v := by
  cases e with
  | literal n loc => exact hv
  | constant name loc => exact h name v hv

/-- The constants that a field needs are there, and more constants do not change it. -/
theorem FieldDef.elaborate_mono (h : ∀ name v, env name = some v → env' name = some v)
    (hf : f.WellFormed env structs) : f.elaborate env = f.elaborate env' := by
  have hr := (Schema.resolves_and_checks_iff.2 hf).1
  have hlength : ∀ e, f.type.length? = some e → e.value? env = e.value? env' := by
    intro e he
    obtain ⟨v, hv⟩ := Option.isSome_iff_exists.1 (hr.length_known e he)
    rw [hv, LengthExpr.value?_mono h hv]
  have hdefault : f.default.bind (·.value? env) = f.default.bind (·.value? env') := by
    refine Option.bind_congr fun e he => ?_
    obtain ⟨v, hv⟩ := Option.isSome_iff_exists.1 (hr.default_known e he)
    rw [hv, DefaultExpr.value?_mono h hv]
  have hshape : (f.elaborate env).shape = (f.elaborate env').shape := by
    cases ht : f.type with
    | named T => simp [elaborate, ht, TypeExpr.shape]
    | vector T length =>
      simp only [elaborate, ht, TypeExpr.shape, Shape.vector.injEq]
      refine Option.bind_congr fun e he => ?_
      rw [hlength e (by rw [ht]; exact he)]
  rw [elaborate, hdefault]
  exact congrArg (fun shape => Field.mk _ shape _ _) hshape

end Fields

namespace Document
variable {doc ext : Document} (h : doc.Sublist ext)
include h

theorem constants_sublist : doc.constants.Sublist ext.constants := h.filterMap _

theorem structs_sublist : doc.structs.Sublist ext.structs := h.filterMap _

theorem services_sublist : doc.services.Sublist ext.services := h.filterMap _

theorem constants_extends (hw : doc.WellFormed) (he : ext.WellFormed) :
    doc.elaborate.constants.Extends ext.elaborate.constants := by
  refine Table.extends_of_sublist (sound_elaborate_constants hw.constants_nodup)
    (sound_elaborate_constants he.constants_nodup) ?_
  simp only [elaborate, Table.toList_ofList]
  exact (constants_sublist h).map _

/-- A struct keeps its elaboration, as it only mentions what was there before. -/
theorem structs_extends (hw : doc.WellFormed) (he : ext.WellFormed) :
    doc.elaborate.structs.Extends ext.elaborate.structs := by
  have henv : ∀ name v, doc.constantValue? name = some v → ext.constantValue? name = some v := by
    rw [← get?_elaborate_constants hw.constants_nodup,
      ← get?_elaborate_constants he.constants_nodup]
    exact (constants_extends h hw he).get?
  have hstruct : ∀ s ∈ doc.structs,
      (s.name, s.elaborate doc.constantValue?) = (s.name, s.elaborate ext.constantValue?) := by
    intro s hs
    have hfields : s.fields.map (fun f => (f.name, f.elaborate doc.constantValue?)) =
        s.fields.map fun f => (f.name, f.elaborate ext.constantValue?) := by
      refine List.map_congr_left fun f hf => ?_
      rw [FieldDef.elaborate_mono henv (hw.fields_wellFormed s hs f hf)]
    rw [StructDef.elaborate, hfields]
    rfl
  refine Table.extends_of_sublist (sound_elaborate_structs hw.structs_nodup)
    (sound_elaborate_structs he.structs_nodup) ?_
  simp only [elaborate, Table.toList_ofList]
  rw [List.map_congr_left hstruct]
  exact (structs_sublist h).map _

theorem services_extends (hw : doc.WellFormed) (he : ext.WellFormed) :
    doc.elaborate.services.Extends ext.elaborate.services := by
  refine Table.extends_of_sublist (sound_elaborate_services hw.services_nodup)
    (sound_elaborate_services he.services_nodup) ?_
  simp only [elaborate, Table.toList_ofList]
  exact (services_sublist h).map _

end Document

namespace WireSize
variable {structs structs' : Table Struct} {S T : String} {s : Struct} {a : WireSize}
  {fs : List Field} {ps : List Primitive}

section Growth
variable (h : structs.Extends structs')
include h

theorem contains_mono (hST : Contains structs S T) : Contains structs' S T := by
  obtain ⟨s, hs, hf⟩ := hST
  exact ⟨s, h.get? S s hs, hf⟩

/-- A struct that was there contains what it contained. -/
theorem contains_of_extends (hs : structs.get? S = some s) (hST : Contains structs' S T) :
    Contains structs S T := by
  obtain ⟨s', hs', hf⟩ := hST
  rw [h.get? S s hs] at hs'
  cases hs'
  exact ⟨s, hs, hf⟩

/-- From a struct that was there, one reaches only what was there and was reached before. -/
theorem reaches_of_extends (hc : Closed structs) (hs : structs.get? S = some s)
    (hST : Relation.ReflTransGen (Contains structs') S T) :
    Relation.ReflTransGen (Contains structs) S T ∧ ∃ t, structs.get? T = some t := by
  induction hST with
  | refl => exact ⟨.refl, s, hs⟩
  | tail _ hTU ih =>
    obtain ⟨hST, t, ht⟩ := ih
    have hold := contains_of_extends h ht hTU
    exact ⟨hST.tail hold, hc _ _ hold⟩

/-- A struct of the smaller table contains nothing but structs of it, so what varies was there
before. -/
theorem varies_of_extends (hc : Closed structs) (hs : structs.get? S = some s)
    (hv : Varies structs' S) : Varies structs S := by
  obtain ⟨T, hST, hT⟩ := hv
  obtain ⟨hold, t, ht⟩ := reaches_of_extends h hc hs hST
  refine ⟨T, hold, ?_⟩
  rcases hT with ⟨t', ht', hunbounded⟩ | hcycle
  · rw [h.get? T t ht] at ht'
    cases ht'
    exact Or.inl ⟨t, ht, hunbounded⟩
  -- The cycle starts at a struct that was there, so each struct on it was there.
  · obtain ⟨U, hTU, hUT⟩ := Relation.TransGen.head'_iff.1 hcycle
    have hfirst := contains_of_extends h ht hTU
    obtain ⟨u, hu⟩ := hc T U hfirst
    exact Or.inr (.head' hfirst (reaches_of_extends h hc hu hUT).1)

theorem varies_mono (hv : Varies structs S) : Varies structs' S := by
  obtain ⟨T, hST, hT⟩ := hv
  refine ⟨T, Relation.ReflTransGen.mono (fun _ _ => contains_mono h) _ _ hST, ?_⟩
  rcases hT with ⟨t, ht, hunbounded⟩ | hcycle
  · exact Or.inl ⟨t, h.get? T t ht, hunbounded⟩
  · exact Or.inr (Relation.TransGen.mono (fun _ _ => contains_mono h) _ _ hcycle)

theorem unfolds_mono (hu : Unfolds structs fs ps) : Unfolds structs' fs ps := by
  induction hu with
  | nil => exact .nil
  | primitive hshape htype _ ih => exact .primitive hshape htype ih
  | struct hshape htype hT _ _ ihT ih => exact .struct hshape htype (h.get? _ _ hT) ihT ih

/-- A struct that was there keeps its size. -/
theorem hasSize_mono (hc : Closed structs) (hs : structs.get? S = some s)
    (ha : HasSize structs S a) : HasSize structs' S a := by
  cases ha with
  | undeclared hnone =>
    rw [hs] at hnone
    cases hnone
  | varies hv => exact .varies (varies_mono h hv)
  | unfolds hn hs' hu =>
    exact .unfolds (mt (varies_of_extends h hc hs) hn) (h.get? S _ hs') (unfolds_mono h hu)

end Growth
end WireSize

namespace Plan
variable {structs structs' : Table Struct} {limit : Nat} {entry : String × Struct}
  {plan : StructPlan}

/-- The plan of a struct, told without a memo. -/
def Planned (structs : Table Struct) (limit : Nat) (entry : String × Struct) (plan : StructPlan) :
    Prop :=
  ∃ size fixedSize, WireSize.HasSize structs entry.1 size ∧
    fitting entry.1 limit size = .ok fixedSize ∧ plan = ofStruct entry.1 entry.2 fixedSize

/-- Each struct is planned by itself, though the sizes of others are remembered on the way. -/
theorem ofStructs_eq_ok_iff (hc : WireSize.Closed structs) {memo : WireSize.Memo}
    (hm : WireSize.MemoRight structs memo) {entries : List (String × Struct)}
    {plans : List StructPlan} :
    ofStructs structs limit memo entries = .ok plans ↔
      List.Forall₂ (Planned structs limit) entries plans := by
  induction entries generalizing memo plans with
  | nil =>
    rw [ofStructs, List.forall₂_nil_left_iff, Except.ok.injEq, eq_comm]
  | cons entry rest ih =>
    obtain ⟨name, s⟩ := entry
    obtain ⟨hsize, hm'⟩ := WireSize.ofStruct_right hc hm (S := name)
    simp only [ofStructs, bind_eq_ok, ih hm', pure_eq_ok, Except.ok.injEq]
    rw [List.forall₂_cons_left_iff]
    constructor
    · rintro ⟨fixedSize, hfit, plans, hplans, rfl⟩
      exact ⟨_, plans, ⟨_, fixedSize, hsize, hfit, rfl⟩, hplans, rfl⟩
    · rintro ⟨_, plans, ⟨size, fixedSize, hsize', hfit, rfl⟩, hplans, rfl⟩
      rw [← WireSize.hasSize_unique hsize hsize'] at hfit
      exact ⟨fixedSize, hfit, plans, hplans, rfl⟩

/-- Whatever is planned for a struct among more structs is planned for it alone. -/
theorem planned_of_extends (h : structs.Extends structs') (hc : WireSize.Closed structs)
    {s : Struct} (hs : structs.get? entry.1 = some s) (hp : Planned structs' limit entry plan) :
    Planned structs limit entry plan := by
  obtain ⟨size, fixedSize, hsize, hfit, hplan⟩ := hp
  -- Alone it has some size; that is also its size among more structs, and there it has only one.
  have hold := (WireSize.ofStruct_right hc WireSize.memoRight_empty (S := entry.1)).1
  have hsame := WireSize.hasSize_unique (WireSize.hasSize_mono h hc hs hold) hsize
  rw [hsame] at hold
  exact ⟨size, fixedSize, hold, hfit, hplan⟩

theorem forall₂_of_sublist {α β : Type} {R : α → β → Prop} {l l' : List α} {m : List β}
    (hl : l.Sublist l') (h : List.Forall₂ R l' m) : ∃ k, k.Sublist m ∧ List.Forall₂ R l k := by
  induction hl generalizing m with
  | slnil => exact ⟨m, .refl m, h⟩
  | cons a _ ih =>
    obtain ⟨b, m', -, hm', rfl⟩ := List.forall₂_cons_left_iff.1 h
    obtain ⟨k, hk, hR⟩ := ih hm'
    exact ⟨k, hk.cons b, hR⟩
  | cons_cons a _ ih =>
    obtain ⟨b, m', hb, hm', rfl⟩ := List.forall₂_cons_left_iff.1 h
    obtain ⟨k, hk, hR⟩ := ih hm'
    exact ⟨b :: k, hk.cons_cons b, .cons hb hR⟩

/-- The plans of the structs that were there are the same. -/
theorem ofStructs_of_extends (h : structs.Extends structs') (hs : structs.Sound)
    (hc : WireSize.Closed structs) (hc' : WireSize.Closed structs') {plans' : List StructPlan}
    (hp : ofStructs structs' limit {} structs'.toList = .ok plans') :
    ∃ plans, ofStructs structs limit {} structs.toList = .ok plans ∧ plans.Sublist plans' := by
  rw [ofStructs_eq_ok_iff hc' WireSize.memoRight_empty] at hp
  obtain ⟨plans, hsub, hplans⟩ := forall₂_of_sublist h.sublist hp
  refine ⟨plans, (ofStructs_eq_ok_iff hc WireSize.memoRight_empty).2 ?_, hsub⟩
  have hknown : ∀ e ∈ structs.toList, structs.get? e.1 = some e.2 := fun e he =>
    (Table.get?_eq_some_iff hs).2 he
  refine List.Forall₂.imp ?_ ((List.forall₂_and_left _ _).2 ⟨hknown, hplans⟩)
  rintro e plan ⟨he, hplan⟩
  exact planned_of_extends h hc he hplan

theorem ofSchema_eq_ok_iff {schema : Schema} {config : ProjectConfig} {plan : Plan} :
    ofSchema schema config = .ok plan ↔ config.check = .ok () ∧
      ∃ structs, ofStructs schema.structs config.maxMessageSize {} schema.structs.toList =
        .ok structs ∧
        { config, rpcVersion := WireSchema.rpcVersion,
          constants := schema.constants.toList, structs,
          services := schema.services.toList.map fun s => ofService s.1 s.2,
          options := schema.options.toList } = plan := by
  simp only [ofSchema, bind_eq_ok, mapError_eq_ok, pure_eq_ok, Except.ok.injEq]
  constructor
  · rintro ⟨_, hcheck, h⟩
    exact ⟨hcheck, h⟩
  · rintro ⟨hcheck, h⟩
    exact ⟨(), hcheck, h⟩

end Plan

/-- Definitions that are added, at whatever places, leave all others as they were: constants,
structs and services keep their entries and their order, and the plan of each struct and service is
part of the new plan. -/
theorem Compilation.ofDocument_sublist {doc ext : Document} (h : doc.Sublist ext)
    {schema schema' : Schema} (hdoc : (ofDocument doc).outcome = .ok schema)
    (hext : (ofDocument ext).outcome = .ok schema') :
    schema.constants.Extends schema'.constants ∧ schema.structs.Extends schema'.structs ∧
      schema.services.Extends schema'.services ∧
      ∀ config plan', Plan.ofSchema schema' config = .ok plan' →
        ∃ plan, Plan.ofSchema schema config = .ok plan ∧
          plan.structs.Sublist plan'.structs ∧ plan.services.Sublist plan'.services := by
  obtain ⟨hw, rfl⟩ := ofDocument_outcome_eq_ok_iff.1 hdoc
  obtain ⟨hw', rfl⟩ := ofDocument_outcome_eq_ok_iff.1 hext
  have hstructs := Document.structs_extends h hw hw'
  have hservices := Document.services_extends h hw hw'
  refine ⟨Document.constants_extends h hw hw', hstructs, hservices, ?_⟩
  intro config plan' hplan'
  obtain ⟨hcheck, plans', hplans', rfl⟩ := Plan.ofSchema_eq_ok_iff.1 hplan'
  obtain ⟨plans, hplans, hsub⟩ := Plan.ofStructs_of_extends hstructs
    (Document.sound_elaborate_structs hw.structs_nodup) (WireSize.closed_of_wellFormed hw)
    (WireSize.closed_of_wellFormed hw') hplans'
  exact ⟨_, Plan.ofSchema_eq_ok_iff.2 ⟨hcheck, plans, hplans, rfl⟩, hsub, hservices.sublist.map _⟩

/-- A struct that is put before those it contains is the first whose size is asked for. -/
theorem Compilation.ofDocument_sublist_outer :
    let inner : Definition := .struct ⟨"B", [⟨"x", .named "double", none, ⟨1, 10⟩⟩], ⟨1, 1⟩⟩
    let outer : Definition := .struct ⟨"C", [⟨"b", .named "B", none, ⟨2, 10⟩⟩], ⟨2, 1⟩⟩
    let service : Definition := .service ⟨"S", [⟨"m", "B", "C", ⟨3, 11⟩⟩], ⟨3, 1⟩⟩
    ∃ schema schema' plan plan', (ofDocument [inner]).outcome = .ok schema ∧
      (ofDocument [outer, service, inner]).outcome = .ok schema' ∧
      Plan.ofSchema schema' {} = .ok plan' ∧ Plan.ofSchema schema {} = .ok plan ∧
      plan.structs.Sublist plan'.structs ∧ plan.services.Sublist plan'.services ∧
      schema.structs.Extends schema'.structs := by
  intro inner outer service
  have hold : (ofDocument [inner]).outcome.toOption.isSome = true := by decide +kernel
  have hnew : (ofDocument [outer, service, inner]).outcome.toOption.isSome = true := by
    decide +kernel
  obtain ⟨schema, hschema⟩ := exists_ok_of_isSome hold
  obtain ⟨schema', hschema'⟩ := exists_ok_of_isSome hnew
  obtain ⟨-, hextends, -, hplans⟩ :=
    ofDocument_sublist (.cons _ (.cons _ (.refl [inner]))) hschema hschema'
  have hplan : ∃ plan', Plan.ofSchema schema' {} = .ok plan' := by
    obtain ⟨hw, rfl⟩ := ofDocument_outcome_eq_ok_iff.1 hschema'
    have hsound := Document.sound_elaborate_structs hw.structs_nodup
    have hB := (Table.get?_eq_some_iff hsound).2 (.tail _ (.head []))
    have hC := (Table.get?_eq_some_iff hsound).2 (.head _)
    have hsizeB := WireSize.hasSize_of_fields hB (WireSize.hasFieldsSize_primitive rfl rfl)
    have hsizeC := WireSize.hasSize_of_fields hC (WireSize.hasFieldsSize_struct rfl rfl hB hsizeB)
    have hplanC : Plan.Planned _ 65536 _ _ := ⟨_, some 8, hsizeC, rfl, rfl⟩
    have hplanB : Plan.Planned _ 65536 _ _ := ⟨_, some 8, hsizeB, rfl, rfl⟩
    have hplanned := (Plan.ofStructs_eq_ok_iff (WireSize.closed_of_wellFormed hw)
      WireSize.memoRight_empty).2 (.cons hplanC (.cons hplanB .nil))
    exact ⟨_, Plan.ofSchema_eq_ok_iff.2 ⟨by decide, _, hplanned, rfl⟩⟩
  obtain ⟨plan', hplan'⟩ := hplan
  obtain ⟨plan, hplan, hsub⟩ := hplans {} plan' hplan'
  exact ⟨schema, schema', plan, plan', hschema, hschema', hplan', hplan, hsub.1, hsub.2, hextends⟩

end WireSchema
