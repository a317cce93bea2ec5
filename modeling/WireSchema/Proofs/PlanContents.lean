import WireSchema.Proofs.TypeNames

/-! What a plan holds is what its schema holds, in the same order, and no name in it leads out of
it: the structs that a struct includes and the messages of a service are structs of the plan. -/
namespace WireSchema

/-! ## The parts of a plan -/

/-- The plan of a field tells all of the field but its place. -/
structure FieldPlan.Tells (p : FieldPlan) (entry : String × Field) : Prop where
  name : p.name = entry.1
  typeName : p.typeName = entry.2.type.name
  fieldClass : p.fieldClass = entry.2.fieldClass
  fixedLength : p.fixedLength = entry.2.shape.capacity?
  default : p.default = entry.2.default
  wireSize : p.wireSize.isSome = true ↔
    p.fieldClass = .scalarPrimitive ∨ p.fieldClass = .vectorOfPrimitive

/-- The place of the first field that uses the struct; behind all fields if none does. -/
def firstUse (fields : List Field) (T : String) : Nat := fields.findIdx fun f => f.type = .struct T

/-- The list names each struct that a field uses, once, and in the order of first use. -/
structure IncludesOf (fields : List Field) (includes : List String) : Prop where
  nodup : includes.Nodup
  mem_iff : ∀ T, T ∈ includes ↔ ∃ f ∈ fields, f.type.isUserDefined = true ∧ f.type.name = T
  ordered : includes.Pairwise fun T U => firstUse fields T < firstUse fields U

/-- The plan has a struct of that name, and finds it. -/
def Plan.Knows (plan : Plan) (T : String) : Prop :=
  ∃ q ∈ plan.structs, q.name = T ∧ plan.struct? T = some q

structure StructPlan.Tells (plan : Plan) (p : StructPlan) (entry : String × Struct) : Prop where
  name : p.name = entry.1
  fields : List.Forall₂ FieldPlan.Tells p.fields entry.2.fields.toList
  includes : IncludesOf entry.2.fields.values p.includes
  includes_known : ∀ T ∈ p.includes, plan.Knows T

structure DispatchEntry.Tells (d : DispatchEntry) (entry : String × Method) : Prop where
  id : d.id = entry.2.id
  method : d.method = entry.1
  request : d.request = entry.2.request
  response : d.response = entry.2.response

structure ServicePlan.Tells (plan : Plan) (p : ServicePlan) (entry : String × Service) : Prop where
  name : p.name = entry.1
  dispatch : List.Forall₂ DispatchEntry.Tells p.dispatch entry.2.methods.toList
  ids : ∀ i d, p.dispatch[i]? = some d → i < 2 ^ 32 → d.id.toNat = i
  messages_known : ∀ d ∈ p.dispatch, plan.Knows d.request ∧ plan.Knows d.response

structure Plan.Tells (plan : Plan) (s : Schema) : Prop where
  constants : plan.constants = s.constants.toList
  structs : List.Forall₂ (StructPlan.Tells plan) plan.structs s.structs.toList
  services : List.Forall₂ (ServicePlan.Tells plan) plan.services s.services.toList
  options : plan.options = s.options.toList

/-! ## Includes -/

theorem TypeRef.eq_struct_iff {r : TypeRef} {T : String} :
    r = .struct T ↔ r.isUserDefined = true ∧ r.name = T := by
  cases r <;> simp [isUserDefined, primitive?, name]

section Includes
variable {fields : List Field} {f : Field} {T U : String}

/-- A further field changes no first use. -/
theorem firstUse_concat_of_used (h : ∃ g ∈ fields, g.type = .struct T) :
    firstUse (fields ++ [f]) T = firstUse fields T ∧ firstUse fields T < fields.length := by
  have hlt : firstUse fields T < fields.length := by
    obtain ⟨g, hg, hT⟩ := h
    exact List.findIdx_lt_length_of_exists ⟨g, hg, by simpa using hT⟩
  refine ⟨?_, hlt⟩
  unfold firstUse at hlt ⊢
  rw [List.findIdx_append, if_pos hlt]

theorem firstUse_concat_of_new (h : ∀ g ∈ fields, g.type ≠ .struct T) (hf : f.type = .struct T) :
    firstUse (fields ++ [f]) T = fields.length := by
  have hnone : fields.findIdx (fun g => g.type = .struct T) = fields.length :=
    List.findIdx_eq_length.2 fun g hg => by simpa using h g hg
  unfold firstUse
  rw [List.findIdx_append, hnone, if_neg (lt_irrefl _)]
  simp [List.findIdx_cons, hf]

namespace Plan

theorem mem_includesOf_iff : T ∈ includesOf fields ↔ ∃ g ∈ fields, g.type = .struct T := by
  simp only [mem_includesOf, TypeRef.eq_struct_iff]

/-- One more field adds the struct it uses, if that is a new one, and nothing else. -/
theorem includesOf_concat (fields : List Field) (f : Field) :
    includesOf (fields ++ [f]) = includesOf fields ∨
      ∃ T, f.type = .struct T ∧ T ∉ includesOf fields ∧
        includesOf (fields ++ [f]) = includesOf fields ++ [T] := by
  cases hf : f.type with
  | primitive p =>
    left
    simp [includesOf, hf, TypeRef.isUserDefined, TypeRef.primitive?]
  | struct T =>
    simp only [includesOf, List.mem_eraseDups, List.filterMap_append, List.filterMap_cons, hf,
      TypeRef.isUserDefined, TypeRef.primitive?, TypeRef.name, Option.isNone_none, if_true,
      List.filterMap_nil]
    by_cases hT :
        T ∈ fields.filterMap fun f => if f.type.isUserDefined then some f.type.name else none
    · exact Or.inl (Schema.eraseDups_concat_known hT)
    · exact Or.inr ⟨T, rfl, hT, Schema.eraseDups_concat_new hT⟩

theorem includesOf_ordered (fields : List Field) :
    (includesOf fields).Pairwise fun T U => firstUse fields T < firstUse fields U := by
  induction fields using List.reverseRecOn with
  | nil => exact .nil
  | append_singleton fields f ih =>
    -- The structs used so far keep the places of their first uses, and these are before `f`.
    have hused {T : String} (hT : T ∈ includesOf fields) :
        firstUse (fields ++ [f]) T = firstUse fields T ∧ firstUse fields T < fields.length :=
      firstUse_concat_of_used (mem_includesOf_iff.1 hT)
    have hkept : (includesOf fields).Pairwise fun T U =>
        firstUse (fields ++ [f]) T < firstUse (fields ++ [f]) U := by
      refine ih.imp_of_mem ?_
      intro T U hT hU hlt
      rwa [(hused hT).1, (hused hU).1]
    rcases includesOf_concat fields f with hsame | ⟨T, hf, hT, hnew⟩
    · rwa [hsame]
    · have hlast : firstUse (fields ++ [f]) T = fields.length := by
        refine firstUse_concat_of_new (fun g hg hgT => hT ?_) hf
        exact mem_includesOf_iff.2 ⟨g, hg, hgT⟩
      rw [hnew, List.pairwise_append]
      refine ⟨hkept, List.pairwise_singleton _ _, ?_⟩
      intro U hU V hV
      rw [List.mem_singleton.1 hV, hlast, (hused hU).1]
      exact (hused hU).2

theorem includesOf_spec (fields : List Field) : IncludesOf fields (includesOf fields) where
  nodup := Schema.eraseDups_nodup _
  mem_iff _ := mem_includesOf
  ordered := includesOf_ordered fields

end Plan
end Includes

/-! ## The plan -/

namespace Plan
variable {s : Schema} {config : ProjectConfig} {plan : Plan} {T : String}

theorem tells_ofField (name : String) (f : Field) : (ofField name f).Tells (name, f) := by
  refine ⟨rfl, rfl, rfl, rfl, rfl, ?_⟩
  obtain ⟨type, shape, default, loc⟩ := f
  cases shape <;> cases type with
  | struct T => simp [ofField, Field.fieldClass, TypeRef.primitive?]
  | primitive p =>
    cases p <;> simp [ofField, Field.fieldClass, TypeRef.primitive?, Primitive.wireSize?]

/-- Each struct is found by its name, since no name is listed twice. -/
theorem knows_of_mem (hnodup : (plan.structs.map StructPlan.name).Nodup)
    (hT : T ∈ plan.structs.map StructPlan.name) : plan.Knows T := by
  obtain ⟨q, hq, rfl⟩ := List.mem_map.1 hT
  obtain ⟨r, hr⟩ := Option.isSome_iff_exists.1
    (List.find?_isSome (p := fun r => r.name = q.name).2 ⟨q, hq, by simp⟩)
  have hname : r.name = q.name := by simpa using List.find?_some hr
  have hrq := List.inj_on_of_nodup_map hnodup (List.mem_of_find?_eq_some hr) hq hname
  exact ⟨q, hq, rfl, hrq ▸ hr⟩

theorem names_of_ofSchema (h : ofSchema s config = .ok plan) :
    plan.structs.map StructPlan.name = s.structs.names := by
  have hnames := congrArg (List.map Prod.fst) (includes_of_ofSchema h)
  simpa [Table.names, Function.comp_def] using hnames

/-- The names that a compiled schema has for structs are those that its plan knows. -/
theorem knows_of_contains (hs : s.structs.Sound) (h : ofSchema s config = .ok plan)
    (hT : s.structs.contains T = true) : plan.Knows T := by
  have hnames := names_of_ofSchema h
  refine knows_of_mem ?_ ?_
  · rw [hnames]
    exact hs.nodup
  · rw [hnames]
    exact (Table.contains_iff hs).1 hT

section Tells
variable {constants : Table Value} (hs : Schema.ReliableStructs constants s.structs)
  (h : ofSchema s config = .ok plan)
include hs h

theorem tells_ofStruct {entry : String × Struct} (he : entry ∈ s.structs.toList)
    (fixedSize : Option Nat) : (ofStruct entry.1 entry.2 fixedSize).Tells plan entry where
  name := rfl
  fields := by
    refine List.forall₂_map_left_iff.2 (List.forall₂_same.2 ?_)
    rintro ⟨name, f⟩ -
    exact tells_ofField name f
  includes := includesOf_spec _
  includes_known := by
    intro T hT
    obtain ⟨f, hf, huser, rfl⟩ := mem_includesOf.1 hT
    obtain ⟨x, hx, rfl⟩ := List.mem_map.1 hf
    have hreliable := hs.fields_reliable entry he x hx
    exact knows_of_contains hs.sound h (hreliable.struct_known (hreliable.userDefined_iff.1 huser))

theorem tells_ofService {services : Table Service}
    (hv : Schema.ReliableServices constants s.structs services) {entry : String × Service}
    (he : entry ∈ services.toList) : (ofService entry.1 entry.2).Tells plan entry where
  name := rfl
  dispatch := by
    refine List.forall₂_map_left_iff.2 (List.forall₂_same.2 ?_)
    intro m _
    exact ⟨rfl, rfl, rfl, rfl⟩
  ids := by
    intro i d hd hi
    obtain ⟨m, hm, rfl⟩ := Option.map_eq_some_iff.1 (List.getElem?_map.symm.trans hd)
    exact (hv.method_ids entry he i m hm).2 hi
  messages_known := by
    intro d hd
    obtain ⟨m, hm, rfl⟩ := List.mem_map.1 hd
    obtain ⟨hrequest, hresponse⟩ := hv.messages_known entry he m hm
    exact ⟨knows_of_contains hs.sound h hrequest, knows_of_contains hs.sound h hresponse⟩

end Tells

/-- A plan of a compiled schema tells the schema: the same things in the same order, each struct
with the structs it includes, each method with its number, and no name that the plan does not
know. -/
theorem tells_of_ofSchema {text : String} {log : Log} (hc : (compile text log).2 = .ok s)
    (h : ofSchema s config = .ok plan) : plan.Tells s := by
  obtain ⟨-, hstructs, hservices⟩ := Schema.reliable_of_compile hc
  obtain ⟨doc, -, hw, rfl⟩ := compile_ok_iff.1 hc
  obtain ⟨-, plans, hplans, hplan⟩ := ofSchema_eq_ok_iff.1 h
  rw [ofStructs_eq_ok_iff (WireSize.closed_of_wellFormed hw) WireSize.memoRight_empty] at hplans
  have hconstants : plan.constants = doc.elaborate.constants.toList := hplan ▸ rfl
  have hoptions : plan.options = doc.elaborate.options.toList := hplan ▸ rfl
  have hlist : plan.structs = plans := hplan ▸ rfl
  have hserve : plan.services = doc.elaborate.services.toList.map fun s => ofService s.1 s.2 :=
    hplan ▸ rfl
  refine ⟨hconstants, ?_, ?_, hoptions⟩
  · rw [hlist]
    have hmem : ∀ entry ∈ doc.elaborate.structs.toList, entry ∈ doc.elaborate.structs.toList :=
      fun _ => id
    refine (List.Forall₂.imp ?_ ((List.forall₂_and_left _ _).2 ⟨hmem, hplans⟩)).flip
    rintro entry p ⟨he, _, fixedSize, -, -, rfl⟩
    exact tells_ofStruct hstructs h he fixedSize
  · rw [hserve]
    refine List.forall₂_map_left_iff.2 (List.forall₂_same.2 ?_)
    intro entry he
    exact tells_ofService hstructs h hservices he

/-- A struct is used by a vector, then another one, then the first again. -/
theorem tells_of_ofSchema_reused :
    ∃ s plan,
      (compile "struct A{c:vector<C> b:B d:C}struct B{x:double}struct C{s:string}service S{z:A->B}"
        {}).2 = .ok s ∧
      ofSchema s {} = .ok plan ∧ plan.Tells s ∧
      plan.structs.map StructPlan.includes = [["C", "B"], [], []] := by
  have hdoc : Document.ofText
      "struct A{c:vector<C> b:B d:C}struct B{x:double}struct C{s:string}service S{z:A->B}" =
      .ok [.struct ⟨"A", [⟨"c", .vector "C" none, none, ⟨1, 10⟩⟩, ⟨"b", .named "B", none, ⟨1, 22⟩⟩,
          ⟨"d", .named "C", none, ⟨1, 26⟩⟩], ⟨1, 1⟩⟩,
        .struct ⟨"B", [⟨"x", .named "double", none, ⟨1, 39⟩⟩], ⟨1, 30⟩⟩,
        .struct ⟨"C", [⟨"s", .named "string", none, ⟨1, 57⟩⟩], ⟨1, 48⟩⟩,
        .service ⟨"S", [⟨"z", "A", "B", ⟨1, 76⟩⟩], ⟨1, 66⟩⟩] := by
    decide +kernel
  obtain ⟨hw, hs⟩ := compile_of_document {} hdoc (by decide +kernel)
  have hsound := Document.sound_elaborate_structs hw.structs_nodup
  have hA := (Table.get?_eq_some_iff hsound).2 (.head _)
  have hB := (Table.get?_eq_some_iff hsound).2 (.tail _ (.head _))
  have hC := (Table.get?_eq_some_iff hsound).2 (.tail _ (.tail _ (.head _)))
  have hsizeC := WireSize.hasSize_of_fields hC (WireSize.hasFieldsSize_primitive rfl rfl)
  have hsizeB := WireSize.hasSize_of_fields hB (WireSize.hasFieldsSize_primitive rfl rfl)
  have hsizeA := WireSize.hasSize_of_fields hA (WireSize.hasFieldsSize_cons
    (WireSize.hasFieldsSize_vector rfl) (WireSize.hasFieldsSize_cons
      (WireSize.hasFieldsSize_struct rfl rfl hB hsizeB)
      (WireSize.hasFieldsSize_struct rfl rfl hC hsizeC)))
  have hplanA : Planned _ 65536 _ _ := ⟨_, none, hsizeA, rfl, rfl⟩
  have hplanB : Planned _ 65536 _ _ := ⟨_, some 8, hsizeB, rfl, rfl⟩
  have hplanC : Planned _ 65536 _ _ := ⟨_, none, hsizeC, rfl, rfl⟩
  have hplans := (ofStructs_eq_ok_iff (WireSize.closed_of_wellFormed hw)
    WireSize.memoRight_empty).2 (.cons hplanA (.cons hplanB (.cons hplanC .nil)))
  have hplan : ofSchema _ {} = .ok _ := ofSchema_eq_ok_iff.2 ⟨by decide, _, hplans, rfl⟩
  exact ⟨_, _, hs, hplan, tells_of_ofSchema hs hplan, by decide +kernel⟩

end Plan
end WireSchema
