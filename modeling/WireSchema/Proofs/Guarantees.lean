import WireSchema.Proofs.EndOfText
import WireSchema.Proofs.Findings

/-! What whoever reads a schema may rely on. The passes may be given different documents, so that
nothing can be taken from one document as a whole: each promise is kept by the pass that makes it,
and by those behind it. -/
namespace WireSchema

/-- What is promised of a field beside the structs of its schema. -/
structure Field.Reliable (structs : Table Struct) (f : Field) : Prop where
  userDefined_iff : f.type.isUserDefined = true ↔ f.type.primitive? = none
  primitive_name : ∀ p, f.type.primitive? = some p → p.name = f.type.name
  /-- A struct with the name of a primitive is never meant. -/
  primitive_hides : f.type.primitive? = Primitive.ofName? f.type.name
  struct_known : f.type.primitive? = none → structs.contains f.type.name = true
  capacity_range : ∀ n, f.shape.capacity? = some n →
    f.shape.isVector = true ∧ 1 ≤ n ∧ n < 2 ^ 32
  default_fits : ∀ v, f.default = some v → ∃ p, f.type.primitive? = some p ∧
    (f.shape.isVector = true → ∃ items, v = .list items ∧ items ≠ []) ∧
    (f.shape.isVector = false → ∃ s, v = .scalar s) ∧
    ∀ s ∈ v.items, s.kind = p.kind ∧ s.InRange p

namespace Schema

structure ReliableConstants (constants : Table Value) : Prop where
  sound : constants.Sound
  uniform : ∀ c ∈ constants.toList, c.2.Uniform

structure ReliableStructs (constants : Table Value) (structs : Table Struct) : Prop where
  sound : structs.Sound
  not_constants : structs.names.Disjoint constants.names
  fields_sound : ∀ s ∈ structs.toList, s.2.fields.Sound
  fields_ne_nil : ∀ s ∈ structs.toList, s.2.fields.toList ≠ []
  fields_reliable : ∀ s ∈ structs.toList, ∀ f ∈ s.2.fields.toList, f.2.Reliable structs

structure ReliableServices (constants : Table Value) (structs : Table Struct)
    (services : Table Service) : Prop where
  sound : services.Sound
  not_structs : services.names.Disjoint structs.names
  not_constants : services.names.Disjoint constants.names
  methods_sound : ∀ s ∈ services.toList, s.2.methods.Sound
  methods_ne_nil : ∀ s ∈ services.toList, s.2.methods.toList ≠ []
  /-- A method is called by its place, as far as 32 bits can tell places apart. -/
  method_ids : ∀ s ∈ services.toList, ∀ i m, s.2.methods.toList[i]? = some m →
    m.2.id = .ofNat i ∧ (i < 2 ^ 32 → m.2.id.toNat = i)
  messages_known : ∀ s ∈ services.toList, ∀ m ∈ s.2.methods.toList,
    structs.contains m.2.request = true ∧ structs.contains m.2.response = true

/-- What is promised of the tables of a schema. -/
structure Reliable (constants : Table Value) (structs : Table Struct) (services : Table Service) :
    Prop where
  constants_reliable : ReliableConstants constants
  structs_reliable : ReliableStructs constants structs
  services_reliable : ReliableServices constants structs services

end Schema

namespace Grammar
variable {α : Type} {G : List Lexeme → α → Prop} {ts : List Lexeme} {xs : List α}

theorem Many.ne_nil (h : Many G ts xs) : xs ≠ [] := by
  cases h <;> simp

/-- What is repeated is derived from some of the tokens. -/
theorem Many.exists_subset (h : Many G ts xs) : ∀ x ∈ xs, ∃ us, G us x ∧ us ⊆ ts := by
  induction h with
  | one hx => simpa using ⟨_, hx, List.Subset.refl _⟩
  | @cons ts us x xs hx _ ih =>
    refine List.forall_mem_cons.2 ⟨⟨ts, hx, List.subset_append_left ts us⟩, fun y hy => ?_⟩
    obtain ⟨vs, hvs, hsub⟩ := ih y hy
    exact ⟨vs, hvs, List.Subset.trans hsub (List.subset_append_right ts us)⟩

end Grammar

namespace Document
variable {ls : List Lexeme} {doc : Document}

/-- Every definition comes from tokens of its own. -/
theorem derivation_of_mem (h : ofLexemes ls = .ok doc) :
    ∀ x ∈ doc, ∃ ts, Grammar.Definition ts x := by
  intro x hx
  obtain ⟨before, _, _, -, -, -, hdoc⟩ := derivation_of_ofLexemes h
  obtain ⟨ts, hts, -⟩ := hdoc.exists_subset x hx
  exact ⟨ts, hts⟩

/-- A struct that is written down has fields. -/
theorem fields_ne_nil (h : ofLexemes ls = .ok doc) : ∀ s ∈ doc.structs, s.fields ≠ [] := by
  intro s hs
  obtain ⟨x, hx, hxs⟩ := List.mem_filterMap.1 hs
  obtain ⟨ts, hts⟩ := derivation_of_mem h x hx
  cases hts with
  | struct hblock =>
    cases hxs
    cases hblock with
    | mk hmany => exact hmany.ne_nil
  | _ => cases hxs

/-- A service without a method is not written in any way. -/
theorem methods_ne_nil (h : ofLexemes ls = .ok doc) : ∀ s ∈ doc.services, s.methods ≠ [] := by
  intro s hs
  obtain ⟨x, hx, hxs⟩ := List.mem_filterMap.1 hs
  obtain ⟨ts, hts⟩ := derivation_of_mem h x hx
  cases hts with
  | service hblock =>
    cases hxs
    cases hblock with
    | mk hmany => exact hmany.ne_nil
  | _ => cases hxs

end Document

theorem TypeRef.primitive?_ofName (name : String) :
    (ofName name).primitive? = Primitive.ofName? name := by
  rw [ofName]
  cases Primitive.ofName? name <;> rfl

theorem TypeRef.name_ofName (name : String) : (ofName name).name = name := by
  rw [ofName]
  cases h : Primitive.ofName? name with
  | none => rfl
  | some p => exact Primitive.name_of_ofName? h

theorem Shape.isVector_of_capacity? {α : Type} {s : Shape α} {n : α} (h : s.capacity? = some n) :
    s.isVector = true := by
  cases s with
  | single => cases h
  | vector c => rfl

/-- A default that fits has the form of its field, and every item of it fits. -/
theorem Value.form_of_fits {p : Primitive} {isVector : Bool} {v : Value} (hu : v.Uniform)
    (h : v.Fits p isVector) :
    (isVector = true → ∃ items, v = .list items ∧ items ≠ []) ∧
      (isVector = false → ∃ s, v = .scalar s) ∧ ∀ s ∈ v.items, s.Fits p := by
  cases v with
  | scalar s =>
    obtain ⟨rfl, hs⟩ := h
    exact ⟨by simp, fun _ => ⟨s, rfl⟩, by simpa [items] using hs⟩
  | list items =>
    obtain ⟨rfl, hs⟩ := h
    exact ⟨fun _ => ⟨items, rfl, hu.1⟩, by simp, hs⟩

theorem FieldDef.reliable_elaborate {env : String → Option Value} {structs : Table Struct}
    {f : FieldDef} (hs : structs.Sound) (henv : ∀ name v, env name = some v → v.Uniform)
    (hf : f.WellFormed env structs.names) : (f.elaborate env).Reliable structs := by
  have hprimitive : (f.elaborate env).type.primitive? = Primitive.ofName? f.type.name :=
    TypeRef.primitive?_ofName f.type.name
  have hname : (f.elaborate env).type.name = f.type.name := TypeRef.name_ofName f.type.name
  refine ⟨Option.isNone_iff_eq_none, ?_, ?_, ?_, ?_, ?_⟩
  · intro p hp
    rw [hprimitive] at hp
    rw [hname]
    exact Primitive.name_of_ofName? hp
  · rw [hprimitive, hname]
  · intro hnone
    rw [hprimitive] at hnone
    rw [hname, Table.contains_iff hs]
    rcases hf.type_known with ⟨p, hp⟩ | hmem
    · rw [← hp, Primitive.ofName?_name] at hnone
      cases hnone
    · exact hmem
  · intro n hn
    refine ⟨Shape.isVector_of_capacity? hn, ?_⟩
    have hcapacity := Schema.capacity?_shape.symm.trans hn
    obtain ⟨e, he, hv⟩ := Option.bind_eq_some_iff.1 hcapacity
    obtain ⟨v, hev, hvn⟩ := Option.bind_eq_some_iff.1 hv
    obtain ⟨k, rfl, h1, h2⟩ := hf.length_range e v he hev
    cases hvn
    omega
  · intro v hv
    have hu := Schema.default_uniform henv (Schema.resolves_and_checks_iff.2 hf).1 hv
    obtain ⟨e, he, hev⟩ := Option.bind_eq_some_iff.1 hv
    obtain ⟨p, hp, hfits⟩ := hf.default_fits e v he hev
    have hvector : (f.elaborate env).shape.isVector = f.type.isVector := Schema.isVector_shape
    refine ⟨p, ?_, ?_⟩
    · rw [hprimitive, ← hp, Primitive.ofName?_name]
    · rw [hvector]
      exact Value.form_of_fits hu hfits

theorem StructDef.toList_elaborate (s : StructDef) (env : String → Option Value) :
    (s.elaborate env).fields.toList = s.fields.map fun f => (f.name, f.elaborate env) :=
  Table.toList_ofList _

theorem ServiceDef.toList_elaborate (s : ServiceDef) :
    s.elaborate.methods.toList = s.methods.mapIdx fun i m => (m.name, m.elaborate i) :=
  Table.toList_ofList _

theorem ServiceDef.keys_methods (s : ServiceDef) :
    (s.methods.mapIdx fun i m => (m.name, m.elaborate i)).map Prod.fst =
      s.methods.map MethodDef.name := by
  apply List.ext_getElem?
  simp [Function.comp_def]

namespace Schema
variable {doc : Document} {ls : List Lexeme} {constants : Table Value} {structs : Table Struct}
  {services : Table Service}

theorem reliableConstants (h : resolveConstants doc = .ok constants) :
    ReliableConstants constants := by
  obtain ⟨hn, hu, rfl⟩ := resolveConstants_eq_ok_iff.1 h
  refine ⟨Document.sound_elaborate_constants hn, ?_⟩
  rw [Document.elaborate, Table.toList_ofList]
  exact List.forall_mem_map.2 hu

theorem ReliableConstants.get?_uniform (h : ReliableConstants constants) (name : String) (v : Value)
    (hv : constants.get? name = some v) : v.Uniform :=
  h.uniform (name, v) ((Table.get?_eq_some_iff h.sound).1 hv)

/-- The structs as the first three passes leave them. -/
theorem reliableStructs (hls : Document.ofLexemes ls = .ok doc) (hc : ReliableConstants constants)
    (h : ∃ drafts, draftStructs constants doc = .ok drafts ∧ checkStructs drafts = .ok structs) :
    ReliableStructs constants structs := by
  obtain ⟨hn, hfresh, hfn, hfw, rfl⟩ := (structs_eq_ok_iff hc.sound hc.get?_uniform).1 h
  have hkeys := doc.keys_structs (·.elaborate constants.get?)
  have hsound := Table.sound_ofList (by rwa [hkeys])
  refine ⟨hsound, ?_, ?_, ?_, ?_⟩
  · rw [Table.names_ofList, hkeys]
    exact hfresh
  all_goals
    rw [Table.toList_ofList, List.forall_mem_map]
    intro s hs
  · exact Table.sound_ofList (by simpa [Function.comp_def] using hfn s hs)
  · simpa [StructDef.toList_elaborate] using Document.fields_ne_nil hls s hs
  · rw [StructDef.toList_elaborate, List.forall_mem_map]
    intro f hf
    apply FieldDef.reliable_elaborate hsound hc.get?_uniform
    rw [Table.names_ofList, hkeys]
    exact hfw s hs f hf

theorem reliableServices (hls : Document.ofLexemes ls = .ok doc) (hc : constants.Sound)
    (hss : structs.Sound) (h : resolveServices constants structs doc = .ok services)
    (hm : checkServices structs services = .ok ()) :
    ReliableServices constants structs services := by
  obtain ⟨hn, hr, rfl⟩ := (resolveServices_eq_ok_iff hc hss).1 h
  have hmessages := (checkServices_eq_ok_iff hss).1 hm
  have hdistinct (names : List String) (hfree : ∀ s ∈ doc.services, s.name ∉ names) :
      doc.elaborate.services.names.Disjoint names := by
    simpa [Document.serviceNames, List.Disjoint] using hfree
  refine ⟨Document.sound_elaborate_services hn, ?_, ?_, ?_, ?_, ?_, ?_⟩
  · exact hdistinct _ fun s hs => (hr s hs).not_struct
  · exact hdistinct _ fun s hs => (hr s hs).not_constant
  all_goals
    rw [Document.elaborate, Table.toList_ofList, List.forall_mem_map]
    intro s hs
  · refine Table.sound_ofList ?_
    rw [ServiceDef.keys_methods]
    exact (hr s hs).nodup
  · simpa [ServiceDef.toList_elaborate] using Document.methods_ne_nil hls s hs
  · intro i m hi
    rw [ServiceDef.toList_elaborate, List.getElem?_mapIdx] at hi
    obtain ⟨d, -, rfl⟩ := Option.map_eq_some_iff.1 hi
    exact ⟨rfl, UInt32.toNat_ofNat_of_lt'⟩
  · intro m hm
    rw [ServiceDef.toList_elaborate, List.mem_mapIdx] at hm
    obtain ⟨i, hi, rfl⟩ := hm
    rw [Table.contains_iff hss, Table.contains_iff hss]
    exact hmessages s hs _ (List.getElem_mem hi)

/-- What the passes guarantee, a compiled text has. -/
theorem reliable_of_compile {text : String} {log : Log} {s : Schema}
    (h : (compile text log).2 = .ok s) : Reliable s.constants s.structs s.services := by
  obtain ⟨doc, hdoc, hw⟩ := compile_ok_iff.1 h
  obtain ⟨ls, -, hls⟩ := bind_eq_ok.1 hdoc
  obtain ⟨_, drafts, _, _, hc, hd, hs, hv, hm, rfl⟩ :=
    Compilation.ofDocument_outcome_eq_ok.1 (Compilation.ofDocument_outcome_eq_ok_iff.2 hw)
  have hconstants := reliableConstants hc
  have hstructs := reliableStructs hls hconstants ⟨drafts, hd, hs⟩
  exact ⟨hconstants, hstructs, reliableServices hls hconstants.sound hstructs.sound hv hm⟩

/-- The promises hold of all that the passes let through, though each pass reads a document of its
own. The constants may be of any origin; structs and services have to be written down, for only
the grammar keeps them from being empty. -/
theorem reliable_of_passes {constantsDoc structsDoc servicesDoc : Document}
    {drafts : Table DraftStruct} {ms : List Lexeme}
    (hls : Document.ofLexemes ls = .ok structsDoc) (hms : Document.ofLexemes ms = .ok servicesDoc)
    (hc : resolveConstants constantsDoc = .ok constants)
    (hd : draftStructs constants structsDoc = .ok drafts) (hs : checkStructs drafts = .ok structs)
    (hv : resolveServices constants structs servicesDoc = .ok services)
    (hm : checkServices structs services = .ok ()) : Reliable constants structs services := by
  have hconstants := reliableConstants hc
  have hstructs := reliableStructs hls hconstants ⟨drafts, hd, hs⟩
  exact ⟨hconstants, hstructs, reliableServices hms hconstants.sound hstructs.sound hv hm⟩

/-- The length and the default of a field are constants of another document. -/
theorem reliable_of_three_documents :
    let constantsDoc : Document :=
      [.constant ⟨"N", .scalar (.int 2) ⟨1, 9⟩, ⟨1, 1⟩⟩,
        .constant ⟨"D", .list [.int 1, .int (-1)] ⟨2, 9⟩, ⟨2, 1⟩⟩]
    let structsDoc : Document :=
      [.struct ⟨"P", [⟨"v", .vector "int8_t" (some (.constant "N" ⟨1, 27⟩)),
        some (.constant "D" ⟨1, 30⟩), ⟨1, 10⟩⟩, ⟨"p", .named "P", none, ⟨1, 32⟩⟩], ⟨1, 1⟩⟩]
    let servicesDoc : Document := [.service ⟨"S", [⟨"m", "P", "P", ⟨1, 11⟩⟩], ⟨1, 1⟩⟩]
    Document.ofText "struct P{v:vector<int8_t>(N)=D p:P}" = .ok structsDoc ∧
      Document.ofText "service S{m:P->P}" = .ok servicesDoc ∧
      ∃ constants drafts structs services, resolveConstants constantsDoc = .ok constants ∧
        draftStructs constants structsDoc = .ok drafts ∧ checkStructs drafts = .ok structs ∧
        resolveServices constants structs servicesDoc = .ok services ∧
        checkServices structs services = .ok () ∧ Reliable constants structs services := by
  intro constantsDoc structsDoc servicesDoc
  have hstructs : Document.ofText "struct P{v:vector<int8_t>(N)=D p:P}" = .ok structsDoc := by
    decide +kernel
  have hservices : Document.ofText "service S{m:P->P}" = .ok servicesDoc := by decide +kernel
  have hruns : (do
      let constants ← resolveConstants constantsDoc
      let drafts ← draftStructs constants structsDoc
      let structs ← checkStructs drafts
      let services ← resolveServices constants structs servicesDoc
      checkServices structs services : Except Violation Unit).toOption.isSome = true := by
    decide +kernel
  obtain ⟨_, h⟩ := exists_ok_of_isSome hruns
  obtain ⟨constants, hc, h⟩ := bind_eq_ok.1 h
  obtain ⟨drafts, hd, h⟩ := bind_eq_ok.1 h
  obtain ⟨structs, hs, h⟩ := bind_eq_ok.1 h
  obtain ⟨services, hv, hm⟩ := bind_eq_ok.1 h
  obtain ⟨ls, -, hls⟩ := bind_eq_ok.1 hstructs
  obtain ⟨ms, -, hms⟩ := bind_eq_ok.1 hservices
  exact ⟨hstructs, hservices, constants, drafts, structs, services, hc, hd, hs, hv, hm,
    reliable_of_passes hls hms hc hd hs hv hm⟩

end Schema
end WireSchema
