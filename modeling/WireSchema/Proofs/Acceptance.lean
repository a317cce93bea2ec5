import WireSchema.Proofs.LogThreading
import WireSchema.Proofs.StructChecks

/-! Which texts have a schema, and what schema. The passes stop at the first fault they meet, each
with tables of its own; together they accept the well-formed documents and no others. -/
namespace WireSchema
namespace Schema

section Services
variable {constants : Table Value} {structs : Table Struct} {doc : Document}

theorem addMethod_fills (service : String) :
    Table.Fills (addMethod service) MethodDef.name (fun _ => True) MethodDef.elaborate := by
  intro t m t' ht
  simp only [addMethod, true_and]
  constructor
  · intro h
    split at h
    next t'' he =>
      cases h
      exact (Table.insertNew?_eq_some_iff ht).1 he
    next => cases h
  · intro h
    have he := (Table.insertNew?_eq_some_iff ht).2 h
    simp only [MethodDef.elaborate] at he
    rw [he]

/-- The name of the service and the names of its methods are free. -/
structure ServiceResolves (constants : Table Value) (structs : Table Struct) (s : ServiceDef) :
    Prop where
  not_struct : s.name ∉ structs.names
  not_constant : s.name ∉ constants.names
  nodup : (s.methods.map MethodDef.name).Nodup

/-- A service is entered if its name is free and its methods have different names. -/
theorem addService_fills (hc : constants.Sound) (hs : structs.Sound) :
    Table.Fills (addService constants structs) ServiceDef.name (ServiceResolves constants structs)
      fun _ => ServiceDef.elaborate := by
  intro t s t' ht
  simp only [addService, throw_guard_eq_ok, Table.contains_iff ht, Table.contains_iff hc,
    Table.contains_iff hs, bind_eq_ok, Table.foldlM_eq_ok_iff (addMethod_fills s.name), pure,
    Except.pure, Except.ok.injEq]
  constructor
  · rintro ⟨hn, hns, hnc, _, ⟨hnodup, -, rfl⟩, rfl⟩
    exact ⟨hn, ⟨hns, hnc, hnodup⟩, rfl⟩
  · rintro ⟨hn, ⟨hns, hnc, hnodup⟩, rfl⟩
    exact ⟨hn, hns, hnc, _, ⟨hnodup, fun _ _ => trivial, rfl⟩, rfl⟩

theorem resolveServices_eq_ok_iff (hc : constants.Sound) (hs : structs.Sound) {t : Table Service} :
    resolveServices constants structs doc = .ok t ↔
      doc.serviceNames.Nodup ∧ (∀ s ∈ doc.services, ServiceResolves constants structs s) ∧
        t = doc.elaborate.services :=
  Table.foldlM_eq_ok_iff_map (addService_fills hc hs)

theorem forM_eq_ok_iff {α ε : Type} {f : α → Except ε Unit} {l : List α} :
    l.forM f = .ok () ↔ ∀ a ∈ l, f a = .ok () := by
  induction l with
  | nil => simp [pure, Except.pure]
  | cons a l ih =>
    have hcons : (a :: l).forM f = f a >>= fun _ => l.forM f := rfl
    rw [hcons, bind_eq_ok, List.forall_mem_cons, ← ih]
    exact ⟨fun ⟨_, ha, hl⟩ => ⟨ha, hl⟩, fun ⟨ha, hl⟩ => ⟨_, ha, hl⟩⟩

theorem checkMethod_eq_ok_iff (hs : structs.Sound) {service name : String} {m : Method} :
    checkMethod structs service name m = .ok () ↔
      m.request ∈ structs.names ∧ m.response ∈ structs.names := by
  have hnone : undefinedMessage? structs m = none ↔
      m.request ∈ structs.names ∧ m.response ∈ structs.names := by
    simp [undefinedMessage?, ← Table.contains_iff hs]
  rw [← hnone, checkMethod]
  split
  next role type h => simp [h]
  next h => simp [h]

/-- Each message has to be one of the structs. -/
theorem checkServices_eq_ok_iff (hs : structs.Sound) :
    checkServices structs doc.elaborate.services = .ok () ↔
      ∀ s ∈ doc.services, ∀ m ∈ s.methods,
        m.request ∈ structs.names ∧ m.response ∈ structs.names := by
  simp only [checkServices, checkService, forM_eq_ok_iff, checkMethod_eq_ok_iff hs,
    Document.elaborate, Table.toList_ofList, List.forall_mem_map]
  refine forall₂_congr fun s _ => ?_
  simp only [ServiceDef.elaborate, Table.toList_ofList, List.mem_mapIdx]
  constructor
  · intro h m hm
    obtain ⟨i, hi, rfl⟩ := List.mem_iff_getElem.1 hm
    exact h _ ⟨i, hi, rfl⟩
  · rintro h _ ⟨i, hi, rfl⟩
    exact h _ (List.getElem_mem hi)

end Services

end Schema

namespace Compilation

theorem ofDocument_outcome_eq_ok {doc : Document} {schema : Schema} :
    (ofDocument doc).outcome = .ok schema ↔ ∃ constants drafts structs services,
      Schema.resolveConstants doc = .ok constants ∧
      Schema.draftStructs constants doc = .ok drafts ∧ Schema.checkStructs drafts = .ok structs ∧
      Schema.resolveServices constants structs doc = .ok services ∧
      Schema.checkServices structs services = .ok () ∧
      schema = ⟨constants, structs, services, doc.elaborate.options⟩ := by
  rw [ofDocument_outcome, mapError_eq_ok]
  simp only [Document.passes, bind_eq_ok, pure_eq_ok, Except.ok.injEq]
  constructor
  · rintro ⟨c, hc, d, hd, s, hs, v, hv, _, hm, rfl⟩
    exact ⟨c, d, s, v, hc, hd, hs, hv, hm, rfl⟩
  · rintro ⟨c, d, s, v, hc, hd, hs, hv, hm, rfl⟩
    exact ⟨c, hc, d, hd, s, hs, v, hv, (), hm, rfl⟩

/-- A document has a schema exactly if it is well formed, and the schema is its elaboration. -/
theorem ofDocument_outcome_eq_ok_iff {doc : Document} {schema : Schema} :
    (ofDocument doc).outcome = .ok schema ↔ doc.WellFormed ∧ schema = doc.elaborate := by
  rw [ofDocument_outcome_eq_ok]
  constructor
  · rintro ⟨constants, drafts, structs, services, hc, hd, hs, hv, hm, rfl⟩
    obtain ⟨hcn, hcu, rfl⟩ := Schema.resolveConstants_eq_ok_iff.1 hc
    have hcs := Document.sound_elaborate_constants hcn
    have henv := Document.get?_elaborate_constants hcn
    obtain ⟨hsn, hsf, hfn, hfw, hst⟩ := (Schema.structs_eq_ok_iff hcs (by
      rw [henv]
      exact fun name v => Document.constantValue?_uniform hcu)).1 ⟨drafts, hd, hs⟩
    rw [henv] at hfw hst
    obtain rfl : structs = doc.elaborate.structs := hst
    have hss := Document.sound_elaborate_structs hsn
    obtain ⟨hvn, hvr, rfl⟩ := (Schema.resolveServices_eq_ok_iff hcs hss).1 hv
    have hmk := (Schema.checkServices_eq_ok_iff hss).1 hm
    simp only [Document.names_elaborate_constants, Document.names_elaborate_structs] at hsf hmk
    have hfresh : ∀ name ∈ doc.serviceNames,
        name ∉ doc.structNames ∧ name ∉ doc.constantNames := by
      intro name hname
      obtain ⟨s, hs, rfl⟩ := List.mem_map.1 hname
      simpa using And.intro (hvr s hs).not_struct (hvr s hs).not_constant
    exact ⟨⟨hcn, hsn, hsf, hvn, hfresh, hfn, fun s hs => (hvr s hs).nodup, hcu, hfw, hmk⟩, rfl⟩
  · rintro ⟨hw, rfl⟩
    have hcs := Document.sound_elaborate_constants hw.constants_nodup
    have hss := Document.sound_elaborate_structs hw.structs_nodup
    have henv := Document.get?_elaborate_constants hw.constants_nodup
    obtain ⟨drafts, hd, hs⟩ := (Schema.structs_eq_ok_iff hcs (by
      rw [henv]
      exact fun name v => Document.constantValue?_uniform hw.constants_uniform)
      (t := doc.elaborate.structs)).2 ⟨hw.structs_nodup, by simpa using hw.structs_fresh,
        hw.fields_nodup, by simpa only [henv] using hw.fields_wellFormed, by rw [henv]; rfl⟩
    refine ⟨_, drafts, _, doc.elaborate.services, Schema.resolveConstants_eq_ok_iff.2
      ⟨hw.constants_nodup, hw.constants_uniform, rfl⟩, hd, hs,
      (Schema.resolveServices_eq_ok_iff hcs hss).2 ⟨hw.services_nodup, ?_, rfl⟩,
      (Schema.checkServices_eq_ok_iff hss).2 (by simpa using hw.messages_known), rfl⟩
    intro s hs
    have hfresh := hw.services_fresh s.name (List.mem_map_of_mem hs)
    exact ⟨by simpa using hfresh.1, by simpa using hfresh.2, hw.methods_nodup s hs⟩

end Compilation

/-- What a document has for a schema, its text has, on any log. -/
theorem compile_ok_iff {text : String} {log : Log} {schema : Schema} :
    (compile text log).2 = .ok schema ↔
      ∃ doc, Document.ofText text = .ok doc ∧ doc.WellFormed ∧ schema = doc.elaborate := by
  cases hdoc : Document.ofText text with
  | error e =>
    rw [compile_of_unread hdoc]
    simp
  | ok doc =>
    rw [compile_of_read hdoc, Compilation.ofDocument_outcome_eq_ok_iff]
    simp

/-- Whether a document compiles can be seen without reading its text again. -/
theorem compile_of_document {text : String} (log : Log) {doc : Document}
    (hdoc : Document.ofText text = .ok doc)
    (h : (Compilation.ofDocument doc).outcome.toOption.isSome = true) :
    doc.WellFormed ∧ (compile text log).2 = .ok doc.elaborate := by
  obtain ⟨s, hs⟩ := exists_ok_of_isSome h
  obtain ⟨hw, rfl⟩ := Compilation.ofDocument_outcome_eq_ok_iff.1 hs
  exact ⟨hw, compile_ok_iff.2 ⟨doc, hdoc, hw, rfl⟩⟩

/-- A text has a schema exactly if it is the text of a well-formed document, and then its schema is
the elaboration of that document, whatever the log keeps. -/
theorem compile_eq_ok_iff (text : String) (log : Log) (schema : Schema) :
    (compile text log).2 = .ok schema ↔
      ∃ doc, Document.ofText text = .ok doc ∧ doc.WellFormed ∧ schema = doc.elaborate :=
  compile_ok_iff

end WireSchema
