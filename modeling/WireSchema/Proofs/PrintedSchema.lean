import WireSchema.Proofs.JsonSpacing
import WireSchema.Proofs.SchemaText

/-! The schema as it is printed, with the keys of every object in alphabetical order. Tables become
objects, so the printed text tells what each name stands for and not in which order the names were
declared: fields included, whose order is that of the wire. Methods are a list and keep theirs. -/
namespace WireSchema

/-! ## Objects in the order of their keys -/

namespace Json
variable {l l' : List (String × Json)}

theorem sortedMembers_eq (ms : List (String × Json)) :
    sortedMembers ms = ms.map fun m => (m.1, m.2.sorted) := by
  induction ms with
  | nil => rfl
  | cons m ms ih => simp [sortedMembers, ih]

theorem sortedItems_eq (js : List Json) : sortedItems js = js.map sorted := by
  induction js with
  | nil => rfl
  | cons j js ih => simp [sortedItems, ih]

theorem sorted_obj_singleton (key : String) (j : Json) :
    (Json.obj [(key, j)]).sorted = .obj [(key, j.sorted)] := by
  simp [sorted, sortedMembers_eq]

/-- Different keys have one order only. -/
theorem mergeSort_eq_iff_perm (hkeys : (l.map Prod.fst).Nodup) :
    (l.mergeSort fun a b => a.1 ≤ b.1) = (l'.mergeSort fun a b => a.1 ≤ b.1) ↔ l.Perm l' := by
  have hperm (l : List (String × Json)) := List.mergeSort_perm l fun a b => a.1 ≤ b.1
  constructor
  · intro heq
    exact (hperm l).symm.trans (heq ▸ hperm l')
  · intro hp
    have hpairwise (l : List (String × Json)) :
        (l.mergeSort fun a b => a.1 ≤ b.1).Pairwise fun a b => a.1 ≤ b.1 := by
      have htrans : ∀ a b c : String × Json, decide (a.1 ≤ b.1) = true →
          decide (b.1 ≤ c.1) = true → decide (a.1 ≤ c.1) = true := by
        simp only [decide_eq_true_eq]
        exact fun a b c => String.le_trans
      have htotal : ∀ a b : String × Json, (decide (a.1 ≤ b.1) || decide (b.1 ≤ a.1)) = true := by
        simp only [Bool.or_eq_true, decide_eq_true_eq]
        exact fun a b => String.le_total a.1 b.1
      simpa using List.pairwise_mergeSort htrans htotal l
    refine List.Perm.eq_of_pairwise ?_ (hpairwise l) (hpairwise l')
      ((hperm l).trans (hp.trans (hperm l').symm))
    -- The order is one of keys, so it tells entries apart only since no key comes twice.
    intro a b ha hb hab hba
    have ha := (hperm l).mem_iff.1 ha
    have hb := hp.mem_iff.2 ((hperm l').mem_iff.1 hb)
    exact List.inj_on_of_nodup_map hkeys ha hb (String.le_antisymm hab hba)

/-- Sorting hides the order of the members and nothing else. -/
theorem sorted_obj_eq_iff (hkeys : (l.map Prod.fst).Nodup) :
    (Json.obj l).sorted = (Json.obj l').sorted ↔
      (l.map fun m => (m.1, m.2.sorted)).Perm (l'.map fun m => (m.1, m.2.sorted)) := by
  rw [sorted, sorted, Json.obj.injEq, sortedMembers_eq, sortedMembers_eq]
  exact mergeSort_eq_iff_perm (by simpa [Function.comp_def] using hkeys)

mutual

/-- Sorting changes no number. -/
theorem Finite.sorted {j : Json} (h : j.Finite) : j.sorted.Finite := by
  cases j with
  | arr items =>
    rw [Json.sorted]
    exact Finite.sortedItems h
  | obj members =>
    rw [Json.sorted]
    refine finiteMembers_iff.2 fun m hm => ?_
    exact finiteMembers_iff.1 (Finite.sortedMembers h) m ((List.mergeSort_perm _ _).mem_iff.1 hm)
  | _ => exact h

theorem Finite.sortedItems {js : List Json} (h : FiniteItems js) :
    FiniteItems (sortedItems js) := by
  cases js with
  | nil => trivial
  | cons j js => exact ⟨h.1.sorted, Finite.sortedItems h.2⟩

theorem Finite.sortedMembers {ms : List (String × Json)} (h : FiniteMembers ms) :
    FiniteMembers (sortedMembers ms) := by
  cases ms with
  | nil => trivial
  | cons m ms => exact ⟨h.1.sorted, Finite.sortedMembers h.2⟩

end

end Json

/-! ## Tables -/

namespace Table
variable {α β : Type} {t t' : Table α}

theorem keys_map_toList (f : α → β) :
    (t.toList.map fun e => (e.1, f e.2)).map Prod.fst = t.names := by
  simp [names]

/-- What an object says of a table is what the table finds. -/
theorem mem_map_toList (ht : t.Sound) {f : α → β} {name : String} {b : β} :
    (name, b) ∈ (t.toList.map fun e => (e.1, f e.2)) ↔ (t.get? name).map f = some b := by
  simp only [List.mem_map, Prod.mk.injEq, Option.map_eq_some_iff, get?_eq_some_iff ht]
  constructor
  · rintro ⟨⟨_, a⟩, ha, rfl, rfl⟩
    exact ⟨a, ha, rfl⟩
  · rintro ⟨a, ha, rfl⟩
    exact ⟨_, ha, rfl, rfl⟩

/-- Sound tables list the same things in some order exactly if they find the same things. -/
theorem perm_map_toList_iff (ht : t.Sound) (ht' : t'.Sound) {f : α → β} :
    (t.toList.map fun e => (e.1, f e.2)).Perm (t'.toList.map fun e => (e.1, f e.2)) ↔
      ∀ name, (t.get? name).map f = (t'.get? name).map f := by
  have hnodup {t : Table α} (ht : t.Sound) : (t.toList.map fun e => (e.1, f e.2)).Nodup := by
    refine List.Nodup.of_map Prod.fst ?_
    rw [keys_map_toList]
    exact ht.nodup
  rw [List.perm_ext_iff_of_nodup (hnodup ht) (hnodup ht')]
  constructor
  · intro h name
    apply Option.ext
    intro b
    have hb := h (name, b)
    rwa [mem_map_toList ht, mem_map_toList ht'] at hb
  · rintro h ⟨name, b⟩
    rw [mem_map_toList ht, mem_map_toList ht', h name]

/-- The object of a table tells what each name stands for, as far as the values are told. -/
theorem sorted_json_eq_iff (toJson : α → Json) (f : α → β) (ht : t.Sound) (ht' : t'.Sound)
    (hf : ∀ name a b, t.get? name = some a → t'.get? name = some b →
      ((toJson a).sorted = (toJson b).sorted ↔ f a = f b)) :
    (t.json toJson).sorted = (t'.json toJson).sorted ↔
      ∀ name, (t.get? name).map f = (t'.get? name).map f := by
  have hkeys : ((t.toList.map fun e => (e.1, toJson e.2)).map Prod.fst).Nodup := by
    rw [keys_map_toList]
    exact ht.nodup
  rw [json, json, Json.sorted_obj_eq_iff hkeys, List.map_map, List.map_map]
  refine (perm_map_toList_iff ht ht' (f := fun a => (toJson a).sorted)).trans ?_
  refine forall_congr' fun name => ?_
  cases ha : t.get? name with
  | none => cases hb : t'.get? name <;> simp
  | some a =>
    cases hb : t'.get? name with
    | none => simp
    | some b => simpa using hf name a b ha hb

end Table

/-! ## Fields and methods -/

theorem Scalar.sorted_json (s : Scalar) : s.json.sorted = s.json := by
  cases s <;> rfl

theorem Value.sorted_json (v : Value) : v.json.sorted = v.json := by
  cases v with
  | scalar s => exact s.sorted_json
  | list items => simp [json, Json.sorted, Json.sortedItems_eq, Function.comp_def,
      Scalar.sorted_json]

namespace Field
variable {f g : Field}

theorem members_sorted (f : Field) :
    (f.members.map fun m => (m.1, m.2.sorted)) = f.members := by
  have hprimitive : (Json.orNull (fun p : Primitive => .str p.name) f.type.primitive?).sorted =
      Json.orNull (fun p => .str p.name) f.type.primitive? := by
    cases f.type.primitive? <;> rfl
  have hcapacity : ((Json.member? "length_spec" (fun n : Nat => .int n) f.shape.capacity?).map
      fun m => (m.1, m.2.sorted)) =
        Json.member? "length_spec" (fun n : Nat => .int n) f.shape.capacity? := by
    cases f.shape.capacity? <;> rfl
  have hdefault : ((Json.member? "assigned_value" Value.json f.default).map
      fun m => (m.1, m.2.sorted)) = Json.member? "assigned_value" Value.json f.default := by
    cases f.default <;> simp [Json.member?, Value.sorted_json]
  simp [members, hprimitive, hcapacity, hdefault, Json.sorted]

/-- A part that is left out takes its key along, so no key comes twice. -/
theorem members_nodup (f : Field) : (f.members.map Prod.fst).Nodup := by
  have hkeys : (["typename", "primitive", "is_vector", "is_userdefined"] ++ ["length_spec"] ++
      ["assigned_value"]).Nodup := by decide
  refine List.Sublist.nodup ?_ hkeys
  simp only [members, List.map_append]
  exact ((List.Sublist.refl _).append Json.keys_member?_sublist).append Json.keys_member?_sublist

theorem mem_members_capacity {n : Nat} :
    ("length_spec", Json.int n) ∈ f.members ↔ f.shape.capacity? = some n := by
  simp [members, Json.mem_member?, eq_comm]

theorem mem_members_default {v : Value} :
    ("assigned_value", v.json) ∈ f.members ↔ f.default = some v := by
  have hinj (w : Value) : v.json = w.json ↔ v = w := ⟨Value.json_inj, congrArg Value.json⟩
  simp [members, Json.mem_member?, hinj, eq_comm]

/-- The members tell the field, in whatever order. -/
theorem unplaced_of_members_perm (h : f.members.Perm g.members) : f.unplaced = g.unplaced := by
  have hname : ("typename", Json.str f.type.name) ∈ g.members :=
    h.mem_iff.1 (by simp [members])
  have hprimitive :
      ("primitive", Json.orNull (fun p => .str p.name) f.type.primitive?) ∈ g.members :=
    h.mem_iff.1 (by simp [members])
  have hvector : ("is_vector", Json.bool f.shape.isVector) ∈ g.members :=
    h.mem_iff.1 (by simp [members])
  simp only [members, List.mem_append, List.mem_cons, Json.mem_member?, Prod.mk.injEq,
    Json.str.injEq, Json.bool.injEq] at hname hprimitive hvector
  have hcapacity : f.shape.capacity? = g.shape.capacity? := by
    apply Option.ext
    intro n
    rw [← mem_members_capacity, ← mem_members_capacity, h.mem_iff]
  have hdefault : f.default = g.default := by
    apply Option.ext
    intro v
    rw [← mem_members_default, ← mem_members_default, h.mem_iff]
  have htype : f.type = g.type :=
    TypeRef.eq_of_json (by simpa using hname) (by simpa using hprimitive)
  have hshape : f.shape = g.shape := Shape.eq_of_json (by simpa using hvector) hcapacity
  rw [unplaced, unplaced, htype, hshape, hdefault]

/-- Printing a field loses its place only. -/
theorem sorted_json_eq_iff : f.json.sorted = g.json.sorted ↔ f.unplaced = g.unplaced := by
  rw [json, json, Json.sorted_obj_eq_iff f.members_nodup, members_sorted, members_sorted]
  constructor
  · exact unplaced_of_members_perm
  · intro h
    have hmembers : f.unplaced.members = g.unplaced.members := congrArg members h
    exact List.Perm.of_eq hmembers

end Field

theorem Method.sorted_json (name : String) (m : Method) : (m.json name).sorted = m.json name := by
  rw [json, Json.sorted, Json.sortedMembers_eq]
  refine congrArg Json.obj (List.mergeSort_of_pairwise ?_)
  simp [Json.sorted]

/-! ## Structs, services and schemas -/

/-- What the struct holds under a name, wherever it is written. -/
def Struct.fieldAt (s : Struct) (name : String) : Option Field :=
  (s.fields.get? name).map Field.unplaced

/-- What can be called, in order. -/
def Service.calls (s : Service) : List (String × Method) :=
  s.methods.toList.map fun m => (m.1, m.2.unplaced)

/-- The two schemas find the same under every name. Nothing is said of the order in which they list
it, except that of methods. -/
structure Schema.SameEntries (s s' : Schema) : Prop where
  constants : ∀ name, s.constants.get? name = s'.constants.get? name
  structs : ∀ name,
    (s.structs.get? name).map Struct.fieldAt = (s'.structs.get? name).map Struct.fieldAt
  services : ∀ name,
    (s.services.get? name).map Service.calls = (s'.services.get? name).map Service.calls
  options : ∀ name, s.options.get? name = s'.options.get? name

/-- Structs print alike if the same fields are found by name: their order is lost. -/
theorem Struct.sorted_json_eq_iff {s t : Struct} (hs : s.fields.Sound) (ht : t.fields.Sound) :
    s.json.sorted = t.json.sorted ↔ s.fieldAt = t.fieldAt := by
  have hfields := Table.sorted_json_eq_iff Field.json Field.unplaced hs ht
    fun _ _ _ _ _ => Field.sorted_json_eq_iff
  rw [json, json, Json.sorted_obj_singleton, Json.sorted_obj_singleton]
  simp only [Json.obj.injEq, List.cons.injEq, Prod.mk.injEq, true_and, and_true, hfields]
  exact funext_iff.symm

/-- Fields are the same by name exactly if they are the same in some order. -/
theorem Struct.fieldAt_eq_iff_perm {s t : Struct} (hs : s.fields.Sound) (ht : t.fields.Sound) :
    s.fieldAt = t.fieldAt ↔ (s.fields.toList.map fun f => (f.1, f.2.unplaced)).Perm
      (t.fields.toList.map fun f => (f.1, f.2.unplaced)) := by
  rw [Table.perm_map_toList_iff hs ht]
  exact funext_iff

/-- Services print alike if they have the same methods in the same order. -/
theorem Service.sorted_json_eq_iff {s t : Service} :
    s.json.sorted = t.json.sorted ↔ s.calls = t.calls := by
  have hsorted (s : Service) : s.json.sorted = s.json := by
    rw [json, Json.sorted_obj_singleton, Json.sorted, Json.sortedItems_eq]
    simp [Method.sorted_json]
  have hcalls (s : Service) : s.json =
      .obj [("methods", .arr (s.calls.map fun m => m.2.json m.1))] := by
    simp [json, calls, Method.json, Method.unplaced]
  rw [hsorted, hsorted]
  constructor
  · exact methods_of_json
  · intro h
    rw [hcalls, hcalls, h]

namespace Schema
variable {s s' : Schema}

/-- All tables that are printed as objects are sound. -/
structure SoundTables (s : Schema) : Prop where
  constants : s.constants.Sound
  structs : s.structs.Sound
  services : s.services.Sound
  options : s.options.Sound
  fields : ∀ name t, s.structs.get? name = some t → t.fields.Sound

theorem soundTables_of_compile {text : String} {log : Log} (h : (compile text log).2 = .ok s) :
    s.SoundTables := by
  have hreliable := reliable_of_compile h
  obtain ⟨doc, -, -, rfl⟩ := compile_ok_iff.1 h
  refine ⟨hreliable.constants_reliable.sound, hreliable.structs_reliable.sound,
    hreliable.services_reliable.sound, Table.sound_ofList lastValues_nodup, fun name t ht => ?_⟩
  have hmem := (Table.get?_eq_some_iff hreliable.structs_reliable.sound).1 ht
  exact hreliable.structs_reliable.fields_sound _ hmem

/-- Schemas print alike exactly if every table finds the same. -/
theorem sorted_json_eq_iff (hs : s.SoundTables) (hs' : s'.SoundTables) :
    s.json.sorted = s'.json.sorted ↔ s.SameEntries s' := by
  have hconstants := Table.sorted_json_eq_iff Value.json id hs.constants
    hs'.constants fun _ v w _ _ => by
      rw [Value.sorted_json, Value.sorted_json]
      exact ⟨Value.json_inj, congrArg Value.json⟩
  have hstructs := Table.sorted_json_eq_iff Struct.json Struct.fieldAt hs.structs
    hs'.structs fun name t u ht hu =>
      Struct.sorted_json_eq_iff (hs.fields name t ht) (hs'.fields name u hu)
  have hservices := Table.sorted_json_eq_iff Service.json Service.calls
    hs.services hs'.services fun _ _ _ _ _ => Service.sorted_json_eq_iff
  have hoptions := Table.sorted_json_eq_iff Json.str id hs.options hs'.options
    fun _ _ _ _ _ => by simp [Json.sorted]
  simp only [Option.map_id, id_eq] at hconstants hoptions
  rw [json, json, Json.sorted_obj_eq_iff (by simp)]
  constructor
  · intro hperm
    have hmem (key : String) (j : Json) := hperm.mem_iff (a := (key, j))
    refine ⟨hconstants.1 ?_, hstructs.1 ?_, hservices.1 ?_, hoptions.1 ?_⟩
    · simpa using (hmem "constants" _).1 (by simp)
    · simpa using (hmem "structs" _).1 (by simp)
    · simpa using (hmem "services" _).1 (by simp)
    · simpa using (hmem "options" _).1 (by simp)
  · rintro ⟨hc, ht, hv, ho⟩
    simp only [List.map_cons, List.map_nil, hconstants.2 hc, hstructs.2 ht, hservices.2 hv,
      hoptions.2 ho]
    rfl

/-- A struct of the same entries has the same fields in some order. -/
theorem SameEntries.names_perm (hs : s.SoundTables) (hs' : s'.SoundTables) (h : s.SameEntries s')
    {name : String} {t t' : Struct} (ht : s.structs.get? name = some t)
    (ht' : s'.structs.get? name = some t') : t.fields.names.Perm t'.fields.names := by
  have hfieldAt : t.fieldAt = t'.fieldAt := by simpa [ht, ht'] using h.structs name
  have hperm := (Struct.fieldAt_eq_iff_perm (hs.fields name t ht) (hs'.fields name t' ht')).1
    hfieldAt
  simpa only [Table.keys_map_toList] using hperm.map Prod.fst

end Schema

/-- Two schemas are printed alike exactly if they have the same entries. Of the fields of a struct
the printed text tells the names and what they stand for, and their order only as far as it is the
alphabetical one. -/
theorem pretty_eq_iff_sameEntries {text text' : String} {log log' : Log} {s s' : Schema}
    (hs : (compile text log).2 = .ok s) (hs' : (compile text' log').2 = .ok s') :
    (s.json.sorted.pretty = s'.json.sorted.pretty ↔ s.SameEntries s') ∧
      (s.json.sorted.pretty = s'.json.sorted.pretty → ∀ name t t',
        s.structs.get? name = some t → s'.structs.get? name = some t' →
          t.fields.names.Perm t'.fields.names ∧
            (t.fields.names.Pairwise (· ≤ ·) → t'.fields.names.Pairwise (· ≤ ·) →
              t.fields.names = t'.fields.names)) := by
  have hsound := Schema.soundTables_of_compile hs
  have hsound' := Schema.soundTables_of_compile hs'
  obtain ⟨doc, hdoc, -, rfl⟩ := compile_ok_iff.1 hs
  obtain ⟨doc', hdoc', -, rfl⟩ := compile_ok_iff.1 hs'
  have hfinite := (Document.finite_of_ofText hdoc).elaborate.json.sorted
  have hfinite' := (Document.finite_of_ofText hdoc').elaborate.json.sorted
  have hiff : doc.elaborate.json.sorted.pretty = doc'.elaborate.json.sorted.pretty ↔
      doc.elaborate.SameEntries doc'.elaborate := by
    rw [← Schema.sorted_json_eq_iff hsound hsound']
    exact ⟨Json.pretty_inj hfinite hfinite', congrArg Json.pretty⟩
  refine ⟨hiff, fun h name t t' ht ht' => ?_⟩
  have hperm := (hiff.1 h).names_perm hsound hsound' ht ht'
  refine ⟨hperm, fun hsorted hsorted' => ?_⟩
  exact hperm.eq_of_pairwise (fun a b _ _ => String.le_antisymm) hsorted hsorted'

/-- The fields of the one schema are those of the other in reverse. -/
theorem sorted_json_swapped_fields :
    ∃ s s' t t', (compile "struct Pair { second: int8_t, first: int8_t }" {}).2 = .ok s ∧
      (compile "struct Pair { first: int8_t, second: int8_t }" {}).2 = .ok s' ∧
      s.structs.get? "Pair" = some t ∧ s'.structs.get? "Pair" = some t' ∧
      t.fields.names = ["second", "first"] ∧ t'.fields.names = ["first", "second"] ∧
      s.json.sorted = s'.json.sorted := by
  obtain ⟨s, hs⟩ := exists_ok_of_isSome
    (x := (compile "struct Pair { second: int8_t, first: int8_t }" {}).2) (by decide +kernel)
  obtain ⟨s', hs'⟩ := exists_ok_of_isSome
    (x := (compile "struct Pair { first: int8_t, second: int8_t }" {}).2) (by decide +kernel)
  have hsound := Schema.soundTables_of_compile hs
  have hsound' := Schema.soundTables_of_compile hs'
  have hdoc : Document.ofText "struct Pair { second: int8_t, first: int8_t }" =
      .ok [.struct ⟨"Pair", [⟨"second", .named "int8_t", none, ⟨1, 15⟩⟩,
        ⟨"first", .named "int8_t", none, ⟨1, 31⟩⟩], ⟨1, 1⟩⟩] := by decide +kernel
  have hdoc' : Document.ofText "struct Pair { first: int8_t, second: int8_t }" =
      .ok [.struct ⟨"Pair", [⟨"first", .named "int8_t", none, ⟨1, 15⟩⟩,
        ⟨"second", .named "int8_t", none, ⟨1, 30⟩⟩], ⟨1, 1⟩⟩] := by decide +kernel
  obtain ⟨doc, hd, -, rfl⟩ := compile_ok_iff.1 hs
  obtain ⟨doc', hd', -, rfl⟩ := compile_ok_iff.1 hs'
  cases Except.ok.inj (hdoc.symm.trans hd)
  cases Except.ok.inj (hdoc'.symm.trans hd')
  have hget := (Table.get?_eq_some_iff hsound.structs).2 (.head [])
  have hget' := (Table.get?_eq_some_iff hsound'.structs).2 (.head [])
  have hfieldAt := (Struct.fieldAt_eq_iff_perm (hsound.fields _ _ hget)
    (hsound'.fields _ _ hget')).2 (.swap _ _ [])
  refine ⟨_, _, _, _, hs, hs', hget, hget', rfl, rfl, ?_⟩
  refine (Schema.sorted_json_eq_iff hsound hsound').2
    ⟨fun _ => rfl, ?_, fun _ => rfl, fun _ => rfl⟩
  refine (Table.perm_map_toList_iff hsound.structs hsound'.structs).1 (.of_eq ?_)
  exact congrArg (fun fields => [("Pair", fields)]) hfieldAt

/-- Two structs of different layout, whose texts are the same. -/
theorem pretty_eq_iff_sameEntries_swapped :
    ∃ s s' t t', (compile "struct Pair { second: int8_t, first: int8_t }" {}).2 = .ok s ∧
      (compile "struct Pair { first: int8_t, second: int8_t }" {}).2 = .ok s' ∧
      s.structs.get? "Pair" = some t ∧ s'.structs.get? "Pair" = some t' ∧
      s.SameEntries s' ∧ t.fields.names.Perm t'.fields.names := by
  obtain ⟨s, s', t, t', hs, hs', ht, ht', -, -, hsorted⟩ := sorted_json_swapped_fields
  obtain ⟨hiff, hperm⟩ := pretty_eq_iff_sameEntries hs hs'
  have htext := congrArg Json.pretty hsorted
  exact ⟨s, s', t, t', hs, hs', ht, ht', hiff.1 htext, (hperm htext "Pair" t t' ht ht').1⟩

/-- The printed text does not tell the order in which the fields of a struct come on the wire. -/
theorem pretty_eq_of_swapped_fields :
    ∃ s s' t t', (compile "struct Pair { second: int8_t, first: int8_t }" {}).2 = .ok s ∧
      (compile "struct Pair { first: int8_t, second: int8_t }" {}).2 = .ok s' ∧
      s.json.sorted.pretty = s'.json.sorted.pretty ∧
      s.structs.get? "Pair" = some t ∧ s'.structs.get? "Pair" = some t' ∧
      t.fields.names = ["second", "first"] ∧ t'.fields.names = ["first", "second"] := by
  obtain ⟨s, s', t, t', hs, hs', ht, ht', hnames, hnames', hsorted⟩ := sorted_json_swapped_fields
  exact ⟨s, s', t, t', hs, hs', congrArg Json.pretty hsorted, ht, ht', hnames, hnames'⟩

end WireSchema
