import WireSchema.Proofs.FiniteFloats
import WireSchema.Proofs.JsonText
import WireSchema.Schema.Json

/-! The compact JSON of a schema leaves out the places in the text and nothing else. -/
namespace WireSchema

/-! ## Without places -/

def Field.unplaced (f : Field) : Field := { f with loc := .start }

def Method.unplaced (m : Method) : Method := { m with loc := .start }

def Struct.unplaced (s : Struct) : Struct := ⟨s.fields.map Field.unplaced, .start⟩

def Service.unplaced (s : Service) : Service := ⟨s.methods.map Method.unplaced, .start⟩

/-- The schema with all places forgotten. -/
def Schema.unplaced (s : Schema) : Schema :=
  { s with
    structs := s.structs.map Struct.unplaced
    services := s.services.map Service.unplaced }

/-- All tables of the schema have the index of their list. -/
structure Schema.Listed (s : Schema) : Prop where
  constants : s.constants.Listed
  structs : s.structs.Listed
  services : s.services.Listed
  options : s.options.Listed
  fields : ∀ t ∈ s.structs.toList, t.2.fields.Listed
  methods : ∀ t ∈ s.services.toList, t.2.methods.Listed

/-- The tables of an elaboration are filled from lists. -/
theorem Document.listed_elaborate (doc : Document) : doc.elaborate.Listed where
  constants := Table.listed_ofList _
  structs := Table.listed_ofList _
  services := Table.listed_ofList _
  options := Table.listed_ofList _
  fields := by
    intro t ht
    simp only [elaborate, Table.toList_ofList, List.mem_map] at ht
    obtain ⟨s, -, rfl⟩ := ht
    exact Table.listed_ofList _
  methods := by
    intro t ht
    simp only [elaborate, Table.toList_ofList, List.mem_map] at ht
    obtain ⟨s, -, rfl⟩ := ht
    exact Table.listed_ofList _

/-! ## What JSON tells -/

theorem map_eq_of_map_eq {α β γ : Type} {g : α → β} {f : α → γ} {l l' : List α}
    (hinj : ∀ a ∈ l, ∀ b ∈ l', g a = g b → f a = f b) (h : l.map g = l'.map g) :
    l.map f = l'.map f := by
  induction l generalizing l' with
  | nil =>
    obtain rfl : l' = [] := by simpa using h.symm
    rfl
  | cons a l ih =>
    cases l' with
    | nil => simp at h
    | cons b l' =>
      rw [List.map_cons, List.map_cons, List.cons.injEq] at h
      have hhead := hinj a (by simp) b (by simp) h.1
      have htail := ih (fun c hc d hd => hinj c (by simp [hc]) d (by simp [hd])) h.2
      rw [List.map_cons, List.map_cons, hhead, htail]

/-- The kind of a scalar shows in its text. -/
theorem Scalar.json_inj {s t : Scalar} (h : s.json = t.json) : s = t := by
  cases s <;> cases t <;> simp_all [json]

theorem Value.json_inj {v w : Value} (h : v.json = w.json) : v = w := by
  cases v with
  | scalar s =>
    cases w with
    | scalar t => rw [Scalar.json_inj h]
    | list items => cases s <;> cases h
  | list items =>
    cases w with
    | scalar t => cases t <;> cases h
    | list items' =>
      have hmap : items.map id = items'.map id :=
        map_eq_of_map_eq (fun s _ t _ => Scalar.json_inj) (Json.arr.inj h)
      simp only [List.map_id] at hmap
      rw [hmap]

theorem Primitive.name_inj {p q : Primitive} (h : p.name = q.name) : p = q := by
  have hp := ofName?_name p
  rw [h, ofName?_name] at hp
  exact (Option.some.inj hp).symm

/-- The name of a type does not tell whether it is primitive, since a struct may be named like any
type; the second part does. -/
theorem TypeRef.eq_of_json {t u : TypeRef} (hname : t.name = u.name)
    (hprimitive : Json.orNull (fun p => .str p.name) t.primitive? =
      Json.orNull (fun p => .str p.name) u.primitive?) : t = u := by
  cases t with
  | primitive p =>
    cases u with
    | primitive q => rw [Primitive.name_inj hname]
    | struct m => cases hprimitive
  | struct n =>
    cases u with
    | primitive q => cases hprimitive
    | struct m => rw [show n = m from hname]

theorem Shape.eq_of_json {s u : Shape Nat} (hvector : s.isVector = u.isVector)
    (hcapacity : s.capacity? = u.capacity?) : s = u := by
  cases s <;> cases u <;> simp_all [isVector, capacity?]

/-- Of the two members that may be missing each is known by its key. -/
theorem Field.options_of_json {n m : Option Nat} {v w : Option Value}
    (h : Json.member? "length_spec" (fun n : Nat => .int n) n ++
        Json.member? "assigned_value" Value.json v =
      Json.member? "length_spec" (fun n : Nat => .int n) m ++
        Json.member? "assigned_value" Value.json w) : n = m ∧ v = w := by
  have hvalue (v w : Value) : v.json = w.json ↔ v = w := ⟨Value.json_inj, congrArg Value.json⟩
  cases n <;> cases m <;> cases v <;> cases w <;> simp_all [Json.member?]

/-- A field is told but for its place. -/
theorem Field.unplaced_of_json {f g : Field} (h : f.json = g.json) : f.unplaced = g.unplaced := by
  simp only [json, members, Json.obj.injEq, List.cons_append, List.nil_append, List.cons.injEq,
    Prod.mk.injEq, Json.str.injEq, Json.bool.injEq, true_and] at h
  obtain ⟨hname, hprimitive, hvector, -, hrest⟩ := h
  obtain ⟨hcapacity, hdefault⟩ := options_of_json hrest
  rw [unplaced, unplaced, TypeRef.eq_of_json hname hprimitive, Shape.eq_of_json hvector hcapacity,
    hdefault]

theorem Method.unplaced_of_json {n k : String} {m o : Method} (h : m.json n = o.json k) :
    n = k ∧ m.unplaced = o.unplaced := by
  simp only [json, Json.obj.injEq, List.cons.injEq, Prod.mk.injEq, Json.str.injEq, Json.int.injEq,
    true_and, and_true, Nat.cast_inj, UInt32.toNat_inj] at h
  obtain ⟨hid, hname, hrequest, hresponse⟩ := h
  exact ⟨hname, by rw [unplaced, unplaced, hid, hrequest, hresponse]⟩

/-- A table is told from its JSON as far as its values are. -/
theorem Table.entries_of_json {α β : Type} {toJson : α → Json} {f : α → β} {t t' : Table α}
    (hinj : ∀ a ∈ t.toList, ∀ b ∈ t'.toList, toJson a.2 = toJson b.2 → f a.2 = f b.2)
    (h : t.json toJson = t'.json toJson) :
    (t.toList.map fun e => (e.1, f e.2)) = t'.toList.map fun e => (e.1, f e.2) := by
  refine map_eq_of_map_eq (fun a ha b hb hab => ?_) (Json.obj.inj h)
  obtain ⟨hname, hvalue⟩ := Prod.mk.inj hab
  rw [hname, hinj a ha b hb hvalue]

/-- Fields are written in their order, so the table they are listed in is told too. -/
theorem Struct.unplaced_of_json {s t : Struct} (hs : s.fields.Listed) (ht : t.fields.Listed)
    (h : s.json = t.json) : s.unplaced = t.unplaced := by
  simp only [json, Json.obj.injEq, List.cons.injEq, Prod.mk.injEq, true_and, and_true] at h
  rw [unplaced, unplaced, hs.map_eq, ht.map_eq,
    Table.entries_of_json (fun a _ b _ => Field.unplaced_of_json) h]

theorem Service.methods_of_json {s t : Service} (h : s.json = t.json) :
    (s.methods.toList.map fun e => (e.1, e.2.unplaced)) =
      t.methods.toList.map fun e => (e.1, e.2.unplaced) := by
  simp only [json, Json.obj.injEq, List.cons.injEq, Prod.mk.injEq, true_and, and_true,
    Json.arr.injEq] at h
  refine map_eq_of_map_eq (fun a _ b _ hab => ?_) h
  obtain ⟨hname, hmethod⟩ := Method.unplaced_of_json hab
  rw [hname, hmethod]

theorem Service.unplaced_of_json {s t : Service} (hs : s.methods.Listed) (ht : t.methods.Listed)
    (h : s.json = t.json) : s.unplaced = t.unplaced := by
  rw [unplaced, unplaced, hs.map_eq, ht.map_eq, methods_of_json h]

/-- A listed table is told from its JSON, if its values are. -/
theorem Table.Listed.eq_of_json {α : Type} {toJson : α → Json} {t t' : Table α} (ht : t.Listed)
    (ht' : t'.Listed) (hinj : ∀ a b, toJson a = toJson b → a = b)
    (h : t.json toJson = t'.json toJson) : t = t' := by
  have hentries := entries_of_json (f := id) (fun a _ b _ => hinj a.2 b.2) h
  simp only [id_eq, List.map_id'] at hentries
  rw [ht, ht', hentries]

/-- The text tells every table, and with it the schema. -/
theorem Schema.unplaced_of_json {s s' : Schema} (hs : s.Listed) (hs' : s'.Listed)
    (h : s.json = s'.json) : s.unplaced = s'.unplaced := by
  simp only [json, Json.obj.injEq, List.cons.injEq, Prod.mk.injEq, true_and, and_true] at h
  obtain ⟨hconstants, hstructs, hservices, hoptions⟩ := h
  have hstructs := Table.entries_of_json
    (fun a ha b hb => Struct.unplaced_of_json (hs.fields a ha) (hs'.fields b hb)) hstructs
  have hservices := Table.entries_of_json
    (fun a ha b hb => Service.unplaced_of_json (hs.methods a ha) (hs'.methods b hb)) hservices
  rw [unplaced, unplaced, hs.structs.map_eq, hs'.structs.map_eq, hs.services.map_eq,
    hs'.services.map_eq, hstructs, hservices,
    hs.constants.eq_of_json hs'.constants (fun _ _ => Value.json_inj) hconstants,
    hs.options.eq_of_json hs'.options (fun _ _ => Json.str.inj) hoptions]

/-- No place is written. -/
theorem Schema.json_unplaced (s : Schema) : s.unplaced.json = s.json := by
  simp [json, unplaced, Table.json, Table.toList_map, Function.comp_def, Struct.json,
    Struct.unplaced, Field.json, Field.members, Field.unplaced, Service.json, Service.unplaced,
    Method.json, Method.unplaced]

/-! ## Finite floats -/

/-- An array is finite if each of its items is. -/
theorem Json.finiteItems_iff {js : List Json} : FiniteItems js ↔ ∀ j ∈ js, j.Finite := by
  induction js with
  | nil => simp [FiniteItems]
  | cons j js ih => simp [FiniteItems, ih]

theorem Json.finiteMembers_iff {ms : List (String × Json)} :
    FiniteMembers ms ↔ ∀ m ∈ ms, m.2.Finite := by
  induction ms with
  | nil => simp [FiniteMembers]
  | cons m ms ih => simp [FiniteMembers, ih]

theorem Value.finite_json {v : Value} (h : v.Finite) : v.json.Finite := by
  have hscalar (s : Scalar) (hs : s ∈ v.items) : s.json.Finite := by
    cases s with
    | float x => exact h x hs
    | _ => trivial
  cases v with
  | scalar s => exact hscalar s (by simp [items])
  | list items =>
    refine Json.finiteItems_iff.2 fun j hj => ?_
    obtain ⟨s, hs, rfl⟩ := List.mem_map.1 hj
    exact hscalar s hs

theorem Table.finite_json {α : Type} {toJson : α → Json} {t : Table α}
    (h : ∀ e ∈ t.toList, (toJson e.2).Finite) : (t.json toJson).Finite := by
  refine Json.finiteMembers_iff.2 fun m hm => ?_
  obtain ⟨e, he, rfl⟩ := List.mem_map.1 hm
  exact h e he

/-- Only the default of a field may hold a number that is not finite. -/
theorem Field.finite_json {f : Field} (h : ∀ v, f.default = some v → v.Finite) : f.json.Finite := by
  have hprimitive (p : Option Primitive) : (Json.orNull (fun p => .str p.name) p).Finite := by
    cases p <;> trivial
  refine Json.finiteMembers_iff.2 fun m hm => ?_
  rcases List.mem_append.1 hm with hm | hm
  · rcases List.mem_append.1 hm with hm | hm
    · simp only [List.mem_cons, List.not_mem_nil, or_false] at hm
      rcases hm with rfl | rfl | rfl | rfl
      · trivial
      · exact hprimitive _
      · trivial
      · trivial
    · cases hn : f.shape.capacity? with
      | none => simp [Json.member?, hn] at hm
      | some n =>
        simp only [Json.member?, hn, List.mem_singleton] at hm
        rw [hm]
        trivial
  · cases hv : f.default with
    | none => simp [Json.member?, hv] at hm
    | some v =>
      simp only [Json.member?, hv, List.mem_singleton] at hm
      rw [hm]
      exact Value.finite_json (h v hv)

theorem Schema.Finite.json {s : Schema} (h : s.Finite) : s.json.Finite := by
  refine ⟨?_, ?_, ?_, ?_, trivial⟩
  · exact Table.finite_json fun c hc => Value.finite_json (h.constants c hc)
  · refine Table.finite_json fun t ht => ⟨?_, trivial⟩
    exact Table.finite_json fun f hf => Field.finite_json (h.defaults t ht f hf)
  · refine Table.finite_json fun t _ => ⟨Json.finiteItems_iff.2 fun j hj => ?_, trivial⟩
    obtain ⟨m, -, rfl⟩ := List.mem_map.1 hj
    exact ⟨trivial, trivial, trivial, trivial, trivial⟩
  · exact Table.finite_json fun _ _ => trivial

/-- Every float of a compiled schema is finite, and two compiled schemas have the same compact JSON
exactly if they are equal up to places: the same names in the same order, and the same kinds of
values, lengths, defaults and numbers. -/
theorem compact_eq_iff_unplaced_eq {text text' : String} {log log' : Log} {s s' : Schema}
    (hs : (compile text log).2 = .ok s) (hs' : (compile text' log').2 = .ok s') :
    s.Finite ∧ s'.Finite ∧ (s.json.compact = s'.json.compact ↔ s.unplaced = s'.unplaced) := by
  obtain ⟨doc, hdoc, -, rfl⟩ := compile_ok_iff.1 hs
  obtain ⟨doc', hdoc', -, rfl⟩ := compile_ok_iff.1 hs'
  have hfinite := (Document.finite_of_ofText hdoc).elaborate
  have hfinite' := (Document.finite_of_ofText hdoc').elaborate
  refine ⟨hfinite, hfinite', fun h => ?_, fun h => ?_⟩
  · have hjson := Json.compact_inj hfinite.json hfinite'.json h
    exact Schema.unplaced_of_json doc.listed_elaborate doc'.listed_elaborate hjson
  · rw [← Schema.json_unplaced, h, Schema.json_unplaced]

/-- The same struct with other gaps and another spelling of its default. -/
theorem compact_eq_iff_unplaced_eq_respelled :
    ∃ s s', (compile "struct P { x : double = 1.5 }" {}).2 = .ok s ∧
      (compile "# origin\nstruct P{x:double=15e-1,}" {}).2 = .ok s' ∧ s.Finite ∧ s'.Finite ∧
      s.unplaced = s'.unplaced := by
  obtain ⟨s, hs⟩ := exists_ok_of_isSome
    (x := (compile "struct P { x : double = 1.5 }" {}).2) (by decide +kernel)
  obtain ⟨s', hs'⟩ := exists_ok_of_isSome
    (x := (compile "# origin\nstruct P{x:double=15e-1,}" {}).2) (by decide +kernel)
  have htexts : (fun s => s.json.compact) <$> (compile "struct P { x : double = 1.5 }" {}).2 =
      (fun s => s.json.compact) <$> (compile "# origin\nstruct P{x:double=15e-1,}" {}).2 := by
    decide +kernel
  rw [hs, hs'] at htexts
  obtain ⟨hfinite, hfinite', hiff⟩ := compact_eq_iff_unplaced_eq hs hs'
  exact ⟨s, s', hs, hs', hfinite, hfinite', hiff.1 (Except.ok.inj htexts)⟩

end WireSchema
