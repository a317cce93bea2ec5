import WireSchema.Proofs.Acceptance
import WireSchema.Schema.WireSize

/-! Sizes on the wire, told without a memo and without a path. The memo is filled while structs are
still open, so a size inside a cycle is worked out from less than the whole cycle; it is right all
the same, because whoever is met again on the path is in a cycle. -/
namespace WireSchema
namespace WireSize

section Reference
variable (structs : Table Struct)

/-- A single field of the first struct is of the second. -/
def Contains (S T : String) : Prop :=
  ∃ s, structs.get? S = some s ∧ ∃ f ∈ s.fields.values, f.shape = .single ∧ f.type = .struct T

/-- A vector of anything, or a string. -/
def Unbounded (f : Field) : Prop := f.shape.isVector = true ∨ f.type = .primitive .string

/-- On the way through single fields one meets a string or a vector, or a struct again. -/
def Varies (S : String) : Prop :=
  ∃ T, Relation.ReflTransGen (Contains structs) S T ∧
    ((∃ s, structs.get? T = some s ∧ ∃ f ∈ s.fields.values, Unbounded f) ∨
      Relation.TransGen (Contains structs) T T)

/-- The primitives in the finite unfolding of some fields, in order. -/
inductive Unfolds : List Field → List Primitive → Prop where
  | nil : Unfolds [] []
  | primitive {f : Field} {fs : List Field} {p : Primitive} {ps : List Primitive} :
      f.shape = .single → f.type = .primitive p → Unfolds fs ps → Unfolds (f :: fs) (p :: ps)
  | struct {f : Field} {fs : List Field} {T : String} {s : Struct} {ps qs : List Primitive} :
      f.shape = .single → f.type = .struct T → structs.get? T = some s →
      Unfolds s.fields.values ps → Unfolds fs qs → Unfolds (f :: fs) (ps ++ qs)

/-- The sum of the sizes of some primitives, of any magnitude. -/
def bytes (ps : List Primitive) : Nat := (ps.map fun p => p.wireSize?.getD 0).sum

/-- A number of bytes as a size: 64 bits hold it, or they do not. -/
def ofBytes (n : Nat) : WireSize := if n < 2 ^ 64 then .fixed n else .overflow

/-- The size of the struct of that name. A name that no struct has counts as varying. -/
inductive HasSize (S : String) : WireSize → Prop where
  | undeclared : structs.get? S = none → HasSize S .varying
  | varies : Varies structs S → HasSize S .varying
  | unfolds {s : Struct} {ps : List Primitive} : ¬ Varies structs S → structs.get? S = some s →
      Unfolds structs s.fields.values ps → HasSize S (ofBytes (bytes ps))

/-- The answers to some questions, asked one after the other with the same memo. -/
def answers (memo : Memo) : List String → List WireSize
  | [] => []
  | S :: rest => (ofStruct structs memo S).1 :: answers (ofStruct structs memo S).2 rest

/-- Structs contain only structs of the table. -/
def Closed : Prop := ∀ S T, Contains structs S T → ∃ s, structs.get? T = some s

end Reference

variable {structs : Table Struct} {S T : String} {f : Field} {fs : List Field} {s : Struct}
  {a b : WireSize} {ps qs : List Primitive} {memo : Memo} {path : List String}

/-- Adding sizes is adding bytes, unless the sum has too many. -/
theorem ofBytes_add (m n : Nat) : ofBytes m + ofBytes n = ofBytes (m + n) := by
  change add (ofBytes m) (ofBytes n) = _
  unfold ofBytes
  split <;> split <;> simp only [add]
  · rfl
  all_goals
    rw [if_neg]
    omega

theorem varying_add (a : WireSize) : .varying + a = .varying := by
  cases a <;> rfl

theorem add_varying (a : WireSize) : a + .varying = .varying := by
  cases a <;> rfl

theorem ofPrimitive_eq_ofBytes {p : Primitive} (h : p ≠ .string) :
    ofPrimitive p = ofBytes (bytes [p]) := by
  cases p with
  | string => exact absurd rfl h
  | _ => rfl

/-- The unfolding of fields is one list at most. -/
theorem unfolds_unique (h : Unfolds structs fs ps) (h' : Unfolds structs fs qs) : ps = qs := by
  induction h generalizing qs with
  | nil =>
    cases h'
    rfl
  | primitive hs ht _ ih =>
    cases h' with
    | primitive hs' ht' h' =>
      rw [ht] at ht'
      cases ht'
      rw [ih h']
    | struct hs' ht' => simp [ht] at ht'
  | struct hs ht hT _ _ ihT ih =>
    cases h' with
    | primitive hs' ht' => simp [ht] at ht'
    | struct hs' ht' hT' hu' h' =>
      rw [ht] at ht'
      cases ht'
      rw [hT] at hT'
      cases hT'
      rw [ihT hu', ih h']

/-- A struct has no more than one size. -/
theorem hasSize_unique (h : HasSize structs S a) (h' : HasSize structs S b) : a = b := by
  cases h with
  | undeclared hS =>
    cases h' with
    | undeclared | varies => rfl
    | unfolds _ hS' => simp [hS] at hS'
  | varies hv =>
    cases h' with
    | undeclared | varies => rfl
    | unfolds hn => exact absurd hv hn
  | unfolds hn hS hu =>
    cases h' with
    | undeclared hS' => simp [hS] at hS'
    | varies hv => exact absurd hv hn
    | unfolds _ hS' hu' =>
      rw [hS] at hS'
      cases hS'
      rw [unfolds_unique hu hu']

/-- The field alone makes its struct vary. -/
def FieldVaries (structs : Table Struct) (f : Field) : Prop :=
  Unbounded f ∨ ∃ T, f.shape = .single ∧ f.type = .struct T ∧ Varies structs T

/-- A struct varies through one of its own fields. For a cycle, that is the field by which it
leaves the struct. -/
theorem varies_iff (hs : structs.get? S = some s) :
    Varies structs S ↔ ∃ f ∈ s.fields.values, FieldVaries structs f := by
  constructor
  · rintro ⟨T, hST, hT⟩
    have hfield {U : String} (hSU : Contains structs S U) (hU : Varies structs U) :
        ∃ f ∈ s.fields.values, FieldVaries structs f := by
      obtain ⟨s', hs', f, hf, hshape, htype⟩ := hSU
      rw [hs] at hs'
      cases hs'
      exact ⟨f, hf, Or.inr ⟨U, hshape, htype, hU⟩⟩
    rcases Relation.ReflTransGen.cases_head hST with rfl | ⟨U, hSU, hUT⟩
    · rcases hT with ⟨s', hs', f, hf, hu⟩ | hcycle
      · rw [hs] at hs'
        cases hs'
        exact ⟨f, hf, Or.inl hu⟩
      · obtain ⟨U, hSU, hUS⟩ := Relation.TransGen.head'_iff.1 hcycle
        exact hfield hSU ⟨S, hUS, Or.inr hcycle⟩
    · exact hfield hSU ⟨T, hUT, hT⟩
  · rintro ⟨f, hf, hu | ⟨T, hshape, htype, U, hTU, hU⟩⟩
    · exact ⟨S, .refl, Or.inl ⟨s, hs, f, hf, hu⟩⟩
    · exact ⟨U, .head ⟨s, hs, f, hf, hshape, htype⟩ hTU, hU⟩

/-- The size of some fields side by side. -/
inductive HasFieldsSize (structs : Table Struct) (fs : List Field) : WireSize → Prop where
  | varies : (∃ f ∈ fs, FieldVaries structs f) → HasFieldsSize structs fs .varying
  | unfolds {ps : List Primitive} : (∀ f ∈ fs, ¬ FieldVaries structs f) → Unfolds structs fs ps →
      HasFieldsSize structs fs (ofBytes (bytes ps))

/-- A struct is as large as its fields together. -/
theorem hasSize_of_fields (hs : structs.get? S = some s)
    (h : HasFieldsSize structs s.fields.values a) : HasSize structs S a := by
  cases h with
  | varies hv => exact .varies ((varies_iff hs).2 hv)
  | unfolds hn hu =>
    refine .unfolds (fun hv => ?_) hs hu
    obtain ⟨f, hf, hfv⟩ := (varies_iff hs).1 hv
    exact hn f hf hfv

theorem hasFieldsSize_nil : HasFieldsSize structs [] (.fixed 0) :=
  .unfolds (by simp) .nil

theorem unfolds_cons (hf : Unfolds structs [f] ps) (hfs : Unfolds structs fs qs) :
    Unfolds structs (f :: fs) (ps ++ qs) := by
  cases hf with
  | primitive hs ht hn =>
    cases hn
    exact .primitive hs ht hfs
  | struct hs ht hT hu hn =>
    cases hn
    rw [List.append_nil]
    exact .struct hs ht hT hu hfs

/-- Field by field: sizes add up, and one that varies makes all vary. -/
theorem hasFieldsSize_cons (hf : HasFieldsSize structs [f] a) (hfs : HasFieldsSize structs fs b) :
    HasFieldsSize structs (f :: fs) (a + b) := by
  cases hf with
  | varies hv =>
    rw [varying_add]
    exact .varies (List.exists_mem_cons_of fs (by simpa using hv))
  | unfolds hn hu =>
    cases hfs with
    | varies hv =>
      rw [add_varying]
      exact .varies (List.exists_mem_cons_of_exists hv)
    | unfolds hns hus =>
      rw [ofBytes_add]
      have hsum : ∀ ps qs : List Primitive, bytes ps + bytes qs = bytes (ps ++ qs) := by
        simp [bytes]
      rw [hsum]
      exact .unfolds (List.forall_mem_cons.2 ⟨by simpa using hn, hns⟩) (unfolds_cons hu hus)

/-- A vector is written with its length, so its size varies. -/
theorem hasFieldsSize_vector (h : f.shape.isVector = true) :
    HasFieldsSize structs [f] .varying :=
  .varies ⟨f, List.mem_singleton_self f, Or.inl (Or.inl h)⟩

theorem hasFieldsSize_primitive {p : Primitive} (hs : f.shape = .single)
    (ht : f.type = .primitive p) : HasFieldsSize structs [f] (ofPrimitive p) := by
  by_cases hp : p = .string
  · subst p
    exact .varies ⟨f, List.mem_singleton_self f, Or.inl (Or.inr ht)⟩
  · rw [ofPrimitive_eq_ofBytes hp]
    refine .unfolds ?_ (.primitive hs ht .nil)
    simp [FieldVaries, Unbounded, hs, ht, hp, Shape.isVector]

theorem hasFieldsSize_struct (hs : f.shape = .single) (ht : f.type = .struct T)
    (hT : structs.get? T = some s) (h : HasSize structs T a) : HasFieldsSize structs [f] a := by
  have hfield : FieldVaries structs f ↔ Varies structs T := by
    simp [FieldVaries, Unbounded, hs, ht, Shape.isVector]
  cases h with
  | undeclared hT' => simp [hT] at hT'
  | varies hv => exact .varies ⟨f, List.mem_singleton_self f, hfield.2 hv⟩
  | unfolds hn hT' hu =>
    have hu' := Unfolds.struct hs ht hT' hu .nil
    rw [List.append_nil] at hu'
    exact .unfolds (by simpa [hfield] using hn) hu'

variable (structs) in
/-- Whatever the memo holds is right. -/
def MemoRight (memo : Memo) : Prop := ∀ S a, memo[S]? = some a → HasSize structs S a

theorem memoRight_empty : MemoRight structs {} := by
  intro S a h
  simp at h

/-- What has been computed right may be remembered. -/
theorem memoRight_insert (hm : MemoRight structs memo) (h : HasSize structs S a) :
    MemoRight structs (memo.insert S a) := by
  intro T b hT
  rw [Std.TreeMap.getElem?_insert] at hT
  split at hT
  next he =>
    cases hT
    cases Std.LawfulEqCmp.eq_of_compare he
    exact h
  next => exact hm T b hT

variable (structs) in
/-- Each struct of the path contains the struct at last. -/
def Below (path : List String) (S : String) : Prop :=
  ∀ U ∈ path, Relation.TransGen (Contains structs) U S

/-- What a struct on the path contains can be asked for with that struct on the path too. -/
theorem below_of_contains (hb : Below structs path S) (h : Contains structs S T) :
    Below structs (S :: path) T := by
  intro U hU
  rcases List.mem_cons.1 hU with rfl | hU
  · exact .single h
  · exact (hb U hU).tail h

variable (structs) in
/-- The structs among the types of some fields are known, and below the path. -/
def FieldsBelow (path : List String) (fs : List Field) : Prop :=
  ∀ f ∈ fs, ∀ T, f.shape = .single → f.type = .struct T →
    (∃ s, structs.get? T = some s) ∧ Below structs path T

theorem fieldsBelow_of_struct (hc : Closed structs) (hb : Below structs path S)
    (hs : structs.get? S = some s) : FieldsBelow structs (S :: path) s.fields.values := by
  intro f hf T hshape htype
  have hST : Contains structs S T := ⟨s, hs, f, hf, hshape, htype⟩
  exact ⟨hc S T hST, below_of_contains hb hST⟩

theorem compute_undeclared (hmemo : memo[S]? = none) (hp : S ∉ path) (hs : structs.get? S = none) :
    compute structs memo path S = (.varying, memo.insert S .varying) := by
  rw [compute, hmemo]
  simp only [hp, dif_neg, not_false_eq_true]
  split
  · rfl
  next s' hs' => simp [hs] at hs'

/-- A struct that is not known yet is put on the path while its fields are computed. -/
theorem compute_declared (hmemo : memo[S]? = none) (hp : S ∉ path) (hs : structs.get? S = some s) :
    compute structs memo path S =
      ((computeFields structs memo (S :: path) s.fields.values).1,
        (computeFields structs memo (S :: path) s.fields.values).2.insert S
          (computeFields structs memo (S :: path) s.fields.values).1) := by
  rw [compute, hmemo]
  simp only [hp, dif_neg, not_false_eq_true]
  split
  next hs' => simp [hs] at hs'
  next s' hs' =>
    rw [hs] at hs'
    cases hs'
    rfl

/-- What is worked out below a path is right, and so is all that the memo holds then. A struct that
is met on the path contains itself, so that calling it varying is right as well. -/
theorem compute_right (hc : Closed structs) :
    (∀ memo path S, MemoRight structs memo → Below structs path S →
      HasSize structs S (compute structs memo path S).1 ∧
        MemoRight structs (compute structs memo path S).2) ∧
    (∀ memo path fs, MemoRight structs memo → FieldsBelow structs path fs →
      HasFieldsSize structs fs (computeFields structs memo path fs).1 ∧
        MemoRight structs (computeFields structs memo path fs).2) := by
  refine compute.mutual_induct structs
    (fun memo path S => MemoRight structs memo → Below structs path S →
      HasSize structs S (compute structs memo path S).1 ∧
        MemoRight structs (compute structs memo path S).2)
    (fun memo path fs => MemoRight structs memo → FieldsBelow structs path fs →
      HasFieldsSize structs fs (computeFields structs memo path fs).1 ∧
        MemoRight structs (computeFields structs memo path fs).2) ?_ ?_ ?_ ?_ ?_ ?_
  · intro memo path S size hmemo hm _
    rw [compute, hmemo]
    exact ⟨hm S size hmemo, hm⟩
  · intro memo path S hmemo hp hm hb
    rw [compute, hmemo]
    simp only [hp, dif_pos]
    exact ⟨.varies ⟨S, .refl, Or.inr (hb S hp)⟩, hm⟩
  · intro memo path S hmemo hp hs hm hb
    rw [compute_undeclared hmemo hp hs]
    exact ⟨.undeclared hs, memoRight_insert hm (.undeclared hs)⟩
  · intro memo path S hmemo hp s hs _ size memo' _ ih hm hb
    obtain ⟨hsize, hm'⟩ := ih hm (fieldsBelow_of_struct hc hb hs)
    have hS := hasSize_of_fields hs hsize
    rw [compute_declared hmemo hp hs]
    exact ⟨hS, memoRight_insert hm' hS⟩
  · intro memo path hm _
    rw [computeFields]
    exact ⟨hasFieldsSize_nil, hm⟩
  · intro memo path f fs first memo' hfirst rest memo'' hrest ihS ih hm hb
    obtain ⟨hbf, hbfs⟩ := List.forall_mem_cons.1 hb
    have hf : HasFieldsSize structs [f] first ∧ MemoRight structs memo' := by
      cases hshape : f.shape with
      | vector c =>
        simp only [hshape, Prod.mk.injEq] at hfirst
        obtain ⟨rfl, rfl⟩ := hfirst
        exact ⟨hasFieldsSize_vector (by rw [hshape]; rfl), hm⟩
      | single =>
        cases htype : f.type with
        | primitive p =>
          simp only [hshape, htype, Prod.mk.injEq] at hfirst
          obtain ⟨rfl, rfl⟩ := hfirst
          exact ⟨hasFieldsSize_primitive hshape htype, hm⟩
        | struct T =>
          simp only [hshape, htype] at hfirst
          obtain ⟨⟨s, hs⟩, hT⟩ := hbf T hshape htype
          have hsize := ihS T hm hT
          rw [hfirst] at hsize
          exact ⟨hasFieldsSize_struct hshape htype hs hsize.1, hsize.2⟩
    obtain ⟨hfs, hm''⟩ := ih hf.2 hbfs
    rw [computeFields, hfirst]
    exact ⟨hasFieldsSize_cons hf.1 hfs, hm''⟩

theorem ofStruct_right (hc : Closed structs) (hm : MemoRight structs memo) :
    HasSize structs S (ofStruct structs memo S).1 ∧ MemoRight structs (ofStruct structs memo S).2 :=
  (compute_right hc).1 memo [] S hm (by simp [Below])

/-- Queries may come in any order, and each profits from those before it. -/
theorem answers_right (hc : Closed structs) (hm : MemoRight structs memo) (queries : List String) :
    List.Forall₂ (HasSize structs) queries (answers structs memo queries) := by
  induction queries generalizing memo with
  | nil => exact .nil
  | cons S rest ih =>
    obtain ⟨hS, hm'⟩ := ofStruct_right hc hm (S := S)
    exact .cons hS (ih hm')

/-- A well-formed document names no struct that it does not declare. -/
theorem closed_of_wellFormed {doc : Document} (hw : doc.WellFormed) :
    Closed doc.elaborate.structs := by
  have hsound := Document.sound_elaborate_structs hw.structs_nodup
  rintro S T ⟨s, hs, f, hf, -, htype⟩
  apply Table.exists_get?_of_mem_names hsound
  rw [Document.names_elaborate_structs]
  rw [Table.get?_eq_some_iff hsound] at hs
  simp only [Document.elaborate, Table.toList_ofList, List.mem_map, Prod.mk.injEq] at hs
  obtain ⟨sd, hsd, -, rfl⟩ := hs
  simp only [StructDef.elaborate, Table.values, Table.toList_ofList, List.map_map, List.mem_map,
    Function.comp_apply] at hf
  obtain ⟨fd, hfd, rfl⟩ := hf
  cases Schema.eq_of_typeRef_ofName_eq_struct htype
  rcases (hw.fields_wellFormed sd hsd fd hfd).type_known with ⟨p, hp⟩ | hT
  · have hprim := Schema.typeRef_ofName_eq_primitive_iff.2 hp
    cases hprim.symm.trans htype
  · exact hT

/-- The memo is never wrong: whatever is asked of a compiled schema, and in whatever order, the
answers are the sizes, and there are no other sizes. -/
theorem answers_eq_iff_hasSize {text : String} {log : Log} {schema : Schema}
    (h : (compile text log).2 = .ok schema) (queries : List String) (sizes : List WireSize) :
    answers schema.structs {} queries = sizes ↔
      List.Forall₂ (HasSize schema.structs) queries sizes := by
  obtain ⟨doc, -, hw, rfl⟩ := compile_ok_iff.1 h
  have hright := answers_right (closed_of_wellFormed hw) memoRight_empty queries
  constructor
  · rintro rfl
    exact hright
  · intro hsizes
    have hunique : Relator.RightUnique (HasSize doc.elaborate.structs) := fun _ _ _ =>
      hasSize_unique
    exact hunique.forall₂ hright hsizes

/-- A cycle, what hangs on it, and sizes that are asked for twice. -/
theorem answers_through_cycle :
    ∃ schema, (compile "struct A{b:B}struct B{a:A c:C}struct C{x:double}" {}).2 = .ok schema ∧
      ∀ sizes, answers schema.structs {} ["B", "C", "A", "C"] = sizes ↔
        List.Forall₂ (HasSize schema.structs) ["B", "C", "A", "C"] sizes := by
  refine (exists_ok_of_isSome ?_).imp fun schema h => ⟨h, answers_eq_iff_hasSize h _⟩
  decide +kernel

end WireSize
end WireSchema
