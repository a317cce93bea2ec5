import WireSchema.Proofs.Elaboration

/-! Which constants and structs are accepted, and what is made of them: one equivalence for each
function, from a literal up to the table of all structs. -/
namespace WireSchema
namespace Schema

/-- A literal has a value if its items are of one kind. -/
theorem literal_value_eq_ok_iff {l : Literal} {v : Value} :
    l.value = .ok v ↔ l.plain.Uniform ∧ v = l.plain := by
  cases l with
  | scalar s loc => simp [Literal.value, Literal.plain, Value.Uniform, eq_comm]
  | list items loc =>
    cases items with
    | nil => simp [Literal.value, Literal.plain, Value.Uniform]
    | cons first rest =>
      have huniform : (Literal.list (first :: rest) loc).plain.Uniform ↔
          ∀ v ∈ rest, v.kind = first.kind := by
        constructor
        · intro h v hv
          exact h.2 v (List.mem_cons_of_mem _ hv) first List.mem_cons_self
        · intro h
          have hall : ∀ v ∈ first :: rest, v.kind = first.kind := by simpa using h
          exact ⟨by simp, fun v hv w hw => (hall v hv).trans (hall w hw).symm⟩
      rw [huniform, Literal.value]
      cases hf : rest.find? fun v => v.kind ≠ first.kind with
      | some other =>
        have hne := List.find?_some hf
        have hmem := List.mem_of_find?_eq_some hf
        simp only [reduceCtorEq, false_iff, not_and]
        intro h
        exact absurd (h other hmem) (by simpa using hne)
      | none =>
        have hall : ∀ v ∈ rest, v.kind = first.kind := by simpa using hf
        simp only [Except.ok.injEq, Literal.plain]
        exact ⟨fun h => ⟨hall, h.symm⟩, fun h => h.2.symm⟩

/-- One constant: its name is new and its value can be made. -/
theorem addConstant_fills :
    Table.Fills addConstant ConstantDef.name (·.value.plain.Uniform) fun _ c => c.value.plain := by
  intro t c t' ht
  rw [addConstant, ← Table.contains_iff ht]
  split
  next hc => simp [hc]
  next hc =>
    cases hv : c.value.value with
    | error fault =>
      have hu : ¬ c.value.plain.Uniform := by
        intro hu
        rw [literal_value_eq_ok_iff.2 ⟨hu, rfl⟩] at hv
        cases hv
      simp [hu]
    | ok v =>
      obtain ⟨hu, rfl⟩ := literal_value_eq_ok_iff.1 hv
      simp [hc, hu, eq_comm]

/-- The constants of a document are accepted exactly if their names differ and each value is
uniform. -/
theorem resolveConstants_eq_ok_iff {doc : Document} {t : Table Value} :
    resolveConstants doc = .ok t ↔
      doc.constantNames.Nodup ∧ (∀ c ∈ doc.constants, c.value.plain.Uniform) ∧
        t = doc.elaborate.constants := by
  exact Table.foldlM_eq_ok_iff_map addConstant_fills

section Drafts
variable {constants : Table Value}

/-- The default and the length of the field have values. -/
structure Resolves (env : String → Option Value) (f : FieldDef) : Prop where
  default_known : ∀ e, f.default = some e → (e.value? env).isSome
  default_uniform : ∀ v, f.default = some (.literal v) → v.plain.Uniform
  length_known : ∀ e, f.type.length? = some e → (e.value? env).isSome

/-- The draft of a field that resolves. -/
def draftOf (env : String → Option Value) (f : FieldDef) : DraftField where
  typeName := f.type.name
  shape := f.type.shape fun e => (e.value? env).map (·, e.loc)
  default := f.default.bind (·.value? env)
  loc := f.loc

theorem constantValue_eq_ok_iff {use : ConstantUse} {name : String} {loc : Location} {v : Value} :
    constantValue constants use name loc = .ok v ↔ constants.get? name = some v := by
  rw [constantValue]
  split <;> simp_all

theorem defaultValue_eq_ok_iff {e : DefaultExpr} {v : Value} :
    defaultValue constants e = .ok v ↔
      (∀ l, e = .literal l → l.plain.Uniform) ∧ e.value? constants.get? = some v := by
  cases e with
  | constant name loc => simp [defaultValue, constantValue_eq_ok_iff, DefaultExpr.value?]
  | literal l =>
    simp only [defaultValue, mapError_eq_ok, literal_value_eq_ok_iff, DefaultExpr.value?,
      DefaultExpr.literal.injEq, forall_eq', Option.some.injEq]
    exact and_congr_right fun _ => eq_comm

theorem lengthValue_eq_ok_iff {e : LengthExpr} {r : Value × Location} :
    lengthValue constants e = .ok r ↔ (e.value? constants.get?).map (·, e.loc) = some r := by
  cases e with
  | literal n loc => simp [lengthValue, LengthExpr.value?, LengthExpr.loc]
  | constant name loc =>
    simp only [lengthValue, bind_eq_ok, constantValue_eq_ok_iff, LengthExpr.value?, LengthExpr.loc,
      Option.map_eq_some_iff, pure, Except.pure, Except.ok.injEq]

theorem defaults_eq_ok_iff {o : Option DefaultExpr} {r : Option Value} :
    o.mapM (defaultValue constants) = .ok r ↔
      (∀ e, o = some e → (e.value? constants.get?).isSome) ∧
        (∀ v, o = some (.literal v) → v.plain.Uniform) ∧ r = o.bind (·.value? constants.get?) := by
  cases o with
  | none =>
    simp only [Option.mapM_none, pure, Except.pure, Except.ok.injEq, reduceCtorEq, false_implies,
      implies_true, true_and, Option.bind_none]
    exact eq_comm
  | some e =>
    simp only [Option.mapM_some, map_eq_ok, defaultValue_eq_ok_iff, Option.some.injEq, forall_eq',
      Option.bind_some, Option.isSome_iff_exists]
    constructor
    · rintro ⟨v, ⟨hu, hv⟩, rfl⟩
      exact ⟨⟨v, hv⟩, hu, hv.symm⟩
    · rintro ⟨⟨v, hv⟩, hu, rfl⟩
      exact ⟨v, ⟨hu, hv⟩, hv.symm⟩

theorem draftShape_eq_ok_iff {type : TypeExpr} {s : Shape (Value × Location)} :
    draftShape constants type = .ok s ↔
      (∀ e, type.length? = some e → (e.value? constants.get?).isSome) ∧
        s = type.shape fun e => (e.value? constants.get?).map (·, e.loc) := by
  cases type with
  | named name =>
    simp only [draftShape, TypeExpr.length?, TypeExpr.shape, Except.ok.injEq, reduceCtorEq,
      false_implies, implies_true, true_and]
    exact eq_comm
  | vector element length =>
    cases length with
    | none =>
      simp only [draftShape, TypeExpr.length?, TypeExpr.shape, Except.ok.injEq, reduceCtorEq,
        false_implies, implies_true, true_and, Option.bind_none]
      exact eq_comm
    | some e =>
      simp only [draftShape, bind_eq_ok, lengthValue_eq_ok_iff, pure, Except.pure,
        Except.ok.injEq, TypeExpr.length?, TypeExpr.shape, Option.some.injEq, forall_eq',
        Option.bind_some, Option.isSome_iff_exists, Option.map_eq_some_iff]
      constructor
      · rintro ⟨_, ⟨v, hv, rfl⟩, rfl⟩
        exact ⟨⟨v, hv⟩, by simp [hv]⟩
      · rintro ⟨⟨v, hv⟩, rfl⟩
        exact ⟨_, ⟨v, hv, rfl⟩, by simp [hv]⟩

/-- A field can be drafted if all names in it are known. -/
theorem draftField_eq_ok_iff {f : FieldDef} {d : DraftField} :
    draftField constants f = .ok d ↔
      Resolves constants.get? f ∧ d = draftOf constants.get? f := by
  simp only [draftField, bind_eq_ok, defaults_eq_ok_iff, draftShape_eq_ok_iff, pure, Except.pure,
    Except.ok.injEq]
  constructor
  · rintro ⟨_, ⟨hk, hu, rfl⟩, _, ⟨hl, rfl⟩, rfl⟩
    exact ⟨⟨hk, hu, hl⟩, rfl⟩
  · rintro ⟨⟨hk, hu, hl⟩, rfl⟩
    exact ⟨_, ⟨hk, hu, rfl⟩, _, ⟨hl, rfl⟩, rfl⟩

theorem addField_fills (struct : String) :
    Table.Fills (addField constants struct) FieldDef.name (Resolves constants.get?)
      fun _ => draftOf constants.get? := by
  intro t f t' ht
  simp only [addField, bind_eq_ok, mapError_eq_ok, draftField_eq_ok_iff]
  constructor
  · rintro ⟨_, ⟨hf, rfl⟩, h⟩
    split at h
    next t'' hins =>
      obtain ⟨hn, rfl⟩ := (Table.insertNew?_eq_some_iff ht).1 hins
      cases h
      exact ⟨hn, hf, rfl⟩
    next => cases h
  · rintro ⟨hn, hf, rfl⟩
    refine ⟨_, ⟨hf, rfl⟩, ?_⟩
    rw [(Table.insertNew?_eq_some_iff ht).2 ⟨hn, rfl⟩]
    rfl

/-- The name of the struct and the names of its fields are free, and its fields resolve. -/
structure StructResolves (constants : Table Value) (s : StructDef) : Prop where
  fresh : s.name ∉ constants.names
  nodup : (s.fields.map FieldDef.name).Nodup
  fields : ∀ f ∈ s.fields, Resolves constants.get? f

def draftStructOf (env : String → Option Value) (s : StructDef) : DraftStruct where
  fields := .ofList (s.fields.map fun f => (f.name, draftOf env f))
  loc := s.loc

theorem addStruct_fills (hc : constants.Sound) :
    Table.Fills (addStruct constants) StructDef.name (StructResolves constants)
      fun _ => draftStructOf constants.get? := by
  intro t s t' ht
  simp only [addStruct, throw_guard_eq_ok, Table.contains_iff ht, Table.contains_iff hc, bind_eq_ok,
    Table.foldlM_eq_ok_iff_map (addField_fills s.name), pure, Except.pure, Except.ok.injEq]
  constructor
  · rintro ⟨hn, hfresh, _, ⟨hnodup, hfields, rfl⟩, rfl⟩
    exact ⟨hn, ⟨hfresh, hnodup, hfields⟩, rfl⟩
  · rintro ⟨hn, ⟨hfresh, hnodup, hfields⟩, rfl⟩
    exact ⟨hn, hfresh, _, ⟨hnodup, hfields, rfl⟩, rfl⟩

/-- The second pass, as a whole. -/
theorem draftStructs_eq_ok_iff (hc : constants.Sound) {doc : Document} {t : Table DraftStruct} :
    draftStructs constants doc = .ok t ↔
      doc.structNames.Nodup ∧ (∀ s ∈ doc.structs, StructResolves constants s) ∧
        t = .ofList (doc.structs.map fun s => (s.name, draftStructOf constants.get? s)) :=
  Table.foldlM_eq_ok_iff_map (addStruct_fills hc)

end Drafts

section Structs
variable {drafts : Table DraftStruct} {p : Primitive} {v : Value}

theorem ofName?_isSome_iff {name : String} :
    (Primitive.ofName? name).isSome ↔ ∃ p : Primitive, p.name = name := by
  rw [Option.isSome_iff_exists]
  constructor
  · rintro ⟨p, hp⟩
    exact ⟨p, Primitive.name_of_ofName? hp⟩
  · rintro ⟨p, rfl⟩
    exact ⟨p, Primitive.ofName?_name p⟩

/-- A name that stands for a primitive type stands for nothing else. -/
theorem typeRef_ofName_eq_primitive_iff {name : String} :
    TypeRef.ofName name = .primitive p ↔ p.name = name := by
  rw [TypeRef.ofName]
  constructor
  · intro h
    split at h
    next q hq =>
      cases h
      exact Primitive.name_of_ofName? hq
    next => cases h
  · rintro rfl
    rw [Primitive.ofName?_name]

theorem eq_of_typeRef_ofName_eq_struct {name T : String} (h : TypeRef.ofName name = .struct T) :
    T = name := by
  rw [TypeRef.ofName] at h
  split at h
  next => cases h
  next =>
    cases h
    rfl

/-- A type is a primitive one or a struct of the document, wherever that is declared. -/
theorem resolveType_eq_ok_iff (hd : drafts.Sound) {name : String} {r : TypeRef} :
    resolveType drafts name = .ok r ↔
      ((∃ p : Primitive, p.name = name) ∨ name ∈ drafts.names) ∧ r = .ofName name := by
  rw [resolveType, TypeRef.ofName, ← ofName?_isSome_iff, ← Table.contains_iff hd]
  cases Primitive.ofName? name with
  | some p =>
    simp only [Except.ok.injEq, Option.isSome_some, true_or, true_and]
    exact eq_comm
  | none =>
    by_cases hc : drafts.contains name
    · simp only [hc, if_true, Except.ok.injEq, or_true, true_and]
      exact eq_comm
    · simp [hc]

/-- The values that are lengths. -/
def IsLength (v : Value) : Prop := ∃ n : Int, v = .scalar (.int n) ∧ 1 ≤ n ∧ n ≤ 0xFFFFFFFF

/-- A length is an integer that is positive and has 32 bits. -/
theorem checkLength_eq_ok_iff {n : Nat} :
    checkLength v = .ok n ↔ IsLength v ∧ v.capacity? = some n := by
  unfold checkLength IsLength
  split
  next k =>
    simp only [Value.scalar.injEq, Scalar.int.injEq, exists_eq_left', Value.capacity?,
      Option.some.injEq]
    split
    · simp only [reduceCtorEq, false_iff, not_and]
      omega
    split
    · simp only [Except.ok.injEq]
      constructor
      · intro h
        exact ⟨by omega, h⟩
      · exact fun h => h.2
    · simp only [reduceCtorEq, false_iff, not_and]
      omega
  next h =>
    simp only [reduceCtorEq, false_iff, not_and]
    rintro ⟨k, rfl, -⟩
    exact absurd rfl (h k)

/-- The shape with its length as a number. -/
def checkedShape : Shape (Value × Location) → Shape Nat
  | .single => .single
  | .vector c => .vector (c.bind (·.1.capacity?))

theorem checkShape_eq_ok_iff {s : Shape (Value × Location)} {s' : Shape Nat} :
    checkShape s = .ok s' ↔ (∀ r, s.capacity? = some r → IsLength r.1) ∧ s' = checkedShape s := by
  cases s with
  | single =>
    simp only [checkShape, checkedShape, Shape.capacity?, Except.ok.injEq, reduceCtorEq,
      false_implies, implies_true, true_and]
    exact eq_comm
  | vector c =>
    cases c with
    | none =>
      simp only [checkShape, checkedShape, Shape.capacity?, Except.ok.injEq, reduceCtorEq,
        false_implies, implies_true, true_and, Option.bind_none]
      exact eq_comm
    | some r =>
      have hr {n : Nat} := checkLength_eq_ok_iff (v := r.1) (n := n)
      simp only [checkShape, checkedShape, Shape.capacity?, Option.some.injEq, forall_eq',
        Option.bind_some]
      cases h : checkLength r.1 with
      | ok n =>
        obtain ⟨hl, hn⟩ := hr.1 h
        simp only [Except.ok.injEq, hl, hn, true_and]
        exact eq_comm
      | error fault =>
        simp only [reduceCtorEq, false_iff, not_and]
        rintro ⟨k, hk, h1, h2⟩
        have := hr.2 ⟨⟨k, hk, h1, h2⟩, by rw [hk]; rfl⟩
        rw [h] at this
        cases this

theorem outOfRange?_eq_none_iff {items : List Scalar} :
    outOfRange? p items = none ↔ ∀ s ∈ items, s.InRange p := by
  unfold outOfRange? Scalar.InRange
  cases p.range? with
  | none => simp
  | some r =>
    obtain ⟨least, greatest⟩ := r
    simp only [List.findSome?_eq_none_iff, Option.some.injEq, Prod.mk.injEq]
    refine forall₂_congr fun s _ => ?_
    cases s with
    | int n =>
      simp only [Scalar.int.injEq]
      constructor
      · rintro h _ _ _ rfl ⟨rfl, rfl⟩
        split at h
        · cases h
        · omega
      · intro h
        obtain ⟨h1, h2⟩ := h n least greatest rfl ⟨rfl, rfl⟩
        rw [if_neg (by omega)]
    | float x => simp
    | str s => simp

/-- The first item stands for all of them, since they are of one kind. -/
theorem checkItems_eq_ok_iff {items : List Scalar} (hne : items ≠ [])
    (hkind : ∀ a ∈ items, ∀ b ∈ items, a.kind = b.kind) :
    checkItems p v items = .ok () ↔ ∀ s ∈ items, s.Fits p := by
  obtain ⟨first, rest, rfl⟩ := List.exists_cons_of_ne_nil hne
  simp only [Scalar.Fits, forall_and, ← outOfRange?_eq_none_iff, checkItems]
  split
  next hk =>
    simp only [reduceCtorEq, false_iff, not_and]
    intro h
    exact absurd (h first List.mem_cons_self) hk
  next hk =>
    have hall : ∀ s ∈ first :: rest, s.kind = p.kind := fun s hs =>
      (hkind s hs first List.mem_cons_self).trans (not_not.1 hk)
    cases outOfRange? p (first :: rest) with
    | none => exact ⟨fun _ => ⟨hall, rfl⟩, fun _ => rfl⟩
    | some n => simp

/-- A default has to fit the type, item by item if it is a list. -/
theorem checkDefault_eq_ok_iff {type : TypeRef} {isVector : Bool} (hu : v.Uniform) :
    checkDefault type isVector v = .ok () ↔ ∃ p, type = .primitive p ∧ v.Fits p isVector := by
  cases type with
  | struct name => simp [checkDefault]
  | primitive p =>
    simp only [checkDefault, TypeRef.primitive.injEq, exists_eq_left']
    cases v with
    | scalar s =>
      cases isVector with
      | true => simp [Value.Fits]
      | false =>
        rw [checkItems_eq_ok_iff (by simp) (by simp)]
        simp [Value.Fits]
    | list items =>
      cases isVector with
      | false => simp [Value.Fits]
      | true =>
        rw [checkItems_eq_ok_iff hu.1 hu.2]
        simp [Value.Fits]

/-- What is asked of a draft once all structs are known. -/
structure Checks (structs : List String) (d : DraftField) : Prop where
  type_known : (∃ p : Primitive, p.name = d.typeName) ∨ d.typeName ∈ structs
  length_range : ∀ r, d.shape.capacity? = some r → IsLength r.1
  default_fits : ∀ v, d.default = some v →
    ∃ p : Primitive, p.name = d.typeName ∧ v.Fits p d.shape.isVector

def fieldOf (d : DraftField) : Field where
  type := .ofName d.typeName
  shape := checkedShape d.shape
  default := d.default
  loc := d.loc

/-- What the third pass makes of a draft. -/
theorem checkField_eq_ok_iff (hd : drafts.Sound) {d : DraftField} {f : Field}
    (hu : ∀ v, d.default = some v → v.Uniform) :
    checkField drafts d = .ok f ↔ Checks drafts.names d ∧ f = fieldOf d := by
  have hfield : checkField drafts d = .ok f ↔
      ((∃ p : Primitive, p.name = d.typeName) ∨ d.typeName ∈ drafts.names) ∧
        (∀ r, d.shape.capacity? = some r → IsLength r.1) ∧
          (∀ v, d.default = some v →
            checkDefault (.ofName d.typeName) d.shape.isVector v = .ok ()) ∧ fieldOf d = f := by
    simp only [checkField, bind_eq_ok, mapError_eq_ok, resolveType_eq_ok_iff hd,
      checkShape_eq_ok_iff]
    constructor
    · rintro ⟨_, ⟨ht, rfl⟩, _, ⟨hs, rfl⟩, h⟩
      refine ⟨ht, hs, ?_⟩
      cases hv : d.default with
      | none =>
        rw [hv] at h
        cases h
        simp [fieldOf, hv]
      | some v =>
        rw [hv] at h
        obtain ⟨_, hc, hf⟩ := bind_eq_ok.1 h
        cases hf
        simpa [fieldOf, hv] using mapError_eq_ok.1 hc
    · rintro ⟨ht, hs, hv, rfl⟩
      refine ⟨_, ⟨ht, rfl⟩, _, ⟨hs, rfl⟩, ?_⟩
      cases h : d.default with
      | none => simp [fieldOf, h, pure, Except.pure]
      | some v =>
        simp only [hv v h, Except.mapError, bind, Except.bind]
        simp [fieldOf, h, pure, Except.pure]
  rw [hfield]
  constructor
  · rintro ⟨ht, hs, hv, rfl⟩
    refine ⟨⟨ht, hs, fun v h => ?_⟩, rfl⟩
    simpa only [typeRef_ofName_eq_primitive_iff] using
      (checkDefault_eq_ok_iff (hu v h)).1 (hv v h)
  · rintro ⟨⟨ht, hs, hv⟩, rfl⟩
    refine ⟨ht, hs, fun v h => (checkDefault_eq_ok_iff (hu v h)).2 ?_, rfl⟩
    simpa only [typeRef_ofName_eq_primitive_iff] using hv v h

end Structs

section Passes
variable {env : String → Option Value} {constants : Table Value} {f : FieldDef}

theorem isVector_shape {α : Type} {capacity : LengthExpr → Option α} {type : TypeExpr} :
    (type.shape capacity).isVector = type.isVector := by
  cases type <;> rfl

theorem capacity?_shape {α : Type} {capacity : LengthExpr → Option α} {type : TypeExpr} :
    (type.shape capacity).capacity? = type.length?.bind capacity := by
  cases type <;> rfl

/-- Drafting and checking a field comes to its elaboration. -/
theorem fieldOf_draftOf : fieldOf (draftOf env f) = f.elaborate env := by
  have hshape : checkedShape (draftOf env f).shape = (f.elaborate env).shape := by
    cases ht : f.type with
    | named name => simp [draftOf, FieldDef.elaborate, ht, TypeExpr.shape, checkedShape]
    | vector element length =>
      simp only [draftOf, FieldDef.elaborate, ht, TypeExpr.shape, checkedShape, Shape.vector.injEq,
        Option.bind_assoc]
      refine Option.bind_congr fun e _ => ?_
      cases e.value? env <;> rfl
  rw [fieldOf, hshape]
  rfl

/-- The default of a draft is uniform, since constants and accepted literals are. -/
theorem default_uniform (henv : ∀ name v, env name = some v → v.Uniform) (hf : Resolves env f)
    {v : Value} (hv : (draftOf env f).default = some v) : v.Uniform := by
  obtain ⟨e, he, hev⟩ := Option.bind_eq_some_iff.1 hv
  cases e with
  | literal l =>
    cases hev
    exact hf.default_uniform l he
  | constant name loc => exact henv name v hev

/-- Both looks at a field together ask what its well-formedness asks. -/
theorem resolves_and_checks_iff {structs : List String} :
    Resolves env f ∧ Checks structs (draftOf env f) ↔ f.WellFormed env structs := by
  have hvector : (draftOf env f).shape.isVector = f.type.isVector := isVector_shape
  have hlength : (draftOf env f).shape.capacity? =
      f.type.length?.bind fun e => (e.value? env).map (·, e.loc) := capacity?_shape
  constructor
  · rintro ⟨hr, hc⟩
    refine ⟨hc.type_known, fun name loc he => hr.length_known _ he, ?_,
      fun name loc he => hr.default_known _ he, hr.default_uniform, ?_⟩
    · intro e v he hv
      exact hc.length_range (v, e.loc) (by simp [hlength, he, hv])
    · intro e v he hv
      rw [← hvector]
      exact hc.default_fits v (by simp [draftOf, he, hv])
  · intro hw
    refine ⟨⟨?_, hw.default_uniform, ?_⟩, hw.type_known, ?_, ?_⟩
    · intro e he
      cases e with
      | literal l => rfl
      | constant name loc => exact hw.default_known name loc he
    · intro e he
      cases e with
      | literal n loc => rfl
      | constant name loc => exact hw.length_known name loc he
    · intro r hr
      rw [hlength] at hr
      obtain ⟨e, he, hv⟩ := Option.bind_eq_some_iff.1 hr
      obtain ⟨v, hv', rfl⟩ := Option.map_eq_some_iff.1 hv
      exact hw.length_range e v he hv'
    · intro v hv
      obtain ⟨e, he, hv⟩ := Option.bind_eq_some_iff.1 hv
      rw [hvector]
      exact hw.default_fits e v he hv

/-- A struct whose fields resolve is accepted exactly if each draft passes its checks. -/
theorem checkStruct_eq_ok_iff (henv : ∀ name v, env name = some v → v.Uniform)
    {drafts : Table DraftStruct} (hd : drafts.Sound) {s : StructDef}
    (hr : ∀ f ∈ s.fields, Resolves env f) {r : Struct} :
    checkStruct drafts s.name (draftStructOf env s) = .ok r ↔
      (∀ f ∈ s.fields, Checks drafts.names (draftOf env f)) ∧ r = s.elaborate env := by
  have hfields {t : Table Field} :
      ((draftStructOf env s).fields.mapM fun field d =>
        (checkField drafts d).mapError fun e => (⟨.field s.name field e.1, e.2⟩ : Violation)) =
          .ok t ↔
        (∀ f ∈ s.fields, Checks drafts.names (draftOf env f)) ∧ t = (s.elaborate env).fields := by
    refine Table.mapM_ofList_eq_ok_iff _ _ _ (fun f => Checks drafts.names (draftOf env f)) _ ?_
    intro f hf b
    have hu : ∀ v, (draftOf env f).default = some v → v.Uniform := fun v hv =>
      default_uniform henv (hr f hf) hv
    rw [mapError_eq_ok, checkField_eq_ok_iff hd hu, fieldOf_draftOf]
  simp only [checkStruct, bind_eq_ok, hfields, pure, Except.pure, Except.ok.injEq]
  constructor
  · rintro ⟨_, ⟨hc, rfl⟩, rfl⟩
    exact ⟨hc, rfl⟩
  · rintro ⟨hc, rfl⟩
    exact ⟨_, ⟨hc, rfl⟩, rfl⟩

theorem checkStructs_eq_ok_iff (henv : ∀ name v, env name = some v → v.Uniform)
    {doc : Document} (hn : doc.structNames.Nodup)
    (hr : ∀ s ∈ doc.structs, ∀ f ∈ s.fields, Resolves env f) {t : Table Struct} :
    checkStructs (.ofList (doc.structs.map fun s => (s.name, draftStructOf env s))) = .ok t ↔
      (∀ s ∈ doc.structs, ∀ f ∈ s.fields, Checks doc.structNames (draftOf env f)) ∧
        t = .ofList (doc.structs.map fun s => (s.name, s.elaborate env)) := by
  have hkeys := doc.keys_structs (draftStructOf env)
  have hsound := Table.sound_ofList (by rwa [hkeys])
  refine Table.mapM_ofList_eq_ok_iff _ _ _
    (fun s : StructDef => ∀ f ∈ s.fields, Checks doc.structNames (draftOf env f)) _ ?_
  intro s hs r
  rw [checkStruct_eq_ok_iff henv hsound (hr s hs), Table.names_ofList, hkeys]

/-- What becomes of the structs of a document in the two passes over them, given constants of any
origin. -/
theorem structs_eq_ok_iff (hc : constants.Sound)
    (hu : ∀ name v, constants.get? name = some v → v.Uniform) {doc : Document} {t : Table Struct} :
    (∃ drafts, draftStructs constants doc = .ok drafts ∧ checkStructs drafts = .ok t) ↔
      doc.structNames.Nodup ∧ (∀ name ∈ doc.structNames, name ∉ constants.names) ∧
        (∀ s ∈ doc.structs, (s.fields.map FieldDef.name).Nodup) ∧
          (∀ s ∈ doc.structs, ∀ f ∈ s.fields, f.WellFormed constants.get? doc.structNames) ∧
            t = .ofList (doc.structs.map fun s => (s.name, s.elaborate constants.get?)) := by
  have hnames : (∀ name ∈ doc.structNames, name ∉ constants.names) ↔
      ∀ s ∈ doc.structs, s.name ∉ constants.names := by simp [Document.structNames]
  rw [hnames]
  simp only [draftStructs_eq_ok_iff hc]
  constructor
  · rintro ⟨_, ⟨hn, hs, rfl⟩, ht⟩
    obtain ⟨hch, rfl⟩ := (checkStructs_eq_ok_iff hu hn fun s h => (hs s h).fields).1 ht
    refine ⟨hn, fun s h => (hs s h).fresh, fun s h => (hs s h).nodup, fun s h f hf => ?_, rfl⟩
    exact resolves_and_checks_iff.1 ⟨(hs s h).fields f hf, hch s h f hf⟩
  · rintro ⟨hn, hfresh, hnodup, hw, rfl⟩
    have hr : ∀ s ∈ doc.structs, ∀ f ∈ s.fields, Resolves constants.get? f := fun s h f hf =>
      (resolves_and_checks_iff.2 (hw s h f hf)).1
    refine ⟨_, ⟨hn, fun s h => ⟨hfresh s h, hnodup s h, hr s h⟩, rfl⟩, ?_⟩
    exact (checkStructs_eq_ok_iff hu hn hr).2
      ⟨fun s h f hf => (resolves_and_checks_iff.2 (hw s h f hf)).2, rfl⟩

end Passes

end Schema
end WireSchema
