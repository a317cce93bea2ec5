import WireSchema.Proofs.Findings

/-! The complaint about a document is the first of its findings. The passes stop where they meet
something; each of them is set beside the list of all it could meet, and stops at the head of it. -/
namespace WireSchema

section Failing
variable {α β γ ε δ φ ψ : Type} {tell : φ → ε} {x : Except ε α} {fs gs : List φ}

/-- The computation fails exactly if something is found, and then it tells what is found first. -/
def FailsFirst (tell : φ → ε) (x : Except ε α) (fs : List φ) : Prop :=
  match x with
  | .ok _ => fs = []
  | .error e => ∃ f rest, fs = f :: rest ∧ tell f = e

/-- What comes later is reached only if nothing is found before. -/
theorem FailsFirst.bind {k : α → Except ε β} (hx : FailsFirst tell x fs)
    (hk : ∀ a, x = .ok a → FailsFirst tell (k a) gs) : FailsFirst tell (x >>= k) (fs ++ gs) := by
  cases x with
  | error e =>
    obtain ⟨f, rest, rfl, he⟩ := hx
    exact ⟨f, rest ++ gs, rfl, he⟩
  | ok a =>
    cases hx
    exact hk a rfl

/-- What is done with a result finds nothing more. -/
theorem FailsFirst.map {g : α → β} (hx : FailsFirst tell x fs) : FailsFirst tell (g <$> x) fs := by
  cases x with
  | error e => exact hx
  | ok a => exact hx

/-- What goes on with a result and tells each failure in other words finds the same. -/
theorem FailsFirst.retell {y : Except δ β} {tell' : ψ → δ} {h : φ → ψ} (hx : FailsFirst tell x fs)
    (hok : ∀ a, x = .ok a → ∃ b, y = .ok b)
    (herror : ∀ f, x = .error (tell f) → y = .error (tell' (h f))) :
    FailsFirst tell' y (fs.map h) := by
  cases x with
  | error e =>
    obtain ⟨f, rest, rfl, rfl⟩ := hx
    rw [herror f rfl]
    exact ⟨h f, rest.map h, rfl, rfl⟩
  | ok a =>
    cases hx
    obtain ⟨b, rfl⟩ := hok a rfl
    rfl

/-- Things looked at one by one: the first that is found in the first that has any. -/
theorem mapM_failsFirst {f : α → Except ε β} {look : γ → List φ} {l : List α} {xs : List γ}
    (h : List.Forall₂ (fun a x => FailsFirst tell (f a) (look x)) l xs) :
    FailsFirst tell (l.mapM f) (xs.flatMap look) := by
  induction h with
  | nil => rfl
  | cons ha _ ih =>
    rw [List.mapM_cons, List.flatMap_cons]
    exact ha.bind fun b _ => ih.map

theorem forM_failsFirst {f : α → Except ε PUnit} {look : γ → List φ} {l : List α} {xs : List γ}
    (h : List.Forall₂ (fun a x => FailsFirst tell (f a) (look x)) l xs) :
    FailsFirst tell (l.forM f) (xs.flatMap look) := by
  induction h with
  | nil => rfl
  | cons ha _ ih => exact ha.bind fun _ _ => ih

/-- Each entry of a listed table, in the order of the list. -/
theorem mapM_ofList_failsFirst {f : String → α → Except ε β} {key : γ → String} {item : γ → α}
    {look : γ → List φ} {xs : List γ}
    (h : ∀ x ∈ xs, FailsFirst tell (f (key x) (item x)) (look x)) :
    FailsFirst tell ((Table.ofList (xs.map fun x => (key x, item x))).mapM f)
      (xs.flatMap look) := by
  have hentries : (Table.ofList (xs.map fun x => (key x, item x))).entries.toList =
      xs.map fun x => (key x, item x) := Table.toList_ofList _
  rw [Table.mapM, Array.mapM_eq_mapM_toList, hentries]
  refine FailsFirst.map (FailsFirst.map (mapM_failsFirst ?_))
  rw [List.forall₂_map_left_iff, List.forall₂_same]
  intro x hx
  exact (h x hx).map

end Failing

/-- A pass, beside all that it could complain of. -/
abbrev Meets {α : Type} (x : Except Violation α) (fs : List Finding) : Prop :=
  FailsFirst Finding.violation x fs

section Steps
variable {α β : Type} {x : Finding} {c cause : Prop} [Decidable c] [Decidable cause]
  {fs : List Finding}

/-- A check that stands before the rest of a pass. -/
theorem meets_guard {y rest : Except Violation α} (hc : c ↔ cause) (hy : y = .error x.violation)
    (h : Meets rest fs) : Meets (if c then y else rest) (x.given cause ++ fs) := by
  unfold Finding.given
  by_cases hcause : cause
  · rw [if_pos (hc.2 hcause), if_pos hcause, hy]
    exact ⟨x, fs, rfl, rfl⟩
  · rw [if_neg (mt hc.1 hcause), if_neg hcause]
    exact h

/-- A single cause: the pass fails exactly if it is there. -/
theorem meets_given {y : Except Violation α} (hyes : cause → y = .error x.violation)
    (hno : ¬ cause → ∃ a, y = .ok a) : Meets y (x.given cause) := by
  unfold Finding.given
  by_cases hcause : cause
  · rw [if_pos hcause, hyes hcause]
    exact ⟨x, [], rfl, rfl⟩
  · obtain ⟨a, rfl⟩ := hno hcause
    exact if_neg hcause

/-- A table that is filled name by name has met, before each step, the names it lists by then. -/
theorem meets_foldlM {step : Table β → α → Except Violation (Table β)} {key : α → String}
    {Good : α → Prop} {value : Nat → α → β} {look : List String → α → List Finding}
    (hs : Table.Fills step key Good value)
    (hlook : ∀ (t : Table β) x, t.Sound → Meets (step t x) (look t.names x))
    (xs : List α) {t : Table β} (ht : t.Sound) :
    Meets (xs.foldlM step t) (Finding.inTurn key look t.names xs) := by
  induction xs generalizing t with
  | nil => rfl
  | cons x xs ih =>
    rw [List.foldlM_cons, Finding.inTurn]
    refine (hlook t x ht).bind fun t' ht' => ?_
    obtain ⟨hn, -, rfl⟩ := (hs ht).1 ht'
    have hrest := ih (Table.sound_push ht hn (a := value t.size x))
    rwa [Table.names_push] at hrest

end Steps

namespace Schema

/-- A list is refused if it is empty, or else for its first item of another kind. -/
theorem literal_value_failsFirst (l : Literal) : FailsFirst id l.value l.faults := by
  cases l with
  | scalar s loc => rfl
  | list items loc =>
    cases items with
    | nil => exact ⟨.empty, [], rfl, rfl⟩
    | cons first rest =>
      rw [Literal.value, Literal.faults]
      cases hf : rest.find? fun v => v.kind ≠ first.kind with
      | none =>
        have hnone : (rest.filter fun v => v.kind ≠ first.kind) = [] := by
          simpa using hf
        exact List.map_eq_nil_iff.2 hnone
      | some other =>
        have hhead : (rest.filter fun v => v.kind ≠ first.kind).head? = some other := by
          rwa [List.head?_filter]
        obtain ⟨others, hothers⟩ := List.head?_eq_some_iff.1 hhead
        exact ⟨_, _, by rw [hothers, List.map_cons], rfl⟩

/-- A constant has its name checked before its value. -/
theorem addConstant_meets (t : Table Value) (c : ConstantDef) (ht : t.Sound) :
    Meets (addConstant t c) (c.findings t.names) := by
  rw [addConstant, ConstantDef.findings]
  refine meets_guard (Table.contains_iff ht) rfl ?_
  refine (literal_value_failsFirst c.value).retell (fun v hv => ?_) fun fault hv => ?_
  · rw [hv]
    exact ⟨_, rfl⟩
  · rw [hv]
    rfl

theorem resolveConstants_meets (doc : Document) :
    Meets (resolveConstants doc)
      (Finding.inTurn ConstantDef.name ConstantDef.findings [] doc.constants) :=
  meets_foldlM addConstant_fills addConstant_meets doc.constants Table.sound_empty

section Drafts
variable {constants : Table Value} (hc : constants.Sound) (owner : String)
include hc

/-- A fault of a field is reported as one of its struct. -/
def toViolation (owner name : String) (e : FieldFault × Location) : Violation :=
  ⟨.field owner name e.1, e.2⟩

theorem constantValue_meets {use : ConstantUse} {c name : String} {loc : Location} :
    Meets ((constantValue constants use c loc).mapError (toViolation owner name))
      ((Finding.inField 2 owner name .undefinedConstant loc (.undefinedConstant use c)).given
        (c ∉ constants.names)) := by
  rw [constantValue]
  cases hv : constants.get? c with
  | none =>
    refine meets_given (fun _ => rfl) fun hm => ?_
    obtain ⟨a, ha⟩ := Table.exists_get?_of_mem_names hc (not_not.1 hm)
    rw [hv] at ha
    cases ha
  | some v =>
    have hm := List.mem_map_of_mem (f := Prod.fst) ((Table.get?_eq_some_iff hc).1 hv)
    exact meets_given (fun hn => absurd hm hn) fun _ => ⟨v, rfl⟩

theorem defaultValue_meets {name : String} (e : DefaultExpr) :
    Meets ((defaultValue constants e).mapError (toViolation owner name))
      (e.findings constants.names owner name) := by
  cases e with
  | constant c loc => exact constantValue_meets hc owner
  | literal v =>
    refine (literal_value_failsFirst v).retell (fun a ha => ?_) fun fault ha => ?_
    · rw [defaultValue, ha]
      exact ⟨a, rfl⟩
    · rw [defaultValue, ha]
      rfl

theorem lengthValue_meets {name : String} (e : LengthExpr) :
    Meets ((lengthValue constants e).mapError (toViolation owner name))
      (e.findings constants.names owner name) := by
  cases e with
  | literal n loc => rfl
  | constant c loc =>
    rw [lengthValue, mapError_bind]
    exact (constantValue_meets hc owner).map

/-- A length that is given by name is looked up with the shape. -/
theorem draftShape_meets {name : String} (type : TypeExpr) :
    Meets ((draftShape constants type).mapError (toViolation owner name))
      (type.length?.toList.flatMap (LengthExpr.findings constants.names owner name)) := by
  cases type with
  | named T => rfl
  | vector T length =>
    cases length with
    | none => rfl
    | some e =>
      rw [draftShape, mapError_bind]
      simp only [TypeExpr.length?, Option.toList_some, List.flatMap_singleton]
      exact (lengthValue_meets hc owner e).map

theorem defaults_meets {name : String} (o : Option DefaultExpr) :
    Meets ((o.mapM (defaultValue constants)).mapError (toViolation owner name))
      (o.toList.flatMap (DefaultExpr.findings constants.names owner name)) := by
  cases o with
  | none => rfl
  | some e =>
    simp only [Option.mapM_some, Option.toList_some, List.flatMap_singleton, mapError_map]
    exact (defaultValue_meets hc owner e).map

/-- The default is looked at before the length, though it is written behind it. -/
theorem draftField_meets (f : FieldDef) :
    Meets ((draftField constants f).mapError (toViolation owner f.name))
      (f.default.toList.flatMap (DefaultExpr.findings constants.names owner f.name) ++
        f.type.length?.toList.flatMap (LengthExpr.findings constants.names owner f.name)) := by
  rw [draftField, mapError_bind]
  refine (defaults_meets hc owner f.default).bind fun _ _ => ?_
  rw [mapError_bind]
  exact (draftShape_meets hc owner f.type).map

theorem addField_meets (t : Table DraftField) (f : FieldDef) (ht : t.Sound) :
    Meets (addField constants owner t f) (f.findings constants.names owner t.names) := by
  refine (draftField_meets hc owner f).bind fun draft _ => ?_
  refine meets_given (fun hm => ?_) fun hn => ?_
  · rw [(Table.insertNew?_eq_none_iff ht).2 hm]
    rfl
  · rw [(Table.insertNew?_eq_some_iff ht).2 ⟨hn, rfl⟩]
    exact ⟨_, rfl⟩

/-- Names first, then the fields in turn. -/
theorem addStruct_meets (t : Table DraftStruct) (s : StructDef) (ht : t.Sound) :
    Meets (addStruct constants t s) (s.findings constants.names t.names) := by
  rw [addStruct, StructDef.findings, List.append_assoc]
  refine meets_guard (Table.contains_iff ht) rfl ?_
  refine meets_guard (Table.contains_iff hc) rfl ?_
  exact (meets_foldlM (addField_fills s.name) (addField_meets hc s.name) s.fields
    Table.sound_empty).map

theorem draftStructs_meets (doc : Document) :
    Meets (draftStructs constants doc)
      (Finding.inTurn StructDef.name (StructDef.findings constants.names) [] doc.structs) :=
  meets_foldlM (addStruct_fills hc) (addStruct_meets hc) doc.structs Table.sound_empty

end Drafts

section Checks
variable {drafts : Table DraftStruct} {env : String → Option Value} {p : Primitive} {v : Value}
  {owner name : String} {finding : ErrorKind → FieldFault → Finding} {g : FieldFault → Violation}

theorem resolveType_meets (hd : drafts.Sound) {T : String} {loc : Location} :
    Meets ((resolveType drafts T).mapError fun fault => toViolation owner name (fault, loc))
      ((Finding.inField 3 owner name .undefinedType loc (.undefinedType T)).given
        (Primitive.ofName? T = none ∧ T ∉ drafts.names)) := by
  rw [resolveType]
  cases Primitive.ofName? T with
  | some p => exact meets_given (by simp) fun _ => ⟨_, rfl⟩
  | none =>
    by_cases hT : drafts.contains T
    · have hm := (Table.contains_iff hd).1 hT
      rw [if_pos hT]
      exact meets_given (fun h => absurd hm h.2) fun _ => ⟨_, rfl⟩
    · have hm := mt (Table.contains_iff hd).2 hT
      rw [if_neg hT]
      exact meets_given (fun _ => rfl) fun h => absurd ⟨rfl, hm⟩ h

theorem checkLength_failsFirst (v : Value) : FailsFirst id (checkLength v) v.lengthFaults := by
  cases v with
  | list items => exact ⟨_, _, rfl, rfl⟩
  | scalar s =>
    cases s with
    | float x => exact ⟨_, _, rfl, rfl⟩
    | str s => exact ⟨_, _, rfl, rfl⟩
    | int n =>
      rw [checkLength, Value.lengthFaults]
      by_cases h1 : n ≤ 0
      · rw [if_pos h1, if_pos (by omega)]
        exact ⟨_, _, rfl, rfl⟩
      rw [if_neg h1, if_neg (show ¬ n < 1 by omega)]
      by_cases h2 : n < 0x100000000
      · rw [if_pos h2, if_neg (by omega)]
        rfl
      · rw [if_neg h2, if_pos (by omega)]
        exact ⟨_, _, rfl, rfl⟩

/-- The shape is checked only where it is told by a length. -/
theorem checkShape_meets {type : TypeExpr} :
    Meets ((checkShape (type.shape fun e => (e.value? env).map (·, e.loc))).mapError
        (toViolation owner name))
      (type.length?.toList.flatMap fun e => (e.value? env).toList.flatMap fun v =>
        v.lengthFaults.map (Finding.inField 3 owner name .invalidLengthSpec e.loc)) := by
  cases type with
  | named T => rfl
  | vector T length =>
    cases length with
    | none => rfl
    | some e =>
      simp only [TypeExpr.shape, TypeExpr.length?, Option.bind_some, Option.toList_some,
        List.flatMap_singleton]
      cases e.value? env with
      | none => rfl
      | some v =>
        simp only [Option.map_some, Option.toList_some, List.flatMap_singleton, checkShape]
        refine (checkLength_failsFirst v).retell (fun n hn => ?_) fun fault hn => ?_
        · rw [hn]
          exact ⟨_, rfl⟩
        · rw [hn]
          rfl

theorem outOfRange?_eq_head? (items : List Scalar) :
    outOfRange? p items = (items.filterMap (Scalar.outside? p)).head? := by
  rw [List.head?_filterMap, outOfRange?]
  cases hr : p.range? with
  | none =>
    refine (List.findSome?_eq_none_iff.2 fun s _ => ?_).symm
    cases s <;> simp [Scalar.outside?, hr]
  | some r =>
    obtain ⟨least, greatest⟩ := r
    simp only
    congr 1
    funext s
    cases s with
    | int n =>
      simp only [Scalar.outside?, hr, Option.bind_some]
      by_cases hn : least ≤ n ∧ n ≤ greatest
      · rw [if_neg (by omega), if_pos hn]
      · rw [if_pos (by omega), if_neg hn]
    | float x => rfl
    | str s => rfl

/-- The items are of one kind, so one of another kind than the type shows in the first. -/
theorem checkItems_meets {items : List Scalar} (hne : items ≠ [])
    (hkind : ∀ a ∈ items, ∀ b ∈ items, a.kind = b.kind)
    (hg : ∀ kind fault, (finding kind fault).violation = g fault) {cause : Prop} [Decidable cause]
    (hcause : cause ↔ ∃ s ∈ items, s.kind ≠ p.kind) :
    Meets ((checkItems p v items).mapError g)
      ((finding .typeMismatch (.defaultMismatch v)).given cause ++
        (items.filterMap (Scalar.outside? p)).map fun n =>
          finding .typeMismatch (.defaultOutOfRange n p)) := by
  obtain ⟨first, rest, rfl⟩ := List.exists_cons_of_ne_nil hne
  have hfirst : first.kind ≠ p.kind ↔ ∃ s ∈ first :: rest, s.kind ≠ p.kind := by
    constructor
    · exact fun h => ⟨first, List.mem_cons_self, h⟩
    · rintro ⟨s, hs, h⟩
      rwa [hkind first List.mem_cons_self s hs]
  rw [checkItems, apply_ite (Except.mapError g)]
  refine meets_guard (hfirst.trans hcause.symm) (by rw [hg]; rfl) ?_
  cases ho : outOfRange? p (first :: rest) with
  | none =>
    rw [outOfRange?_eq_head?, List.head?_eq_none_iff] at ho
    rw [ho]
    rfl
  | some n =>
    rw [outOfRange?_eq_head?] at ho
    obtain ⟨others, hothers⟩ := List.head?_eq_some_iff.1 ho
    rw [hothers]
    exact ⟨_, _, rfl, hg _ _⟩

theorem checkDefault_meets {T : String} {isVector : Bool} (hu : v.Uniform)
    (hg : ∀ kind fault, (finding kind fault).violation = g fault) :
    Meets ((checkDefault (.ofName T) isVector v).mapError g)
      (v.defaultFindings finding (Primitive.ofName? T) isVector) := by
  rw [TypeRef.ofName]
  cases Primitive.ofName? T with
  | none => exact ⟨_, [], rfl, hg _ _⟩
  | some p =>
    rw [Value.defaultFindings]
    cases v with
    | scalar s =>
      cases isVector with
      | true =>
        rw [Finding.given, if_pos (Or.inl (by simp [Value.isList]))]
        exact ⟨_, _, rfl, hg _ _⟩
      | false =>
        exact checkItems_meets (List.cons_ne_nil s []) (by simp) hg
          (by simp [Value.isList, Value.items])
    | list items =>
      cases isVector with
      | true => exact checkItems_meets hu.1 hu.2 hg (by simp [Value.isList, Value.items])
      | false =>
        rw [Finding.given, if_pos (Or.inl (by simp [Value.isList]))]
        exact ⟨_, _, rfl, hg _ _⟩

/-- The type is checked before the length, and the length before the default. -/
theorem checkField_meets (hd : drafts.Sound) (henv : ∀ name v, env name = some v → v.Uniform)
    {f : FieldDef} (hf : Resolves env f) :
    Meets ((checkField drafts (draftOf env f)).mapError (toViolation owner f.name))
      (f.checkFindings env drafts.names owner) := by
  rw [checkField, FieldDef.checkFindings, mapError_bind, mapError_mapError, List.append_assoc]
  refine (resolveType_meets hd).bind fun type htype => ?_
  obtain ⟨-, rfl⟩ := (resolveType_eq_ok_iff hd).1 (mapError_eq_ok.1 htype)
  rw [mapError_bind]
  refine checkShape_meets.bind fun shape _ => ?_
  have hdefault : (draftOf env f).default = f.default.bind (·.value? env) := rfl
  rw [← hdefault]
  cases hv : (draftOf env f).default with
  | none => rfl
  | some v =>
    have hu := default_uniform henv hf hv
    have hvector : (draftOf env f).shape.isVector = f.type.isVector := isVector_shape
    rw [Option.toList_some, List.flatMap_singleton, hvector, mapError_bind, mapError_mapError]
    refine FailsFirst.map (checkDefault_meets hu ?_)
    intro kind fault
    rfl

theorem checkStruct_meets (hd : drafts.Sound) (henv : ∀ name v, env name = some v → v.Uniform)
    {s : StructDef} (hs : ∀ f ∈ s.fields, Resolves env f) :
    Meets (checkStruct drafts s.name (draftStructOf env s))
      (s.checkFindings env drafts.names) := by
  refine FailsFirst.map (mapM_ofList_failsFirst fun f hf => ?_)
  exact checkField_meets hd henv (hs f hf)

/-- All structs are known by the time the first is checked, so types may be named before they are
declared. -/
theorem checkStructs_meets (henv : ∀ name v, env name = some v → v.Uniform) {doc : Document}
    (hn : doc.structNames.Nodup) (hs : ∀ s ∈ doc.structs, ∀ f ∈ s.fields, Resolves env f) :
    Meets (checkStructs (.ofList (doc.structs.map fun s => (s.name, draftStructOf env s))))
      (doc.structs.flatMap (StructDef.checkFindings env doc.structNames)) := by
  have hkeys := doc.keys_structs (draftStructOf env)
  have hsound := Table.sound_ofList (by rwa [hkeys])
  refine mapM_ofList_failsFirst fun s hmem => ?_
  have hmeets := checkStruct_meets hsound henv (hs s hmem)
  rwa [Table.names_ofList, hkeys] at hmeets

end Checks

section Services
variable {constants : Table Value} {structs : Table Struct}

theorem addMethod_meets (owner : String) (t : Table Method) (m : MethodDef) (ht : t.Sound) :
    Meets (addMethod owner t m) (m.findings owner t.names) := by
  rw [addMethod]
  refine meets_given (fun hm => ?_) fun hn => ?_
  · rw [(Table.insertNew?_eq_none_iff ht).2 hm]
    rfl
  · rw [(Table.insertNew?_eq_some_iff ht).2 ⟨hn, rfl⟩]
    exact ⟨_, rfl⟩

theorem addService_meets (hc : constants.Sound) (hs : structs.Sound) (t : Table Service)
    (s : ServiceDef) (ht : t.Sound) :
    Meets (addService constants structs t s)
      (s.findings constants.names structs.names t.names) := by
  rw [addService, ServiceDef.findings, List.append_assoc, List.append_assoc]
  refine meets_guard (Table.contains_iff ht) rfl ?_
  refine meets_guard (Table.contains_iff hs) rfl ?_
  refine meets_guard (Table.contains_iff hc) rfl ?_
  exact (meets_foldlM (addMethod_fills s.name) (addMethod_meets s.name) s.methods
    Table.sound_empty).map

theorem resolveServices_meets (hc : constants.Sound) (hs : structs.Sound) (doc : Document) :
    Meets (resolveServices constants structs doc)
      (Finding.inTurn ServiceDef.name (ServiceDef.findings constants.names structs.names) []
        doc.services) :=
  meets_foldlM (addService_fills hc hs) (addService_meets hc hs) doc.services Table.sound_empty

/-- The request is looked up before the response. -/
theorem checkMethod_meets (hs : structs.Sound) (owner : String) (i : Nat) (m : MethodDef) :
    Meets (checkMethod structs owner m.name (m.elaborate i))
      (m.checkFindings structs.names owner) := by
  have hstep : checkMethod structs owner m.name (m.elaborate i) =
      if !structs.contains m.request then
        .error ⟨.method owner m.name (.undefinedMessage .request m.request), m.loc⟩
      else if !structs.contains m.response then
        .error ⟨.method owner m.name (.undefinedMessage .response m.response), m.loc⟩
      else .ok () := by
    simp only [checkMethod, undefinedMessage?, MethodDef.elaborate, List.find?_cons]
    cases structs.contains m.request <;> cases structs.contains m.response <;> rfl
  have hknown (T : String) : (!structs.contains T) = true ↔ T ∉ structs.names := by
    rw [← Table.contains_iff hs]
    simp
  rw [hstep, MethodDef.checkFindings]
  refine meets_guard (hknown m.request) rfl ?_
  refine meets_given (fun h => ?_) fun h => ?_
  · rw [if_pos ((hknown m.response).2 h)]
    rfl
  · rw [if_neg (mt (hknown m.response).1 h)]
    exact ⟨(), rfl⟩

/-- Services are checked when all of them are there, in the order of the text. -/
theorem checkServices_meets (hs : structs.Sound) (doc : Document) :
    Meets (checkServices structs doc.elaborate.services)
      (doc.services.flatMap (ServiceDef.checkFindings structs.names)) := by
  rw [checkServices, Document.elaborate, Table.toList_ofList]
  apply forM_failsFirst
  rw [List.forall₂_map_left_iff, List.forall₂_same]
  intro s _
  rw [checkService, ServiceDef.elaborate, Table.toList_ofList]
  apply forM_failsFirst
  refine List.forall₂_iff_get.2 ⟨List.length_mapIdx, fun i h₁ h₂ => ?_⟩
  simpa using checkMethod_meets hs s.name i (s.methods.get ⟨i, h₂⟩)

end Services

end Schema

/-- The passes, one after the other, stop at the first of all findings. -/
theorem Document.passes_meets (doc : Document) : Meets doc.passes doc.findings := by
  simp only [passes, findings, List.append_assoc]
  -- A pass is reached with tables that the passes before it let through, so it reads from them what
  -- the findings read from the document.
  refine (Schema.resolveConstants_meets doc).bind fun constants hc => ?_
  obtain ⟨hcn, hcu, rfl⟩ := Schema.resolveConstants_eq_ok_iff.1 hc
  have hcs := sound_elaborate_constants hcn
  have henv := get?_elaborate_constants hcn
  have hdrafts := Schema.draftStructs_meets hcs doc
  rw [names_elaborate_constants] at hdrafts
  refine hdrafts.bind fun drafts hd => ?_
  obtain ⟨hsn, hsr, rfl⟩ := (Schema.draftStructs_eq_ok_iff hcs).1 hd
  rw [henv]
  have hu : ∀ name v, doc.constantValue? name = some v → v.Uniform := fun name v =>
    constantValue?_uniform hcu
  have hr : ∀ s ∈ doc.structs, ∀ f ∈ s.fields, Schema.Resolves doc.constantValue? f := by
    intro s hs
    rw [← henv]
    exact (hsr s hs).fields
  refine (Schema.checkStructs_meets hu hsn hr).bind fun structs hs => ?_
  obtain ⟨-, hst⟩ := (Schema.checkStructs_eq_ok_iff hu hsn hr).1 hs
  obtain rfl : structs = doc.elaborate.structs := hst
  have hss := sound_elaborate_structs hsn
  have hservices := Schema.resolveServices_meets hcs hss doc
  have hmessages := Schema.checkServices_meets hss doc
  rw [names_elaborate_constants, names_elaborate_structs] at hservices
  rw [names_elaborate_structs] at hmessages
  refine hservices.bind fun services hv => ?_
  obtain ⟨-, -, rfl⟩ := (Schema.resolveServices_eq_ok_iff hcs hss).1 hv
  rw [← List.append_nil (doc.services.flatMap _)]
  exact hmessages.bind fun _ _ => rfl

/-- A document that has no schema is refused with the first of its findings, and that is how the
refusal is reported. -/
theorem compile_error_iff_first_finding {text : String} {doc : Document}
    (hdoc : Document.ofText text = .ok doc) (log : Log) (e : CompileError) :
    (compile text log).2 = .error e ↔
      ∃ x, doc.findings.head? = some x ∧ e = .violation x.violation ∧ e.report = x.report := by
  have hmeets := doc.passes_meets
  rw [compile_of_read hdoc, Compilation.ofDocument_outcome]
  cases hpasses : doc.passes with
  | ok schema =>
    rw [hpasses] at hmeets
    have hnone : doc.findings = [] := hmeets
    simp [hnone, Except.mapError]
  | error v =>
    rw [hpasses] at hmeets
    obtain ⟨x, rest, hx, rfl⟩ := hmeets
    have hreport := doc.reported_findings x (hx ▸ List.mem_cons_self)
    rw [hx]
    constructor
    · rintro h
      cases h
      exact ⟨x, rfl, rfl, hreport⟩
    · rintro ⟨y, hy, rfl, -⟩
      cases hy
      rfl

/-- Faults for four passes. The one that counts is the last of the text, in the first pass. -/
theorem first_finding_of_many :
    let text := "service S{m:A->Q}\nstruct A{x:B=M x:vector<A>(N)}\nconst N={}"
    let doc : Document :=
      [.service ⟨"S", [⟨"m", "A", "Q", ⟨1, 11⟩⟩], ⟨1, 1⟩⟩,
        .struct ⟨"A", [⟨"x", .named "B", some (.constant "M" ⟨2, 14⟩), ⟨2, 10⟩⟩,
          ⟨"x", .vector "A" (some (.constant "N" ⟨2, 28⟩)), none, ⟨2, 16⟩⟩], ⟨2, 1⟩⟩,
        .constant ⟨"N", .list [] ⟨3, 9⟩, ⟨3, 1⟩⟩]
    Document.ofText text = .ok doc ∧ doc.findings.length = 6 ∧
      (compile text {}).2 = .error (.violation ⟨.constant "N" (.literal .empty), ⟨3, 9⟩⟩) := by
  intro text doc
  have hdoc : Document.ofText text = .ok doc := by decide +kernel
  refine ⟨hdoc, by decide +kernel, (compile_error_iff_first_finding hdoc {} _).2 ?_⟩
  exact ⟨⟨⟨1, "Const", "N", none⟩, .emptyOrMixedVector, ⟨3, 9⟩, .constant "N" (.literal .empty)⟩,
    by decide +kernel, rfl, rfl⟩

end WireSchema
