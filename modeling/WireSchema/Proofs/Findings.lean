import WireSchema.Proofs.Acceptance

/-! All that is wrong with a document, in the order in which it counts: pass by pass, declaration by
declaration, member by member. Nothing here stops at a fault, and nothing is looked up in a table;
a finding is a condition on the tree, together with the report that is due for it. -/
namespace WireSchema

/-- What a finding belongs to: a pass, a declaration, and perhaps a member of it. -/
structure Site where
  pass : UInt8
  constructKind : String
  constructId : String
  member : Option String := none
deriving DecidableEq

/-- One thing that is wrong. What it is says `offence`, and the other parts how it is reported. -/
structure Finding where
  site : Site
  kind : ErrorKind
  loc : Location
  offence : Offence
deriving DecidableEq

namespace Finding

def violation (x : Finding) : Violation := ⟨x.offence, x.loc⟩

def report (x : Finding) : ErrorReport where
  kind := x.kind
  pass := x.site.pass
  constructKind := some x.site.constructKind
  constructId := some x.site.constructId
  field := x.site.member
  loc := some x.loc
  message := x.offence.message

/-- The finding, if there is cause for it. -/
def given (x : Finding) (cause : Prop) [Decidable cause] : List Finding :=
  if cause then [x] else []

def inField (pass : UInt8) (owner name : String) (kind : ErrorKind) (loc : Location)
    (fault : FieldFault) : Finding :=
  ⟨⟨pass, "Struct", owner, some name⟩, kind, loc, .field owner name fault⟩

def inMethod (pass : UInt8) (owner name : String) (kind : ErrorKind) (loc : Location)
    (fault : MethodFault) : Finding :=
  ⟨⟨pass, "Service", owner, some name⟩, kind, loc, .method owner name fault⟩

/-- What is found one by one, each being looked at with the names of those before it. -/
def inTurn {α : Type} (key : α → String) (look : List String → α → List Finding)
    (taken : List String) : List α → List Finding
  | [] => []
  | x :: xs => look taken x ++ inTurn key look (taken ++ [key x]) xs

end Finding

/-- A list of no items is at fault, and so is each item of another kind than the first. -/
def Literal.faults : Literal → List LiteralFault
  | .scalar .. => []
  | .list [] _ => [.empty]
  | .list (first :: rest) _ =>
    (rest.filter fun v => v.kind ≠ first.kind).map fun v => .mixed first.kind v.kind

/-- The first pass: the name, then the value. -/
def ConstantDef.findings (taken : List String) (c : ConstantDef) : List Finding :=
  let site : Site := { pass := 1, constructKind := "Const", constructId := c.name }
  Finding.given ⟨site, .redefinition, c.loc, .constant c.name .redefined⟩ (c.name ∈ taken) ++
    c.value.faults.map fun fault =>
      ⟨site, .emptyOrMixedVector, c.value.loc, .constant c.name (.literal fault)⟩

/-! The second pass looks for the constants that fields name, and for names that are taken. -/

section Resolution
variable (constants : List String) (owner name : String)

def DefaultExpr.findings : DefaultExpr → List Finding
  | .constant c loc =>
    (Finding.inField 2 owner name .undefinedConstant loc (.undefinedConstant .assignment c)).given
      (c ∉ constants)
  | .literal v =>
    v.faults.map fun fault =>
      Finding.inField 2 owner name .emptyOrMixedVector v.loc (.literal fault)

def LengthExpr.findings : LengthExpr → List Finding
  | .literal .. => []
  | .constant c loc =>
    (Finding.inField 2 owner name .undefinedConstant loc (.undefinedConstant .vectorLength c)).given
      (c ∉ constants)

/-- The default, then the length, then the name. -/
def FieldDef.findings (taken : List String) (f : FieldDef) : List Finding :=
  f.default.toList.flatMap (DefaultExpr.findings constants owner f.name) ++
    f.type.length?.toList.flatMap (LengthExpr.findings constants owner f.name) ++
    (Finding.inField 2 owner f.name .duplicateField f.loc .duplicate).given (f.name ∈ taken)

/-- The name, compared with structs and then with constants, before the fields. -/
def StructDef.findings (taken : List String) (s : StructDef) : List Finding :=
  let site : Site := { pass := 2, constructKind := "Struct", constructId := s.name }
  Finding.given ⟨site, .redefinition, s.loc, .struct s.name .redefined⟩ (s.name ∈ taken) ++
    Finding.given ⟨site, .redefinition, s.loc, .struct s.name .namedLikeConstant⟩
      (s.name ∈ constants) ++
    Finding.inTurn FieldDef.name (FieldDef.findings constants s.name) [] s.fields

end Resolution

/-! The third pass compares types, lengths and defaults with what is declared. -/

section Checks
variable (env : String → Option Value) (structs : List String) (owner : String)

/-- A length is an integer from one up, of 32 bits. -/
def Value.lengthFaults : Value → List FieldFault
  | .scalar (.int n) =>
    (if n < 1 then [.lengthNotPositive n] else []) ++
      (if 0xFFFFFFFF < n then [.lengthOutOfRange n] else [])
  | v => [.lengthNotInteger v]

def Value.items : Value → List Scalar
  | .scalar s => [s]
  | .list items => items

def Value.isList : Value → Bool
  | .scalar _ => false
  | .list _ => true

/-- The integer, if the type has a range and it is outside. -/
def Scalar.outside? (p : Primitive) : Scalar → Option Int
  | .int n => p.range?.bind fun r => if r.1 ≤ n ∧ n ≤ r.2 then none else some n
  | _ => none

/-- A struct takes no default. A primitive takes a list exactly for a vector, with items of its kind
and in its range. -/
def Value.defaultFindings (finding : ErrorKind → FieldFault → Finding) (type : Option Primitive)
    (isVector : Bool) (v : Value) : List Finding :=
  match type with
  | none => [finding .unsupportedAssignment .defaultForStruct]
  | some p =>
    (finding .typeMismatch (.defaultMismatch v)).given
        (v.isList ≠ isVector ∨ ∃ s ∈ v.items, s.kind ≠ p.kind) ++
      (v.items.filterMap (Scalar.outside? p)).map fun n =>
        finding .typeMismatch (.defaultOutOfRange n p)

/-- The type, then the length, then the default. -/
def FieldDef.checkFindings (f : FieldDef) : List Finding :=
  let finding := Finding.inField 3 owner f.name
  (finding .undefinedType f.loc (.undefinedType f.type.name)).given
      (Primitive.ofName? f.type.name = none ∧ f.type.name ∉ structs) ++
    f.type.length?.toList.flatMap (fun e =>
      (e.value? env).toList.flatMap fun v =>
        v.lengthFaults.map (finding .invalidLengthSpec e.loc)) ++
    (f.default.bind (·.value? env)).toList.flatMap
      (Value.defaultFindings (finding · f.loc ·) (Primitive.ofName? f.type.name) f.type.isVector)

def StructDef.checkFindings (s : StructDef) : List Finding :=
  s.fields.flatMap (FieldDef.checkFindings env structs s.name)

end Checks

/-! The fourth pass looks for names that are taken, and the fifth for the types of messages. -/

section Services
variable (constants structs : List String)

def MethodDef.findings (owner : String) (taken : List String) (m : MethodDef) : List Finding :=
  (Finding.inMethod 4 owner m.name .duplicateMethod m.loc .duplicate).given (m.name ∈ taken)

/-- The name, compared with services, with structs and with constants, before the methods. -/
def ServiceDef.findings (taken : List String) (s : ServiceDef) : List Finding :=
  let site : Site := { pass := 4, constructKind := "Service", constructId := s.name }
  Finding.given ⟨site, .redefinition, s.loc, .service s.name .redefined⟩ (s.name ∈ taken) ++
    Finding.given ⟨site, .redefinition, s.loc, .service s.name .namedLikeStruct⟩
      (s.name ∈ structs) ++
    Finding.given ⟨site, .redefinition, s.loc, .service s.name .namedLikeConstant⟩
      (s.name ∈ constants) ++
    Finding.inTurn MethodDef.name (MethodDef.findings s.name) [] s.methods

/-- The request, then the response. -/
def MethodDef.checkFindings (owner : String) (m : MethodDef) : List Finding :=
  let finding (role : MessageRole) (type : String) :=
    Finding.inMethod 5 owner m.name .undefinedType m.loc (.undefinedMessage role type)
  (finding .request m.request).given (m.request ∉ structs) ++
    (finding .response m.response).given (m.response ∉ structs)

def ServiceDef.checkFindings (s : ServiceDef) : List Finding :=
  s.methods.flatMap (MethodDef.checkFindings structs s.name)

end Services

/-- All five passes. -/
def Document.findings (doc : Document) : List Finding :=
  Finding.inTurn ConstantDef.name ConstantDef.findings [] doc.constants ++
    Finding.inTurn StructDef.name (StructDef.findings doc.constantNames) [] doc.structs ++
    doc.structs.flatMap (StructDef.checkFindings doc.constantValue? doc.structNames) ++
    Finding.inTurn ServiceDef.name (ServiceDef.findings doc.constantNames doc.structNames) []
      doc.services ++
    doc.services.flatMap (ServiceDef.checkFindings doc.structNames)

section Reports
variable {x : Finding} {constants structs taken : List String} {owner name : String}
  {env : String → Option Value}

/-- The report of the violation says what the finding says. -/
def Finding.Reported (x : Finding) : Prop :=
  (CompileError.violation x.violation).report = x.report

theorem Finding.reported_given {cause : Prop} [Decidable cause] (h : x.Reported) :
    ∀ y ∈ x.given cause, y.Reported := by
  intro y hy
  unfold given at hy
  split at hy
  · rwa [List.mem_singleton.1 hy]
  · cases hy

/-- Whatever names are taken, each thing that is found is reported as such. -/
theorem Finding.reported_inTurn {α : Type} {key : α → String}
    {look : List String → α → List Finding} (h : ∀ taken a, ∀ y ∈ look taken a, y.Reported)
    (taken : List String) (xs : List α) : ∀ y ∈ inTurn key look taken xs, y.Reported := by
  induction xs generalizing taken with
  | nil => simp [inTurn]
  | cons a xs ih =>
    rw [inTurn, List.forall_mem_append]
    exact ⟨h taken a, ih _⟩

theorem ConstantDef.reported_findings (c : ConstantDef) :
    ∀ x ∈ c.findings taken, x.Reported := by
  rw [findings, List.forall_mem_append, List.forall_mem_map]
  exact ⟨Finding.reported_given rfl, fun _ _ => rfl⟩

theorem DefaultExpr.reported_findings (e : DefaultExpr) :
    ∀ x ∈ e.findings constants owner name, x.Reported := by
  cases e with
  | constant c loc => exact Finding.reported_given rfl
  | literal v =>
    rw [findings, List.forall_mem_map]
    exact fun _ _ => rfl

theorem LengthExpr.reported_findings (e : LengthExpr) :
    ∀ x ∈ e.findings constants owner name, x.Reported := by
  cases e with
  | literal n loc => simp [findings]
  | constant c loc => exact Finding.reported_given rfl

theorem StructDef.reported_findings (s : StructDef) :
    ∀ x ∈ s.findings constants taken, x.Reported := by
  rw [findings, List.forall_mem_append, List.forall_mem_append]
  refine ⟨⟨Finding.reported_given rfl, Finding.reported_given rfl⟩, Finding.reported_inTurn ?_ _ _⟩
  intro taken f
  rw [FieldDef.findings, List.forall_mem_append, List.forall_mem_append]
  refine ⟨⟨?_, ?_⟩, Finding.reported_given rfl⟩
  · exact List.forall_mem_flatMap.2 fun e _ => e.reported_findings
  · exact List.forall_mem_flatMap.2 fun e _ => e.reported_findings

/-- Each fault of a length has its message. -/
theorem Value.reported_lengthFaults (v : Value) (loc : Location) : ∀ fault ∈ v.lengthFaults,
    (Finding.inField 3 owner name .invalidLengthSpec loc fault).Reported := by
  intro fault hfault
  rw [lengthFaults.eq_def] at hfault
  split at hfault
  next n =>
    rcases List.mem_append.1 hfault with h | h
    · split at h
      · rw [List.mem_singleton.1 h]
        rfl
      · cases h
    · split at h
      · rw [List.mem_singleton.1 h]
        rfl
      · cases h
  next =>
    rw [List.mem_singleton.1 hfault]
    rfl

theorem Value.reported_defaultFindings (v : Value) (type : Option Primitive) (isVector : Bool)
    (loc : Location) : ∀ x ∈ v.defaultFindings (Finding.inField 3 owner name · loc ·) type isVector,
      x.Reported := by
  cases type with
  | none =>
    intro x hx
    rw [List.mem_singleton.1 hx]
    rfl
  | some p =>
    rw [defaultFindings, List.forall_mem_append, List.forall_mem_map]
    exact ⟨Finding.reported_given rfl, fun _ _ => rfl⟩

theorem StructDef.reported_checkFindings (s : StructDef) :
    ∀ x ∈ s.checkFindings env structs, x.Reported := by
  refine List.forall_mem_flatMap.2 fun f _ => ?_
  rw [FieldDef.checkFindings, List.forall_mem_append, List.forall_mem_append]
  refine ⟨⟨Finding.reported_given rfl, ?_⟩, ?_⟩
  · refine List.forall_mem_flatMap.2 fun e _ => List.forall_mem_flatMap.2 fun v _ => ?_
    exact List.forall_mem_map.2 (v.reported_lengthFaults e.loc)
  · exact List.forall_mem_flatMap.2 fun v _ => v.reported_defaultFindings _ _ f.loc

theorem ServiceDef.reported_findings (s : ServiceDef) :
    ∀ x ∈ s.findings constants structs taken, x.Reported := by
  simp only [findings, List.forall_mem_append]
  refine ⟨⟨⟨?_, ?_⟩, ?_⟩, Finding.reported_inTurn (fun _ _ => ?_) _ _⟩
  all_goals exact Finding.reported_given rfl

theorem ServiceDef.reported_checkFindings (s : ServiceDef) :
    ∀ x ∈ s.checkFindings structs, x.Reported := by
  refine List.forall_mem_flatMap.2 fun m _ => ?_
  rw [MethodDef.checkFindings, List.forall_mem_append]
  exact ⟨Finding.reported_given rfl, Finding.reported_given rfl⟩

/-- Every finding is reported as it says. -/
theorem Document.reported_findings (doc : Document) : ∀ x ∈ doc.findings, x.Reported := by
  simp only [findings, List.forall_mem_append]
  refine ⟨⟨⟨⟨?_, ?_⟩, ?_⟩, ?_⟩, ?_⟩
  · exact Finding.reported_inTurn (fun _ => ConstantDef.reported_findings) _ _
  · exact Finding.reported_inTurn (fun _ => StructDef.reported_findings) _ _
  · exact List.forall_mem_flatMap.2 fun s _ => s.reported_checkFindings
  · exact Finding.reported_inTurn (fun _ => ServiceDef.reported_findings) _ _
  · exact List.forall_mem_flatMap.2 fun s _ => s.reported_checkFindings

end Reports

end WireSchema
