import WireSchema.Compilation
import WireSchema.Proofs.TableIndex

/-! When a document has a meaning, and which one. All of it is said of the syntax tree: there are
no passes here, and a name may be declared before or behind its use. -/
namespace WireSchema

/-- The value of a literal as it is written. -/
def Literal.plain : Literal → Value
  | .scalar v _ => .scalar v
  | .list items _ => .list items

/-- A list has items, and all are of one kind. -/
def Value.Uniform : Value → Prop
  | .scalar _ => True
  | .list items => items ≠ [] ∧ ∀ v ∈ items, ∀ w ∈ items, v.kind = w.kind

/-- An integer is in the range of the type, if the type has one. -/
def Scalar.InRange (p : Primitive) (s : Scalar) : Prop :=
  ∀ n least greatest, s = .int n → p.range? = some (least, greatest) → least ≤ n ∧ n ≤ greatest

/-- The type can hold the scalar. -/
def Scalar.Fits (p : Primitive) (s : Scalar) : Prop := s.kind = p.kind ∧ s.InRange p

/-- A vector takes a list of fitting scalars, and a single value one of them. -/
def Value.Fits (p : Primitive) (isVector : Bool) : Value → Prop
  | .scalar s => isVector = false ∧ s.Fits p
  | .list items => isVector = true ∧ ∀ s ∈ items, s.Fits p

def Value.capacity? : Value → Option Nat
  | .scalar (.int n) => some n.toNat
  | _ => none

/-- A primitive type hides a struct of its name. -/
def TypeRef.ofName (name : String) : TypeRef :=
  match Primitive.ofName? name with
  | some p => .primitive p
  | none => .struct name

namespace TypeExpr

def isVector : TypeExpr → Bool
  | .named _ => false
  | .vector .. => true

def length? : TypeExpr → Option LengthExpr
  | .named _ => none
  | .vector _ length => length

/-- The shape that the type asks for, given what becomes of its length. -/
def shape {α : Type} (capacity : LengthExpr → Option α) : TypeExpr → Shape α
  | .named _ => .single
  | .vector _ length => .vector (length.bind capacity)

end TypeExpr

def LengthExpr.loc : LengthExpr → Location
  | .literal _ loc | .constant _ loc => loc

section Names
-- What the constants are, and which structs there are.
variable (env : String → Option Value) (structs : List String)

def DefaultExpr.value? : DefaultExpr → Option Value
  | .literal v => some v.plain
  | .constant name _ => env name

def LengthExpr.value? : LengthExpr → Option Value
  | .literal n _ => some (.scalar (.int n))
  | .constant name _ => env name

/-- What a field has to meet. Lengths and defaults are told by their values, whether these are
written in place or come from a constant. -/
structure FieldDef.WellFormed (f : FieldDef) : Prop where
  type_known : (∃ p : Primitive, p.name = f.type.name) ∨ f.type.name ∈ structs
  length_known : ∀ name loc, f.type.length? = some (.constant name loc) → (env name).isSome
  length_range : ∀ e v, f.type.length? = some e → e.value? env = some v →
    ∃ n : Int, v = .scalar (.int n) ∧ 1 ≤ n ∧ n ≤ 0xFFFFFFFF
  default_known : ∀ name loc, f.default = some (.constant name loc) → (env name).isSome
  default_uniform : ∀ v, f.default = some (.literal v) → v.plain.Uniform
  default_fits : ∀ e v, f.default = some e → e.value? env = some v →
    ∃ p : Primitive, p.name = f.type.name ∧ v.Fits p f.type.isVector

def FieldDef.elaborate (f : FieldDef) : Field where
  type := .ofName f.type.name
  shape := f.type.shape fun e => (e.value? env).bind Value.capacity?
  default := f.default.bind (·.value? env)
  loc := f.loc

def StructDef.elaborate (s : StructDef) : Struct where
  fields := .ofList (s.fields.map fun f => (f.name, f.elaborate env))
  loc := s.loc

end Names

/-- A method is called by its place in the service. -/
def MethodDef.elaborate (place : Nat) (m : MethodDef) : Method :=
  ⟨.ofNat place, m.request, m.response, m.loc⟩

def ServiceDef.elaborate (s : ServiceDef) : Service where
  methods := .ofList (s.methods.mapIdx fun i m => (m.name, m.elaborate i))
  loc := s.loc

/-- The keys in the order in which they first come, each with the value it has last. -/
def lastValues (entries : List (String × String)) : List (String × String) :=
  (entries.map Prod.fst).eraseDups.filterMap fun key =>
    (entries.reverse.lookup key).map (key, ·)

namespace Document
variable (doc : Document)

def constantNames : List String := doc.constants.map ConstantDef.name

def structNames : List String := doc.structs.map StructDef.name

def serviceNames : List String := doc.services.map ServiceDef.name

/-- The value of the constant of that name. -/
def constantValue? (name : String) : Option Value :=
  (doc.constants.find? (·.name = name)).map (·.value.plain)

/-- What a document has to meet. Each part is a condition on the whole tree, and none on the order
of the definitions. -/
structure WellFormed : Prop where
  constants_nodup : doc.constantNames.Nodup
  structs_nodup : doc.structNames.Nodup
  structs_fresh : ∀ name ∈ doc.structNames, name ∉ doc.constantNames
  services_nodup : doc.serviceNames.Nodup
  services_fresh : ∀ name ∈ doc.serviceNames, name ∉ doc.structNames ∧ name ∉ doc.constantNames
  fields_nodup : ∀ s ∈ doc.structs, (s.fields.map FieldDef.name).Nodup
  methods_nodup : ∀ s ∈ doc.services, (s.methods.map MethodDef.name).Nodup
  constants_uniform : ∀ c ∈ doc.constants, c.value.plain.Uniform
  fields_wellFormed : ∀ s ∈ doc.structs, ∀ f ∈ s.fields,
    f.WellFormed doc.constantValue? doc.structNames
  messages_known : ∀ s ∈ doc.services, ∀ m ∈ s.methods,
    m.request ∈ doc.structNames ∧ m.response ∈ doc.structNames

/-- The schema that a document stands for. -/
def elaborate : Schema where
  constants := .ofList (doc.constants.map fun c => (c.name, c.value.plain))
  structs := .ofList (doc.structs.map fun s => (s.name, s.elaborate doc.constantValue?))
  services := .ofList (doc.services.map fun s => (s.name, s.elaborate))
  options := .ofList (lastValues (doc.options.map fun o => (o.key, o.value)))

variable {doc}

@[simp] theorem names_elaborate_constants : doc.elaborate.constants.names = doc.constantNames := by
  simp [elaborate, constantNames]

@[simp] theorem names_elaborate_structs : doc.elaborate.structs.names = doc.structNames := by
  simp [elaborate, structNames]

@[simp] theorem names_elaborate_services : doc.elaborate.services.names = doc.serviceNames := by
  simp [elaborate, serviceNames]

/-- Whatever is listed for the structs is listed under their names. -/
theorem keys_structs (doc : Document) {α : Type} (item : StructDef → α) :
    (doc.structs.map fun s => (s.name, item s)).map Prod.fst = doc.structNames := by
  simp [structNames]

theorem sound_elaborate_constants (h : doc.constantNames.Nodup) :
    doc.elaborate.constants.Sound :=
  Table.sound_ofList (by simpa [constantNames, Function.comp_def] using h)

theorem sound_elaborate_structs (h : doc.structNames.Nodup) : doc.elaborate.structs.Sound :=
  Table.sound_ofList (by simpa [structNames, Function.comp_def] using h)

theorem sound_elaborate_services (h : doc.serviceNames.Nodup) : doc.elaborate.services.Sound :=
  Table.sound_ofList (by simpa [serviceNames, Function.comp_def] using h)

/-- The table of the constants finds what the document says. -/
theorem get?_elaborate_constants (h : doc.constantNames.Nodup) :
    doc.elaborate.constants.get? = doc.constantValue? := by
  funext name
  apply Option.ext
  intro v
  rw [Table.get?_eq_some_iff (sound_elaborate_constants h), constantValue?,
    Option.map_eq_some_iff]
  simp only [elaborate, Table.toList_ofList, List.mem_map, Prod.mk.injEq]
  constructor
  · rintro ⟨c, hc, rfl, rfl⟩
    obtain ⟨d, hd⟩ := Option.isSome_iff_exists.1
      (List.find?_isSome (p := fun d => d.name = c.name).2 ⟨c, hc, by simp⟩)
    have hname : d.name = c.name := by simpa using List.find?_some hd
    have hdc := List.inj_on_of_nodup_map h (List.mem_of_find?_eq_some hd) hc hname
    exact ⟨d, hd, by rw [hdc]⟩
  · rintro ⟨c, hc, rfl⟩
    exact ⟨c, List.mem_of_find?_eq_some hc, by simpa using List.find?_some hc, rfl⟩

/-- The value of a constant is that of one of the definitions, and so it is uniform. -/
theorem constantValue?_uniform (h : ∀ c ∈ doc.constants, c.value.plain.Uniform) {name : String}
    {v : Value} (hv : doc.constantValue? name = some v) : v.Uniform := by
  obtain ⟨c, hc, rfl⟩ := Option.map_eq_some_iff.1 hv
  exact h c (List.mem_of_find?_eq_some hc)

end Document
end WireSchema
