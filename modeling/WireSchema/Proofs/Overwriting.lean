import WireSchema.CommandLine.Summary
import WireSchema.Plan
import WireSchema.Proofs.Concatenation
import WireSchema.Proofs.FixedSizes
import WireSchema.Proofs.OptionWarnings
import WireSchema.Proofs.SchemaText

/-! Documents that come to the same: neither a place in the text nor the value of an option that is
overwritten later is seen in what a schema tells. -/
namespace WireSchema

/-- The same entries, at whatever places, but for the values of those that a later entry of the same
key overwrites. -/
inductive SameAtLast : List OptionDef → List OptionDef → Prop where
  | nil : SameAtLast [] []
  | kept {o o' : OptionDef} {os os' : List OptionDef} : o.key = o'.key → o.value = o'.value →
      SameAtLast os os' → SameAtLast (o :: os) (o' :: os')
  | overwritten {o o' : OptionDef} {os os' : List OptionDef} : o.key = o'.key →
      (∃ later ∈ os, later.key = o.key) → SameAtLast os os' → SameAtLast (o :: os) (o' :: os')

/-- The definition without its places, and without the values if it is one of options. -/
def Definition.bare : Definition → Definition
  | .options entries _ => .options (entries.map fun o => ⟨o.key, "", .start⟩) .start
  | d => d.relocate fun _ => .start

def Document.bare (doc : Document) : Document := doc.map Definition.bare

/-- The documents differ in places and in values of options that are overwritten, and in nothing
else. -/
structure Document.SameButOverwritten (doc doc' : Document) : Prop where
  bare : doc.bare = doc'.bare
  options : SameAtLast doc.options doc'.options

/-! ## Options -/

/-- Seen from the front: a later entry wins. -/
theorem Schema.lastValue?_cons (o : OptionDef) (os : List OptionDef) (key : String) :
    lastValue? (o :: os) key =
      (lastValue? os key).or (if o.key = key then some o.value else none) := by
  by_cases hkey : o.key = key
  · simp [lastValue?, List.find?_append, hkey]
  · simp [lastValue?, List.find?_append, hkey]

namespace SameAtLast
variable {os os' : List OptionDef}

/-- Values may differ, keys and their order may not. -/
theorem keys_eq (h : SameAtLast os os') : os.map OptionDef.key = os'.map OptionDef.key := by
  induction h with
  | nil => rfl
  | kept hkey _ _ ih => rw [List.map_cons, List.map_cons, hkey, ih]
  | overwritten hkey _ _ ih => rw [List.map_cons, List.map_cons, hkey, ih]

/-- The entry that gives a key its value at last is overwritten by none. -/
theorem lastValue?_eq (h : SameAtLast os os') (key : String) :
    Schema.lastValue? os key = Schema.lastValue? os' key := by
  induction h with
  | nil => rfl
  | kept hkey hvalue _ ih => rw [Schema.lastValue?_cons, Schema.lastValue?_cons, ih, hkey, hvalue]
  | @overwritten o o' os os' hkey hlater hrest ih =>
    rw [Schema.lastValue?_cons, Schema.lastValue?_cons, ← ih, ← hkey]
    by_cases hk : o.key = key
    · obtain ⟨later, hmem, hlater⟩ := hlater
      have hknown : key ∈ os.map OptionDef.key := by
        rw [← hk, ← hlater]
        exact List.mem_map_of_mem hmem
      obtain ⟨v, hv⟩ := Option.isSome_iff_exists.1 (Schema.lastValue?_isSome_iff.2 hknown)
      rw [hv, Option.some_or, Option.some_or]
    · rw [if_neg hk, if_neg hk]

/-- The entries come to the same table. -/
theorem lastValues_eq (h : SameAtLast os os') :
    lastValues (os.map fun o => (o.key, o.value)) =
      lastValues (os'.map fun o => (o.key, o.value)) := by
  have hkeys : (os.map fun o => (o.key, o.value)).map Prod.fst =
      (os'.map fun o => (o.key, o.value)).map Prod.fst := by
    simpa [Function.comp_def] using h.keys_eq
  rw [lastValues, lastValues, hkeys]
  refine List.filterMap_congr ?_
  intro key _
  rw [← Schema.lastValue?_eq_lookup, ← Schema.lastValue?_eq_lookup, h.lastValue?_eq]

end SameAtLast

/-! ## Places -/

section Places
variable {env : String → Option Value} {structs : List String} {r : Location → Location}

theorem Literal.plain_relocate (v : Literal) : (v.relocate r).plain = v.plain := by
  cases v <;> rfl

/-- Constants are looked up by name, not by place. -/
theorem LengthExpr.value?_relocate (e : LengthExpr) :
    (e.relocate r).value? env = e.value? env := by
  cases e <;> rfl

theorem DefaultExpr.value?_relocate (e : DefaultExpr) :
    (e.relocate r).value? env = e.value? env := by
  cases e with
  | literal v => exact congrArg some v.plain_relocate
  | constant => rfl

theorem TypeExpr.name_relocate (t : TypeExpr) : (t.relocate r).name = t.name := by
  cases t <;> rfl

theorem TypeExpr.isVector_relocate (t : TypeExpr) : (t.relocate r).isVector = t.isVector := by
  cases t <;> rfl

/-- The length moves along with its type. -/
theorem TypeExpr.length?_relocate (t : TypeExpr) :
    (t.relocate r).length? = t.length?.map (LengthExpr.relocate r) := by
  cases t <;> rfl

/-- An option that shows the same through a map is there exactly if the other is. -/
theorem exists_some_of_map_eq {α β : Type} {g : α → β} {x y : Option α} {a : α}
    (h : x.map g = y.map g) (hy : y = some a) : ∃ b, x = some b ∧ g b = g a := by
  subst hy
  exact Option.map_eq_some_iff.1 h

/-- Whether a field is well formed has nothing to do with where it stands. -/
theorem FieldDef.WellFormed.of_relocate_eq {f g : FieldDef} (h : f.relocate r = g.relocate r)
    (hf : f.WellFormed env structs) : g.WellFormed env structs := by
  have htype : f.type.relocate r = g.type.relocate r := congrArg FieldDef.type h
  have hname : f.type.name = g.type.name := by
    rw [← f.type.name_relocate (r := r), htype, TypeExpr.name_relocate]
  have hvector : f.type.isVector = g.type.isVector := by
    rw [← f.type.isVector_relocate (r := r), htype, TypeExpr.isVector_relocate]
  have hlength : f.type.length?.map (LengthExpr.relocate r) =
      g.type.length?.map (LengthExpr.relocate r) := by
    rw [← TypeExpr.length?_relocate, htype, TypeExpr.length?_relocate]
  have hdefault : f.default.map (DefaultExpr.relocate r) = g.default.map (DefaultExpr.relocate r) :=
    congrArg FieldDef.default h
  exact {
    type_known := hname ▸ hf.type_known
    length_known := by
      intro name loc hg
      obtain ⟨e, he, heq⟩ := exists_some_of_map_eq hlength hg
      cases e with
      | literal => cases heq
      | constant name' loc' =>
        obtain ⟨rfl, -⟩ := LengthExpr.constant.inj heq
        exact hf.length_known name' loc' he
    length_range := by
      intro e v hg hv
      obtain ⟨e', he', heq⟩ := exists_some_of_map_eq hlength hg
      refine hf.length_range e' v he' ?_
      rw [← e'.value?_relocate (r := r), heq, LengthExpr.value?_relocate, hv]
    default_known := by
      intro name loc hg
      obtain ⟨e, he, heq⟩ := exists_some_of_map_eq hdefault hg
      cases e with
      | literal => cases heq
      | constant name' loc' =>
        obtain ⟨rfl, -⟩ := DefaultExpr.constant.inj heq
        exact hf.default_known name' loc' he
    default_uniform := by
      intro v hg
      obtain ⟨e, he, heq⟩ := exists_some_of_map_eq hdefault hg
      cases e with
      | literal v' =>
        rw [← v.plain_relocate (r := r), ← DefaultExpr.literal.inj heq, Literal.plain_relocate]
        exact hf.default_uniform v' he
      | constant => cases heq
    default_fits := by
      intro e v hg hv
      obtain ⟨e', he', heq⟩ := exists_some_of_map_eq hdefault hg
      rw [← hname, ← hvector]
      refine hf.default_fits e' v he' ?_
      rw [← e'.value?_relocate (r := r), heq, DefaultExpr.value?_relocate, hv] }

/-- Structs that are the same but for places have the same fields but for places. -/
theorem StructDef.fields_of_relocate_eq {s s' : StructDef} (h : s.relocate r = s'.relocate r) :
    s.fields.map (FieldDef.relocate r) = s'.fields.map (FieldDef.relocate r) :=
  congrArg StructDef.fields h

theorem StructDef.fieldNames_of_relocate_eq {s s' : StructDef}
    (h : s.relocate r = s'.relocate r) :
    s.fields.map FieldDef.name = s'.fields.map FieldDef.name := by
  have hnames := congrArg (List.map FieldDef.name) (fields_of_relocate_eq h)
  rw [List.map_map, List.map_map] at hnames
  exact hnames

theorem ServiceDef.methods_of_relocate_eq {s s' : ServiceDef} (h : s.relocate r = s'.relocate r) :
    s.methods.map (MethodDef.relocate r) = s'.methods.map (MethodDef.relocate r) :=
  congrArg ServiceDef.methods h

theorem ServiceDef.methodNames_of_relocate_eq {s s' : ServiceDef}
    (h : s.relocate r = s'.relocate r) :
    s.methods.map MethodDef.name = s'.methods.map MethodDef.name := by
  have hnames := congrArg (List.map MethodDef.name) (methods_of_relocate_eq h)
  rw [List.map_map, List.map_map] at hnames
  exact hnames

end Places

section Unplaced
variable {env : String → Option Value}

/-- How a field is shaped does not depend on where it stands. -/
theorem TypeExpr.shape_relocate (t : TypeExpr) (r : Location → Location) :
    ((t.relocate r).shape fun e => (e.value? env).bind Value.capacity?) =
      t.shape fun e => (e.value? env).bind Value.capacity? := by
  cases t with
  | named => rfl
  | vector element length =>
    cases length with
    | none => rfl
    | some e => simp only [relocate, shape, Option.map_some, Option.bind_some, e.value?_relocate]

/-- To forget the places before elaborating is to forget them after. -/
theorem FieldDef.elaborate_relocate (f : FieldDef) :
    (f.relocate fun _ => .start).elaborate env = (f.elaborate env).unplaced := by
  have hdefault : (f.default.map (DefaultExpr.relocate fun _ => .start)).bind (·.value? env) =
      f.default.bind (·.value? env) := by
    cases f.default with
    | none => rfl
    | some e => exact e.value?_relocate
  simp only [relocate, elaborate, Field.unplaced, TypeExpr.name_relocate, TypeExpr.shape_relocate,
    hdefault]

theorem StructDef.elaborate_relocate (s : StructDef) :
    (s.relocate fun _ => .start).elaborate env = (s.elaborate env).unplaced := by
  have hname (f : FieldDef) : (f.relocate fun _ => .start).name = f.name := rfl
  simp [relocate, elaborate, Struct.unplaced, Table.map_ofList, Function.comp_def,
    FieldDef.elaborate_relocate, hname]

theorem ServiceDef.elaborate_relocate (s : ServiceDef) :
    (s.relocate fun _ => .start).elaborate = s.elaborate.unplaced := by
  have hmethod (i : Nat) (m : MethodDef) :
      (m.relocate fun _ => .start).elaborate i = (m.elaborate i).unplaced := rfl
  have hname (m : MethodDef) : (m.relocate fun _ => .start).name = m.name := rfl
  simp only [relocate, elaborate, Service.unplaced, Table.map_ofList, Service.mk.injEq, and_true]
  congr 1
  refine List.ext_getElem? fun i => ?_
  simp [List.getElem?_mapIdx, hmethod, hname, Function.comp_def]

end Unplaced

namespace Document
variable {doc doc' : Document}

/-- The constants of a bare document: values of options are nothing to them. -/
theorem constants_bare (doc : Document) : doc.bare.constants =
    doc.constants.map (ConstantDef.relocate fun _ => .start) := by
  rw [bare, constants, constants, List.filterMap_map, List.map_filterMap]
  congr 1
  funext d
  cases d <;> rfl

theorem structs_bare (doc : Document) : doc.bare.structs =
    doc.structs.map (StructDef.relocate fun _ => .start) := by
  rw [bare, structs, structs, List.filterMap_map, List.map_filterMap]
  congr 1
  funext d
  cases d <;> rfl

theorem services_bare (doc : Document) : doc.bare.services =
    doc.services.map (ServiceDef.relocate fun _ => .start) := by
  rw [bare, services, services, List.filterMap_map, List.map_filterMap]
  congr 1
  funext d
  cases d <;> rfl

/-- Constants have their values wherever they are defined. -/
theorem constantValue?_bare (doc : Document) :
    doc.bare.constantValue? = doc.constantValue? := by
  funext name
  rw [constantValue?, constantValue?, constants_bare, List.find?_map, Option.map_map]
  congr 1
  funext c
  exact c.value.plain_relocate

/-- All that a schema tells of a document, but for the options, it tells of the bare one. -/
theorem unplaced_elaborate (doc : Document) : doc.elaborate.unplaced =
    { doc.bare.elaborate with options := doc.elaborate.options } := by
  have hconstant (c : ConstantDef) : (c.relocate fun _ => .start).name = c.name := rfl
  have hstruct (s : StructDef) : (s.relocate fun _ => .start).name = s.name := rfl
  have hservice (s : ServiceDef) : (s.relocate fun _ => .start).name = s.name := rfl
  have hvalue (c : ConstantDef) : (c.relocate fun _ => .start).value.plain = c.value.plain :=
    c.value.plain_relocate
  simp [elaborate, Schema.unplaced, Table.map_ofList, constants_bare, structs_bare, services_bare,
    constantValue?_bare, Function.comp_def, hconstant, hstruct, hservice, hvalue,
    StructDef.elaborate_relocate, ServiceDef.elaborate_relocate]

theorem constantNames_bare (doc : Document) : doc.bare.constantNames = doc.constantNames := by
  rw [constantNames, constantNames, constants_bare, List.map_map]
  rfl

theorem structNames_bare (doc : Document) : doc.bare.structNames = doc.structNames := by
  rw [structNames, structNames, structs_bare, List.map_map]
  rfl

theorem serviceNames_bare (doc : Document) : doc.bare.serviceNames = doc.serviceNames := by
  rw [serviceNames, serviceNames, services_bare, List.map_map]
  rfl

/-- What is in one of two lists has its like in the other. -/
theorem exists_mem_of_map_eq {α β : Type} {g : α → β} {l l' : List α} {a : α}
    (h : l.map g = l'.map g) (ha : a ∈ l') : ∃ b ∈ l, g b = g a := by
  have hmem : g a ∈ l.map g := h ▸ List.mem_map_of_mem ha
  exact List.mem_map.1 hmem

section Bare
variable (h : doc.bare = doc'.bare)
include h

theorem constants_of_bare_eq : doc.constants.map (ConstantDef.relocate fun _ => .start) =
    doc'.constants.map (ConstantDef.relocate fun _ => .start) := by
  rw [← constants_bare, h, constants_bare]

theorem structs_of_bare_eq : doc.structs.map (StructDef.relocate fun _ => .start) =
    doc'.structs.map (StructDef.relocate fun _ => .start) := by
  rw [← structs_bare, h, structs_bare]

theorem services_of_bare_eq : doc.services.map (ServiceDef.relocate fun _ => .start) =
    doc'.services.map (ServiceDef.relocate fun _ => .start) := by
  rw [← services_bare, h, services_bare]

theorem constantNames_of_bare_eq : doc.constantNames = doc'.constantNames := by
  rw [← constantNames_bare, h, constantNames_bare]

theorem structNames_of_bare_eq : doc.structNames = doc'.structNames := by
  rw [← structNames_bare, h, structNames_bare]

theorem serviceNames_of_bare_eq : doc.serviceNames = doc'.serviceNames := by
  rw [← serviceNames_bare, h, serviceNames_bare]

theorem constantValue?_of_bare_eq : doc.constantValue? = doc'.constantValue? := by
  rw [← constantValue?_bare, h, constantValue?_bare]

/-- A document is well formed by its names and values alone. -/
theorem WellFormed.of_bare_eq (hw : doc.WellFormed) : doc'.WellFormed where
  constants_nodup := constantNames_of_bare_eq h ▸ hw.constants_nodup
  structs_nodup := structNames_of_bare_eq h ▸ hw.structs_nodup
  structs_fresh := by
    rw [← structNames_of_bare_eq h, ← constantNames_of_bare_eq h]
    exact hw.structs_fresh
  services_nodup := serviceNames_of_bare_eq h ▸ hw.services_nodup
  services_fresh := by
    rw [← serviceNames_of_bare_eq h, ← structNames_of_bare_eq h, ← constantNames_of_bare_eq h]
    exact hw.services_fresh
  fields_nodup := by
    intro s' hs'
    obtain ⟨s, hs, heq⟩ := exists_mem_of_map_eq (structs_of_bare_eq h) hs'
    rw [← StructDef.fieldNames_of_relocate_eq heq]
    exact hw.fields_nodup s hs
  methods_nodup := by
    intro s' hs'
    obtain ⟨s, hs, heq⟩ := exists_mem_of_map_eq (services_of_bare_eq h) hs'
    rw [← ServiceDef.methodNames_of_relocate_eq heq]
    exact hw.methods_nodup s hs
  constants_uniform := by
    intro c' hc'
    obtain ⟨c, hc, heq⟩ := exists_mem_of_map_eq (constants_of_bare_eq h) hc'
    have hplain := congrArg (fun c : ConstantDef => c.value.plain) heq
    simp only [ConstantDef.relocate, Literal.plain_relocate] at hplain
    exact hplain ▸ hw.constants_uniform c hc
  fields_wellFormed := by
    intro s' hs' f' hf'
    obtain ⟨s, hs, heq⟩ := exists_mem_of_map_eq (structs_of_bare_eq h) hs'
    obtain ⟨f, hf, hfeq⟩ := exists_mem_of_map_eq (StructDef.fields_of_relocate_eq heq) hf'
    rw [← constantValue?_of_bare_eq h, ← structNames_of_bare_eq h]
    exact (hw.fields_wellFormed s hs f hf).of_relocate_eq hfeq
  messages_known := by
    intro s' hs' m' hm'
    obtain ⟨s, hs, heq⟩ := exists_mem_of_map_eq (services_of_bare_eq h) hs'
    obtain ⟨m, hm, hmeq⟩ := exists_mem_of_map_eq (ServiceDef.methods_of_relocate_eq heq) hm'
    obtain ⟨-, hrequest, hresponse, -⟩ := MethodDef.mk.inj hmeq
    rw [← structNames_of_bare_eq h, ← hrequest, ← hresponse]
    exact hw.messages_known s hs m hm

end Bare

namespace SameButOverwritten

theorem wellFormed_iff (h : doc.SameButOverwritten doc') : doc.WellFormed ↔ doc'.WellFormed :=
  ⟨.of_bare_eq h.bare, .of_bare_eq h.bare.symm⟩

/-- Nothing but places tells the two schemas apart. -/
theorem unplaced_eq (h : doc.SameButOverwritten doc') :
    doc.elaborate.unplaced = doc'.elaborate.unplaced := by
  have hoptions : doc.elaborate.options = doc'.elaborate.options :=
    congrArg Table.ofList h.options.lastValues_eq
  rw [unplaced_elaborate, unplaced_elaborate, h.bare, hoptions]

end SameButOverwritten
end Document

/-! ## What a schema tells -/

namespace WireSize
variable (structs : Table Struct)

/-- Sizes are worked out without a look at any place. -/
theorem compute_unplaced :
    (∀ memo path S, compute (structs.map Struct.unplaced) memo path S =
      compute structs memo path S) ∧
    (∀ memo path fs, computeFields (structs.map Struct.unplaced) memo path
      (fs.map Field.unplaced) = computeFields structs memo path fs) := by
  refine compute.mutual_induct structs
    (fun memo path S => compute (structs.map Struct.unplaced) memo path S =
      compute structs memo path S)
    (fun memo path fs => computeFields (structs.map Struct.unplaced) memo path
      (fs.map Field.unplaced) = computeFields structs memo path fs) ?_ ?_ ?_ ?_ ?_ ?_
  · intro memo path S size hmemo
    rw [compute, hmemo, compute, hmemo]
  · intro memo path S hmemo hp
    rw [compute, hmemo, compute, hmemo]
    simp only [hp, dif_pos]
  · intro memo path S hmemo hp hs
    rw [compute_undeclared hmemo hp hs,
      compute_undeclared hmemo hp (by rw [Table.get?_map, hs, Option.map_none])]
  · intro memo path S hmemo hp s hs _ size memo' _ ih
    have hs' : (structs.map Struct.unplaced).get? S = some s.unplaced := by
      rw [Table.get?_map, hs, Option.map_some]
    have hvalues : s.unplaced.fields.values = s.fields.values.map Field.unplaced :=
      Table.values_map _ _
    rw [compute_declared hmemo hp hs, compute_declared hmemo hp hs', hvalues, ih]
  · intro memo path
    rw [List.map_nil, computeFields, computeFields]
  · intro memo path f fs first memo' hfirst rest memo'' hrest ihS ih
    have hshape : f.unplaced.shape = f.shape := rfl
    have htype : f.unplaced.type = f.type := rfl
    rw [List.map_cons, computeFields, computeFields]
    simp only [hshape, htype, ihS, hfirst, ih]

theorem ofStruct_unplaced (memo : Memo) (S : String) :
    ofStruct (structs.map Struct.unplaced) memo S = ofStruct structs memo S :=
  (compute_unplaced structs).1 memo [] S

end WireSize

namespace Plan

/-- What a struct includes is told by the types of its fields. -/
theorem includesOf_unplaced (fields : List Field) :
    includesOf (fields.map Field.unplaced) = includesOf fields := by
  rw [includesOf, List.filterMap_map]
  rfl

theorem ofStruct_unplaced (name : String) (s : Struct) (size : Option Nat) :
    ofStruct name s.unplaced size = ofStruct name s size := by
  have hfield (name : String) (f : Field) : ofField name f.unplaced = ofField name f := rfl
  simp only [ofStruct, Struct.unplaced, Table.values_map, Table.toList_map, includesOf_unplaced,
    List.map_map, Function.comp_def, hfield]

/-- Plans are made of names, types and sizes. -/
theorem ofStructs_unplaced (structs : Table Struct) (limit : Nat) (memo : WireSize.Memo)
    (entries : List (String × Struct)) :
    ofStructs (structs.map Struct.unplaced) limit memo
      (entries.map fun e => (e.1, e.2.unplaced)) = ofStructs structs limit memo entries := by
  induction entries generalizing memo with
  | nil => rfl
  | cons e entries ih =>
    simp only [List.map_cons, ofStructs, WireSize.ofStruct_unplaced, ofStruct_unplaced, ih]

/-- A plan shows no place. -/
theorem ofSchema_unplaced (s : Schema) (config : ProjectConfig) :
    ofSchema s.unplaced config = ofSchema s config := by
  have hservice (name : String) (v : Service) : ofService name v.unplaced = ofService name v := by
    simp [ofService, Service.unplaced, Table.toList_map, Method.unplaced, Function.comp_def]
  simp only [ofSchema, Schema.unplaced, Table.toList_map, ofStructs_unplaced, List.map_map,
    Function.comp_def, hservice]

end Plan

namespace CommandLine

theorem Summary.ofSchema_unplaced (file : String) (s : Schema) :
    ofSchema file s.unplaced = ofSchema file s := by
  simp only [ofSchema, Schema.unplaced, Table.size_map, Table.values_map, List.foldl_map,
    Struct.unplaced, Service.unplaced]

theorem dispatchLine_unplaced (name : String) (s : Service) :
    dispatchLine name s.unplaced = dispatchLine name s := by
  have hids : s.unplaced.methodIds = s.methodIds := by
    simp [Service.methodIds, Service.unplaced, Table.toList_map, Method.unplaced,
      Function.comp_def]
  rw [dispatchLine, dispatchLine, hids]

end CommandLine
end WireSchema
