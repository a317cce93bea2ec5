import Std.Data.TreeMap

/-! Tables by name that remember the order in which their names came. -/
namespace WireSchema

/-- The entries in order, and for each name the place of its entry. -/
structure Table (α : Type) where
  entries : Array (String × α) := #[]
  index : Std.TreeMap String Nat := {}

namespace Table
variable {α β ε : Type} (t : Table α)

instance : EmptyCollection (Table α) := ⟨{}⟩

instance : Inhabited (Table α) := ⟨∅⟩

def size : Nat := t.entries.size

def toList : List (String × α) := t.entries.toList

def names : List String := t.toList.map Prod.fst

def values : List α := t.toList.map Prod.snd

def contains (name : String) : Bool := t.index.contains name

def get? (name : String) : Option α := do
  let i ← t.index[name]?
  let entry ← t.entries[i]?
  return entry.2

/-- Adds an entry at the end. -/
def push (name : String) (a : α) : Table α :=
  { entries := t.entries.push (name, a), index := t.index.insert name t.entries.size }

/-- The table with a new entry at its end; none if the name is taken. -/
def insertNew? (name : String) (a : α) : Option (Table α) :=
  if t.contains name then none else some (t.push name a)

/-- Sets the value of a name. A name that is known keeps its place, and its old value is the
second part of the answer. -/
def upsert (name : String) (a : α) : Table α × Option α :=
  match t.index[name]? with
  | none => (t.push name a, none)
  | some i =>
    ({ t with entries := t.entries.setIfInBounds i (name, a) }, (t.entries[i]?).map Prod.snd)

/-- The table of what `f` makes of each entry, in the same order; the first failure ends it. -/
def mapM (f : String → α → Except ε β) : Except ε (Table β) := do
  let entries ← t.entries.mapM fun e => do return (e.1, ← f e.1 e.2)
  return { entries, index := t.index }

/-- The table of what becomes of each value, under the same names in the same order. -/
def map (f : α → β) : Table β := ⟨t.entries.map fun e => (e.1, f e.2), t.index⟩

@[simp] theorem toList_empty : (∅ : Table α).toList = [] := rfl

@[simp] theorem toList_push (name : String) (a : α) :
    (t.push name a).toList = t.toList ++ [(name, a)] := by
  simp [push, toList]

@[simp] theorem size_eq_length : t.toList.length = t.size := by simp [toList, size]

theorem toList_map (f : α → β) : (t.map f).toList = t.toList.map fun e => (e.1, f e.2) := by
  simp [map, toList]

theorem values_map (f : α → β) : (t.map f).values = t.values.map f := by
  simp [values, toList_map, Function.comp_def]

theorem size_map (f : α → β) : (t.map f).size = t.size := by
  simp [size, map]

theorem get?_map (f : α → β) (name : String) : (t.map f).get? name = (t.get? name).map f := by
  simp only [get?, map]
  cases t.index[name]? with
  | none => rfl
  | some i => cases h : t.entries[i]? <;> simp [h]

end Table
end WireSchema
