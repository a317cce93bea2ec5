import WireSchema.Schema

/-! How many bytes a struct takes on the wire, if that number is always the same. -/
namespace WireSchema

inductive WireSize where
  | fixed (bytes : Nat)
  /-- A string, a vector or a struct that contains itself has no one size. -/
  | varying
  /-- A fixed size beyond 64 bits. -/
  | overflow
deriving DecidableEq, Repr

namespace WireSize

/-- The size of two things side by side. -/
def add : WireSize → WireSize → WireSize
  | .varying, _ | _, .varying => .varying
  | .fixed a, .fixed b => if a + b < 0x10000000000000000 then .fixed (a + b) else .overflow
  | _, _ => .overflow

instance : Add WireSize := ⟨add⟩

def ofPrimitive (p : Primitive) : WireSize :=
  match p.wireSize? with
  | some n => .fixed n
  | none => .varying

/-- The sizes already worked out. -/
abbrev Memo := Std.TreeMap String WireSize

variable (structs : Table Struct)

/-- How many names of the table are not on the path. -/
def openNames (path : List String) : Nat :=
  (structs.index.keys.filter fun n => n ∉ path).length

variable {structs}

theorem openNames_lt {path : List String} {name : String} {s : Struct}
    (hs : structs.get? name = some s) (hp : name ∉ path) :
    openNames structs (name :: path) < openNames structs path := by
  have hk : name ∈ structs.index.keys := by
    simp only [Table.get?] at hs
    obtain ⟨i, hi, -⟩ := Option.bind_eq_some_iff.1 hs
    exact Std.TreeMap.mem_keys.2 (Std.TreeMap.mem_iff_isSome_getElem?.2 (by simp [hi]))
  have he : (structs.index.keys.filter fun n => n ∉ name :: path) =
      (structs.index.keys.filter fun n => n ∉ path).filter fun n => n ≠ name := by
    rw [List.filter_filter]
    congr 1
    funext n
    simp
  unfold openNames
  rw [he, List.length_filter_lt_length_iff_exists]
  exact ⟨name, List.mem_filter.2 ⟨hk, by simp [hp]⟩, by simp⟩

variable (structs)

mutual

/-- The size of a struct inside the structs of the path, and the sizes worked out with it. A
struct that is met inside itself is of no fixed size. -/
def compute (memo : Memo) (path : List String) (name : String) : WireSize × Memo :=
  match memo[name]? with
  | some size => (size, memo)
  | none =>
    if hp : name ∈ path then (.varying, memo)
    else
      match hs : structs.get? name with
      | none => (.varying, memo.insert name .varying)
      | some s =>
        have := openNames_lt hs hp
        let (size, memo) := computeFields memo (name :: path) s.fields.values
        (size, memo.insert name size)
termination_by (openNames structs path, 0)

def computeFields (memo : Memo) (path : List String) : List Field → WireSize × Memo
  | [] => (.fixed 0, memo)
  | f :: fs =>
    let (first, memo) :=
      match f.shape, f.type with
      | .single, .primitive p => (ofPrimitive p, memo)
      | .single, .struct name => compute memo path name
      | .vector _, _ => (.varying, memo)
    let (rest, memo) := computeFields memo path fs
    (first + rest, memo)
termination_by fs => (openNames structs path, fs.length + 1)

end

/-- The size of a struct of the table. -/
def ofStruct (memo : Memo) (name : String) : WireSize × Memo := compute structs memo [] name

end WireSize
end WireSchema
