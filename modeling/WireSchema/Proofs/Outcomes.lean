import Mathlib
import WireSchema.Document.Cursor

/-! Computations that may fail: when they succeed, and when two of them go the same way. -/
namespace WireSchema
variable {α β ε δ : Type} {x y : Except ε α}

theorem map_eq_ok {f : α → β} {b : β} : f <$> x = .ok b ↔ ∃ a, x = .ok a ∧ f a = b := by
  cases x <;> simp [Functor.map, Except.map]

theorem mapError_eq_ok {f : ε → δ} {a : α} : x.mapError f = .ok a ↔ x = .ok a := by
  cases x <;> simp [Except.mapError]

theorem mapError_bind {g : ε → δ} {k : α → Except ε β} :
    (x >>= k).mapError g = x.mapError g >>= fun a => (k a).mapError g := by
  cases x <;> rfl

theorem mapError_map {g : ε → δ} {k : α → β} : (k <$> x).mapError g = k <$> x.mapError g := by
  cases x <;> rfl

theorem mapError_mapError {ζ : Type} {g : ε → δ} {h : δ → ζ} :
    (x.mapError g).mapError h = x.mapError fun e => h (g e) := by
  cases x <;> rfl

theorem exists_ok_of_isSome (h : x.toOption.isSome = true) : ∃ a, x = .ok a := by
  cases x with
  | error e => cases h
  | ok a => exact ⟨a, rfl⟩

/-- A check that stands before the rest of a computation. -/
theorem throw_guard_eq_ok {c : Prop} [Decidable c] {e : ε} {rest : PUnit → Except ε α} {a : α} :
    (if c then throw e >>= rest else rest ⟨⟩) = .ok a ↔ ¬ c ∧ rest ⟨⟩ = .ok a := by
  split <;> simp_all [throw, throwThe, MonadExceptOf.throw, bind, Except.bind]

@[simp] theorem ok_bind (a : α) (f : α → Except ε β) : (Except.ok a >>= f) = f a := rfl

@[simp] theorem error_bind (e : ε) (f : α → Except ε β) :
    (Except.error e >>= f) = .error e := rfl

@[simp] theorem pure_eq_ok (a : α) : (pure a : Except ε α) = .ok a := rfl

/-- Two computations that go the same way, though what they return may differ by a map. -/
theorem bind_eq_map {f : α → α} {g : β → β} {k k' : α → Except ε β} (hx : x = y.map f)
    (hk : ∀ a, y = .ok a → k (f a) = (k' a).map g) :
    x >>= k = (y >>= k').map g := by
  subst hx
  cases y with
  | error => rfl
  | ok a => exact hk a rfl

end WireSchema
