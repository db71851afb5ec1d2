import Mathlib.Logic.Basic

/-! Facts about `Except` as the result type of Rust functions returning `Result`, used to take apart
the `?` chains and `for` loops of the modelled code. -/

namespace Except

variable {ε α β : Type}

theorem bind_eq_ok {x : Except ε α} {f : α → Except ε β} {b : β} :
    (x >>= f) = .ok b ↔ ∃ a, x = .ok a ∧ f a = .ok b := by
  cases x <;> simp [bind, Except.bind]

@[simp] theorem pure_eq_ok {a b : α} : (pure a : Except ε α) = .ok b ↔ a = b := by
  simp [pure, Except.pure]

@[simp] theorem map_eq_ok {x : Except ε α} {f : α → β} {b : β} :
    (f <$> x) = .ok b ↔ ∃ a, x = .ok a ∧ f a = b := by
  cases x <;> simp [Functor.map, Except.map]

-- A `for x in xs { f(x)?; }` loop succeeds exactly when every iteration does.
theorem forM_eq_ok {xs : List α} {f : α → Except ε PUnit} :
    forM xs f = .ok () ↔ ∀ x ∈ xs, f x = .ok () := by
  induction xs with
  | nil => simp [pure, Except.pure]
  | cons x xs ih =>
    rw [List.forM_cons, bind_eq_ok, List.forall_mem_cons, ← ih]
    exact ⟨fun ⟨_, hx, hs⟩ => ⟨hx, hs⟩, fun ⟨hx, hs⟩ => ⟨(), hx, hs⟩⟩

end Except
