import WolfCose.Lib.StateError

/-!
# Programs that are refused

A program is refused in a state if it fails there and leaves the state as it is.
-/

namespace Program

variable {ε σ α β : Type}

/-- The program fails in the state, which it does not change. -/
def Refused (p : EStateM ε σ α) (s : σ) : Prop :=
  ∃ e, p s = .error e s

namespace Refused

variable {p : EStateM ε σ α} {f : α → EStateM ε σ β} {s : σ}

theorem throw (e : ε) :
  Refused (MonadExcept.throw e : EStateM ε σ α) s
  := ⟨e, rfl⟩

/-- What follows a program that is refused does not matter. -/
theorem bind (h : Refused p s) :
  Refused (p >>= f) s
  := by
  obtain ⟨e, he⟩ := h
  use e
  change EStateM.bind p f s = _
  rw [EStateM.bind, he]

theorem ofExcept {x : Except ε α} (h : ∀ a, x ≠ .ok a) :
  Refused (MonadExcept.ofExcept x : EStateM ε σ α) s
  := by
  cases x with
  | ok a => exact absurd rfl (h a)
  | error e => exact ⟨e, rfl⟩

/-- A step without effects, and what follows if it succeeds. -/
theorem bindOfExcept {x : Except ε α} (h : ∀ a, x = .ok a → Refused (f a) s) :
  Refused (MonadExcept.ofExcept x >>= f) s
  := by
  cases x with
  | ok a => exact h a rfl
  | error e => exact ⟨e, rfl⟩

end Refused

end Program
