import WolfCose.Lib.StateError

/-!
# What a program keeps

A program keeps what a function sees of the state if that is the same before and after, whether the
program succeeds or not.
-/

namespace Program

variable {ε σ α β γ : Type}

/-- The state in which a program ends. -/
def finalState : EStateM.Result ε σ α → σ
  | .ok _ s => s
  | .error _ s => s

/-- A program keeps what `f` sees of the state. -/
def Keeps (f : σ → γ) (p : EStateM ε σ α) : Prop :=
  ∀ s, f (finalState (p s)) = f s

namespace Keeps

variable {f : σ → γ} {p : EStateM ε σ α} {k : α → EStateM ε σ β}

theorem pure (a : α) :
  Keeps f (Pure.pure a : EStateM ε σ α)
  := fun _ => rfl

theorem throw (e : ε) :
  Keeps f (MonadExcept.throw e : EStateM ε σ α)
  := fun _ => rfl

theorem ofExcept (x : Except ε α) :
  Keeps f (MonadExcept.ofExcept x : EStateM ε σ α)
  := by
  cases x with
  | ok a => apply pure
  | error e => apply throw

theorem modify {g : σ → σ} (h : ∀ s, f (g s) = f s) :
  Keeps f (modify g : EStateM ε σ PUnit)
  := h

/-- A program and what follows keep what both keep. -/
theorem bind (hp : Keeps f p) (hk : ∀ a, Keeps f (k a)) :
  Keeps f (p >>= k)
  := by
  intro s
  have hs := hp s
  change f (finalState (EStateM.bind p k s)) = f s
  unfold EStateM.bind
  cases h : p s with
  | ok a s₁ =>
      rw [h] at hs
      exact (hk a s₁).trans hs
  | error e s₁ =>
      rw [h] at hs
      exact hs

theorem get {k : σ → EStateM ε σ β} (hk : ∀ s, Keeps f (k s)) :
  Keeps f (MonadState.get >>= k)
  := fun s => hk s s

theorem ite {c : Prop} [Decidable c] {q : EStateM ε σ α} (hp : Keeps f p) (hq : Keeps f q) :
  Keeps f (if c then p else q)
  := by
  by_cases h : c
  · rwa [if_pos h]
  · rwa [if_neg h]

/-- What is kept by a run that succeeds. -/
theorem runs (h : Keeps f p) {s s' : σ} {a : α} (hr : Runs p s a s') :
  f s' = f s
  := by
  have hs := h s
  unfold Runs at hr
  rw [hr] at hs
  exact hs

end Keeps

end Program
