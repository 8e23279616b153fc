import Mathlib.Tactic.Common
import Mathlib.Tactic.Linarith

/-!
# Chains of checks

A function of C that checks its arguments one after another and reports the first error is
an `Except ε α`.  This file has the step `if (bad) ret = e;`, what a chain that succeeds
says about its steps, and when a chain cannot end with a given error.
-/

namespace Program

variable {ε ε' α β : Type}

/-- The step `if (bad) ret = e;` of a chain of checks. -/
def rejectIf (bad : Prop) [Decidable bad] (e : ε) : Except ε Unit :=
  if bad then .error e else .ok ()

@[simp]
theorem rejectIf_eq_ok {bad : Prop} [Decidable bad] {e : ε} {u : Unit} :
  rejectIf bad e = .ok u ↔ ¬ bad
  := by
  unfold rejectIf
  split <;> rename_i h <;> simp [h]

/-- A chain succeeds if its first part does and then the rest does. -/
@[simp]
theorem bind_eq_ok {x : Except ε α} {f : α → Except ε β} {b : β} :
  x >>= f = .ok b ↔ ∃ a, x = .ok a ∧ f a = .ok b
  := by
  cases x with
  | ok a =>
      constructor
      · intro h
        exact ⟨a, rfl, h⟩
      · rintro ⟨_, ⟨⟩, h⟩
        exact h
  | error e =>
      constructor
      · rintro ⟨⟩
      · rintro ⟨_, ⟨⟩, -⟩

theorem ok_bind {a : α} {f : α → Except ε β} :
  Except.ok a >>= f = f a
  := rfl

theorem error_bind {e : ε} {f : α → Except ε β} :
  Except.error e >>= f = .error e
  := rfl

@[simp]
theorem pure_eq_ok {a b : α} :
  (pure a : Except ε α) = .ok b ↔ a = b
  := by
  constructor
  · exact Except.ok.inj
  · rintro rfl
    rfl

@[simp]
theorem throw_ne_ok {e : ε} {a : α} :
  ¬ (throw e : Except ε α) = .ok a
  := by
  rintro ⟨⟩

/-- Renaming the errors of a program does not change when it succeeds. -/
@[simp]
theorem mapError_eq_ok {f : ε → ε'} {x : Except ε α} {a : α} :
  x.mapError f = .ok a ↔ x = .ok a
  := by
  cases x with
  | ok b => simp [Except.mapError]
  | error e => simp [Except.mapError]

/-- A loop of checks succeeds if every one of them does. -/
@[simp]
theorem forM_eq_ok {f : α → Except ε PUnit} {xs : List α} {u : PUnit} :
  xs.forM f = .ok u ↔ ∀ x ∈ xs, f x = .ok ()
  := by
  induction xs with
  | nil =>
      constructor
      · rintro _ _ ⟨⟩
      · exact fun _ => rfl
  | cons x xs ih =>
      rw [List.forall_mem_cons, ← ih]
      constructor
      · intro h
        obtain ⟨_, hx, hxs⟩ := bind_eq_ok.mp h
        exact ⟨hx, hxs⟩
      · rintro ⟨hx, hxs⟩
        exact bind_eq_ok.mpr ⟨_, hx, hxs⟩

/-! ### Errors that cannot happen -/

/-- The program does not end with the error `bad`. -/
def Avoids (bad : ε) (x : Except ε α) : Prop :=
  x ≠ .error bad

namespace Avoids

variable {bad : ε}

theorem ok (a : α) :
  Avoids bad (.ok a)
  := by
  rintro ⟨⟩

theorem pure (a : α) :
  Avoids bad (Pure.pure a)
  := by
  rintro ⟨⟩

theorem error {e : ε} (h : e ≠ bad) :
  Avoids bad (.error e : Except ε α)
  := fun he => h (Except.error.inj he)

/-- A chain avoids an error if every part that is reached does. -/
theorem bind {x : Except ε α} {f : α → Except ε β} (hx : Avoids bad x)
    (hf : ∀ a, x = .ok a → Avoids bad (f a)) :
  Avoids bad (x >>= f)
  := by
  cases x with
  | ok a =>
      apply hf a
      rfl
  | error e =>
      intro h
      apply hx
      rw [← Except.error.inj h]

theorem rejectIf {p : Prop} [Decidable p] {e : ε} (h : e ≠ bad) :
  Avoids bad (rejectIf p e)
  := by
  unfold Program.rejectIf
  split
  · apply error h
  · apply ok

theorem ite {c : Prop} [Decidable c] {x y : Except ε α} (hx : c → Avoids bad x)
    (hy : ¬ c → Avoids bad y) :
  Avoids bad (if c then x else y)
  := by
  split
  · apply hx
    assumption
  · apply hy
    assumption

/-- Renaming avoids what is not a new name. -/
theorem mapError {f : ε' → ε} (h : ∀ e, f e ≠ bad) (x : Except ε' α) :
  Avoids bad (x.mapError f)
  := by
  cases x with
  | ok a => apply ok
  | error e =>
      apply error
      apply h

end Avoids

end Program
