import WolfCose.Lib.Checks
import WolfCose.Lib.Outcome

/-!
# Errors that a program with a state cannot end with

A program avoids an error if it does not end with it in any state, as a chain of checks does.
-/

namespace Program

variable {ε σ α β : Type}

/-- The program does not end with the error `bad`, whatever state it starts in. -/
def Avoiding (bad : ε) (p : EStateM ε σ α) : Prop :=
  ∀ s, Ends p s (fun _ _ => True) (fun e _ => e ≠ bad)

namespace Avoiding

variable {bad : ε} {p q : EStateM ε σ α} {f : α → EStateM ε σ β}

theorem pure (a : α) :
  Avoiding bad (Pure.pure a : EStateM ε σ α)
  := fun _ => trivial

theorem throw {e : ε} (h : e ≠ bad) :
  Avoiding bad (MonadExcept.throw e : EStateM ε σ α)
  := fun _ => h

theorem get :
  Avoiding bad (MonadState.get : EStateM ε σ σ)
  := fun _ => trivial

theorem set (s : σ) :
  Avoiding bad (MonadStateOf.set s : EStateM ε σ PUnit)
  := fun _ => trivial

theorem modify (g : σ → σ) :
  Avoiding bad (modify g : EStateM ε σ PUnit)
  := fun _ => trivial

theorem ofExcept {x : Except ε α} (h : Avoids bad x) :
  Avoiding bad (MonadExcept.ofExcept x : EStateM ε σ α)
  := by
  intro s
  apply Ends.ofExcept
  · exact fun _ _ => trivial
  · rintro e he rfl
    exact h he

theorem bind (hp : Avoiding bad p) (hf : ∀ a, Avoiding bad (f a)) :
  Avoiding bad (p >>= f)
  := by
  intro s
  apply Ends.bind (hp s)
  intro a s' _
  apply hf

/-- A chain of checks, and what follows if it succeeds. -/
theorem bindOfExcept {x : Except ε α} (h : Avoids bad x) (hf : ∀ a, x = .ok a → Avoiding bad (f a)) :
  Avoiding bad (MonadExcept.ofExcept x >>= f)
  := by
  intro s
  apply Ends.bindOfExcept
  · intro a ha
    apply hf a ha
  · rintro e he rfl
    exact h he

theorem ite {c : Prop} [Decidable c] (hp : c → Avoiding bad p) (hq : ¬ c → Avoiding bad q) :
  Avoiding bad (if c then p else q)
  := by
  split
  · apply hp
    assumption
  · apply hq
    assumption

theorem foldlM {γ : Type} {step : β → γ → EStateM ε σ β} (h : ∀ b c, Avoiding bad (step b c)) (cs : List γ) (b : β) :
  Avoiding bad (cs.foldlM step b)
  := by
  induction cs generalizing b with
  | nil => apply pure
  | cons c cs ih =>
      rw [List.foldlM_cons]
      apply bind (h b c)
      apply ih

/-- What a program ends with that avoids an error. -/
theorem ne_error (h : Avoiding bad p) {s s' : σ} {e : ε} (hp : p s = .error e s') :
  e ≠ bad
  := by
  have hends := h s
  unfold Ends at hends
  rwa [hp] at hends

end Avoiding

end Program
