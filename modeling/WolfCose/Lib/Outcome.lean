import WolfCose.Lib.StateError

/-!
# Both ends of a program

A program that fails may have changed the state before it did, and what it has done then
matters where it cannot be undone.  `Ends p s Q E` says how the program `p` started in `s`
ends: with a value and a state that satisfy `Q`, or with an error and a state that satisfy
`E`.  There is one rule for every way to put programs together.
-/

namespace Program

variable {ε σ α β γ : Type}

/-- The program `p` started in `s` ends with a value and a state that satisfy `Q`, or with an
error and a state that satisfy `E`. -/
def Ends (p : EStateM ε σ α) (s : σ) (Q : α → σ → Prop) (E : ε → σ → Prop) : Prop :=
  match p s with
  | .ok a s' => Q a s'
  | .error e s' => E e s'

namespace Ends

variable {p : EStateM ε σ α} {f : α → EStateM ε σ β} {s : σ}
  {Q Q' : α → σ → Prop} {R : β → σ → Prop} {E E' : ε → σ → Prop}

theorem mono (h : Ends p s Q E) (hQ : ∀ a s', Q a s' → Q' a s') (hE : ∀ e s', E e s' → E' e s') :
  Ends p s Q' E'
  := by
  unfold Ends at h ⊢
  split
  · rename_i heq
    rw [heq] at h
    apply hQ _ _ h
  · rename_i heq
    rw [heq] at h
    apply hE _ _ h

/-- What holds of both ends of a program and of the rest after its success holds of the whole. -/
theorem bind (hp : Ends p s Q E) (hf : ∀ a s', Q a s' → Ends (f a) s' R E) :
  Ends (p >>= f) s R E
  := by
  unfold Ends at hp ⊢
  simp only [Bind.bind, EStateM.bind]
  cases h : p s with
  | ok a s' =>
      rw [h] at hp
      apply hf _ _ hp
  | error e s' =>
      rw [h] at hp
      exact hp

theorem pure {a : α} (h : Q a s) :
  Ends (Pure.pure a) s Q E
  := h

theorem throw {e : ε} (h : E e s) :
  Ends (MonadExcept.throw e) s Q E
  := h

theorem get {Q : σ → σ → Prop} (h : Q s s) :
  Ends MonadState.get s Q E
  := h

theorem update {g : σ → σ} {Q : PUnit → σ → Prop} (h : Q () (g s)) :
  Ends (modify g) s Q E
  := h

/-- A check either fails in the state it starts in, or passes and leaves it. -/
theorem failIf {bad : Prop} [Decidable bad] {e : ε} {Q : Unit → σ → Prop} (hE : bad → E e s)
    (hQ : ¬ bad → Q () s) :
  Ends (failIf bad e) s Q E
  := by
  unfold Program.failIf
  split
  · apply throw
    apply hE
    assumption
  · apply pure
    apply hQ
    assumption

/-- Reading the state, and what follows. -/
theorem bindGet {g : σ → EStateM ε σ β} (h : Ends (g s) s R E) :
  Ends (MonadState.get >>= g) s R E
  := h

/-- Setting the state, and what follows. -/
theorem bindSet {s' : σ} {g : PUnit → EStateM ε σ β} (h : Ends (g ⟨⟩) s' R E) :
  Ends (MonadStateOf.set s' >>= g) s R E
  := h

/-- A check, and what follows when it passes. -/
theorem bindFailIf {bad : Prop} [Decidable bad] {e : ε} {g : Unit → EStateM ε σ β}
    (hE : bad → E e s) (hg : ¬ bad → Ends (g ()) s R E) :
  Ends (Program.failIf bad e >>= g) s R E
  := by
  apply bind (Q := fun _ s' => ¬ bad ∧ s' = s)
  · apply failIf hE
    exact fun h => ⟨h, rfl⟩
  · rintro _ _ ⟨h, rfl⟩
    apply hg h

/-- A part that does not touch the state. -/
theorem ofExcept {x : Except ε α} (hQ : ∀ a, x = .ok a → Q a s) (hE : ∀ e, x = .error e → E e s) :
  Ends (MonadExcept.ofExcept x) s Q E
  := by
  cases x with
  | ok a => exact hQ a rfl
  | error e => exact hE e rfl

/-- A part that does not touch the state, and what follows. -/
theorem bindOfExcept {x : Except ε α} (hf : ∀ a, x = .ok a → Ends (f a) s R E)
    (hE : ∀ e, x = .error e → E e s) :
  Ends (MonadExcept.ofExcept x >>= f) s R E
  := by
  apply bind (Q := fun a s' => x = .ok a ∧ s' = s)
  · apply ofExcept
    · exact fun a ha => ⟨ha, rfl⟩
    · exact hE
  · rintro a s' ⟨ha, rfl⟩
    apply hf a ha

theorem ite {c : Prop} [Decidable c] {q : EStateM ε σ α} (hp : c → Ends p s Q E)
    (hq : ¬ c → Ends q s Q E) :
  Ends (if c then p else q) s Q E
  := by
  split
  · apply hp
    assumption
  · apply hq
    assumption

/-- What every round of a loop preserves holds at the end of it. -/
theorem foldlM {step : β → γ → EStateM ε σ β} {I : List γ → β → σ → Prop} {xs : List γ} {b : β}
    (hstep : ∀ x ys b s, I (x :: ys) b s → Ends (step b x) s (I ys) E) (h : I xs b s) :
  Ends (xs.foldlM step b) s (I []) E
  := by
  induction xs generalizing b s with
  | nil => exact pure h
  | cons x xs ih =>
      rw [List.foldlM_cons]
      apply bind (hstep x xs b s h)
      intro b' s' h'
      apply ih h'

end Ends

end Program
