import Mathlib.Tactic.Common
import Mathlib.Tactic.Linarith

/-!
# Programs with a state and an error code

A program of C that reports a status and works on a context is an `EStateM ε σ α`: it
takes a state and returns a value or an error, and the state it leaves in either case.
`Runs p s a s'` says that `p` started in `s` succeeds with the value `a` and leaves `s'`;
the lemmas of this file take a successful run of a composite program apart into
successful runs of its parts.
-/

namespace Program

variable {ε σ α β : Type}

/-- The program `p` started in `s` succeeds with the value `a` and leaves the state `s'`. -/
def Runs (p : EStateM ε σ α) (s : σ) (a : α) (s' : σ) : Prop :=
  p s = .ok a s'

/-- The program `p` started in `s` succeeds. -/
def Succeeds (p : EStateM ε σ α) (s : σ) : Prop :=
  ∃ a s', Runs p s a s'

/-- The step `if (bad) ret = e;` of a chain of checks. -/
def failIf (bad : Prop) [Decidable bad] (e : ε) : EStateM ε σ Unit :=
  if bad then throw e else pure ()

/-- The step `if (c) { p }` of a chain of steps. -/
def onlyIf (c : Prop) [Decidable c] (p : EStateM ε σ Unit) : EStateM ε σ Unit :=
  if c then p else pure ()

/-- The loop `for (i = 0; (ret == SUCCESS) && (i < n); i++)` around a step that updates some
local variables. -/
def repeatM (n : Nat) (step : α → EStateM ε σ α) (a : α) : EStateM ε σ α :=
  match n with
  | 0 => pure a
  | n + 1 => step a >>= repeatM n step

/-- A program run on a part of the state, the rest of which it does not see. -/
def onLocal {τ : Type} (t : τ) (p : EStateM ε τ α) : EStateM ε σ (α × τ) := fun s =>
  match p t with
  | .ok a t' => .ok (a, t') s
  | .error e _ => .error e s

/-- A successful run is unique. -/
theorem Runs.unique {p : EStateM ε σ α} {s : σ} {a b : α} {s₁ s₂ : σ}
    (h₁ : Runs p s a s₁) (h₂ : Runs p s b s₂) :
  a = b ∧ s₁ = s₂
  := by
  unfold Runs at h₁ h₂
  rw [h₁] at h₂
  injection h₂ with ha hs
  exact ⟨ha, hs⟩

/-- A run of `p >>= f` is a run of `p` followed by a run of `f`. -/
@[simp]
theorem runs_bind (p : EStateM ε σ α) (f : α → EStateM ε σ β) (s : σ) (b : β) (s'' : σ) :
  Runs (p >>= f) s b s'' ↔ ∃ a s', Runs p s a s' ∧ Runs (f a) s' b s''
  := by
  unfold Runs
  simp only [bind, EStateM.bind]
  cases h : p s with
  | ok a s' =>
      constructor
      · intro hf
        exact ⟨a, s', rfl, hf⟩
      · rintro ⟨a₁, s₁, h₁, hf⟩
        injection h₁ with ha hs
        subst ha
        subst hs
        exact hf
  | error e s' => simp

@[simp]
theorem runs_map (p : EStateM ε σ α) (f : α → β) (s : σ) (b : β) (s' : σ) :
  Runs (f <$> p) s b s' ↔ ∃ a, Runs p s a s' ∧ f a = b
  := by
  unfold Runs
  simp only [Functor.map, EStateM.map]
  cases h : p s with
  | ok a s₁ =>
      simp only [EStateM.Result.ok.injEq]
      constructor
      · rintro ⟨hb, hs⟩
        exact ⟨a, ⟨rfl, hs⟩, hb⟩
      · rintro ⟨a₁, ⟨ha, hs⟩, hb⟩
        exact ⟨ha ▸ hb, hs⟩
  | error e s₁ => simp

@[simp]
theorem runs_pure (a b : α) (s s' : σ) :
  Runs (pure a : EStateM ε σ α) s b s' ↔ a = b ∧ s = s'
  := by
  simp [Runs, pure, EStateM.pure]

@[simp]
theorem runs_throw (e : ε) (s : σ) (a : α) (s' : σ) :
  ¬ Runs (throw e : EStateM ε σ α) s a s'
  := by
  intro h
  cases h

@[simp]
theorem runs_get (s a s' : σ) :
  Runs (get : EStateM ε σ σ) s a s' ↔ s = a ∧ s = s'
  := by
  apply Iff.of_eq (EStateM.Result.ok.injEq s s a s')

@[simp]
theorem runs_set (t s s' : σ) (u : PUnit) :
  Runs (set t : EStateM ε σ PUnit) s u s' ↔ t = s'
  := by
  constructor
  · rintro ⟨⟩
    rfl
  · rintro rfl
    rfl

@[simp]
theorem runs_modify (f : σ → σ) (s s' : σ) (u : PUnit) :
  Runs (modify f : EStateM ε σ PUnit) s u s' ↔ f s = s'
  := by
  constructor
  · rintro ⟨⟩
    rfl
  · rintro rfl
    rfl

@[simp]
theorem runs_failIf (bad : Prop) [Decidable bad] (e : ε) (s s' : σ) (u : Unit) :
  Runs (failIf bad e : EStateM ε σ Unit) s u s' ↔ ¬ bad ∧ s = s'
  := by
  unfold failIf
  split <;> rename_i h <;> simp [h]

@[simp]
theorem runs_ite (c : Prop) [Decidable c] (p q : EStateM ε σ α) (s : σ) (a : α) (s' : σ) :
  Runs (if c then p else q) s a s' ↔ (c ∧ Runs p s a s') ∨ (¬ c ∧ Runs q s a s')
  := by
  split <;> rename_i h <;> simp [h]

@[simp]
theorem runs_ofExcept (r : Except ε α) (s : σ) (a : α) (s' : σ) :
  Runs (MonadExcept.ofExcept r : EStateM ε σ α) s a s' ↔ r = .ok a ∧ s = s'
  := by
  cases r with
  | ok b => simp [MonadExcept.ofExcept]
  | error e => simp [MonadExcept.ofExcept]

/-! Steps with one possible run are taken without naming the states between them. -/

theorem runs_get_bind (f : σ → EStateM ε σ β) (s : σ) (b : β) (s' : σ) :
  Runs (get >>= f) s b s' ↔ Runs (f s) s b s'
  := Iff.rfl

theorem runs_set_bind (t : σ) (f : PUnit → EStateM ε σ β) (s : σ) (b : β) (s' : σ) :
  Runs (set t >>= f) s b s' ↔ Runs (f ⟨⟩) t b s'
  := Iff.rfl

theorem runs_failIf_bind (bad : Prop) [Decidable bad] (e : ε) (f : Unit → EStateM ε σ β) (s : σ) (b : β) (s' : σ) :
  Runs (failIf bad e >>= f) s b s' ↔ ¬ bad ∧ Runs (f ()) s b s'
  := by
  simp only [runs_bind, runs_failIf]
  constructor
  · rintro ⟨_, _, ⟨hbad, rfl⟩, h⟩
    exact ⟨hbad, h⟩
  · rintro ⟨hbad, h⟩
    exact ⟨(), s, ⟨hbad, rfl⟩, h⟩

theorem runs_ofExcept_bind (r : Except ε α) (f : α → EStateM ε σ β) (s : σ) (b : β) (s' : σ) :
  Runs (MonadExcept.ofExcept r >>= f) s b s' ↔ ∃ a, r = .ok a ∧ Runs (f a) s b s'
  := by
  simp only [runs_bind, runs_ofExcept]
  constructor
  · rintro ⟨a, _, ⟨hr, rfl⟩, h⟩
    exact ⟨a, hr, h⟩
  · rintro ⟨a, hr, h⟩
    exact ⟨a, s, ⟨hr, rfl⟩, h⟩

/-- Steps that may fail are run one after the other. -/
theorem ofExcept_bind {β : Type} (r : Except ε α) (f : α → Except ε β) :
  (MonadExcept.ofExcept (r >>= f) : EStateM ε σ β)
    = MonadExcept.ofExcept r >>= fun a => MonadExcept.ofExcept (f a)
  := by
  cases r <;> rfl

@[simp]
theorem runs_repeatM_zero (step : α → EStateM ε σ α) (a : α) (s : σ) (b : α) (s' : σ) :
  Runs (repeatM 0 step a) s b s' ↔ a = b ∧ s = s'
  := runs_pure a b s s'

@[simp]
theorem runs_repeatM_succ (n : Nat) (step : α → EStateM ε σ α) (a : α) (s : σ) (b : α) (s' : σ) :
  Runs (repeatM (n + 1) step a) s b s'
    ↔ ∃ a₁ s₁, Runs (step a) s a₁ s₁ ∧ Runs (repeatM n step a₁) s₁ b s'
  := runs_bind (step a) (repeatM n step) s b s'

/-- A loop whose turns are seen through a function does what the loop of these turns does. -/
theorem runs_repeatM_image {f : β → α} {step : α → EStateM ε σ α} {step' : β → EStateM ε σ β}
    (h : ∀ b s a s', Runs (step (f b)) s a s' ↔ ∃ b', Runs (step' b) s b' s' ∧ f b' = a) (n : Nat) (b : β) (s : σ)
    (a : α) (s' : σ) :
  Runs (repeatM n step (f b)) s a s' ↔ ∃ b', Runs (repeatM n step' b) s b' s' ∧ f b' = a
  := by
  induction n generalizing b s with
  | zero =>
      simp only [runs_repeatM_zero]
      constructor
      · rintro ⟨rfl, rfl⟩
        exact ⟨b, ⟨rfl, rfl⟩, rfl⟩
      · rintro ⟨_, ⟨rfl, rfl⟩, rfl⟩
        exact ⟨rfl, rfl⟩
  | succ n ih =>
      simp only [runs_repeatM_succ, h]
      constructor
      · rintro ⟨_, s₁, ⟨b₁, hstep, rfl⟩, hrest⟩
        obtain ⟨b', hloop, rfl⟩ := (ih b₁ s₁).mp hrest
        exact ⟨b', ⟨b₁, s₁, hstep, hloop⟩, rfl⟩
      · rintro ⟨b', ⟨b₁, s₁, hstep, hloop⟩, rfl⟩
        exact ⟨f b₁, s₁, ⟨b₁, hstep, rfl⟩, (ih b₁ s₁).mpr ⟨b', hloop, rfl⟩⟩

/-- A loop over a list that succeeds has succeeded for every member of it. -/
theorem runs_foldlM_of_mem {step : β → α → EStateM ε σ β} {xs : List α} {x : α} (hx : x ∈ xs) {b b' : β} {s s' : σ}
    (h : Runs (xs.foldlM step b) s b' s') :
  ∃ b₁ s₁ b₂ s₂, Runs (step b₁ x) s₁ b₂ s₂
  := by
  induction xs generalizing b s with
  | nil => cases hx
  | cons y ys ih =>
      rw [List.foldlM_cons, runs_bind] at h
      obtain ⟨b₁, s₁, hstep, hrest⟩ := h
      rcases List.mem_cons.mp hx with rfl | hmem
      · exact ⟨b, s, b₁, s₁, hstep⟩
      · exact ih hmem hrest

@[simp]
theorem runs_onlyIf (c : Prop) [Decidable c] (p : EStateM ε σ Unit) (s : σ) (u : Unit) (s' : σ) :
  Runs (onlyIf c p) s u s' ↔ (c ∧ Runs p s u s') ∨ (¬ c ∧ s = s')
  := by
  rw [onlyIf, runs_ite, runs_pure]
  simp

@[simp]
theorem runs_onLocal {τ : Type} (t : τ) (p : EStateM ε τ α) (s s' : σ) (r : α × τ) :
  Runs (onLocal t p : EStateM ε σ (α × τ)) s r s' ↔ Runs p t r.1 r.2 ∧ s = s'
  := by
  obtain ⟨a, t'⟩ := r
  unfold Runs onLocal
  cases h : p t with
  | ok a₁ t₁ => simp
  | error e t₁ => simp

end Program
