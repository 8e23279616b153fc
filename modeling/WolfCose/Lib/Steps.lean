import Mathlib.Tactic.Common

/-!
# Steps along a list

A loop over a list takes a state to a state, one step an element.  Where any two steps commute,
the order of the list does not matter.
-/

namespace Program

variable {α σ : Type} {R : α → σ → σ → Prop} {xs ys : List α} {s s₁ s₂ : σ}

/-- The steps of the elements of a list, one after the other, take the state `s` to `s'`. -/
inductive Steps (R : α → σ → σ → Prop) : List α → σ → σ → Prop where
  | nil (s : σ) : Steps R [] s s
  | cons {x : α} {xs : List α} {s s₁ s' : σ} : R x s s₁ → Steps R xs s₁ s' → Steps R (x :: xs) s s'

namespace Steps

@[simp]
theorem nil_iff :
  Steps R [] s s₁ ↔ s = s₁
  := by
  constructor
  · rintro ⟨⟩
    rfl
  · rintro rfl
    apply nil

@[simp]
theorem cons_iff {x : α} :
  Steps R (x :: xs) s s₂ ↔ ∃ s₁, R x s s₁ ∧ Steps R xs s₁ s₂
  := by
  constructor
  · rintro (_ | ⟨hx, hxs⟩)
    exact ⟨_, hx, hxs⟩
  · rintro ⟨s₁, hx, hxs⟩
    apply cons hx hxs

theorem append_iff :
  Steps R (xs ++ ys) s s₂ ↔ ∃ s₁, Steps R xs s s₁ ∧ Steps R ys s₁ s₂
  := by
  induction xs generalizing s with
  | nil => simp
  | cons x xs ih =>
      simp only [List.cons_append, cons_iff, ih]
      constructor
      · rintro ⟨t, hx, s₁, hxs, hys⟩
        exact ⟨s₁, ⟨t, hx, hxs⟩, hys⟩
      · rintro ⟨s₁, ⟨t, hx, hxs⟩, hys⟩
        exact ⟨t, hx, s₁, hxs, hys⟩

/-- Every element of the list has taken some state to another one. -/
theorem forall_mem (h : Steps R xs s s₁) :
  ∀ x ∈ xs, ∃ t t₁, R x t t₁
  := by
  induction h with
  | nil s => simp
  | cons hx _ ih =>
      rw [List.forall_mem_cons]
      exact ⟨⟨_, _, hx⟩, ih⟩

/-- What every step of a list preserves holds at the end if it holds at the start. -/
theorem invariant {I : σ → Prop} (h : Steps R xs s s₁) (hI : ∀ x ∈ xs, ∀ t t₁, R x t t₁ → I t → I t₁)
    (hs : I s) :
  I s₁
  := by
  induction h with
  | nil s => exact hs
  | cons hx _ ih =>
      rw [List.forall_mem_cons] at hI
      exact ih hI.2 (hI.1 _ _ hx hs)

/-- A fold is a run of steps where an invariant of the state and the elements still to come allows
every step. -/
theorem foldl {f : σ → α → σ} {I : List α → σ → Prop}
    (hstep : ∀ x xs s, I (x :: xs) s → R x s (f s x) ∧ I xs (f s x)) (h : I xs s) :
  Steps R xs s (xs.foldl f s)
  := by
  induction xs generalizing s with
  | nil => apply nil
  | cons x xs ih =>
      obtain ⟨hx, hnext⟩ := hstep x xs s h
      exact cons hx (ih hnext)

theorem map {β : Type} {f : β → α} {ys : List β} (h : Steps (fun y => R (f y)) ys s s₁) :
  Steps R (ys.map f) s s₁
  := by
  induction h with
  | nil s => apply nil
  | cons hx _ ih => exact cons hx ih

/-- Where two steps commute, a permuted list takes the same state to the same state. -/
theorem perm (hswap : ∀ x y s s₁ s₂, R x s s₁ → R y s₁ s₂ → ∃ s₁', R y s s₁' ∧ R x s₁' s₂)
    (h : xs.Perm ys) :
  Steps R xs s s₁ → Steps R ys s s₁
  := by
  induction h generalizing s with
  | nil => exact id
  | cons x _ ih =>
      simp only [cons_iff]
      rintro ⟨t, hx, htail⟩
      exact ⟨t, hx, ih htail⟩
  | swap x y l =>
      simp only [cons_iff]
      rintro ⟨t, hy, u, hx, htail⟩
      obtain ⟨t', hx', hy'⟩ := hswap _ _ _ _ _ hy hx
      exact ⟨t', hx', u, hy', htail⟩
  | trans _ _ ih ih' =>
      intro hxs
      apply ih' (ih hxs)

end Steps

end Program
