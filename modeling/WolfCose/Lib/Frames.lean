import Mathlib.Tactic.Common

/-!
# Open levels of an iterative walk

A loop that reads nested sequences keeps, for every open level, how many items are left on it.  What it still has
to read is a row of sequences, one for each level; `R d n bs` says that `bs` holds `n` items that are nested at
most `d` deep.
-/

namespace Cbor

/-- What is left to read when the walk has the numbers of items in the stack left on its open levels, the innermost
first, with at most `m` levels open. -/
inductive Frames {α : Type} (R : Nat → Nat → List α → Prop) (m : Nat) : List Nat → List α → Prop where
  | nil : Frames R m [] []
  | cons {n : Nat} {s : List Nat} {a b : List α} : R (m - s.length) n a → Frames R m s b → Frames R m (n :: s) (a ++ b)

/-- Closing exhausted levels: while nothing is left on the innermost level, continue with the level around it. -/
def unwind : Nat → List Nat → Nat × List Nat
  | 0, r :: s => unwind r s
  | n, s => (n, s)

theorem unwind_length_le (n : Nat) (s : List Nat) :
  (unwind n s).2.length ≤ s.length
  := by
  induction s generalizing n with
  | nil => cases n <;> exact Nat.le_refl _
  | cons k s ih =>
      cases n with
      | zero => exact Nat.le_succ_of_le (ih k)
      | succ n => exact Nat.le_refl _

/-- When closing levels ends with nothing left, no level is open. -/
theorem unwind_eq_nil {n : Nat} {s : List Nat} (h : (unwind n s).1 = 0) :
  (unwind n s).2 = []
  := by
  induction s generalizing n with
  | nil => cases n <;> rfl
  | cons k s ih =>
      cases n with
      | zero => exact ih h
      | succ n => exact absurd h (Nat.succ_ne_zero n)

namespace Frames

variable {α : Type} {R : Nat → Nat → List α → Prop} {m n k : Nat} {s : List Nat} {b bs r : List α}

theorem cons_iff :
  Frames R m (n :: s) bs ↔ ∃ a b, bs = a ++ b ∧ R (m - s.length) n a ∧ Frames R m s b
  := by
  constructor
  · intro h
    cases h with
    | cons ha hb => exact ⟨_, _, rfl, ha, hb⟩
  · rintro ⟨a, b, rfl, ha, hb⟩
    exact .cons ha hb

theorem singleton_iff :
  Frames R m [n] bs ↔ R m n bs
  := by
  rw [cons_iff]
  constructor
  · rintro ⟨a, b, rfl, ha, hb⟩
    cases hb
    rw [List.append_nil]
    exact ha
  · intro h
    exact ⟨bs, [], (List.append_nil bs).symm, h, .nil⟩

section Empty

variable (hempty : ∀ d bs, R d 0 bs ↔ bs = [])

include hempty

theorem zero_cons_iff :
  Frames R m (0 :: s) bs ↔ Frames R m s bs
  := by
  rw [cons_iff]
  constructor
  · rintro ⟨a, b, rfl, ha, hb⟩
    rw [(hempty _ _).mp ha]
    exact hb
  · intro h
    exact ⟨[], bs, rfl, (hempty _ _).mpr rfl, h⟩

/-- Closing exhausted levels does not change what is left. -/
theorem unwind_iff :
  Frames R m ((unwind n s).1 :: (unwind n s).2) bs ↔ Frames R m (n :: s) bs
  := by
  induction s generalizing n with
  | nil => cases n <;> rfl
  | cons k s ih =>
      cases n with
      | zero =>
          rw [zero_cons_iff hempty]
          exact ih
      | succ n => rfl

end Empty

section Step

-- a sequence that is not empty starts with `b` where the row does
variable (hstart : ∀ d a c, R d (n + 1) a → a ++ c = b ++ r → ∃ a', a = b ++ a')

include hstart

/-- A step that leaves `k` items on the innermost level. -/
theorem step_iff (hstep : ∀ d a, R d (n + 1) (b ++ a) ↔ R d k a) :
  Frames R m ((n + 1) :: s) (b ++ r) ↔ Frames R m (k :: s) r
  := by
  rw [cons_iff, cons_iff]
  constructor
  · rintro ⟨a, c, e, ha, hc⟩
    obtain ⟨a', rfl⟩ := hstart _ _ _ ha e.symm
    rw [List.append_assoc] at e
    exact ⟨a', c, List.append_cancel_left e, (hstep _ _).mp ha, hc⟩
  · rintro ⟨a, c, rfl, ha, hc⟩
    exact ⟨b ++ a, c, (List.append_assoc ..).symm, (hstep _ _).mpr ha, hc⟩

/-- A step that opens a level with `k` items, which must be below the limit. -/
theorem open_iff (hopen : ∀ d a, R d (n + 1) (b ++ a) ↔ ∃ e cs bs, d = e + 1 ∧ a = cs ++ bs ∧ R e k cs ∧ R d n bs) :
  Frames R m ((n + 1) :: s) (b ++ r) ↔ s.length < m ∧ Frames R m (k :: n :: s) r
  := by
  rw [cons_iff, cons_iff]
  constructor
  · rintro ⟨a, c, e, ha, hc⟩
    obtain ⟨a', rfl⟩ := hstart _ _ _ ha e.symm
    rw [List.append_assoc] at e
    obtain rfl := List.append_cancel_left e
    obtain ⟨e', cs, bs, hd, rfl, hcs, hbs⟩ := (hopen _ _).mp ha
    have hlen : m - (n :: s).length = e' := by
      rw [List.length_cons]
      omega
    refine ⟨by omega, cs, bs ++ c, List.append_assoc .., ?_, .cons hbs hc⟩
    rw [hlen]
    exact hcs
  · rintro ⟨hlt, cs, b', rfl, hcs, hf⟩
    obtain ⟨bs, c, rfl, hbs, hc⟩ := cons_iff.mp hf
    refine ⟨b ++ (cs ++ bs), c, ?_, ?_, hc⟩
    · simp only [List.append_assoc]
    · refine (hopen _ _).mpr ⟨m - (n :: s).length, cs, bs, ?_, rfl, hcs, hbs⟩
      rw [List.length_cons]
      omega

end Step

end Frames

end Cbor
