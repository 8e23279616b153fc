import WolfCose.Lib.Bytes

/-!
# Memory

A memory has a byte at every address.  Programs read and write ranges of addresses; what is
written in one range is not seen in a range that is disjoint from it.
-/

/-- A byte at every address. -/
abbrev Memory := Nat → UInt8

/-- A range of `len` addresses from `start` on. -/
structure MemRange where
  start : Nat
  len : Nat
  deriving DecidableEq, Repr

namespace MemRange

/-- An address lies in a range. -/
def Has (r : MemRange) (a : Nat) : Prop :=
  r.start ≤ a ∧ a < r.start + r.len

instance (r : MemRange) (a : Nat) : Decidable (r.Has a) := inferInstanceAs (Decidable (_ ∧ _))

/-- Two ranges have no address in common. -/
def Disjoint (r r' : MemRange) : Prop :=
  ∀ a, r.Has a → ¬ r'.Has a

theorem Disjoint.symm {r r' : MemRange} (h : r.Disjoint r') :
  r'.Disjoint r
  := fun a ha ha' => h a ha' ha

/-- Two ranges are disjoint if one of them is empty or neither starts in the other. -/
theorem disjoint_iff {r r' : MemRange} :
  r.Disjoint r' ↔ r.len = 0 ∨ r'.len = 0 ∨ (¬ r.Has r'.start ∧ ¬ r'.Has r.start)
  := by
  constructor
  · intro h
    by_cases hr : r.len = 0
    · exact .inl hr
    by_cases hr' : r'.len = 0
    · exact .inr (.inl hr')
    refine .inr (.inr ⟨fun hs => h _ hs ⟨Nat.le_refl _, by omega⟩, fun hs => h _ ⟨Nat.le_refl _, by omega⟩ hs⟩)
  · rintro h a ⟨h₁, h₂⟩ ⟨h₃, h₄⟩
    unfold Has at h
    omega

/-- Two ranges are not empty and have an address in common. -/
def Shares (r r' : MemRange) : Prop :=
  r.len ≠ 0 ∧ r'.len ≠ 0 ∧ ∃ a, r.Has a ∧ r'.Has a

theorem Shares.symm {r r' : MemRange} (h : r.Shares r') :
  r'.Shares r
  := by
  obtain ⟨hr, hr', a, ha, ha'⟩ := h
  exact ⟨hr', hr, a, ha', ha⟩

/-- Two ranges share an address exactly if they are not disjoint. -/
theorem shares_iff {r r' : MemRange} :
  r.Shares r' ↔ ¬ r.Disjoint r'
  := by
  constructor
  · rintro ⟨-, -, a, ha, ha'⟩ h
    apply h a ha ha'
  · intro h
    obtain ⟨a, ha⟩ := not_forall.mp h
    rw [Classical.not_imp, Classical.not_not] at ha
    obtain ⟨⟨h₁, h₂⟩, ⟨h₃, h₄⟩⟩ := ha
    refine ⟨?_, ?_, a, ⟨h₁, h₂⟩, ⟨h₃, h₄⟩⟩ <;> omega

end MemRange

namespace Memory

/-- The bytes in a range. -/
def read (m : Memory) (r : MemRange) : Bytes :=
  (List.range r.len).map fun i => m (r.start + i)

/-- The memory with bytes written from an address on. -/
def write (m : Memory) (start : Nat) (bs : Bytes) : Memory := fun a =>
  if start ≤ a then bs.getD (a - start) (m a) else m a

variable {m m' : Memory} {r r' : MemRange} {start : Nat} {bs : Bytes}

@[simp]
theorem length_read (m : Memory) (r : MemRange) :
  (m.read r).length = r.len
  := by
  rw [read, List.length_map, List.length_range]

/-- Memories that agree on a range have the same bytes in it. -/
theorem read_congr (h : ∀ a, r.Has a → m a = m' a) :
  m.read r = m'.read r
  := by
  apply List.map_congr_left
  intro i hi
  apply h
  rw [List.mem_range] at hi
  exact ⟨Nat.le_add_right _ _, Nat.add_lt_add_left hi _⟩

/-- Writing does not change what lies outside the range that is written. -/
theorem write_of_not_has {a : Nat} (h : ¬ (MemRange.mk start bs.length).Has a) :
  m.write start bs a = m a
  := by
  unfold write
  split
  · rename_i hle
    have hge : bs.length ≤ a - start := by
      unfold MemRange.Has at h
      dsimp only at h
      omega
    rw [List.getD_eq_getElem?_getD, List.getElem?_eq_none hge, Option.getD_none]
  · rfl

/-- What is written is read back. -/
theorem read_write (m : Memory) (start : Nat) (bs : Bytes) :
  (m.write start bs).read ⟨start, bs.length⟩ = bs
  := by
  apply List.ext_getElem
  · rw [length_read]
  intro i h₁ h₂
  simp only [read, List.getElem_map, List.getElem_range, write, Nat.le_add_right, if_true,
    Nat.add_sub_cancel_left]
  rw [List.getD_eq_getElem?_getD, List.getElem?_eq_getElem h₂, Option.getD_some]

/-- A disjoint range is read as before. -/
theorem read_write_disjoint (h : r.Disjoint ⟨start, bs.length⟩) :
  (m.write start bs).read r = m.read r
  := by
  apply read_congr
  intro a ha
  apply write_of_not_has
  exact h a ha

@[simp]
theorem write_nil (m : Memory) (start : Nat) :
  m.write start [] = m
  := by
  funext a
  rw [write, List.getD_nil, ite_self]

/-- Bytes written next to others are written with them. -/
theorem write_write_append (m : Memory) (start : Nat) (a b : Bytes) :
  (m.write start a).write (start + a.length) b = m.write start (a ++ b)
  := by
  funext i
  simp only [write, List.getD_eq_getElem?_getD]
  by_cases h₁ : start ≤ i
  · by_cases h₂ : i - start < a.length
    · rw [if_neg (by omega), if_pos h₁, if_pos h₁, List.getElem?_append_left h₂]
    · rw [if_pos (by omega), if_pos h₁, if_pos h₁, List.getElem?_append_right (by omega),
        List.getElem?_eq_none (Nat.le_of_not_lt h₂), Option.getD_none, Nat.sub_add_eq]
  · rw [if_neg (by omega), if_neg h₁, if_neg h₁]

/-- The first bytes of a range are those of a shorter one. -/
theorem take_read (m : Memory) {start k n : Nat} (h : k ≤ n) :
  (m.read ⟨start, n⟩).take k = m.read ⟨start, k⟩
  := by
  rw [read, read, ← List.map_take, List.take_range, Nat.min_eq_left h]

/-- Writing the bytes of a range back after others is writing these only. -/
theorem write_append_drop_read (m : Memory) (r : MemRange) (bs : Bytes) :
  m.write r.start (bs ++ (m.read r).drop bs.length) = m.write r.start bs
  := by
  funext a
  unfold write
  split
  · rename_i hle
    rw [List.getD_eq_getElem?_getD, List.getD_eq_getElem?_getD]
    by_cases hlt : a - r.start < bs.length
    · rw [List.getElem?_append_left hlt]
    · rw [List.getElem?_append_right (by omega), List.getElem?_drop, List.getElem?_eq_none (Nat.le_of_not_lt hlt),
        show bs.length + (a - r.start - bs.length) = a - r.start by omega, Option.getD_none]
      by_cases hin : a - r.start < r.len
      · have hadd : r.start + (a - r.start) = a := by omega
        rw [List.getElem?_eq_getElem (by rwa [length_read]), Option.getD_some]
        simp only [read, List.getElem_map, List.getElem_range, hadd]
      · rw [List.getElem?_eq_none (by rw [length_read]; omega), Option.getD_none]
  · rfl

end Memory
