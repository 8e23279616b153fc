import WolfCose.Countersign.Add
import WolfCose.EatPsa.Encode

/-!
# Overlapping buffers

`wolfCose_RangesOverlap` of `wolfcose_countersign.c` compares addresses byte by byte, and
`wolfCose_EatPsaBuffersOverlap` of `wolfcose_eat_psa.c` subtracts them.  Both find out whether two ranges of a flat
address space have a byte in common.
-/

namespace WolfCose

section

variable [Settings]

open Settings

/-! ### The address space -/

/-- The address of a byte behind a pointer, where addresses have as many bits as `size_t`. -/
def addressAt (start i : Nat) : Nat := (start + i) % (sizeMax + 1)

/-- A range starts at an address and does not wrap around the end of the address space. -/
structure FlatRange (r : MemRange) : Prop where
  start_le : r.start ≤ sizeMax
  end_le : r.start + r.len ≤ sizeMax + 1

/-- The bytes of a range are at the sums of its start and their indices. -/
theorem FlatRange.addressAt_eq {r : MemRange} (h : FlatRange r) {i : Nat} (hi : i < r.len) :
  addressAt r.start i = r.start + i
  := by
  have hend := h.end_le
  apply Nat.mod_eq_of_lt
  omega

/-! ### Searching -/

/-- A loop of `wolfCose_RangesOverlap` from the index `i` on, for `n` more bytes at most: it ends when the address
of a byte is the one it looks for. -/
def searchAddress (start target : Nat) : (n i : Nat) → (overlaps : Bool) → Bool
  | 0, _, overlaps => overlaps
  | n + 1, i, overlaps =>
      if overlaps = false then
        searchAddress start target n (i + 1) (if addressAt start i = target then true else overlaps)
      else overlaps

/-- `wolfCose_RangesOverlap`, as the code compares addresses. -/
def searchOverlap (a b : MemRange) : Bool :=
  if a.len ≠ 0 ∧ b.len ≠ 0 then
    let overlaps := searchAddress a.start b.start a.len 0 false
    searchAddress b.start a.start b.len 0 overlaps
  else false

/-- A loop that has found the address ends. -/
theorem searchAddress_true (start target n i : Nat) :
  searchAddress start target n i true = true
  := by
  cases n with
  | zero => rfl
  | succ n => rw [searchAddress, if_neg (Ne.symm Bool.false_ne_true)]

/-- A loop finds the address exactly if it is that of one of its bytes. -/
theorem searchAddress_eq_true {start target n i : Nat} :
  searchAddress start target n i false = true ↔ ∃ k < n, addressAt start (i + k) = target
  := by
  induction n generalizing i with
  | zero =>
      constructor
      · rintro ⟨⟩
      · rintro ⟨_, hk, -⟩
        exact absurd hk (Nat.not_lt_zero _)
  | succ n ih =>
      rw [searchAddress, if_pos rfl]
      by_cases hi : addressAt start i = target
      · rw [if_pos hi, searchAddress_true]
        constructor
        · intro _
          exact ⟨0, Nat.zero_lt_succ n, hi⟩
        · intro _
          rfl
      · rw [if_neg hi, ih]
        constructor
        · rintro ⟨k, hk, ha⟩
          refine ⟨k + 1, Nat.succ_lt_succ hk, ?_⟩
          rw [← ha, Nat.add_right_comm, Nat.add_assoc]
        · rintro ⟨k, hk, ha⟩
          cases k with
          | zero => exact absurd ha hi
          | succ k =>
              refine ⟨k, Nat.lt_of_succ_lt_succ hk, ?_⟩
              rw [← ha, Nat.add_right_comm, Nat.add_assoc]

/-- In a range that does not wrap around, a loop finds the addresses of the range. -/
theorem FlatRange.searchAddress_eq_true {r : MemRange} (h : FlatRange r) {target : Nat} :
  searchAddress r.start target r.len 0 false = true ↔ r.Has target
  := by
  rw [WolfCose.searchAddress_eq_true]
  constructor
  · rintro ⟨k, hk, ha⟩
    rw [Nat.zero_add, h.addressAt_eq hk] at ha
    subst ha
    exact ⟨Nat.le_add_right _ _, Nat.add_lt_add_left hk _⟩
  · rintro ⟨hle, hlt⟩
    refine ⟨target - r.start, by omega, ?_⟩
    rw [Nat.zero_add, h.addressAt_eq (by omega)]
    omega

/-- The search is the comparison of the starts of both ranges with the other range. -/
theorem searchOverlap_iff {a b : MemRange} (ha : FlatRange a) (hb : FlatRange b) :
  searchOverlap a b = true ↔ rangesOverlap a b
  := by
  unfold searchOverlap rangesOverlap
  by_cases hne : a.len ≠ 0 ∧ b.len ≠ 0
  · rw [if_pos hne]
    dsimp only
    cases hfound : searchAddress a.start b.start a.len 0 false with
    | true =>
        rw [searchAddress_true]
        constructor
        · intro _
          exact ⟨hne.1, hne.2, .inl (ha.searchAddress_eq_true.mp hfound)⟩
        · intro _
          rfl
    | false =>
        rw [hb.searchAddress_eq_true]
        constructor
        · intro h
          exact ⟨hne.1, hne.2, .inr h⟩
        · rintro ⟨-, -, h | h⟩
          · rw [ha.searchAddress_eq_true.mpr h] at hfound
            cases hfound
          · exact h
  · rw [if_neg hne]
    constructor
    · rintro ⟨⟩
    · rintro ⟨h₁, h₂, -⟩
      exact absurd ⟨h₁, h₂⟩ hne

/-! ### Exactness -/

omit [Settings] in
theorem rangesOverlap_iff_shares {a b : MemRange} :
  rangesOverlap a b ↔ a.Shares b
  := by
  rw [MemRange.shares_iff, ← not_rangesOverlap, Classical.not_not]

/-- `wolfCose_EatPsaBuffersOverlap` for two pointers, either of which may be null. -/
def eatPsaPlacesOverlap (a b : Place) : Bool :=
  a.isNull = false ∧ b.isNull = false ∧ eatPsaBuffersOverlap a.range b.range

omit [Settings] in
/-- The subtractions find out whether two ranges share an address. -/
theorem eatPsaBuffersOverlap_iff {a b : MemRange} :
  eatPsaBuffersOverlap a b = true ↔ a.Shares b
  := by
  rw [← rangesOverlap_iff_shares]
  unfold eatPsaBuffersOverlap rangesOverlap MemRange.Has
  rw [decide_eq_true_eq]
  constructor
  · rintro ⟨ha, hb, ⟨hle, hlt⟩ | ⟨hgt, hlt⟩⟩
    · exact ⟨ha, hb, .inl ⟨hle, by omega⟩⟩
    · exact ⟨ha, hb, .inr ⟨Nat.le_of_lt hgt, by omega⟩⟩
  · rintro ⟨ha, hb, ⟨hle, hlt⟩ | ⟨hle, hlt⟩⟩
    · exact ⟨ha, hb, .inl ⟨hle, by omega⟩⟩
    · rcases Nat.eq_or_lt_of_le hle with he | hlt'
      · exact ⟨ha, hb, .inl ⟨Nat.le_of_eq he.symm, by omega⟩⟩
      · exact ⟨ha, hb, .inr ⟨hlt', by omega⟩⟩

omit [Settings] in
/-- A null pointer overlaps with nothing. -/
theorem eatPsaPlacesOverlap_iff {a b : Place} :
  eatPsaPlacesOverlap a b = true ↔ a.isNull = false ∧ b.isNull = false ∧ a.range.Shares b.range
  := by
  rw [eatPsaPlacesOverlap, decide_eq_true_eq, eatPsaBuffersOverlap_iff]

/-- The overlap predicates are exact: on two ranges of a flat address space both return 1 exactly if the ranges are
not empty and share an address; so they are symmetric, and they agree. -/
theorem overlap_exact {p q : Nat} {m n : Nat} (hp : FlatRange ⟨p, m⟩) (hq : FlatRange ⟨q, n⟩) :
  (searchOverlap ⟨p, m⟩ ⟨q, n⟩ = true ↔ (MemRange.mk p m).Shares ⟨q, n⟩)
  ∧ (eatPsaPlacesOverlap ⟨some p, m⟩ ⟨some q, n⟩ = true ↔ (MemRange.mk p m).Shares ⟨q, n⟩)
  ∧ searchOverlap ⟨p, m⟩ ⟨q, n⟩ = searchOverlap ⟨q, n⟩ ⟨p, m⟩
  ∧ eatPsaPlacesOverlap ⟨some p, m⟩ ⟨some q, n⟩ = eatPsaPlacesOverlap ⟨some q, n⟩ ⟨some p, m⟩
  ∧ searchOverlap ⟨p, m⟩ ⟨q, n⟩ = eatPsaPlacesOverlap ⟨some p, m⟩ ⟨some q, n⟩
  := by
  have hsearch {a b : MemRange} (ha : FlatRange a) (hb : FlatRange b) : searchOverlap a b = true ↔ a.Shares b := by
    rw [searchOverlap_iff ha hb, rangesOverlap_iff_shares]
  have hsubtract (p m q n : Nat) :
      eatPsaPlacesOverlap ⟨some p, m⟩ ⟨some q, n⟩ = true ↔ (MemRange.mk p m).Shares ⟨q, n⟩ := by
    rw [eatPsaPlacesOverlap_iff]
    constructor
    · rintro ⟨-, -, h⟩
      exact h
    · intro h
      exact ⟨rfl, rfl, h⟩
  have hsymm : (MemRange.mk p m).Shares ⟨q, n⟩ ↔ (MemRange.mk q n).Shares ⟨p, m⟩ := ⟨.symm, .symm⟩
  refine ⟨hsearch hp hq, hsubtract p m q n, ?_, ?_, ?_⟩ <;> apply Bool.eq_iff_iff.mpr
  · rw [hsearch hp hq, hsearch hq hp, hsymm]
  · rw [hsubtract, hsubtract, hsymm]
  · rw [hsearch hp hq, hsubtract]

end

section Instances

attribute [local instance] defaultSettings

/-- Ranges of four and of two bytes that share their last and first address. -/
theorem overlap_exact_instance :
  searchOverlap ⟨0x100, 4⟩ ⟨0x103, 2⟩ = true ∧ eatPsaPlacesOverlap ⟨some 0x100, 4⟩ ⟨some 0x103, 2⟩ = true
  := by
  have hflat : FlatRange ⟨0x100, 4⟩ := ⟨by decide, by decide⟩
  have hflat' : FlatRange ⟨0x103, 2⟩ := ⟨by decide, by decide⟩
  have hshares : (MemRange.mk 0x100 4).Shares ⟨0x103, 2⟩ :=
    ⟨by decide, by decide, 0x103, by decide, by decide⟩
  exact ⟨(overlap_exact hflat hflat').1.mpr hshares, (overlap_exact hflat hflat').2.1.mpr hshares⟩

end Instances

end WolfCose
