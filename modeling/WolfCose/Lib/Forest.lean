import WolfCose.Lib.Bytes
import WolfCose.Lib.Frames

/-!
# Trees in a row

Byte strings that hold trees one after another, each tree its node and then the trees below it; the bytes of a
node tell how many these are.
-/

namespace Cbor

/-- `Forest N d n bs` says that `bs` is a row of `n` trees that nest at most `d` levels below them, where
`N b k` says that `b` is a node with `k` trees below it. -/
inductive Forest (N : Bytes → Nat → Prop) : Nat → Nat → Bytes → Prop where
  | nil (d : Nat) : Forest N d 0 []
  | leaf {d n : Nat} {b bs : Bytes} : N b 0 → Forest N d n bs → Forest N d (n + 1) (b ++ bs)
  | node {d n k : Nat} {b cs bs : Bytes} :
      N b k → k ≠ 0 → Forest N d k cs → Forest N (d + 1) n bs → Forest N (d + 1) (n + 1) (b ++ (cs ++ bs))

/-- The nodes of a row can be told apart from what follows them. -/
def PrefixFree (N : Bytes → Nat → Prop) : Prop :=
  ∀ b k b' k' r r', N b k → N b' k' → b ++ r = b' ++ r' → b = b' ∧ k = k' ∧ r = r'

namespace Forest

variable {N : Bytes → Nat → Prop} {d m n k : Nat} {s : List Nat} {b bs r : Bytes}

theorem eq_nil (h : Forest N d 0 bs) :
  bs = []
  := by
  cases h
  rfl

/-- A row that is not empty starts with a node. -/
theorem head (h : Forest N d (n + 1) bs) :
  ∃ b k r, N b k ∧ bs = b ++ r
  := by
  cases h with
  | leaf hb _ => exact ⟨_, 0, _, hb, rfl⟩
  | node hb _ _ _ => exact ⟨_, _, _, hb, rfl⟩

/-- A row of nodes is a row of nodes of a wider kind. -/
theorem imp {N' : Bytes → Nat → Prop} (h : Forest N d n bs) (hN : ∀ b k, N b k → N' b k) :
  Forest N' d n bs
  := by
  induction h with
  | nil d => apply Forest.nil
  | leaf hb _ ih => apply Forest.leaf (hN _ _ hb) ih
  | node hb hk _ _ ihc ih => apply Forest.node (hN _ _ hb) hk ihc ih

/-- If no node is empty, a row has a byte for every tree. -/
theorem le_length (hN : ∀ b k, N b k → b ≠ []) (h : Forest N d n bs) :
  n ≤ bs.length
  := by
  induction h with
  | nil d => exact Nat.le_refl 0
  | leaf hb _ ih =>
      have := List.length_pos_iff.mpr (hN _ _ hb)
      rw [List.length_append]
      omega
  | node hb _ _ _ _ ih =>
      have := List.length_pos_iff.mpr (hN _ _ hb)
      rw [List.length_append, List.length_append]
      omega

theorem leaf_iff (hN : PrefixFree N) (hb : N b 0) :
  Forest N d (n + 1) (b ++ r) ↔ Forest N d n r
  := by
  constructor
  · intro h
    generalize hbs : b ++ r = bs at h
    cases h with
    | leaf hb' hr =>
        obtain ⟨rfl, -, rfl⟩ := hN _ _ _ _ _ _ hb hb' hbs
        exact hr
    | node hb' hk _ _ =>
        obtain ⟨-, hk', -⟩ := hN _ _ _ _ _ _ hb hb' hbs
        exact absurd hk'.symm hk
  · exact .leaf hb

theorem node_iff (hN : PrefixFree N) (hb : N b k) (hk : k ≠ 0) :
  Forest N d (n + 1) (b ++ r) ↔ ∃ e cs bs, d = e + 1 ∧ r = cs ++ bs ∧ Forest N e k cs ∧ Forest N d n bs
  := by
  constructor
  · intro h
    generalize hbs : b ++ r = bs at h
    cases h with
    | leaf hb' _ =>
        obtain ⟨-, hk', -⟩ := hN _ _ _ _ _ _ hb hb' hbs
        exact absurd hk' hk
    | @node e _ _ _ cs bs hb' _ hcs hr =>
        obtain ⟨rfl, rfl, rfl⟩ := hN _ _ _ _ _ _ hb hb' hbs
        exact ⟨e, cs, bs, rfl, rfl, hcs, hr⟩
  · rintro ⟨e, cs, bs, rfl, rfl, hcs, hr⟩
    exact .node hb hk hcs hr

theorem zero_iff (d : Nat) (bs : Bytes) :
  Forest N d 0 bs ↔ bs = []
  := by
  constructor
  · exact eq_nil
  · rintro rfl
    exact .nil d

/-- A row starts with the node that what is left starts with. -/
theorem starts (hN : PrefixFree N) (hb : N b k) {a c : Bytes} (ha : Forest N d (n + 1) a) (e : a ++ c = b ++ r) :
  ∃ a', a = b ++ a'
  := by
  obtain ⟨b', k', a', hb', rfl⟩ := ha.head
  rw [List.append_assoc] at e
  obtain ⟨rfl, -, -⟩ := hN _ _ _ _ _ _ hb' hb e
  exact ⟨a', rfl⟩

theorem frames_leaf_iff (hN : PrefixFree N) (hb : N b 0) :
  Frames (Forest N) m ((n + 1) :: s) (b ++ r) ↔ Frames (Forest N) m (n :: s) r
  := Frames.step_iff (fun _ _ _ => starts hN hb) fun _ _ => leaf_iff hN hb

theorem frames_node_iff (hN : PrefixFree N) (hb : N b k) (hk : k ≠ 0) :
  Frames (Forest N) m ((n + 1) :: s) (b ++ r) ↔ s.length < m ∧ Frames (Forest N) m (k :: n :: s) r
  := Frames.open_iff (fun _ _ _ => starts hN hb) fun _ _ => node_iff hN hb hk

end Forest

end Cbor
