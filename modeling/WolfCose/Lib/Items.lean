import WolfCose.Lib.Frames
import WolfCose.Lib.Head

/-!
# Data items of bounded nesting

`Items P d n bs` says that the byte string `bs` is a sequence of exactly `n` complete data
items with definite lengths, all of whose tokens satisfy `P`, in which non-empty arrays and
maps are nested at most `d` deep.  A tag does not count as a level.  Sequences of items are
prefix free, so where a sequence ends is determined by where it starts.
-/

namespace Cbor

/-- The number of items inside the container a token opens. -/
def Token.children (t : Token) : Nat :=
  match t.major with
  | .array => t.val
  | .map => 2 * t.val
  | _ => 0

/-- Sequences of `n` data items nested at most `d` deep. -/
inductive Items (P : Token → Prop) : Nat → Nat → Bytes → Prop where
  | nil (d : Nat) : Items P d 0 []
  | leaf {d n : Nat} {t : Token} {bs : Bytes} :
      P t → t.major ≠ .tag → t.children = 0 → Items P d n bs → Items P d (n + 1) (t.bytes ++ bs)
  | tag {d n : Nat} {t : Token} {bs : Bytes} :
      P t → t.major = .tag → Items P d (n + 1) bs → Items P d (n + 1) (t.bytes ++ bs)
  | container {d n : Nat} {t : Token} {cs bs : Bytes} :
      P t → t.children ≠ 0 → Items P d t.children cs → Items P (d + 1) n bs →
      Items P (d + 1) (n + 1) (t.bytes ++ (cs ++ bs))

theorem Token.children_of_tag {t : Token} (h : t.major = .tag) :
  t.children = 0
  := by
  rw [children, h]

theorem Token.ne_tag_of_children {t : Token} (h : t.children ≠ 0) :
  t.major ≠ .tag
  := fun e => h (children_of_tag e)

namespace Items

variable {P : Token → Prop} {d d' n m : Nat} {a b bs r r' : Bytes}

/-! ### Sequences -/

theorem append (ha : Items P d n a) (hb : Items P d m b) :
  Items P d (n + m) (a ++ b)
  := by
  induction ha with
  | nil d => simpa using hb
  | leaf hP ht hc _ ih =>
      rw [List.append_assoc, Nat.add_right_comm]
      exact .leaf hP ht hc (ih hb)
  | tag hP ht _ ih =>
      rw [List.append_assoc, Nat.add_right_comm]
      have h := ih hb
      rw [Nat.add_right_comm] at h
      exact .tag hP ht h
  | container hP hc hcs _ _ ih =>
      rw [List.append_assoc, List.append_assoc, Nat.add_right_comm]
      exact .container hP hc hcs (ih hb)

/-- A sequence of `n + m` items is a sequence of `n` items followed by one of `m`. -/
theorem split (h : Items P d (n + m) bs) :
  ∃ a b, bs = a ++ b ∧ Items P d n a ∧ Items P d m b
  := by
  generalize hk : n + m = k at h
  induction h generalizing n m with
  | nil d =>
      have hn : n = 0 := by omega
      have hm : m = 0 := by omega
      subst hn
      subst hm
      exact ⟨[], [], rfl, .nil d, .nil d⟩
  | @leaf d k t bs hP ht hc hb ih =>
      cases n with
      | zero =>
          rw [Nat.zero_add] at hk
          subst hk
          exact ⟨[], _, rfl, .nil d, .leaf hP ht hc hb⟩
      | succ n =>
          obtain ⟨a, b, e, ha, hb'⟩ := ih (n := n) (m := m) (by omega)
          refine ⟨t.bytes ++ a, b, ?_, .leaf hP ht hc ha, hb'⟩
          rw [e, List.append_assoc]
  | @tag d k t bs hP ht hb ih =>
      cases n with
      | zero =>
          rw [Nat.zero_add] at hk
          subst hk
          exact ⟨[], _, rfl, .nil d, .tag hP ht hb⟩
      | succ n =>
          obtain ⟨a, b, e, ha, hb'⟩ := ih (n := n + 1) (m := m) (by omega)
          refine ⟨t.bytes ++ a, b, ?_, .tag hP ht ha, hb'⟩
          rw [e, List.append_assoc]
  | @container d k t cs bs hP hc hcs hb _ ih =>
      cases n with
      | zero =>
          rw [Nat.zero_add] at hk
          subst hk
          exact ⟨[], _, rfl, .nil _, .container hP hc hcs hb⟩
      | succ n =>
          obtain ⟨a, b, e, ha, hb'⟩ := ih (n := n) (m := m) (by omega)
          refine ⟨t.bytes ++ (cs ++ a), b, ?_, .container hP hc hcs ha, hb'⟩
          rw [e, List.append_assoc, List.append_assoc]

/-- A deeper nesting limit admits the same sequences and more. -/
theorem mono (h : Items P d n bs) (hd : d ≤ d') :
  Items P d' n bs
  := by
  induction h generalizing d' with
  | nil d => exact .nil d'
  | leaf hP ht hc _ ih => exact .leaf hP ht hc (ih hd)
  | tag hP ht _ ih => exact .tag hP ht (ih hd)
  | container hP hc _ _ ih₁ ih₂ =>
      obtain ⟨k, rfl⟩ : ∃ k, d' = k + 1 := ⟨d' - 1, by omega⟩
      exact .container hP hc (ih₁ (by omega)) (ih₂ hd)

/-- Some depth is enough for all items of a list. -/
theorem exists_depth {xs : List Bytes} (h : ∀ x ∈ xs, ∃ d, Items P d 1 x) :
  ∃ d, ∀ x ∈ xs, Items P d 1 x
  := by
  induction xs with
  | nil => exact ⟨0, List.forall_mem_nil _⟩
  | cons x xs ih =>
      obtain ⟨⟨d, hx⟩, hxs⟩ := List.forall_mem_cons.mp h
      obtain ⟨d', hxs⟩ := ih hxs
      refine ⟨max d d', List.forall_mem_cons.mpr ⟨hx.mono (Nat.le_max_left _ _), fun y hy => ?_⟩⟩
      exact (hxs y hy).mono (Nat.le_max_right _ _)

/-- A weaker condition on tokens admits the same sequences and more. -/
theorem imp {Q : Token → Prop} (h : Items P d n bs) (hPQ : ∀ t, P t → Q t) :
  Items Q d n bs
  := by
  induction h with
  | nil d => exact .nil d
  | leaf hP ht hc _ ih => exact .leaf (hPQ _ hP) ht hc ih
  | tag hP ht _ ih => exact .tag (hPQ _ hP) ht ih
  | container hP hc _ _ ih₁ ih₂ => exact .container (hPQ _ hP) hc ih₁ ih₂

/-- Every item takes at least one byte. -/
theorem le_length (h : Items P d n bs) :
  n ≤ bs.length
  := by
  induction h with
  | nil d => exact Nat.le_refl 0
  | @leaf _ _ t _ _ _ _ _ ih =>
      have := t.one_le_length_bytes
      rw [List.length_append]
      omega
  | @tag _ _ t _ _ _ _ ih =>
      rw [List.length_append]
      omega
  | @container _ _ t _ _ _ _ _ _ _ ih =>
      have := t.one_le_length_bytes
      rw [List.length_append, List.length_append]
      omega

/-- A non-empty sequence starts with a token. -/
theorem head (h : Items P d (n + 1) bs) :
  ∃ t rest, P t ∧ bs = t.bytes ++ rest
  := by
  generalize hk : n + 1 = k at h
  cases h with
  | nil => omega
  | leaf hP _ _ _ => exact ⟨_, _, hP, rfl⟩
  | tag hP _ _ => exact ⟨_, _, hP, rfl⟩
  | container hP _ _ _ => exact ⟨_, _, hP, rfl⟩

theorem eq_nil (h : Items P d 0 bs) :
  bs = []
  := by
  cases h
  rfl

theorem ne_nil (h : Items P d (n + 1) bs) :
  bs ≠ []
  := by
  intro e
  have := h.le_length
  rw [e, List.length_nil] at this
  omega

/-- Tokens without children are items. -/
theorem tokens {ts : List Token} (h : ∀ t ∈ ts, P t ∧ t.major ≠ .tag ∧ t.children = 0) :
  Items P d ts.length (ts.flatMap Token.bytes)
  := by
  induction ts with
  | nil => exact .nil d
  | cons t ts ih =>
      obtain ⟨⟨hP, hm, hc⟩, hts⟩ := List.forall_mem_cons.mp h
      exact .leaf hP hm hc (ih hts)

/-! ### One step of a walk -/

section Walk

variable (wf : ∀ t, P t → t.WellFormed)

include wf

/-- A sequence that starts with a tag is a tag before a sequence of the same number of
items. -/
theorem tag_iff {t : Token} (hP : P t) (ht : t.major = .tag) :
  Items P d (n + 1) (t.bytes ++ r) ↔ Items P d (n + 1) r
  := by
  constructor
  · intro h
    generalize hk : n + 1 = k at h
    generalize hb : t.bytes ++ r = bs at h
    cases h with
    | nil => omega
    | leaf hP' ht' _ _ =>
        obtain ⟨rfl, rfl⟩ := Token.bytes_append_cancel (wf _ hP) (wf _ hP') hb
        exact absurd ht ht'
    | tag hP' _ h' =>
        obtain ⟨rfl, rfl⟩ := Token.bytes_append_cancel (wf _ hP) (wf _ hP') hb
        exact h'
    | container hP' hc _ _ =>
        obtain ⟨rfl, -⟩ := Token.bytes_append_cancel (wf _ hP) (wf _ hP') hb
        exact absurd ht (Token.ne_tag_of_children hc)
  · exact fun h => .tag hP ht h

/-- A sequence that starts with an item without children is that item before a shorter
sequence. -/
theorem leaf_iff {t : Token} (hP : P t) (ht : t.major ≠ .tag) (hc : t.children = 0) :
  Items P d (n + 1) (t.bytes ++ r) ↔ Items P d n r
  := by
  constructor
  · intro h
    generalize hk : n + 1 = k at h
    generalize hb : t.bytes ++ r = bs at h
    cases h with
    | nil => omega
    | leaf hP' _ _ h' =>
        obtain ⟨rfl, rfl⟩ := Token.bytes_append_cancel (wf _ hP) (wf _ hP') hb
        obtain rfl : n = _ := Nat.succ.inj hk
        exact h'
    | tag hP' ht' _ =>
        obtain ⟨rfl, -⟩ := Token.bytes_append_cancel (wf _ hP) (wf _ hP') hb
        exact absurd ht' ht
    | container hP' hc' _ _ =>
        obtain ⟨rfl, -⟩ := Token.bytes_append_cancel (wf _ hP) (wf _ hP') hb
        exact absurd hc hc'
  · exact fun h => .leaf hP ht hc h

/-- A sequence that starts with a non-empty container is its children, one level down,
before a shorter sequence. -/
theorem container_iff {t : Token} (hP : P t) (hc : t.children ≠ 0) :
  Items P d (n + 1) (t.bytes ++ r)
    ↔ ∃ e cs bs, d = e + 1 ∧ r = cs ++ bs ∧ Items P e t.children cs ∧ Items P d n bs
  := by
  constructor
  · intro h
    generalize hk : n + 1 = k at h
    generalize hb : t.bytes ++ r = bs at h
    cases h with
    | nil => omega
    | leaf hP' _ hc' _ =>
        obtain ⟨rfl, -⟩ := Token.bytes_append_cancel (wf _ hP) (wf _ hP') hb
        exact absurd hc' hc
    | tag hP' ht _ =>
        obtain ⟨rfl, -⟩ := Token.bytes_append_cancel (wf _ hP) (wf _ hP') hb
        exact absurd ht (Token.ne_tag_of_children hc)
    | @container e k _ cs bs hP' _ hcs hbs =>
        obtain ⟨rfl, rfl⟩ := Token.bytes_append_cancel (wf _ hP) (wf _ hP') hb
        obtain rfl : n = k := Nat.succ.inj hk
        exact ⟨e, cs, bs, rfl, rfl, hcs, hbs⟩
  · rintro ⟨e, cs, bs, rfl, rfl, hcs, hbs⟩
    exact .container hP hc hcs hbs

/-- Sequences of the same number of items are prefix free, whatever their nesting. -/
theorem append_cancel (h : Items P d n a) (h' : Items P d' n b) (e : a ++ r = b ++ r') :
  a = b ∧ r = r'
  := by
  induction h generalizing d' b r r' with
  | nil d =>
      rw [h'.eq_nil] at e ⊢
      exact ⟨rfl, e⟩
  | leaf hP ht hc _ ih =>
      obtain ⟨t', s, hP', rfl⟩ := h'.head
      simp only [List.append_assoc] at e
      obtain ⟨rfl, e'⟩ := Token.bytes_append_cancel (wf _ hP) (wf _ hP') e
      rw [leaf_iff wf hP ht hc] at h'
      obtain ⟨rfl, rfl⟩ := ih h' e'
      exact ⟨rfl, rfl⟩
  | tag hP ht _ ih =>
      obtain ⟨t', s, hP', rfl⟩ := h'.head
      simp only [List.append_assoc] at e
      obtain ⟨rfl, e'⟩ := Token.bytes_append_cancel (wf _ hP) (wf _ hP') e
      rw [tag_iff wf hP ht] at h'
      obtain ⟨rfl, rfl⟩ := ih h' e'
      exact ⟨rfl, rfl⟩
  | container hP hc _ _ ih₁ ih₂ =>
      obtain ⟨t', s, hP', rfl⟩ := h'.head
      simp only [List.append_assoc] at e
      obtain ⟨rfl, e'⟩ := Token.bytes_append_cancel (wf _ hP) (wf _ hP') e
      rw [container_iff wf hP hc] at h'
      obtain ⟨_, cs, bs, -, rfl, hcs, hbs⟩ := h'
      rw [List.append_assoc] at e'
      obtain ⟨rfl, e''⟩ := ih₁ hcs e'
      obtain ⟨rfl, rfl⟩ := ih₂ hbs e''
      exact ⟨rfl, rfl⟩

/-- A sequence of items is cut into single items in one way only. -/
theorem flatten_cancel {xs ys : List Bytes} (hx : ∀ x ∈ xs, ∃ d, Items P d 1 x)
    (hy : ∀ y ∈ ys, ∃ d, Items P d 1 y) (hlen : xs.length = ys.length)
    (e : xs.flatten ++ r = ys.flatten ++ r') :
  xs = ys ∧ r = r'
  := by
  induction xs generalizing ys with
  | nil =>
      obtain rfl := List.eq_nil_of_length_eq_zero hlen.symm
      exact ⟨rfl, e⟩
  | cons x xs ih =>
      obtain _ | ⟨y, ys⟩ := ys
      · exact absurd hlen (Nat.succ_ne_zero _)
      obtain ⟨⟨_, hx⟩, hxs⟩ := List.forall_mem_cons.mp hx
      obtain ⟨⟨_, hy⟩, hys⟩ := List.forall_mem_cons.mp hy
      simp only [List.flatten_cons, List.append_assoc] at e
      obtain ⟨rfl, e'⟩ := append_cancel wf hx hy e
      obtain ⟨rfl, rfl⟩ := ih hxs hys (Nat.succ.inj hlen) e'
      exact ⟨rfl, rfl⟩

end Walk

end Items

/-! ### Open levels -/

namespace Items

variable {P : Token → Prop} {m n d : Nat} {s : List Nat} {bs r : Bytes}

theorem zero_iff (d : Nat) (bs : Bytes) :
  Items P d 0 bs ↔ bs = []
  := by
  constructor
  · exact eq_nil
  · rintro rfl
    exact .nil d

section Step

variable (wf : ∀ t, P t → t.WellFormed)

include wf

/-- A sequence starts with the token that its row starts with. -/
theorem starts {t : Token} (hP : P t) {a c : Bytes} (ha : Items P d (n + 1) a) (e : a ++ c = t.bytes ++ r) :
  ∃ a', a = t.bytes ++ a'
  := by
  obtain ⟨t', a', hP', rfl⟩ := ha.head
  rw [List.append_assoc] at e
  obtain ⟨rfl, -⟩ := Token.bytes_append_cancel (wf _ hP') (wf _ hP) e
  exact ⟨a', rfl⟩

theorem frames_tag_iff {t : Token} (hP : P t) (ht : t.major = .tag) :
  Frames (Items P) m ((n + 1) :: s) (t.bytes ++ r) ↔ Frames (Items P) m ((n + 1) :: s) r
  := Frames.step_iff (fun _ _ _ => starts wf hP) fun _ _ => tag_iff wf hP ht

theorem frames_leaf_iff {t : Token} (hP : P t) (ht : t.major ≠ .tag) (hc : t.children = 0) :
  Frames (Items P) m ((n + 1) :: s) (t.bytes ++ r) ↔ Frames (Items P) m (n :: s) r
  := Frames.step_iff (fun _ _ _ => starts wf hP) fun _ _ => leaf_iff wf hP ht hc

theorem frames_container_iff {t : Token} (hP : P t) (hc : t.children ≠ 0) :
  Frames (Items P) m ((n + 1) :: s) (t.bytes ++ r)
    ↔ s.length < m ∧ Frames (Items P) m (t.children :: n :: s) r
  := Frames.open_iff (fun _ _ _ => starts wf hP) fun _ _ => container_iff wf hP hc

end Step

end Items

end Cbor
