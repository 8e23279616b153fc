import Mathlib.Tactic.Common
import Mathlib.Tactic.Linarith

/-!
# Byte strings

Big-endian integers of a fixed width, and writing into a byte string of a fixed length.
-/

/-- A byte string. -/
abbrev Bytes := List UInt8

namespace Bytes

/-! ### Big-endian integers -/

/-- The `n` bytes of `v` in big-endian order; higher bits of `v` are dropped. -/
def be : Nat → Nat → Bytes
  | 0, _ => []
  | n + 1, v => UInt8.ofNat (v / 256 ^ n) :: be n v

/-- The integer a byte string spells in big-endian order, above the accumulator. -/
def ofBeFrom : Nat → Bytes → Nat
  | acc, [] => acc
  | acc, b :: bs => ofBeFrom (acc * 256 + b.toNat) bs

/-- The integer a byte string spells in big-endian order. -/
def ofBe (bs : Bytes) : Nat := ofBeFrom 0 bs

@[simp]
theorem length_be (n v : Nat) :
  (be n v).length = n
  := by
  induction n with
  | zero => rfl
  | succ n ih => simp [be, ih]

theorem ofBeFrom_eq (acc : Nat) (bs : Bytes) :
  ofBeFrom acc bs = acc * 256 ^ bs.length + ofBe bs
  := by
  induction bs generalizing acc with
  | nil => simp [ofBeFrom, ofBe]
  | cons b bs ih =>
      have h₀ : ofBe (b :: bs) = ofBeFrom (0 * 256 + b.toNat) bs := rfl
      rw [ofBeFrom, ih, h₀, ih (0 * 256 + b.toNat), List.length_cons, Nat.pow_succ]
      simp only [Nat.add_mul, Nat.zero_mul, Nat.zero_add, Nat.mul_assoc, Nat.add_assoc,
        Nat.mul_comm 256]

theorem ofBe_cons (b : UInt8) (bs : Bytes) :
  ofBe (b :: bs) = b.toNat * 256 ^ bs.length + ofBe bs
  := by
  have h : ofBe (b :: bs) = ofBeFrom (0 * 256 + b.toNat) bs := rfl
  rw [h, ofBeFrom_eq, Nat.zero_mul, Nat.zero_add]

/-- A byte string spells an integer below the bound of its width. -/
theorem ofBe_lt (bs : Bytes) :
  ofBe bs < 256 ^ bs.length
  := by
  induction bs with
  | nil => simp [ofBe, ofBeFrom]
  | cons b bs ih =>
      rw [ofBe_cons, List.length_cons, Nat.pow_succ]
      have hb : b.toNat ≤ 255 := Nat.le_of_lt_succ b.toNat_lt
      have hm : b.toNat * 256 ^ bs.length ≤ 255 * 256 ^ bs.length := Nat.mul_le_mul_right _ hb
      omega

/-- Only the low `n` bytes of `v` are written. -/
theorem be_mod (n v : Nat) :
  be n (v % 256 ^ n) = be n v
  := by
  suffices h : ∀ m, n ≤ m → be n (v % 256 ^ m) = be n v from h n (Nat.le_refl n)
  induction n with
  | zero => intro m _; rfl
  | succ n ih =>
      intro m hm
      rw [be, be, ih m (by omega)]
      have hk : 256 ^ m = 256 ^ n * 256 * 256 ^ (m - n - 1) := by
        rw [← Nat.pow_succ, ← Nat.pow_add]
        congr 1
        omega
      have hd : v % 256 ^ m / 256 ^ n = v / 256 ^ n % (256 * 256 ^ (m - n - 1)) := by
        rw [hk, Nat.mul_assoc, Nat.mod_mul_right_div_self]
      have ht : UInt8.ofNat (v % 256 ^ m / 256 ^ n) = UInt8.ofNat (v / 256 ^ n) := by
        apply UInt8.toNat_inj.mp
        rw [hd, UInt8.toNat_ofNat', UInt8.toNat_ofNat']
        exact Nat.mod_mul_right_mod _ _ _
      rw [ht]

/-- Reading back the bytes of an integer that fits gives the integer. -/
theorem ofBe_be {n v : Nat} (h : v < 256 ^ n) :
  ofBe (be n v) = v
  := by
  induction n generalizing v with
  | zero =>
      rw [Nat.pow_zero] at h
      have : v = 0 := by omega
      subst this
      rfl
  | succ n ih =>
      rw [be, ofBe_cons, length_be, ← be_mod, ih (Nat.mod_lt _ (Nat.pow_pos (by decide)))]
      have hq : v / 256 ^ n < 256 := by
        apply Nat.div_lt_of_lt_mul
        rw [Nat.mul_comm, ← Nat.pow_succ']
        rwa [Nat.pow_succ, Nat.mul_comm, ← Nat.pow_succ'] at h
      rw [UInt8.toNat_ofNat', Nat.mod_eq_of_lt hq, Nat.mul_comm]
      exact Nat.div_add_mod v (256 ^ n)

/-- Writing back the integer a byte string spells gives the byte string. -/
theorem be_ofBe (bs : Bytes) :
  be bs.length (ofBe bs) = bs
  := by
  induction bs with
  | nil => rfl
  | cons b bs ih =>
      have hlt := ofBe_lt bs
      have hpos : 0 < 256 ^ bs.length := Nat.pow_pos (by decide)
      have hdiv : ofBe (b :: bs) / 256 ^ bs.length = b.toNat := by
        rw [ofBe_cons, Nat.add_comm, Nat.add_mul_div_right _ _ hpos, Nat.div_eq_of_lt hlt,
          Nat.zero_add]
      have hmod : ofBe (b :: bs) % 256 ^ bs.length = ofBe bs := by
        rw [ofBe_cons, Nat.add_comm, Nat.add_mul_mod_self_right, Nat.mod_eq_of_lt hlt]
      rw [List.length_cons, be, hdiv, ← be_mod, hmod, ih, UInt8.ofNat_toNat]

/-! ### Writing into a byte string -/

/-- As many byte strings as are not empty are not longer than their concatenation. -/
theorem length_le_flatten {xs : List Bytes} (h : ∀ x ∈ xs, x ≠ []) :
  xs.length ≤ xs.flatten.length
  := by
  induction xs with
  | nil => exact Nat.le_refl 0
  | cons x xs ih =>
      obtain ⟨hx, hxs⟩ := List.forall_mem_cons.mp h
      have h₁ := ih hxs
      have h₂ := List.length_pos_iff.mpr hx
      rw [List.flatten_cons, List.length_append, List.length_cons]
      omega

/-- The byte string `l` with `ws` written over it from the offset `off` on.  Bytes that
would fall past the end of `l` are not written, so the length never changes. -/
def overwrite : Bytes → Nat → Bytes → Bytes
  | [], _, _ => []
  | b :: bs, 0, [] => b :: bs
  | _ :: bs, 0, w :: ws => w :: overwrite bs 0 ws
  | b :: bs, n + 1, ws => b :: overwrite bs n ws

@[simp]
theorem length_overwrite (l : Bytes) (off : Nat) (ws : Bytes) :
  (overwrite l off ws).length = l.length
  := by
  induction l generalizing off ws with
  | nil => rfl
  | cons b bs ih =>
      cases off with
      | zero =>
          cases ws with
          | nil => rfl
          | cons w ws => simp [overwrite, ih]
      | succ n => simp [overwrite, ih]

/-- What is written inside the byte string stands between what it does not touch. -/
theorem overwrite_eq {l : Bytes} {off : Nat} {ws : Bytes} (h : off + ws.length ≤ l.length) :
  overwrite l off ws = l.take off ++ ws ++ l.drop (off + ws.length)
  := by
  induction l generalizing off ws with
  | nil =>
      have hws : ws.length = 0 := by
        rw [List.length_nil] at h
        omega
      rw [List.eq_nil_of_length_eq_zero hws]
      simp [overwrite]
  | cons b bs ih =>
      cases off with
      | zero =>
          cases ws with
          | nil => simp [overwrite]
          | cons w ws =>
              simp only [List.length_cons] at h
              rw [overwrite, ih (by omega)]
              simp
      | succ n =>
          simp only [List.length_cons] at h
          rw [overwrite, ih (by omega), Nat.add_right_comm]
          simp

@[simp]
theorem overwrite_nil (l : Bytes) (off : Nat) :
  overwrite l off [] = l
  := by
  induction l generalizing off with
  | nil => rfl
  | cons b bs ih =>
      cases off with
      | zero => rfl
      | succ n => rw [overwrite, ih]

/-- Writing one byte string after another is writing both at once. -/
theorem overwrite_append (l : Bytes) (off : Nat) (v w : Bytes) :
  overwrite (overwrite l off v) (off + v.length) w = overwrite l off (v ++ w)
  := by
  induction l generalizing off v with
  | nil => rfl
  | cons b bs ih =>
      cases off with
      | zero =>
          cases v with
          | nil => simp
          | cons x v =>
              rw [List.cons_append, overwrite, overwrite, List.length_cons, ← ih 0 v,
                Nat.zero_add, Nat.zero_add]
              rfl
      | succ n =>
          rw [overwrite, overwrite, ← ih n v, Nat.add_right_comm]
          rfl

/-- The bytes before the offset are not touched. -/
theorem take_overwrite {l : Bytes} {off k : Nat} {ws : Bytes} (hk : k ≤ off) :
  (overwrite l off ws).take k = l.take k
  := by
  induction l generalizing off ws k with
  | nil => rfl
  | cons b bs ih =>
      cases k with
      | zero => rfl
      | succ k =>
          cases off with
          | zero => omega
          | succ n => simp [overwrite, ih (show k ≤ n by omega)]

/-- Byte strings are written one after the other in either order. -/
theorem overwrite_prepend (l : Bytes) (off : Nat) (v w : Bytes) :
  overwrite (overwrite l (off + v.length) w) off v = overwrite l off (v ++ w)
  := by
  induction l generalizing off v with
  | nil => rfl
  | cons b bs ih =>
      cases off with
      | zero =>
          cases v with
          | nil => rw [overwrite_nil, List.nil_append, List.length_nil, Nat.zero_add]
          | cons x v =>
              rw [List.cons_append, List.length_cons, ← Nat.add_assoc, overwrite, overwrite, overwrite, ← ih 0 v]
      | succ n =>
          rw [Nat.add_right_comm, overwrite, overwrite, overwrite, ih n v]

/-- What is read before the offset is not changed. -/
theorem read_overwrite {l : Bytes} {off src n : Nat} {ws : Bytes} (h : src + n ≤ off) :
  ((overwrite l off ws).drop src).take n = (l.drop src).take n
  := by
  rw [List.take_drop, List.take_drop, take_overwrite h]

/-- Reading from the middle of a byte string. -/
theorem read_middle {a b c : Bytes} {off n : Nat} (hoff : off = a.length) (hn : n = b.length) :
  ((a ++ (b ++ c)).drop off).take n = b
  := by
  rw [hoff, hn, List.drop_left, List.take_left]

/-- Writing into the middle of a byte string. -/
theorem overwrite_middle {a b c : Bytes} {off : Nat} {ws : Bytes} (h : off + ws.length ≤ b.length) :
  overwrite (a ++ (b ++ c)) (a.length + off) ws = a ++ (overwrite b off ws ++ c)
  := by
  rw [overwrite_eq (by simp only [List.length_append]; omega), overwrite_eq h, List.take_append,
    List.take_of_length_le (Nat.le_add_right _ _), Nat.add_sub_cancel_left, List.take_append_of_le_length (by omega),
    Nat.add_assoc, List.drop_length_add_append, List.drop_append_of_le_length h]
  simp only [List.append_assoc]

/-- The parts of a byte string are moved apart from the last to the first, and then the gaps between
them are filled. -/
theorem overwrite_splice (l : Bytes) (off : Nat) (head content new rest : Bytes) :
  overwrite (overwrite (overwrite (overwrite l (off + head.length + content.length + new.length) rest)
      (off + head.length) content) off head) (off + head.length + content.length) new
    = overwrite l off (head ++ (content ++ (new ++ rest)))
  := by
  rw [overwrite_prepend, Nat.add_assoc off, ← List.length_append, overwrite_append,
    Nat.add_assoc off, ← List.length_append, overwrite_prepend]
  simp only [List.append_assoc]

/-! ### Moving and filling -/

/-- The byte string `l` with its `n` bytes from `src` on copied to `dst`; the ranges may overlap. -/
def move (l : Bytes) (dst src n : Nat) : Bytes := overwrite l dst ((l.drop src).take n)

/-- The byte string `l` with `n` zeros from `off` on. -/
def fill (l : Bytes) (off n : Nat) : Bytes := overwrite l off (List.replicate n 0)

@[simp]
theorem length_move (l : Bytes) (dst src n : Nat) :
  (move l dst src n).length = l.length
  := length_overwrite _ _ _

@[simp]
theorem length_fill (l : Bytes) (off n : Nat) :
  (fill l off n).length = l.length
  := length_overwrite _ _ _

/-- The bytes at the start of a field are moved to its end, and the field is filled up with zeros. -/
theorem fill_move {a bs gap c : Bytes} {off n : Nat} (hoff : off = a.length) (hn : n = bs.length + gap.length) :
  fill (move (a ++ (bs ++ gap ++ c)) (off + (n - bs.length)) off bs.length) off (n - bs.length)
    = a ++ (List.replicate (n - bs.length) 0 ++ bs ++ c)
  := by
  have hgap : n - bs.length = gap.length := by omega
  have hsrc : ((a ++ (bs ++ gap ++ c)).drop off).take bs.length = bs := by
    rw [List.append_assoc bs, read_middle hoff rfl]
  rw [move, fill, hsrc, hgap, hoff]
  -- zeros and bytes are written next to each other
  have happend := overwrite_prepend (a ++ (bs ++ gap ++ c)) a.length (List.replicate gap.length 0) bs
  rw [List.length_replicate] at happend
  rw [happend]
  have hfit : 0 + (List.replicate gap.length (0 : UInt8) ++ bs).length ≤ (bs ++ gap).length := by
    rw [List.length_append, List.length_append, List.length_replicate]
    omega
  have hmiddle := @overwrite_middle a (bs ++ gap) c 0 (List.replicate gap.length 0 ++ bs) hfit
  rw [Nat.add_zero] at hmiddle
  rw [hmiddle, overwrite_eq hfit, List.take_zero, List.nil_append, List.drop_eq_nil_of_le, List.append_nil]
  rw [List.length_append, List.length_append, List.length_replicate]
  omega

end Bytes
