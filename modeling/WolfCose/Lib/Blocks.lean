import WolfCose.Lib.Bytes

/-!
# Blocks

A byte string as a sequence of blocks of a fixed size, the last of which is filled up with
zeros.  This loses the zeros at the end of a byte string, but not more: if the blocks of a byte
string start those of another one, then one of the two byte strings is a prefix of the other.
-/

/-- A byte string of `n` bytes. -/
abbrev Block (n : Nat) := { bs : Bytes // bs.length = n }

namespace Block

variable {n : Nat}

/-- The block of zeros. -/
def zero (n : Nat) : Block n :=
  ⟨List.replicate n 0, List.length_replicate⟩

/-- The first `n` bytes of a byte string, filled up with zeros. -/
def ofBytes (n : Nat) (bs : Bytes) : Block n :=
  ⟨(bs ++ List.replicate n 0).take n, by simp⟩

/-- The first bytes of a block. -/
def prefixOf (b : Block n) (len : Nat) : Bytes := b.val.take len

theorem length_prefixOf (b : Block n) {len : Nat} (h : len ≤ n) :
  (b.prefixOf len).length = len
  := by
  rw [prefixOf, List.length_take, b.property, Nat.min_eq_left h]

/-- Where there are enough bytes, nothing is filled up. -/
theorem val_ofBytes {bs : Bytes} (h : n ≤ bs.length) :
  (ofBytes n bs).val = bs.take n
  := List.take_append_of_le_length h

/-- Where there are not, zeros are. -/
theorem val_ofBytes_of_le {bs : Bytes} (h : bs.length ≤ n) :
  (ofBytes n bs).val = bs ++ List.replicate (n - bs.length) 0
  := by
  change (bs ++ List.replicate n 0).take n = _
  rw [List.take_append, List.take_of_length_le h, List.take_replicate, Nat.min_eq_left (Nat.sub_le _ _)]

/-- A block is that of its first bytes. -/
theorem ofBytes_take (bs : Bytes) :
  ofBytes n (bs.take n) = ofBytes n bs
  := by
  apply Subtype.ext
  change (bs.take n ++ List.replicate n 0).take n = (bs ++ List.replicate n 0).take n
  simp only [List.take_append, List.length_take, List.take_take, List.take_replicate, Nat.min_self]
  congr 2
  omega

theorem getD_ofBytes {bs : Bytes} {j : Nat} (hj : j < n) :
  (ofBytes n bs).val.getD j 0 = bs.getD j 0
  := by
  simp only [ofBytes, List.getD_eq_getElem?_getD, List.getElem?_take_of_lt hj, List.getElem?_append,
    List.getElem?_replicate]
  split
  · rfl
  · rename_i h
    rw [List.getElem?_eq_none (Nat.le_of_not_lt h)]
    split <;> rfl

/-! ### The blocks of a byte string -/

/-- The number of blocks that a byte string fills at least in part. -/
def count (n len : Nat) : Nat :=
  len / n + if len % n > 0 then 1 else 0

/-- The blocks of a byte string, the last one filled up with zeros. -/
def blocksOf (n : Nat) (bs : Bytes) : List (Block n) :=
  (List.range (count n bs.length)).map fun i => ofBytes n (bs.drop (i * n))

/-- The full blocks of a byte string, and the partial one at its end. -/
theorem blocksOf_eq (n : Nat) (bs : Bytes) :
  blocksOf n bs = (List.range (bs.length / n)).map (fun i => ofBytes n (bs.drop (i * n)))
    ++ if bs.length % n > 0 then [ofBytes n (bs.drop (bs.length / n * n))] else []
  := by
  unfold blocksOf count
  split
  · rw [List.range_succ, List.map_append, List.map_singleton]
  · rw [Nat.add_zero, List.append_nil]

theorem lt_count {len k : Nat} (hn : 0 < n) (hk : k < len) :
  k / n < count n len
  := by
  unfold count
  have hlen := Nat.div_add_mod len n
  have hle : k / n ≤ len / n := Nat.div_le_div_right (Nat.le_of_lt hk)
  split
  · omega
  · rename_i hmod
    rw [Nat.div_lt_iff_lt_mul hn, Nat.add_zero, Nat.mul_comm]
    omega

theorem getElem?_blocksOf {bs : Bytes} {i : Nat} {b : Block n} (h : (blocksOf n bs)[i]? = some b) :
  b = ofBytes n (bs.drop (i * n))
  := by
  simp only [blocksOf, List.getElem?_map, Option.map_eq_some_iff] at h
  obtain ⟨i', hi, rfl⟩ := h
  rw [(List.getElem?_eq_some_iff.mp hi).2.symm, List.getElem_range]

/-- The bytes of a byte string whose blocks start those of another one are the bytes of the
other one, filled up with zeros. -/
theorem getD_of_blocksOf_prefix {a b : Bytes} (hn : 0 < n) (h : blocksOf n a <+: blocksOf n b) {k : Nat}
    (hk : k < a.length) :
  a.getD k 0 = b.getD k 0
  := by
  have hi : k / n < (blocksOf n a).length := by
    rw [blocksOf, List.length_map, List.length_range]
    apply lt_count hn hk
  have hj : k % n < n := Nat.mod_lt k hn
  have ha := getElem?_blocksOf (List.getElem?_eq_getElem hi)
  have hb := getElem?_blocksOf (List.prefix_iff_getElem?.mp h (k / n) hi)
  have hdrop (bs : Bytes) : (bs.drop (k / n * n)).getD (k % n) 0 = bs.getD k 0 := by
    rw [List.getD_eq_getElem?_getD, List.getElem?_drop, Nat.div_add_mod' k n, List.getD_eq_getElem?_getD]
  rw [← hdrop a, ← hdrop b, ← getD_ofBytes hj, ← ha, hb, getD_ofBytes hj]

/-- Byte strings of which each byte of the first one is that of the second one, as far as there
is one, are prefixes of each other in one order or the other. -/
theorem prefix_or_prefix_of_getD {a b : Bytes} (h : ∀ k < a.length, a.getD k 0 = b.getD k 0) :
  a <+: b ∨ b <+: a
  := by
  have agree : ∀ k, k < a.length → k < b.length → a[k]? = b[k]? := by
    intro k ha hb
    have := h k ha
    simp only [List.getD_eq_getElem?_getD, List.getElem?_eq_getElem ha, List.getElem?_eq_getElem hb,
      Option.getD_some] at this
    rw [List.getElem?_eq_getElem ha, List.getElem?_eq_getElem hb, this]
  rcases Nat.le_total a.length b.length with hle | hle
  · left
    rw [List.prefix_iff_getElem?]
    intro k hk
    rw [← agree k hk (by omega), List.getElem?_eq_getElem hk]
  · right
    rw [List.prefix_iff_getElem?]
    intro k hk
    rw [agree k (by omega) hk, List.getElem?_eq_getElem hk]

/-- Where the blocks of a byte string start those of another one, one of the byte strings is a
prefix of the other. -/
theorem prefix_or_prefix_of_blocksOf {a b : Bytes} (hn : 0 < n) (h : blocksOf n a <+: blocksOf n b) :
  a <+: b ∨ b <+: a
  := by
  apply prefix_or_prefix_of_getD
  intro k hk
  apply getD_of_blocksOf_prefix hn h hk

/-! ### Padding -/

/-- A byte string, filled up with zeros to a whole number of blocks. -/
def zeroPadded (n : Nat) (bs : Bytes) : Bytes := bs ++ List.replicate ((n - bs.length % n) % n) 0

theorem flatMap_fullBlocks {bs : Bytes} {k : Nat} (hk : k * n ≤ bs.length) :
  ((List.range k).map fun i => ofBytes n (bs.drop (i * n))).flatMap (·.val) = bs.take (k * n)
  := by
  induction k with
  | zero => rw [Nat.zero_mul, List.take_zero]; rfl
  | succ k ih =>
      rw [Nat.succ_mul] at hk ⊢
      rw [List.range_succ, List.map_append, List.flatMap_append, ih (by omega), List.map_singleton,
        List.flatMap_singleton, val_ofBytes (by rw [List.length_drop]; omega), List.take_add]

/-- The blocks of a byte string are those of it with zeros at the end. -/
theorem flatMap_blocksOf (hn : 0 < n) (bs : Bytes) :
  (blocksOf n bs).flatMap (·.val) = zeroPadded n bs
  := by
  have hfull : bs.length / n * n ≤ bs.length := Nat.div_mul_le_self _ _
  have hlen := Nat.div_add_mod' bs.length n
  have hmod : bs.length % n < n := Nat.mod_lt _ hn
  rw [blocksOf_eq, List.flatMap_append, flatMap_fullBlocks hfull, zeroPadded]
  split
  · rename_i hpart
    have hdrop : (bs.drop (bs.length / n * n)).length = bs.length % n := by
      rw [List.length_drop]
      omega
    rw [List.flatMap_singleton, val_ofBytes_of_le (by omega), hdrop, ← List.append_assoc, List.take_append_drop,
      Nat.mod_eq_of_lt (show n - bs.length % n < n by omega)]
  · have hzero : bs.length % n = 0 := by omega
    rw [hzero, Nat.sub_zero, Nat.mod_self, List.replicate_zero, List.flatMap_nil, List.take_of_length_le (by omega)]

/-! ### Cipher block chaining -/

/-- The exclusive or of two blocks. -/
def xor (a b : Block n) : Block n :=
  ⟨List.zipWith (· ^^^ ·) a.val b.val, by rw [List.length_zipWith, a.property, b.property, Nat.min_self]⟩

/-- The encryption of a sequence of blocks in CBC mode. -/
def cbcEncrypt (cipher : Block n → Block n) (iv : Block n) : List (Block n) → List (Block n)
  | [] => []
  | b :: bs => cipher (iv.xor b) :: cbcEncrypt cipher (cipher (iv.xor b)) bs

/-- The last block of an encryption is what the blocks before it have been chained to. -/
theorem getLastD_cbcEncrypt (cipher : Block n → Block n) (iv : Block n) (bs : List (Block n)) :
  (cbcEncrypt cipher iv bs).getLastD iv = bs.foldl (fun c b => cipher (c.xor b)) iv
  := by
  induction bs generalizing iv with
  | nil => rfl
  | cons b bs ih => rw [cbcEncrypt, List.getLastD_cons, ih, List.foldl_cons]

end Block
