import WolfCose.Mac.CbcMac
import WolfCose.Lib.Reads

/-!
# AES-CBC-MAC as CBC encryption

`wolfCose_AesCbcMac` sets the key and the initialization vector anew for every block.  On data in
memory this is the encryption in CBC mode with the zero block as initialization vector, of the data
filled up with zeros, and nothing beyond the data is read.
-/

namespace WolfCose

open Program Cbor MacCrypt

section

variable [MacCrypt]

/-! ### The loop over memory -/

/-- The turns of the loop of `wolfCose_AesCbcMac`, where the cipher reads a block of the data. -/
def cbcMacFullAt (key : Bytes) (data : Nat → UInt8) (s : Aes × Block 16) (i : Nat) : Reading Fault (Aes × Block 16) := do
  let aes ← MonadExcept.ofExcept (orCrypto (aesSetKey s.1 key s.2))
  let inBlock ← readBytes data (i * 16) 16
  MonadExcept.ofExcept (orCrypto (aesCbcEncrypt aes (.ofBytes 16 inBlock)))

/-- The steps of `wolfCose_AesCbcMac` for a partial block at the end, which is copied first. -/
def cbcMacPartialAt (key : Bytes) (data : Nat → UInt8) (dataLen : Nat) (s : Aes × Block 16) :
    Reading Fault (Aes × Block 16) :=
  if dataLen % 16 > 0 then do
    let inBlock ← readBytes data (dataLen / 16 * 16) (dataLen % 16)
    let aes ← MonadExcept.ofExcept (orCrypto (aesSetKey s.1 key s.2))
    MonadExcept.ofExcept (orCrypto (aesCbcEncrypt aes (.ofBytes 16 inBlock)))
  else pure s

/-- The key as `wolfCose_AesCbcMac` hands it on. -/
def keyBytes (key : Pointer) : Bytes := key.bytes.take (key.len % 2 ^ 32)

/-- `wolfCose_AesCbcMac` on data in memory. -/
def aesCbcMacAt (key : Pointer) (data : Option (Nat → UInt8)) (dataLen : Nat) (hasTag : Bool) (tagLen : Nat) :
    Reading Fault Bytes := do
  failIf (key.isNull = true ∨ hasTag = false ∨ tagLen > 16 ∨ (data.isNone = true ∧ dataLen > 0)) (.err .invalidArg)
  let memory := data.getD fun _ => 0
  let aes ← MonadExcept.ofExcept (orCrypto aesInit)
  let s ← (List.range (dataLen / 16)).foldlM (cbcMacFullAt (keyBytes key) memory) (aes, .zero 16)
  let (_, outBlock) ← cbcMacPartialAt (keyBytes key) memory dataLen s
  return outBlock.prefixOf tagLen

/-! ### What is read and what is encrypted -/

omit [MacCrypt] in
theorem orCrypto_bind {α β : Type} (x : Option α) (f : α → Option β) :
  (orCrypto x >>= fun a => orCrypto (f a)) = orCrypto (x.bind f)
  := by cases x <;> rfl

variable {key : Bytes} {data : Nat → UInt8} {dataLen : Nat} {s : Aes × Block 16}

theorem readsBelow_cbcMacFullAt {i : Nat} (hi : i * 16 + 16 ≤ dataLen) :
  ReadsBelow dataLen (cbcMacFullAt key data s i)
    (orCrypto (cbcStep key s (.ofBytes 16 ((bytesFrom data dataLen 0).drop (i * 16)))))
  := by
  rw [← Block.ofBytes_take, drop_bytesFrom, Nat.zero_add, take_bytesFrom hi, cbcStep, ← orCrypto_bind]
  apply ReadsBelow.bind (.ofExcept _)
  intro aes _
  exact .bindOk (.readBytes hi) (.ofExcept _)

theorem readsBelow_cbcMacPartialAt :
  ReadsBelow dataLen (cbcMacPartialAt key data dataLen s)
    (orCrypto (cbcChain key s
      (if dataLen % 16 > 0 then [.ofBytes 16 ((bytesFrom data dataLen 0).drop (dataLen / 16 * 16))] else [])))
  := by
  have hdiv := Nat.div_add_mod' dataLen 16
  unfold cbcMacPartialAt
  split
  · rw [cbcChain_singleton, drop_bytesFrom, Nat.zero_add, cbcStep, ← orCrypto_bind, bytesFrom,
      show dataLen - dataLen / 16 * 16 = dataLen % 16 by omega]
    have hread : dataLen / 16 * 16 + dataLen % 16 ≤ dataLen := by omega
    exact .bindOk (.readBytes hread) (.bind (.ofExcept _) fun _ _ => .ofExcept _)
  · exact .pure s

/-- The loop over the full blocks encrypts one after the other. -/
theorem readsBelow_fullBlocks {is : List Nat} (hi : ∀ i ∈ is, i * 16 + 16 ≤ dataLen) :
  ReadsBelow dataLen (is.foldlM (cbcMacFullAt key data) s)
    (orCrypto (cbcChain key s (is.map fun i => .ofBytes 16 ((bytesFrom data dataLen 0).drop (i * 16)))))
  := by
  induction is generalizing s with
  | nil => exact .pure s
  | cons i is ih =>
      obtain ⟨hi, his⟩ := List.forall_mem_cons.mp hi
      rw [List.foldlM_cons, List.map_cons, cbcChain, List.foldlM_cons, Option.bind_eq_bind, ← orCrypto_bind]
      exact .bind (readsBelow_cbcMacFullAt hi) fun _ _ => ih his

/-- The steps that the chain of blocks is computed in. -/
theorem orCrypto_cbcMacOf (key : Bytes) (bs bs' : List (Block 16)) (tagLen : Nat) :
  (do
    let aes ← orCrypto aesInit
    let s ← orCrypto (cbcChain key (aes, .zero 16) bs)
    let r ← orCrypto (cbcChain key s bs')
    Except.ok (r.2.prefixOf tagLen))
    = orCrypto ((aesInit.bind fun aes => (cbcChain key (aes, .zero 16) (bs ++ bs')).map (·.2)).map (·.prefixOf tagLen))
  := by
  simp only [cbcChain_append]
  cases aesInit with
  | none => rfl
  | some aes =>
      cases h : cbcChain key (aes, .zero 16) bs with
      | none => simp [h, orCrypto, Bind.bind, Except.bind]
      | some s => cases h' : cbcChain key s bs' <;> simp [h, h', orCrypto, Bind.bind, Except.bind]

/-- The result is the start of what the chain of blocks ends with. -/
theorem readsBelow_aesCbcMacAt (key : Pointer) (data : Option (Nat → UInt8)) (dataLen : Nat) (hasTag : Bool)
    (tagLen : Nat) :
  ReadsBelow dataLen (aesCbcMacAt key data dataLen hasTag tagLen)
    (if key.isNull = true ∨ hasTag = false ∨ tagLen > 16 ∨ (data.isNone = true ∧ dataLen > 0) then
      .error (.err .invalidArg)
    else
      orCrypto ((cbcMacOf (keyBytes key) (bytesFrom (data.getD fun _ => 0) dataLen 0)).map (·.prefixOf tagLen)))
  := by
  have hdiv := Nat.div_mul_le_self dataLen 16
  have hrange : ∀ i ∈ List.range (dataLen / 16), i * 16 + 16 ≤ dataLen := by
    intro i hi
    rw [List.mem_range] at hi
    omega
  unfold aesCbcMacAt failIf
  split
  · apply ReadsBelow.bind (g := fun _ => .error (.err .invalidArg)) (.ofExcept (.error _))
    rintro _ ⟨⟩
  rw [cbcMacOf, Block.blocksOf_eq, length_bytesFrom, Nat.sub_zero, ← orCrypto_cbcMacOf]
  apply ReadsBelow.bindOk (.pure ())
  apply ReadsBelow.bind (.ofExcept _)
  intro aes _
  apply ReadsBelow.bind (readsBelow_fullBlocks hrange)
  intro s _
  exact .bind readsBelow_cbcMacPartialAt fun r _ => .pure _

/-- On data in memory, the function computes what it computes of the bytes. -/
theorem runs_aesCbcMacAt {key : Pointer} {data : Nat → UInt8} {dataLen : Nat} {hasTag : Bool} {tagLen : Nat}
    {tag : Bytes} :
  (∃ reads, Runs (aesCbcMacAt key (some data) dataLen hasTag tagLen) [] tag reads)
    ↔ ∃ fed, Runs (aesCbcMac key (.mem (bytesFrom data dataLen 0)) hasTag tagLen) [] tag fed
  := by
  have hvalid : (Pointer.mem (bytesFrom data dataLen 0)).Valid := Pointer.valid_mem _
  rw [(readsBelow_aesCbcMacAt key (some data) dataLen hasTag tagLen).runs_iff]
  simp only [runs_aesCbcMac, hvalid, and_true, exists_and_left, exists_eq, Option.isNone_some, Bool.false_eq_true,
    false_and, or_false, Option.getD_some, Pointer.bytes]
  split
  · rename_i hbad
    simp only [reduceCtorEq, false_iff]
    rintro ⟨⟨hkey, rfl, htag⟩, -⟩
    rcases hbad with hnull | ⟨⟨⟩⟩ | hlong
    · rw [hkey] at hnull
      cases hnull
    · omega
  · rename_i hgood
    simp only [not_or, Bool.not_eq_true, Bool.not_eq_false, Nat.not_lt] at hgood
    rw [orCrypto_eq_ok, Option.map_eq_some_iff]
    exact (and_iff_right hgood).symm

/-! ### The reference -/

/-- The block function: what the cipher makes of a block is this function of the key and of the block
with the initialization vector. -/
def EncryptsBy (cipher : Bytes → Block 16 → Block 16) : Prop :=
  ∀ aes key iv aes' inBlock r, aesSetKey aes key iv = some aes' → aesCbcEncrypt aes' inBlock = some r →
    r.2 = cipher key (iv.xor inBlock)

/-- No call of the cipher fails with a key. -/
structure CipherSucceeds (key : Bytes) : Prop where
  init : (aesInit : Option Aes).isSome = true
  step : ∀ s inBlock, (cbcStep key s inBlock).isSome = true

/-- The blocks are chained as in CBC mode. -/
theorem cbcChain_eq {cipher : Bytes → Block 16 → Block 16} (hcipher : EncryptsBy cipher) {key : Bytes}
    {s r : Aes × Block 16} {bs : List (Block 16)} (h : cbcChain key s bs = some r) :
  r.2 = (Block.cbcEncrypt (cipher key) s.2 bs).getLastD s.2
  := by
  rw [Block.getLastD_cbcEncrypt]
  induction bs generalizing s with
  | nil =>
      obtain rfl := Option.some.inj h
      rfl
  | cons b bs ih =>
      rw [cbcChain, List.foldlM_cons, Option.bind_eq_bind, Option.bind_eq_some_iff] at h
      obtain ⟨s', hs', h⟩ := h
      obtain ⟨aes', hset, hencrypt⟩ := Option.bind_eq_some_iff.mp hs'
      rw [ih h, List.foldl_cons, hcipher _ _ _ _ _ _ hset hencrypt]

theorem cbcChain_isSome {key : Bytes} (hsucceeds : CipherSucceeds key) (s : Aes × Block 16) (bs : List (Block 16)) :
  ∃ r, cbcChain key s bs = some r
  := by
  induction bs generalizing s with
  | nil => exact ⟨s, rfl⟩
  | cons b bs ih =>
      obtain ⟨s', hs'⟩ := Option.isSome_iff_exists.mp (hsucceeds.step s b)
      obtain ⟨r, hr⟩ := ih s'
      refine ⟨r, ?_⟩
      rw [cbcChain, List.foldlM_cons, hs']
      exact hr

/-- `wolfCose_AesCbcMac` computes the CBC-MAC of the data: the start of the last block of the
encryption in CBC mode of the data filled up with zeros, and of the zero block for no data.  It reads
no byte beyond the data, and computes what it computes of their bytes. -/
theorem aesCbcMacAt_reference {cipher : Bytes → Block 16 → Block 16} (hcipher : EncryptsBy cipher) {key : Pointer}
    (hkey : key.isNull = false) {data : Option (Nat → UInt8)} {dataLen : Nat} (hdata : data = none → dataLen = 0)
    {tagLen : Nat} (htag : tagLen ≤ 16) :
  ∃ x reads blocks, aesCbcMacAt key data dataLen true tagLen [] = endsWith x reads ∧ (∀ j ∈ reads, j < dataLen)
    ∧ blocks.flatMap (·.val) = Block.zeroPadded 16 (bytesFrom (data.getD fun _ => 0) dataLen 0)
    ∧ (∀ tag, x = .ok tag →
      tag = ((Block.cbcEncrypt (cipher (keyBytes key)) (.zero 16) blocks).getLastD (.zero 16)).prefixOf tagLen)
    ∧ (CipherSucceeds (keyBytes key) → ∃ tag, x = .ok tag)
    ∧ ∀ memory, data = some memory → ∀ tag, (∃ reads, Runs (aesCbcMacAt key data dataLen true tagLen) [] tag reads)
      ↔ ∃ fed, Runs (aesCbcMac key (.mem (bytesFrom memory dataLen 0)) true tagLen) [] tag fed
  := by
  obtain ⟨reads, hrun, hreads⟩ := readsBelow_aesCbcMacAt key data dataLen true tagLen []
  have hargs : ¬ (key.isNull = true ∨ true = false ∨ tagLen > 16 ∨ (data.isNone = true ∧ dataLen > 0)) := by
    rintro (hnull | ⟨⟨⟩⟩ | hlong | ⟨hnone, hpos⟩)
    · rw [hkey] at hnull
      cases hnull
    · omega
    · have := hdata (Option.isNone_iff_eq_none.mp hnone)
      omega
  rw [if_neg hargs] at hrun
  refine ⟨_, _, Block.blocksOf 16 (bytesFrom (data.getD fun _ => 0) dataLen 0), hrun, hreads,
    Block.flatMap_blocksOf (by decide) _, ?_, ?_, ?_⟩
  · intro tag h
    rw [orCrypto_eq_ok, Option.map_eq_some_iff] at h
    obtain ⟨outBlock, hout, rfl⟩ := h
    obtain ⟨aes, -, hchain⟩ := Option.bind_eq_some_iff.mp hout
    obtain ⟨r, hr, rfl⟩ := Option.map_eq_some_iff.mp hchain
    rw [cbcChain_eq hcipher hr]
  · intro hsucceeds
    obtain ⟨aes, haes⟩ := Option.isSome_iff_exists.mp hsucceeds.init
    obtain ⟨r, hr⟩ := cbcChain_isSome hsucceeds (aes, .zero 16)
      (Block.blocksOf 16 (bytesFrom (data.getD fun _ => 0) dataLen 0))
    refine ⟨r.2.prefixOf tagLen, ?_⟩
    rw [cbcMacOf, haes, Option.bind_some, hr]
    rfl
  · rintro memory rfl tag
    exact runs_aesCbcMacAt

end

section Instances

/-- What AES makes of two blocks with a key. -/
def aesBlockTable : List ((Bytes × Bytes) × Block 16) :=
  [((aes128Key, [0x10, 0x11, 0x12, 0x13, 0x14, 0x15, 0x16, 0x17, 0x18, 0x19, 0x1A, 0x1B, 0x1C, 0x1D, 0x1E, 0x1F]),
      ⟨[0x07, 0xFE, 0xEF, 0x74, 0xE1, 0xD5, 0x03, 0x6E, 0x90, 0x0E, 0xEE, 0x11, 0x8E, 0x94, 0x92, 0x93], rfl⟩),
    ((aes128Key, [0x06, 0xFE, 0xEF, 0x74, 0xE1, 0xD5, 0x03, 0x6E, 0x90, 0x0E, 0xEE, 0x11, 0x8E, 0x94, 0x92, 0x93]),
      ⟨[0x68, 0x7E, 0x7C, 0x74, 0x0F, 0x30, 0x54, 0x90, 0x74, 0x63, 0xE6, 0x26, 0xCC, 0x74, 0xE0, 0xC4], rfl⟩)]

/-- The primitives as far as they are known from these blocks. -/
@[reducible]
def aesBlockCrypt : MacCrypt :=
  { aesTableCrypt [] with
    Aes := Bytes × Block 16
    aesInit := some ([], .zero 16)
    aesSetKey := fun _ key iv => some (key, iv)
    aesCbcEncrypt := fun aes inBlock =>
      (aesBlockTable.lookup (aes.1, (aes.2.xor inBlock).val)).map fun outBlock => (aes, outBlock) }

attribute [local instance] aesBlockCrypt

/-- The block function, as far as it is known. -/
def aesBlockCipher (key : Bytes) (block : Block 16) : Block 16 :=
  (aesBlockTable.lookup (key, block.val)).getD (.zero 16)

theorem encryptsBy_aesBlockCipher :
  EncryptsBy aesBlockCipher
  := by
  intro aes key iv aes' inBlock r hset hencrypt
  obtain rfl := Option.some.inj hset
  obtain ⟨outBlock, hlookup, rfl⟩ := Option.map_eq_some_iff.mp hencrypt
  rw [aesBlockCipher, hlookup, Option.getD_some]

/-- Seventeen bytes, the last of which is a partial block, and other bytes behind them. -/
def cbcMemory (i : Nat) : UInt8 := if i < 16 then 0x10 + UInt8.ofNat i else 0x01

theorem aesCbcMacAt_reference_instance :
  ∃ reads blocks, aesCbcMacAt (.mem aes128Key) (some cbcMemory) 17 true 8 []
      = endsWith (.ok [0x68, 0x7E, 0x7C, 0x74, 0x0F, 0x30, 0x54, 0x90]) reads
    ∧ (∀ j ∈ reads, j < 17) ∧ blocks.flatMap (·.val) = Block.zeroPadded 16 (bytesFrom cbcMemory 17 0)
    ∧ [0x68, 0x7E, 0x7C, 0x74, 0x0F, 0x30, 0x54, 0x90]
      = ((Block.cbcEncrypt (aesBlockCipher aes128Key) (.zero 16) blocks).getLastD (.zero 16)).prefixOf 8
  := by
  obtain ⟨x, reads, blocks, hrun, hreads, hblocks, htag, -, -⟩ :=
    @aesCbcMacAt_reference _ _ encryptsBy_aesBlockCipher (.mem aes128Key) rfl (some cbcMemory) 17 (by rintro ⟨⟩) 8
      (by decide)
  have hvalue : (aesCbcMacAt (.mem aes128Key) (some cbcMemory) 17 true 8).run' []
      = some [0x68, 0x7E, 0x7C, 0x74, 0x0F, 0x30, 0x54, 0x90] := by decide +kernel
  delta EStateM.run' EStateM.run at hvalue
  rw [hrun] at hvalue
  cases x with
  | error fault => cases hvalue
  | ok tag =>
      obtain rfl := Option.some.inj hvalue
      exact ⟨reads, blocks, hrun, hreads, hblocks, htag _ rfl⟩

end Instances

end WolfCose
