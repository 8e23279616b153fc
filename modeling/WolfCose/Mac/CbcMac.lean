import WolfCose.Lib.Blocks
import WolfCose.Sig.Verify
import WolfCose.Struct

/-!
# AES-CBC-MAC

`wolfCose_AesCbcMac` of `wolfcose_mac0.c`, and the MAC_structures it is used for.  A CBC-MAC is
unforgeable only if no sequence of blocks that it is computed of starts another one.  The blocks
of a byte string, the last one filled up with zeros, do not determine it, but those of a
MAC_structure do: where a structure ends is determined by where it starts.
-/

namespace WolfCose

open Program Cbor Settings

/-! ### Primitives -/

/-- The symmetric primitives of wolfCrypt that the MAC functions use.  A function that reports
errors returns nothing then. -/
class MacCrypt where
  /-- A context `Hmac`. -/
  Hmac : Type
  /-- `wc_HmacInit` -/
  hmacInit : Option Hmac
  /-- `wc_HmacSetKey` -/
  hmacSetKey : Hmac → HashType → Pointer → Option Hmac
  /-- `wc_HmacUpdate` -/
  hmacUpdate : Hmac → Bytes → Option Hmac
  /-- `wc_HmacFinal` -/
  hmacFinal : Hmac → Option Bytes
  /-- A context `Aes`. -/
  Aes : Type
  /-- `wc_AesInit` -/
  aesInit : Option Aes
  /-- `wc_AesSetKey` for encryption with a key and an initialization vector. -/
  aesSetKey : Aes → Bytes → Block 16 → Option Aes
  /-- `wc_AesCbcEncrypt` of one block. -/
  aesCbcEncrypt : Aes → Block 16 → Option (Aes × Block 16)

/-- The primitives as far as they are known from a table of what AES-CBC makes of a key, an
initialization vector and a block.  The examples of this development use such tables. -/
@[reducible]
def aesTableCrypt (table : List ((Bytes × Bytes × Bytes) × Block 16)) : MacCrypt where
  Hmac := Unit
  hmacInit := none
  hmacSetKey _ _ _ := none
  hmacUpdate _ _ := none
  hmacFinal _ := none
  Aes := Bytes × Block 16
  aesInit := some ([], .zero 16)
  aesSetKey _ key iv := some (key, iv)
  aesCbcEncrypt aes inBlock :=
    (table.lookup (aes.1, aes.2.val, inBlock.val)).map fun outBlock => (aes, outBlock)

open MacCrypt

/-! ### Computing an AES-CBC-MAC -/

section

variable [MacCrypt]

/-- A function that encrypts blocks; its state is the list of the blocks that it has given to
the cipher. -/
abbrev Encrypting (α : Type) := EStateM Fault (List (Block 16)) α

/-- The steps of `wolfCose_AesCbcMac` for one block: the key and the initialization vector are
set, and the block is encrypted. -/
def cbcMacBlock (key : Bytes) (s : Aes × Block 16) (inBlock : Block 16) : Encrypting (Aes × Block 16) := do
  let aes ← MonadExcept.ofExcept (orCrypto (aesSetKey s.1 key s.2))
  modify (· ++ [inBlock])
  MonadExcept.ofExcept (orCrypto (aesCbcEncrypt aes inBlock))

/-- The steps of `wolfCose_AesCbcMac` for a partial block at the end, the only block that is
filled up. -/
def cbcMacPartial (key : Bytes) (data : Pointer) (s : Aes × Block 16) : Encrypting (Aes × Block 16) :=
  if data.len % 16 > 0 then
    cbcMacBlock key s (.ofBytes 16 (data.bytes.drop (data.len / 16 * 16)))
  else pure s

/-- `wolfCose_AesCbcMac`; the result is what it copies to the buffer for the tag, if there is
one. -/
def aesCbcMac (key data : Pointer) (hasTag : Bool) (tagLen : Nat) : Encrypting Bytes := do
  failIf (key.isNull = true ∨ hasTag = false ∨ tagLen > 16 ∨ ¬ data.Valid) (.err .invalidArg)
  let aes ← MonadExcept.ofExcept (orCrypto aesInit)
  let keyBytes := key.bytes.take (key.len % 2 ^ 32)
  let s ← (List.range (data.len / 16)).foldlM
    (fun s i => cbcMacBlock keyBytes s (.ofBytes 16 (data.bytes.drop (i * 16)))) (aes, .zero 16)
  let (_, outBlock) ← cbcMacPartial keyBytes data s
  return outBlock.prefixOf tagLen

/-- The encryption of one block, with the block of a state as initialization vector. -/
def cbcStep (key : Bytes) (s : Aes × Block 16) (inBlock : Block 16) : Option (Aes × Block 16) :=
  (aesSetKey s.1 key s.2).bind (aesCbcEncrypt · inBlock)

/-- The encryption of a sequence of blocks by AES in CBC mode, where the result for a block is
the initialization vector for the next one. -/
def cbcChain (key : Bytes) (s : Aes × Block 16) (blocks : List (Block 16)) : Option (Aes × Block 16) :=
  blocks.foldlM (cbcStep key) s

/-- The last block of the encryption of a byte string, filled up with zeros, with the zero block
as initialization vector. -/
def cbcMacOf (key : Bytes) (data : Bytes) : Option (Block 16) :=
  aesInit.bind fun aes => (cbcChain key (aes, .zero 16) (Block.blocksOf 16 data)).map (·.2)

theorem cbcChain_append (key : Bytes) (s : Aes × Block 16) (bs bs' : List (Block 16)) :
  cbcChain key s (bs ++ bs') = (cbcChain key s bs).bind (cbcChain key · bs')
  := List.foldlM_append

theorem cbcChain_singleton (key : Bytes) (s : Aes × Block 16) (inBlock : Block 16) :
  cbcChain key s [inBlock] = cbcStep key s inBlock
  := by
  rw [cbcChain, List.foldlM_cons, Option.bind_eq_bind]
  exact Option.bind_fun_some _

theorem runs_cbcMacBlock {key : Bytes} {s r : Aes × Block 16} {inBlock : Block 16} {fed fed' : List (Block 16)} :
  Runs (cbcMacBlock key s inBlock) fed r fed' ↔ cbcStep key s inBlock = some r ∧ fed' = fed ++ [inBlock]
  := by
  simp only [cbcMacBlock, runs_bind, runs_ofExcept, runs_modify, orCrypto_eq_ok, cbcStep,
    Option.bind_eq_some_iff]
  constructor
  · rintro ⟨aes, _, ⟨haes, rfl⟩, _, _, rfl, hr, rfl⟩
    exact ⟨⟨aes, haes, hr⟩, rfl⟩
  · rintro ⟨⟨aes, haes, hr⟩, rfl⟩
    exact ⟨aes, fed, ⟨haes, rfl⟩, ⟨⟩, _, rfl, hr, rfl⟩

/-- A loop over blocks gives them to the cipher one after another. -/
theorem runs_foldlM_cbcMacBlock {key : Bytes} {block : Nat → Block 16} {is : List Nat} {s r : Aes × Block 16}
    {fed fed' : List (Block 16)} :
  Runs (is.foldlM (fun s i => cbcMacBlock key s (block i)) s) fed r fed'
    ↔ cbcChain key s (is.map block) = some r ∧ fed' = fed ++ is.map block
  := by
  induction is generalizing s fed with
  | nil =>
      rw [List.foldlM_nil, runs_pure, List.map_nil, List.append_nil, cbcChain, List.foldlM_nil]
      constructor
      · rintro ⟨rfl, rfl⟩
        exact ⟨rfl, rfl⟩
      · rintro ⟨h, rfl⟩
        exact ⟨Option.some.inj h, rfl⟩
  | cons i is ih =>
      simp only [List.foldlM_cons, runs_bind, runs_cbcMacBlock, ih, cbcChain, List.map_cons,
        Option.bind_eq_bind, Option.bind_eq_some_iff]
      constructor
      · rintro ⟨s', _, ⟨hs', rfl⟩, hr, rfl⟩
        exact ⟨⟨s', hs', hr⟩, (List.append_cons _ _ _).symm⟩
      · rintro ⟨⟨s', hs', hr⟩, rfl⟩
        exact ⟨s', _, ⟨hs', rfl⟩, hr, List.append_cons _ _ _⟩

theorem runs_cbcMacPartial {key : Bytes} {data : Pointer} {s r : Aes × Block 16} {fed fed' : List (Block 16)} :
  Runs (cbcMacPartial key data s) fed r fed'
    ↔ cbcChain key s (if data.len % 16 > 0 then [.ofBytes 16 (data.bytes.drop (data.len / 16 * 16))] else [])
        = some r
      ∧ fed' = fed ++ if data.len % 16 > 0 then [.ofBytes 16 (data.bytes.drop (data.len / 16 * 16))] else []
  := by
  unfold cbcMacPartial
  split
  · rw [runs_cbcMacBlock, cbcChain_singleton]
  · rw [runs_pure, List.append_nil, cbcChain, List.foldlM_nil]
    constructor
    · rintro ⟨rfl, rfl⟩
      exact ⟨rfl, rfl⟩
    · rintro ⟨h, rfl⟩
      exact ⟨Option.some.inj h, rfl⟩

/-- The result is the start of the last block of the encryption of the data, and the blocks that
are given to the cipher are those of the data. -/
theorem runs_aesCbcMac {key data : Pointer} {hasTag : Bool} {tagLen : Nat} {t : Bytes}
    {fed fed' : List (Block 16)} :
  Runs (aesCbcMac key data hasTag tagLen) fed t fed'
    ↔ (key.isNull = false ∧ hasTag = true ∧ tagLen ≤ 16 ∧ data.Valid)
      ∧ (∃ outBlock, cbcMacOf (key.bytes.take (key.len % 2 ^ 32)) data.bytes = some outBlock
        ∧ outBlock.prefixOf tagLen = t)
      ∧ fed' = fed ++ Block.blocksOf 16 data.bytes
  := by
  have hargs : ¬ (key.isNull = true ∨ hasTag = false ∨ tagLen > 16 ∨ ¬ data.Valid)
      ↔ key.isNull = false ∧ hasTag = true ∧ tagLen ≤ 16 ∧ data.Valid := by
    simp only [not_or, Bool.not_eq_true, Bool.not_eq_false, Nat.not_lt, Decidable.not_not]
  simp only [aesCbcMac, runs_bind, runs_failIf, runs_ofExcept, runs_pure, orCrypto_eq_ok,
    runs_foldlM_cbcMacBlock, runs_cbcMacPartial, hargs, cbcMacOf, Option.bind_eq_some_iff,
    Option.map_eq_some_iff, Block.blocksOf_eq, cbcChain_append]
  constructor
  · rintro ⟨_, _, ⟨hvalid, rfl⟩, aes, _, ⟨haes, rfl⟩, s, _, ⟨hloop, rfl⟩, r, _, ⟨hpart, rfl⟩, rfl, rfl⟩
    rw [hvalid.2.2.2.len_eq] at hloop hpart ⊢
    exact ⟨hvalid, ⟨r.2, ⟨aes, haes, r, ⟨s, hloop, hpart⟩, rfl⟩, rfl⟩, List.append_assoc _ _ _⟩
  · rintro ⟨hvalid, ⟨_, ⟨aes, haes, r, ⟨s, hloop, hpart⟩, rfl⟩, rfl⟩, rfl⟩
    rw [hvalid.2.2.2.len_eq]
    exact ⟨⟨⟩, fed, ⟨hvalid, rfl⟩, aes, fed, ⟨haes, rfl⟩, s, _, ⟨hloop, rfl⟩, r, _, ⟨hpart, rfl⟩, rfl,
      List.append_assoc _ _ _⟩

end

section

variable [Settings] [MacCrypt]

/-! ### MAC_structures -/

/-- `wolfCose_BuildMacStructure` -/
def buildMacStructure (protectedHdr extAad payload : Pointer) (scratch : Option Buffer) :
    Except Err Bytes :=
  buildToBeSignedMaced (.mem ctxMac0) protectedHdr (.null 0) extAad payload scratch

/-- `wolfCose_BuildMacStructureMulti` -/
def buildMacStructureMulti (protectedHdr extAad payload : Pointer) (scratch : Option Buffer) :
    Except Err Bytes :=
  buildToBeSignedMaced (.mem ctxMac) protectedHdr (.null 0) extAad payload scratch

/-- The messages with a MAC: COSE_Mac0 and COSE_Mac. -/
inductive MacKind where
  | mac0
  | mac
  deriving DecidableEq, Repr

namespace MacKind

/-- The context of the MAC_structure. -/
def context : MacKind → Bytes
  | mac0 => ctxMac0
  | mac => ctxMac

/-- The function that builds the MAC_structure. -/
def build : MacKind → Pointer → Pointer → Pointer → Option Buffer → Except Err Bytes
  | mac0 => buildMacStructure
  | mac => buildMacStructureMulti

omit [Settings] [MacCrypt] in
theorem context_injective {kind kind' : MacKind} (h : kind.context = kind'.context) :
  kind = kind'
  := by
  cases kind <;> cases kind' <;> first | rfl | (revert h; decide)

end MacKind

/-- The structure that a MAC is computed of. -/
def macStructure (kind : MacKind) (protectedData extAad payload : Bytes) : AuthStructure :=
  .content kind.context protectedData none extAad payload none

omit [MacCrypt] in
theorem macKind_build_eq_ok {kind : MacKind} {protectedHdr extAad payload : Pointer}
    {scratch : Option Buffer} {bs : Bytes} :
  kind.build protectedHdr extAad payload scratch = .ok bs
    ↔ protectedHdr.Valid ∧ extAad.Valid ∧ payload.Valid
      ∧ (∃ buf, scratch = some buf ∧ bs.length ≤ buf.bytes.length)
      ∧ bs = (macStructure kind protectedHdr.bytes extAad.bytes payload.bytes).bytes
  := by
  have hutf8 : isUtf8 kind.context = true := by
    cases kind <;> apply isUtf8_ctx <;> decide
  have hbuild : kind.build protectedHdr extAad payload scratch
      = buildToBeSignedMaced (.mem kind.context) protectedHdr (.null 0) extAad payload scratch := by
    cases kind <;> rfl
  have hstruct : toBeSignedMaced (.mem kind.context) protectedHdr (.null 0) extAad payload
      = macStructure kind protectedHdr.bytes extAad.bytes payload.bytes := rfl
  rw [hbuild, buildToBeSignedMaced_eq_ok, hstruct]
  constructor
  · rintro ⟨-, -, h⟩
    exact h
  · intro h
    exact ⟨rfl, hutf8, h⟩

omit [MacCrypt] in
/-- A MAC_structure in a buffer is well formed. -/
theorem wellFormed_macStructure {kind : MacKind} {protectedHdr extAad payload : Pointer}
    {scratch : Option Buffer} {bs : Bytes} (h : kind.build protectedHdr extAad payload scratch = .ok bs) :
  (macStructure kind protectedHdr.bytes extAad.bytes payload.bytes).WellFormed
  := by
  obtain ⟨-, -, -, ⟨buf, -, hle⟩, rfl⟩ := macKind_build_eq_ok.mp h
  apply AuthStructure.wellFormed_of_length
  · have := buf.length_le
    have := sizeMax_lt
    omega
  · apply Nat.two_pow_pos

omit [Settings] [MacCrypt] in
/-- The blocks of one structure start those of another one only if the structures are the same. -/
theorem AuthStructure.eq_of_blocksOf_prefix {s s' : AuthStructure} (h : s.WellFormed) (h' : s'.WellFormed)
    (e : Block.blocksOf 16 s.bytes <+: Block.blocksOf 16 s'.bytes) :
  s = s'
  := by
  rcases Block.prefix_or_prefix_of_blocksOf (by decide) e with e | e
  · apply prefix_bytes_eq h h' e
  · exact (prefix_bytes_eq h' h e).symm

omit [Settings] [MacCrypt] in
theorem macStructure_injective {kind kind' : MacKind} {prot prot' extAad extAad' payload payload' : Bytes}
    (h : macStructure kind prot extAad payload = macStructure kind' prot' extAad' payload') :
  (kind, prot, extAad, payload) = (kind', prot', extAad', payload')
  := by
  simp only [macStructure, AuthStructure.content.injEq] at h
  obtain ⟨hcontext, rfl, -, rfl, rfl, -⟩ := h
  rw [MacKind.context_injective hcontext]

/-- The blocks that are given to the cipher for a MAC_structure. -/
theorem fed_macStructure {kind : MacKind} {protectedHdr extAad payload : Pointer} {scratch : Option Buffer}
    {bs : Bytes} (hbuild : kind.build protectedHdr extAad payload scratch = .ok bs) {key : Pointer}
    {hasTag : Bool} {tagLen : Nat} {t : Bytes} {fed : List (Block 16)}
    (hmac : Runs (aesCbcMac key (.mem bs) hasTag tagLen) [] t fed) :
  fed = Block.blocksOf 16 (macStructure kind protectedHdr.bytes extAad.bytes payload.bytes).bytes
  := by
  obtain ⟨-, -, -, -, rfl⟩ := macKind_build_eq_ok.mp hbuild
  obtain ⟨-, -, rfl⟩ := runs_aesCbcMac.mp hmac
  rw [List.nil_append, Pointer.bytes]

/-- Different MAC_structures give the cipher different sequences of blocks, none of which starts
another one. -/
theorem cbcMac_prefix_free {kind kind' : MacKind}
    {protectedHdr protectedHdr' extAad extAad' payload payload' : Pointer} {scratch scratch' : Option Buffer}
    {bs bs' : Bytes}
    (hne : (kind, protectedHdr.bytes, extAad.bytes, payload.bytes)
      ≠ (kind', protectedHdr'.bytes, extAad'.bytes, payload'.bytes))
    (hbuild : kind.build protectedHdr extAad payload scratch = .ok bs)
    (hbuild' : kind'.build protectedHdr' extAad' payload' scratch' = .ok bs')
    {key key' : Pointer} {hasTag hasTag' : Bool} {tagLen tagLen' : Nat} {t t' : Bytes}
    {fed fed' : List (Block 16)}
    (hmac : Runs (aesCbcMac key (.mem bs) hasTag tagLen) [] t fed)
    (hmac' : Runs (aesCbcMac key' (.mem bs') hasTag' tagLen') [] t' fed') :
  fed ≠ fed' ∧ ¬ fed <+: fed' ∧ ¬ fed' <+: fed
  := by
  have hwf := wellFormed_macStructure hbuild
  have hwf' := wellFormed_macStructure hbuild'
  have hleft : ¬ fed <+: fed' := by
    intro h
    rw [fed_macStructure hbuild hmac, fed_macStructure hbuild' hmac'] at h
    apply hne
    apply macStructure_injective (AuthStructure.eq_of_blocksOf_prefix hwf hwf' h)
  have hright : ¬ fed' <+: fed := by
    intro h
    rw [fed_macStructure hbuild hmac, fed_macStructure hbuild' hmac'] at h
    apply hne
    exact (macStructure_injective (AuthStructure.eq_of_blocksOf_prefix hwf' hwf h)).symm
  refine ⟨?_, hleft, hright⟩
  rintro rfl
  apply hleft
  exact ⟨[], List.append_nil fed⟩

end

section Instances

/-- A key of AES-128. -/
def aes128Key : Bytes :=
  [0x00, 0x01, 0x02, 0x03, 0x04, 0x05, 0x06, 0x07, 0x08, 0x09, 0x0A, 0x0B, 0x0C, 0x0D, 0x0E, 0x0F]

/-- The MAC_structure of an empty payload. -/
def structureOfEmpty : Bytes := [0x84, 0x64] ++ ctxMac0 ++ [0x40, 0x40, 0x40]

/-- The MAC_structure of a payload of one zero byte. -/
def structureOfZero : Bytes := [0x84, 0x64] ++ ctxMac0 ++ [0x40, 0x40, 0x41, 0x00]

/-- The encryptions with this key of the blocks of both structures. -/
def aes128Table : List ((Bytes × Bytes × Bytes) × Block 16) :=
  [((aes128Key, List.replicate 16 0, structureOfEmpty ++ List.replicate 7 0),
      ⟨[0xCC, 0xFE, 0x2B, 0xF7, 0x14, 0x77, 0xDD, 0x74, 0xCD, 0x1A, 0xC0, 0xBA, 0xD2, 0xB1, 0x56, 0x0B], rfl⟩),
    ((aes128Key, List.replicate 16 0, structureOfZero ++ List.replicate 6 0),
      ⟨[0x55, 0xE8, 0xA5, 0x7F, 0xF7, 0x3F, 0xD8, 0x5B, 0x59, 0x47, 0x28, 0xDC, 0xC1, 0x82, 0xD8, 0x26], rfl⟩)]

/-- The primitives as far as these encryptions go. -/
@[reducible]
def aes128Crypt : MacCrypt := aesTableCrypt aes128Table

attribute [local instance] defaultSettings aes128Crypt

/-- A buffer for a MAC_structure or a tag. -/
def macBuffer : Buffer := .ofBytes (List.replicate 64 0)

theorem cbcMac_prefix_free_instance :
  ∃ fed fed',
    Runs (aesCbcMac (.mem aes128Key) (.mem structureOfEmpty) true 8) []
      [0xCC, 0xFE, 0x2B, 0xF7, 0x14, 0x77, 0xDD, 0x74] fed
    ∧ Runs (aesCbcMac (.mem aes128Key) (.mem structureOfZero) true 8) []
      [0x55, 0xE8, 0xA5, 0x7F, 0xF7, 0x3F, 0xD8, 0x5B] fed'
    ∧ fed ≠ fed' ∧ ¬ fed <+: fed' ∧ ¬ fed' <+: fed
  := by
  have hrun : Runs (aesCbcMac (.mem aes128Key) (.mem structureOfEmpty) true 8) []
      [0xCC, 0xFE, 0x2B, 0xF7, 0x14, 0x77, 0xDD, 0x74] [.ofBytes 16 structureOfEmpty] := rfl
  have hrun' : Runs (aesCbcMac (.mem aes128Key) (.mem structureOfZero) true 8) []
      [0x55, 0xE8, 0xA5, 0x7F, 0xF7, 0x3F, 0xD8, 0x5B] [.ofBytes 16 structureOfZero] := rfl
  have hbuild : MacKind.mac0.build (.mem []) (.null 0) (.mem []) (some macBuffer) = .ok structureOfEmpty := rfl
  have hbuild' : MacKind.mac0.build (.mem []) (.null 0) (.mem [0x00]) (some macBuffer) = .ok structureOfZero := rfl
  exact ⟨_, _, hrun, hrun', cbcMac_prefix_free (by decide) hbuild hbuild' hrun hrun'⟩

end Instances

end WolfCose
