import WolfCose.Hdr.Emitted
import WolfCose.Mac.CbcMac

/-!
# Computing a MAC

The functions of the library that create or verify a message with a MAC compute it in the same
steps, which depend on the family of the algorithm: HMAC with the hash function of the algorithm,
or AES-CBC-MAC.  `MacOf` is what the primitives make of a key and the bytes to be authenticated.
-/

namespace WolfCose

open Program Settings MacCrypt

/-! ### Algorithms -/

/-- The settings of a build that select the algorithms of the MAC functions. -/
class MacSettings where
  /-- Whether `WOLFCOSE_HAVE_HMAC256` is defined. -/
  haveHmac256 : Bool
  /-- Whether `WOLFCOSE_HAVE_HMAC384` is defined. -/
  haveHmac384 : Bool
  /-- Whether `WOLFCOSE_HAVE_HMAC512` is defined. -/
  haveHmac512 : Bool
  /-- Whether `WOLFCOSE_HAVE_AESMAC` is defined. -/
  haveAesMac : Bool
  /-- Whether `WOLFCOSE_ALLOW_SHORT_HMAC_KEY` is defined. -/
  allowShortHmacKey : Bool

/-- A build with every MAC algorithm. -/
@[reducible]
def defaultMacSettings : MacSettings where
  haveHmac256 := true
  haveHmac384 := true
  haveHmac512 := true
  haveAesMac := true
  allowShortHmacKey := false

open MacSettings

/-- `WOLFCOSE_ALG_HMAC_256_256` -/
def algHmac256 : Int := 5

/-- `WOLFCOSE_ALG_HMAC_384_384` -/
def algHmac384 : Int := 6

/-- `WOLFCOSE_ALG_HMAC_512_512` -/
def algHmac512 : Int := 7

/-- `WOLFCOSE_ALG_AES_MAC_128_64` -/
def algAesMac128Tag64 : Int := 14

/-- `WOLFCOSE_ALG_AES_MAC_256_64` -/
def algAesMac256Tag64 : Int := 15

/-- `WOLFCOSE_ALG_AES_MAC_128_128` -/
def algAesMac128Tag128 : Int := 25

/-- `WOLFCOSE_ALG_AES_MAC_256_128` -/
def algAesMac256Tag128 : Int := 26

/-- The length of the result of a hash function. -/
def HashType.digestSize : HashType → Nat
  | sha256 => 32
  | sha384 => 48
  | sha512 => 64

section

variable [MacSettings]

/-- `wolfCose_MacTagSize` -/
def macTagSize (alg : Int) : Except Err Nat :=
  if haveHmac256 = true ∧ alg = algHmac256 then .ok 32
  else if haveHmac384 = true ∧ alg = algHmac384 then .ok 48
  else if haveHmac512 = true ∧ alg = algHmac512 then .ok 64
  else if haveAesMac = true ∧ (alg = algAesMac128Tag64 ∨ alg = algAesMac256Tag64) then .ok 8
  else if haveAesMac = true ∧ (alg = algAesMac128Tag128 ∨ alg = algAesMac256Tag128) then .ok 16
  else .error .coseBadAlg

/-- `wolfCose_AesCbcMacKeySize` -/
def aesCbcMacKeySize (alg : Int) : Except Err Nat :=
  if alg = algAesMac128Tag64 ∨ alg = algAesMac128Tag128 then .ok 16
  else if alg = algAesMac256Tag64 ∨ alg = algAesMac256Tag128 then .ok 32
  else .error .coseBadAlg

/-- `wolfCose_IsHmacAlg` -/
def isHmacAlg (alg : Int) : Prop :=
  haveHmac256 = true ∧ alg = algHmac256 ∨ haveHmac384 = true ∧ alg = algHmac384
    ∨ haveHmac512 = true ∧ alg = algHmac512

instance (alg : Int) : Decidable (isHmacAlg alg) := inferInstanceAs (Decidable (_ ∨ _))

/-- `wolfCose_IsAesCbcMacAlg` -/
def isAesCbcMacAlg (alg : Int) : Prop :=
  alg = algAesMac128Tag64 ∨ alg = algAesMac256Tag64 ∨ alg = algAesMac128Tag128 ∨ alg = algAesMac256Tag128

instance (alg : Int) : Decidable (isAesCbcMacAlg alg) := inferInstanceAs (Decidable (_ ∨ _))

/-- `wolfCose_HmacType` -/
def hmacType (alg : Int) : Except Err HashType :=
  if haveHmac256 = true ∧ alg = algHmac256 then .ok .sha256
  else if haveHmac384 = true ∧ alg = algHmac384 then .ok .sha384
  else if haveHmac512 = true ∧ alg = algHmac512 then .ok .sha512
  else .error .coseBadAlg

/-- The smallest length of a key that `wolfCose_HmacCheckKeyLen` accepts. -/
def hmacMinKeyLen (alg : Int) : Except Err Nat :=
  if allowShortHmacKey = true then .ok 0
  else if haveHmac256 = true ∧ alg = algHmac256 then .ok 32
  else if haveHmac384 = true ∧ alg = algHmac384 then .ok 48
  else if haveHmac512 = true ∧ alg = algHmac512 then .ok 64
  else .error .coseBadAlg

/-- `wolfCose_HmacCheckKeyLen` -/
def hmacCheckKeyLen (alg : Int) (keyLen : Nat) : Except Err Unit := do
  let minLen ← hmacMinKeyLen alg
  rejectIf (keyLen < minLen) .coseKeyType
  rejectIf (lenFitsWord32 keyLen = false) .coseKeyType

/-! ### The steps -/

variable [WolfCrypt] [MacCrypt]

/-- The branch of the MAC functions for HMAC; the bytes to be authenticated have a length that
fits the word size of wolfCrypt.  The result is what is written to the buffer for the tag. -/
def computeHmac (key : Key) (alg : Int) (toMac : Bytes) : Checked Bytes := do
  let type ← lift (hmacType alg)
  let hmac ← orCrypto hmacInit
  lift (hmacCheckKeyLen alg key.symmKeyLen)
  let symmKey ← key.symmKey
  let hmac ← orCrypto (hmacSetKey hmac type symmKey)
  let hmac ← orCrypto (hmacUpdate hmac toMac)
  orCrypto (hmacFinal hmac)

/-- The branch of the MAC functions for AES-CBC-MAC. -/
def computeAesCbcMac (key : Key) (alg : Int) (toMac : Bytes) (tagSz : Nat) : Checked Bytes := do
  let expectedKeyLen ← lift (aesCbcMacKeySize alg)
  failWhen (key.symmKeyLen ≠ expectedKeyLen) .coseKeyType
  let symmKey ← key.symmKey
  match aesCbcMac symmKey (.mem toMac) true tagSz [] with
  | .ok tag _ => .ok tag
  | .error fault _ => .error fault

/-- The dispatch of the MAC functions over the families of algorithms; the result is the buffer
for the tag up to the size of the tag. -/
def computeMac (key : Key) (alg : Int) (toMac : Bytes) (tagSz : Nat) : Checked Bytes :=
  if isHmacAlg alg then do
    let digest ← computeHmac key alg toMac
    return digest.take tagSz
  else if haveAesMac = true ∧ isAesCbcMacAlg alg then computeAesCbcMac key alg toMac tagSz
  else throw (.err .coseBadAlg)

end

/-- `wolfCose_ConstantCompare` -/
def constantCompare (a b : Bytes) (length : Nat) : UInt32 :=
  (List.range length).foldl (fun result i => result ||| ((a.getD i 0).toUInt32 ^^^ (b.getD i 0).toUInt32)) 0

/-! ### Messages -/

section

variable [Settings] [MacSettings] [WolfCrypt] [MacCrypt]

/-- The steps that compute the MAC of a message when it is created: the result is the protected
header and the tag. -/
def createMac (kind : MacKind) (key : Key) (alg : Int) (extAad payload : Pointer) (scratch : Buffer) :
    Checked (Bytes × Bytes) := do
  let tagSz ← lift (macTagSize alg)
  let protectedHdr ← lift (algProtectedHdr alg)
  let toMac ← lift (kind.build (.mem protectedHdr) extAad payload (some scratch))
  let tag ← computeMac key alg toMac tagSz
  return (protectedHdr, tag)

/-- The steps that check the tag of a message. -/
def verifyMac (kind : MacKind) (key : Key) (alg : Int) (protectedData : Bytes) (extAad payload : Pointer)
    (tag : Bytes) (scratch : Buffer) : Checked Unit := do
  let expectedTagSz ← lift (macTagSize alg)
  failWhen (tag.length ≠ expectedTagSz) .macFail
  let toMac ← lift (kind.build (.mem protectedData) extAad payload (some scratch))
  let computedTag ← computeMac key alg toMac expectedTagSz
  failWhen (constantCompare computedTag tag expectedTagSz ≠ 0) .macFail

end

/-! ### What is computed -/

section

variable [MacCrypt]

/-- The HMAC of data with a hash function and a key. -/
def hmacOf (type : HashType) (key : Pointer) (data : Bytes) : Option Bytes := do
  let hmac ← hmacInit
  let hmac ← hmacSetKey hmac type key
  let hmac ← hmacUpdate hmac data
  hmacFinal hmac

variable [MacSettings]

/-- The tag is the MAC of data with a key by an algorithm: the first bytes of the HMAC, or of the
last block of the encryption by AES in CBC mode. -/
def MacOf (key : Pointer) (alg : Int) (data tag : Bytes) : Prop :=
  ∃ tagSz, macTagSize alg = .ok tagSz
    ∧ ((∃ type digest, hmacType alg = .ok type ∧ hmacOf type key data = some digest ∧ tag = digest.take tagSz)
      ∨ (aesCbcMacKeySize alg = .ok key.bytes.length ∧ ∃ outBlock, cbcMacOf key.bytes data = some outBlock
        ∧ tag = outBlock.prefixOf tagSz))

/-- The documented result of HMAC is as long as that of the hash function. -/
def DocumentedHmac : Prop :=
  ∀ type key data digest, hmacOf type key data = some digest → digest.length = type.digestSize

omit [MacCrypt] in
theorem macTagSize_of_hmacType {alg : Int} {type : HashType} (h : hmacType alg = .ok type) :
  macTagSize alg = .ok type.digestSize
  := by
  unfold hmacType at h
  unfold macTagSize
  split at h
  · rename_i h₁
    cases h
    rw [if_pos h₁]
    rfl
  split at h
  · rename_i h₁ h₂
    cases h
    rw [if_neg h₁, if_pos h₂]
    rfl
  split at h
  · rename_i h₁ h₂ h₃
    cases h
    rw [if_neg h₁, if_neg h₂, if_pos h₃]
    rfl
  · cases h

end

/-! ### What the steps compute -/

theorem aesCbcMacKeySize_le {alg : Int} {keySz : Nat} (h : aesCbcMacKeySize alg = .ok keySz) :
  keySz ≤ 32
  := by
  unfold aesCbcMacKeySize at h
  split at h
  · cases h
    decide
  split at h
  · cases h
    decide
  · cases h

/-- Tags of the given length are compared in full. -/
theorem constantCompare_eq_zero {a b : Bytes} {length : Nat} :
  constantCompare a b length = 0 ↔ ∀ i < length, a.getD i 0 = b.getD i 0
  := by
  unfold constantCompare
  induction length with
  | zero => simp
  | succ n ih =>
      rw [List.range_succ, List.foldl_append, List.foldl_cons, List.foldl_nil, UInt32.or_eq_zero_iff, ih,
        UInt32.xor_eq_zero_iff, Nat.forall_lt_succ_right]
      apply and_congr_right
      intro _
      constructor
      · intro h
        apply UInt8.toNat_inj.mp
        have hn := congrArg UInt32.toNat h
        rwa [UInt8.toNat_toUInt32, UInt8.toNat_toUInt32] at hn
      · intro h
        rw [h]

theorem constantCompare_iff {a b : Bytes} {length : Nat} (ha : a.length = length) (hb : b.length = length) :
  constantCompare a b length = 0 ↔ a = b
  := by
  rw [constantCompare_eq_zero]
  constructor
  · intro h
    apply List.ext_getElem (by rw [ha, hb])
    intro i hi₁ hi₂
    have hi := h i (ha ▸ hi₁)
    rwa [List.getD_eq_getElem?_getD, List.getD_eq_getElem?_getD, List.getElem?_eq_getElem hi₁,
      List.getElem?_eq_getElem hi₂] at hi
  · rintro rfl _ _
    rfl

section

variable [WolfCrypt]

variable [MacSettings] [MacCrypt]

theorem computeHmac_eq_ok {key : Key} {alg : Int} {toMac digest : Bytes}
    (h : computeHmac key alg toMac = .ok digest) :
  ∃ type symmKey, hmacType alg = .ok type ∧ key.symmKey = .ok symmKey
    ∧ hmacOf type symmKey toMac = some digest
  := by
  simp only [computeHmac, bind_eq_ok, lift_eq_ok, orCrypto_eq_ok] at h
  obtain ⟨type, htype, h₀, hinit, _, -, symmKey, hkey, h₁, hset, h₂, hupdate, hfinal⟩ := h
  refine ⟨type, symmKey, htype, hkey, ?_⟩
  simp only [hmacOf, hinit, hset, hupdate, Option.bind_eq_bind, Option.bind_some, hfinal]

omit [MacSettings] in
theorem computeAesCbcMac_eq_ok {key : Key} {alg : Int} {toMac tag : Bytes} {tagSz : Nat}
    (h : computeAesCbcMac key alg toMac tagSz = .ok tag) :
  ∃ symmKey outBlock, aesCbcMacKeySize alg = .ok symmKey.bytes.length ∧ key.symmKey = .ok symmKey
    ∧ cbcMacOf symmKey.bytes toMac = some outBlock ∧ tag = outBlock.prefixOf tagSz ∧ tagSz ≤ 16
  := by
  simp only [computeAesCbcMac, bind_eq_ok, lift_eq_ok, failWhen_eq_ok] at h
  obtain ⟨keyLen, hsize, _, hlen, symmKey, hkey, h⟩ := h
  split at h
  · rename_i hrun
    cases h
    obtain ⟨⟨hnull, -, htag, -⟩, ⟨outBlock, hmac, rfl⟩, -⟩ := runs_aesCbcMac.mp hrun
    have hlt : symmKey.len < 2 ^ 32 := by
      have := aesCbcMacKeySize_le hsize
      rw [len_symmKey hkey]
      omega
    have hvalid : symmKey.Valid := fun hn => absurd (hnull.symm.trans hn) Bool.false_ne_true
    rw [Nat.mod_eq_of_lt hlt, hvalid.len_eq, List.take_length] at hmac
    refine ⟨symmKey, outBlock, ?_, hkey, hmac, rfl, htag⟩
    rw [hsize, ← hvalid.len_eq, len_symmKey hkey, Decidable.not_not.mp hlen]
  · cases h

/-- What is computed is the MAC of the bytes to be authenticated. -/
theorem computeMac_eq_ok {key : Key} {alg : Int} {toMac tag : Bytes} {tagSz : Nat}
    (htag : macTagSize alg = .ok tagSz) (h : computeMac key alg toMac tagSz = .ok tag) :
  ∃ symmKey, key.symmKey = .ok symmKey ∧ MacOf symmKey alg toMac tag
  := by
  unfold computeMac at h
  split at h
  · simp only [bind_eq_ok, pure_eq_ok] at h
    obtain ⟨digest, hdigest, rfl⟩ := h
    obtain ⟨type, symmKey, htype, hkey, hmac⟩ := computeHmac_eq_ok hdigest
    exact ⟨symmKey, hkey, tagSz, htag, .inl ⟨type, digest, htype, hmac, rfl⟩⟩
  split at h
  · obtain ⟨symmKey, outBlock, hsize, hkey, hmac, rfl, -⟩ := computeAesCbcMac_eq_ok h
    exact ⟨symmKey, hkey, tagSz, htag, .inr ⟨hsize, outBlock, hmac, rfl⟩⟩
  · cases h

/-- The tag has the length of the algorithm. -/
theorem length_computeMac (hdoc : DocumentedHmac) {key : Key} {alg : Int} {toMac tag : Bytes} {tagSz : Nat}
    (htag : macTagSize alg = .ok tagSz) (h : computeMac key alg toMac tagSz = .ok tag) :
  tag.length = tagSz
  := by
  unfold computeMac at h
  split at h
  · simp only [bind_eq_ok, pure_eq_ok] at h
    obtain ⟨digest, hdigest, rfl⟩ := h
    obtain ⟨type, symmKey, htype, -, hmac⟩ := computeHmac_eq_ok hdigest
    have hsize := macTagSize_of_hmacType htype
    rw [htag] at hsize
    rw [List.length_take, hdoc _ _ _ _ hmac, Except.ok.inj hsize, Nat.min_self]
  split at h
  · obtain ⟨_, outBlock, -, -, -, rfl, hle⟩ := computeAesCbcMac_eq_ok h
    apply Block.length_prefixOf outBlock hle
  · cases h

variable [Settings]

/-- A tag that is accepted has the length of the algorithm, and is the MAC of the MAC_structure. -/
theorem verifyMac_eq_ok (hdoc : DocumentedHmac) {kind : MacKind} {key : Key} {alg : Int}
    {protectedData : Bytes} {extAad payload : Pointer} {tag : Bytes} {scratch : Buffer}
    (h : verifyMac kind key alg protectedData extAad payload tag scratch = .ok ()) :
  ∃ symmKey, key.symmKey = .ok symmKey ∧ macTagSize alg = .ok tag.length
    ∧ MacOf symmKey alg (macStructure kind protectedData extAad.bytes payload.bytes).bytes tag
  := by
  simp only [verifyMac, bind_eq_ok, lift_eq_ok, failWhen_eq_ok, macKind_build_eq_ok, ne_eq,
    Decidable.not_not] at h
  obtain ⟨tagSz, htag, _, rfl, _, ⟨-, -, -, -, rfl⟩, computedTag, hcomputed, hcompare⟩ := h
  have hlen := length_computeMac hdoc htag hcomputed
  rw [constantCompare_iff hlen rfl] at hcompare
  obtain rfl := hcompare
  obtain ⟨symmKey, hkey, hmac⟩ := computeMac_eq_ok htag hcomputed
  exact ⟨symmKey, hkey, htag, hmac⟩

/-- The tag of a message that is created is accepted. -/
theorem verifyMac_createMac (hdoc : DocumentedHmac) {kind : MacKind} {key : Key} {alg : Int}
    {extAad payload payload' : Pointer} {scratch scratch' : Buffer} {protectedHdr tag : Bytes}
    (h : createMac kind key alg extAad payload scratch = .ok (protectedHdr, tag))
    (hvalid : payload'.Valid) (hpayload : payload'.bytes = payload.bytes)
    (hroom : (macStructure kind protectedHdr extAad.bytes payload.bytes).bytes.length ≤ scratch'.bytes.length) :
  verifyMac kind key alg protectedHdr extAad payload' tag scratch' = .ok ()
  := by
  simp only [createMac, bind_eq_ok, lift_eq_ok, pure_eq_ok, macKind_build_eq_ok, Prod.mk.injEq] at h
  obtain ⟨tagSz, htag, prot, hprot, _, ⟨-, haad, -, -, rfl⟩, computedTag, hcomputed, rfl, rfl⟩ := h
  have hlen := length_computeMac hdoc htag hcomputed
  simp only [verifyMac, bind_eq_ok, lift_eq_ok, failWhen_eq_ok, macKind_build_eq_ok, ne_eq,
    Decidable.not_not]
  refine ⟨tagSz, htag, (), hlen, _, ⟨Pointer.valid_mem _, haad, hvalid, ⟨scratch', rfl, ?_⟩, rfl⟩, computedTag,
    ?_, ?_⟩
  · rwa [hpayload]
  · rwa [hpayload]
  · rw [constantCompare_iff hlen hlen]

end

end WolfCose
