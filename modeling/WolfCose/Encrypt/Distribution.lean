import WolfCose.Encrypt.Encrypt0
import WolfCose.Recipient

/-!
# Distributing the content key

The functions of `wolfcose_recipient.c` that give the key of a message to its recipients: AES key
wrap, direct key agreement with ECDH-ES, and HPKE in the mode that encrypts a key.  A sender draws
random numbers, so its functions use the environment.
-/

namespace WolfCose

open Program Cbor Settings WolfCrypt

/-! ### Settings -/

/-- The settings of a build that select the ways to distribute a key, beside those for HPKE that
select how recipients are decoded. -/
class RecipientSettings where
  /-- Whether `WOLFCOSE_KEY_WRAP` is defined. -/
  keyWrapMode : Bool
  /-- Whether `WOLFCOSE_ECDH_ES_DIRECT`, `HAVE_ECC` and `HAVE_HKDF` are defined. -/
  ecdhEsDirectMode : Bool
  /-- Whether `WOLFCOSE_HPKE_0_KE_ENCRYPT` is defined. -/
  hpke0KeEncrypt : Bool
  /-- `MAX_ECC_BYTES` of wolfCrypt. -/
  maxEccBytes : Nat

open RecipientSettings

/-! ### The primitives -/

/-- The functions of wolfCrypt that distribute keys.  One that reports errors returns nothing
then. -/
class RecipientCrypt [WolfCrypt] where
  /-- `wc_RNG_GenerateBlock` -/
  rngGenerateBlock : Rng → (len : Nat) → Env → Option (Block len) × Env
  /-- `wc_InitRng` -/
  initRng : Env → Option Rng × Env
  /-- `wc_AesKeyWrap` of a key under a key encryption key, into a buffer of the given size. -/
  aesKeyWrap : (kek : Pointer) → (cek : Bytes) → (outSz : Nat) → Option Bytes
  /-- `wc_AesKeyUnWrap` of a wrapped key, into a buffer of the given size. -/
  aesKeyUnWrap : (kek : Pointer) → (wrapped : Bytes) → (outSz : Nat) → Option Bytes
  /-- `wc_ecc_init` -/
  eccInit : Option EccKey
  /-- `wc_ecc_set_rng` -/
  eccSetRng : EccKey → Rng → Option EccKey
  /-- Whether `wc_ecc_check_key` accepts a key. -/
  eccCheckKey : EccKey → Bool
  /-- `wc_ecc_make_key_ex` with a key size and a curve, into an initialised key. -/
  eccMakeKeyEx : Rng → (keysize : Nat) → EccKey → WcCurve → Env → Option EccKey × Env
  /-- `wc_ecc_shared_secret` of a private and a public key. -/
  eccSharedSecret : EccKey → EccKey → Env → Option Bytes × Env
  /-- `wc_ecc_export_public_raw`: the coordinates of a key, each in a buffer of the given size. -/
  eccExportPublicRaw : EccKey → (bufSz : Nat) → Option (Bytes × Bytes)
  /-- `wc_ecc_import_unsigned` of a public key, into an initialised key. -/
  eccImportUnsigned : EccKey → (x y : Bytes) → WcCurve → Option EccKey
  /-- `wc_HKDF` without salt, of a secret and context information. -/
  hkdf : HashType → (secret info : Bytes) → (len : Nat) → Option (Block len)
  /-- A context `Hpke`. -/
  Hpke : Type
  /-- `wc_HpkeInit` with the algorithms of HPKE-0. -/
  hpkeInit : Option Hpke
  /-- `wc_HpkeSerializePublicKey` -/
  hpkeSerializePublicKey : Hpke → EccKey → Option Bytes
  /-- `wc_HpkeSealBase` with an ephemeral key and the key of the recipient. -/
  hpkeSealBase : Hpke → EccKey → EccKey → (info aad plaintext : Bytes) → Option (Block (plaintext.length + 16))
  /-- `wc_HpkeOpenBase` with the key of the recipient and an encapsulated key, of a ciphertext of the
  given length and the tag after it. -/
  hpkeOpenBase : Hpke → EccKey → (enc info aad ciphertext : Bytes) → (len : Nat) → Option (Block len)

open RecipientCrypt

section

variable [WolfCrypt]

/-- A function that draws random numbers. -/
abbrev Drawing (α : Type) := EStateM Fault Env α

/-- A step that draws no random numbers. -/
def steady {α : Type} (x : Checked α) : Drawing α := MonadExcept.ofExcept x

/-- A call of wolfCrypt that may fail and that uses the environment. -/
def drawing {α : Type} (f : Env → Option α × Env) : Drawing α := do
  let (a, env) := f (← get)
  set env
  steady (orCrypto a)

@[simp]
theorem runs_steady {α : Type} (x : Checked α) (env : Env) (a : α) (env' : Env) :
  Runs (steady x) env a env' ↔ x = .ok a ∧ env = env'
  := runs_ofExcept x env a env'

/-- A step that draws nothing keeps the environment. -/
theorem runs_steady_bind {α β : Type} (x : Checked α) (f : α → Drawing β) (env : Env) (b : β) (env' : Env) :
  Runs (steady x >>= f) env b env' ↔ ∃ a, x = .ok a ∧ Runs (f a) env b env'
  := by
  rw [runs_bind]
  constructor
  · rintro ⟨a, env'', h₁, h₂⟩
    obtain ⟨hx, rfl⟩ := (runs_steady _ _ _ _).mp h₁
    exact ⟨a, hx, h₂⟩
  · rintro ⟨a, hx, h⟩
    exact ⟨a, env, (runs_steady _ _ _ _).mpr ⟨hx, rfl⟩, h⟩

@[simp]
theorem runs_drawing {α : Type} (f : Env → Option α × Env) (env : Env) (a : α) (env' : Env) :
  Runs (drawing f) env a env' ↔ f env = (some a, env')
  := by
  simp only [drawing, runs_bind, runs_get, runs_set, runs_steady, orCrypto_eq_ok]
  constructor
  · rintro ⟨_, _, ⟨rfl, rfl⟩, -, _, rfl, ha, rfl⟩
    rw [← ha]
  · intro h
    exact ⟨env, env, ⟨rfl, rfl⟩, ⟨⟩, env', by rw [h], by rw [h], rfl⟩

variable [Settings] [AeadSettings] [RecipientSettings] [RecipientCrypt]

/-! ### AES key wrap -/

/-- `WOLFCOSE_ALG_A128KW` -/
def algA128kw : Int := -3

/-- `WOLFCOSE_ALG_A192KW` -/
def algA192kw : Int := -4

/-- `WOLFCOSE_ALG_A256KW` -/
def algA256kw : Int := -5

/-- `wolfCose_IsKeyWrapAlg`, in a build that has key wrap. -/
def isKeyWrapAlg (alg : Int) : Prop :=
  keyWrapMode = true ∧ (alg = algA128kw ∨ alg = algA192kw ∨ alg = algA256kw)

instance (alg : Int) : Decidable (isKeyWrapAlg alg) := inferInstanceAs (Decidable (_ ∧ _))

/-- `wolfCose_KeyWrapKeySize` -/
def keyWrapKeySize (alg : Int) : Except Err Nat :=
  if alg = algA128kw then .ok 16
  else if alg = algA192kw then .ok 24
  else if alg = algA256kw then .ok 32
  else .error .coseBadAlg

omit [WolfCrypt] [Settings] [AeadSettings] [RecipientSettings] [RecipientCrypt] in
/-- AES key wrap needs a key. -/
theorem keyWrapKeySize_ne_zero {alg : Int} {size : Nat} (h : keyWrapKeySize alg = .ok size) :
  size ≠ 0
  := by
  unfold keyWrapKeySize at h
  split_ifs at h
  all_goals
    cases h
    decide

/-- `wolfCose_KeyWrap` -/
def keyWrap (alg : Int) (kek : Option Key) (cek : Bytes) (outSz : Nat) : Checked Bytes :=
  match kek with
  | none => throw (.err .invalidArg)
  | some kek => do
      failWhen (kek.kty ≠ ktySymmetric) .coseKeyType
      let expectedKeySz ← lift (keyWrapKeySize alg)
      failWhen (kek.symmKeyLen ≠ expectedKeySz) .coseKeyType
      failWhen (outSz < cek.length + 8) .bufferTooSmall
      let symmKey ← kek.symmKey
      let wrapped ← orCrypto (aesKeyWrap symmKey cek outSz)
      failWhen (wrapped.length = 0) .crypto
      return wrapped

/-- `wolfCose_KeyUnwrap` -/
def keyUnwrap (alg : Int) (kek : Option Key) (wrappedCek : Bytes) (cekOutSz : Nat) : Checked Bytes :=
  match kek with
  | none => throw (.err .invalidArg)
  | some kek => do
      failWhen (kek.kty ≠ ktySymmetric) .coseKeyType
      failWhen (wrappedCek.length < 24) .cborMalformed
      let expectedKeySz ← lift (keyWrapKeySize alg)
      failWhen (kek.symmKeyLen ≠ expectedKeySz) .coseKeyType
      failWhen (cekOutSz < wrappedCek.length - 8) .bufferTooSmall
      let symmKey ← kek.symmKey
      let cek ← orCrypto (aesKeyUnWrap symmKey wrappedCek cekOutSz)
      failWhen (cek.length = 0) .crypto
      return cek

/-! ### ECDH-ES -/

/-- `wolfCose_IsEcdhEsDirectAlg`, in a build that has ECDH-ES. -/
def isEcdhEsDirectAlg (alg : Int) : Prop :=
  ecdhEsDirectMode = true ∧ (alg = algEcdhEsHkdf256 ∨ alg = algEcdhEsHkdf512)

instance (alg : Int) : Decidable (isEcdhEsDirectAlg alg) := inferInstanceAs (Decidable (_ ∧ _))

/-- The encoding steps of `wolfCose_KdfContextEncode`. -/
def encodeKdfContext (contentAlgId : Int) (keyDataLengthBits : Nat) (recipientProtected : Bytes) : Enc Unit := do
  encodeArrayStart 4
  encodeInt contentAlgId
  encodeArrayStart 3
  encodeNull
  encodeNull
  encodeNull
  encodeArrayStart 3
  encodeNull
  encodeNull
  encodeNull
  encodeArrayStart 2
  encodeUint keyDataLengthBits
  encodeBstr (.mem recipientProtected)

/-- `wolfCose_KdfContextEncode`; the result is what it leaves in the output buffer, up to the length
it reports. -/
def kdfContextEncode (contentAlgId : Int) (keyDataLengthBits : Nat) (recipientProtected : Bytes) (out : Buffer) :
    Except Err Bytes :=
  encodeInto (encodeKdfContext contentAlgId keyDataLengthBits recipientProtected) out

/-- The hash function of an algorithm for ECDH-ES. -/
def ecdhHashType (alg : Int) : Except Err HashType :=
  if alg = algEcdhEsHkdf256 then .ok .sha256
  else if alg = algEcdhEsHkdf512 then .ok .sha512
  else .error .coseBadAlg

/-- What a sender tells a recipient about the ephemeral key: the coordinates of its public part. -/
structure EphemeralPub where
  x : Bytes
  y : Bytes

/-- The size of the buffers for the coordinates of an ephemeral key. -/
def ephemPubSz : Nat := 66

/-- `wolfCose_EcdhEsDirect`; the result is the public part of the ephemeral key and the derived key. -/
def ecdhEsDirect (alg : Int) (recipientPub : Key) (contentAlgId : Int) (cekLen : Nat) (recipientProtected : Bytes)
    (cekOutSz : Nat) (rng : Rng) : Drawing (EphemeralPub × Bytes) := do
  steady (failWhen (cekLen > cekOutSz) .bufferTooSmall)
  steady (failWhen (recipientPub.kty ≠ ktyEc2 ∨ recipientPub.attachedType ≠ .ecc ∨
    recipientPub.object.isNull = true) .coseKeyType)
  steady (eccKeyCheckCurve recipientPub.crv recipientPub.object)
  let recipientEcc ← steady recipientPub.object.asEcc
  steady (failWhen (eccCheckKey recipientEcc = false) .coseKeyType)
  let hashType ← steady (lift (ecdhHashType alg))
  let wcCurve ← steady (lift (crvToWcCurve recipientPub.crv))
  let ephemKey ← steady (orCrypto eccInit)
  let ephemKey ← steady (orCrypto (eccSetRng ephemKey rng))
  let ephemKey ← drawing (eccMakeKeyEx rng 0 ephemKey wcCurve)
  let recipientEcc ← steady (orCrypto (eccSetRng recipientEcc rng))
  let sharedSecret ← drawing (eccSharedSecret ephemKey recipientEcc)
  let kdfContext ← steady (lift (kdfContextEncode contentAlgId (cekLen * 8) recipientProtected
    (.ofBytes (List.replicate 64 0))))
  let cek ← steady (orCrypto (hkdf hashType sharedSecret kdfContext cekLen))
  let (x, y) ← steady (orCrypto (eccExportPublicRaw ephemKey ephemPubSz))
  steady (failWhen (x.length ≠ y.length) .crypto)
  return (⟨x, y⟩, cek.val)

/-- `wolfCose_EcdhEsDirectRecv`; the result is the derived key. -/
def ecdhEsDirectRecv (alg : Int) (recipientKey : Key) (ephem : EphemeralPub) (contentAlgId : Int) (cekLen : Nat)
    (recipientProtected : Bytes) (kdfContext : Buffer) (cekOutSz : Nat) : Drawing Bytes := do
  steady (failWhen (cekLen > cekOutSz) .bufferTooSmall)
  steady (failWhen (recipientKey.kty ≠ ktyEc2 ∨ recipientKey.attachedType ≠ .ecc ∨
    recipientKey.object.isNull = true ∨ recipientKey.hasPrivate = false) .coseKeyType)
  steady (eccKeyCheckCurve recipientKey.crv recipientKey.object)
  let hashType ← steady (lift (ecdhHashType alg))
  let wcCurve ← steady (lift (crvToWcCurve recipientKey.crv))
  let rng ← drawing initRng
  let ephemPub ← steady (orCrypto eccInit)
  let ephemPub ← steady (orCrypto (eccSetRng ephemPub rng))
  let coordSz ← steady (lift (crvKeySize recipientKey.crv))
  steady (failWhen (ephem.x.length > coordSz ∨ coordSz > maxEccBytes) .coseBadHdr)
  let ephemPub ← steady (orCrypto (eccImportUnsigned ephemPub (leftPad coordSz ephem.x) (leftPad coordSz ephem.y)
    wcCurve))
  steady (failWhen (eccCheckKey ephemPub = false) .coseBadHdr)
  let recipientEcc ← steady recipientKey.object.asEcc
  let recipientEcc ← steady (orCrypto (eccSetRng recipientEcc rng))
  let sharedSecret ← drawing (eccSharedSecret recipientEcc ephemPub)
  let kdfContext ← steady (lift (kdfContextEncode contentAlgId (cekLen * 8) recipientProtected kdfContext))
  let cek ← steady (orCrypto (hkdf hashType sharedSecret kdfContext cekLen))
  return cek.val

/-! ### HPKE -/

/-- `WOLFCOSE_HPKE_0_ENC_SZ` -/
def hpke0EncSz : Nat := 65

/-- `WOLFCOSE_HPKE_0_TAG_SZ` -/
def hpke0TagSz : Nat := 16

/-- `WOLFCOSE_HPKE_0_PSK_ID_LABEL` -/
def hpke0PskIdLabel : Int := -5

/-- `wolfCose_Hpke0ValidateKey`; the result is the key object. -/
def hpke0ValidateKey (key : Option Key) (alg : Int) (needPrivate : Bool) : Checked EccKey :=
  match key with
  | none => throw (.err .invalidArg)
  | some key => do
      failWhen (key.attachedType ≠ .ecc) .coseKeyType
      failWhen (key.kty ≠ ktyEc2 ∨ key.crv ≠ crvP256 ∨ key.object.isNull = true) .coseKeyType
      let eccKey ← key.object.asEcc
      failWhen (eccSize eccKey ≠ 32) .coseKeyType
      failAs .coseKeyType (eccKeyCheckCurve crvP256 key.object)
      failWhen (eccCheckKey eccKey = false) .coseKeyType
      failWhen (key.alg ≠ algUnset ∧ key.alg ≠ alg) .coseBadAlg
      failWhen (needPrivate = true ∧ key.hasPrivate = false) .coseKeyType
      return eccKey

/-- The text "HPKE Recipient". -/
def recipientContext : Bytes :=
  [0x48, 0x50, 0x4B, 0x45, 0x20, 0x52, 0x65, 0x63, 0x69, 0x70, 0x69, 0x65, 0x6E, 0x74]

/-- The encoding steps of `wolfCose_Hpke0BuildRecipientInfo`. -/
def encodeRecipientInfo (nextLayerAlg : Int) (recipientProtected : Bytes) : Enc Unit := do
  encodeArrayStart 4
  encodeTstr (.mem recipientContext)
  encodeInt nextLayerAlg
  encodeBstr (.mem recipientProtected)
  encodeBstr (.null 0)

/-- `wolfCose_Hpke0BuildRecipientInfo`; the result is what it leaves in the scratch buffer, up to the
length it reports. -/
def hpke0BuildRecipientInfo (nextLayerAlg : Int) (recipientProtected : Bytes) (scratch : Buffer) : Except Err Bytes :=
  encodeInto (encodeRecipientInfo nextLayerAlg recipientProtected) scratch

/-- The encoding steps of `wolfCose_Hpke0EncodeRecipientProtectedHdr`. -/
def encodeHpkeProtectedHdr (alg : Int) (kid : Pointer) : Enc Unit := do
  encodeMapStart (if kid.isNull = false then 2 else 1)
  encodeInt hdrAlg
  encodeInt alg
  onlyIf (kid.isNull = false) do
    encodeInt hdrKid
    encodeBstr kid

/-- `wolfCose_Hpke0EncodeRecipientProtectedHdr`; the result is what it leaves in a buffer for a
protected header, up to the length it reports. -/
def hpke0EncodeRecipientProtectedHdr (alg : Int) (kid : Pointer) : Except Err Bytes :=
  if (kid.isNull = true ∧ kid.len ≠ 0) ∨ (kid.isNull = false ∧ kid.len = 0) then .error .invalidArg
  else encodeInto (encodeHpkeProtectedHdr alg kid) (.ofBytes (List.replicate protectedHdrMax 0))

/-- What `wolfCose_Hpke0SealInit` prepares: the HPKE context, the ephemeral key, and its public part as
it is sent. -/
structure Hpke0SealCtx where
  hpke : Hpke
  ephemeralKey : EccKey
  enc : Bytes

/-- `wolfCose_Hpke0SealInit` -/
def hpke0SealInit (recipientKey : Option Key) (alg : Int) (rng : Rng) : Drawing Hpke0SealCtx := do
  let _ ← steady (hpke0ValidateKey recipientKey alg false)
  let hpke ← steady (orCrypto hpkeInit)
  let ephemeralKey ← steady (orCrypto eccInit)
  let ephemeralKey ← drawing (eccMakeKeyEx rng 32 ephemeralKey .secp256r1)
  let enc ← steady (orCrypto (hpkeSerializePublicKey hpke ephemeralKey))
  steady (failWhen (enc.length ≠ hpke0EncSz) .crypto)
  return ⟨hpke, ephemeralKey, enc⟩

/-- `wolfCose_Hpke0Seal` into a buffer of the given size. -/
def hpke0Seal (sealCtx : Hpke0SealCtx) (recipientKey : Option Key) (info aad plaintext : Bytes)
    (ciphertextSz : Nat) : Checked Bytes :=
  match recipientKey with
  | none => throw (.err .invalidArg)
  | some recipientKey => do
      failWhen (plaintext.length > sizeMax - hpke0TagSz ∨ ciphertextSz < plaintext.length + hpke0TagSz) .bufferTooSmall
      failWhen (lenFitsWord32 info.length = false ∨ lenFitsWord32 aad.length = false ∨
        lenFitsWord32 plaintext.length = false) .invalidArg
      let recipientEcc ← recipientKey.object.asEcc
      let ciphertext ← orCrypto (hpkeSealBase sealCtx.hpke sealCtx.ephemeralKey recipientEcc info aad plaintext)
      return ciphertext.val

/-- `wolfCose_Hpke0Open` into a buffer of the given size; `enc` is missing if the caller passes a null
pointer. -/
def hpke0Open (recipientKey : Option Key) (alg : Int) (info aad : Bytes) (enc : Option Bytes) (ciphertext : Bytes)
    (plaintextSz : Nat) : Checked Bytes := do
  failWhen (enc.isNone = true) .invalidArg
  failWhen ((enc.getD []).length ≠ hpke0EncSz ∨ ciphertext.length < hpke0TagSz) .coseBadHdr
  let bodyLen := ciphertext.length - hpke0TagSz
  failWhen (plaintextSz < bodyLen) .bufferTooSmall
  failWhen (lenFitsWord32 info.length = false ∨ lenFitsWord32 aad.length = false ∨
    lenFitsWord32 bodyLen = false) .invalidArg
  let recipientEcc ← hpke0ValidateKey recipientKey alg true
  let hpke ← orCrypto hpkeInit
  orDecryptFail (hpkeOpenBase hpke recipientEcc (enc.getD []) info aad ciphertext bodyLen)

end

end WolfCose
