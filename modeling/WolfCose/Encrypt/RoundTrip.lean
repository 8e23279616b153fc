import WolfCose.Encrypt.Hpke
import WolfCose.Encrypt.Opened

/-!
# The round trip of COSE_Encrypt0

What is encrypted, with a symmetric key or for the recipient of HPKE, is decrypted again, whether the
ciphertext is in the message or detached.  A plaintext is only released once its ciphertext has been
accepted.
-/

namespace WolfCose

open Program Cbor Settings WolfCrypt RecipientCrypt

section

variable [Settings]

/-- What a receiver has of a call that encrypts: the message, the ciphertext if it is detached, and
buffers with room for the structure that is authenticated and the payload. -/
structure Handed (args : EncryptArgs) (out : EncryptOut) (aad : Bytes) (input : Buffer) (detachedCt : Pointer)
    (scratch : Buffer) (plaintext : Bytes) : Prop where
  message : ∃ bytes len, out.out = some bytes ∧ out.outLen = some len ∧ input.bytes = bytes.take len
  detached : args.detached.isNull = false →
    ∃ bytes len, out.detached = some bytes ∧ out.detachedLen = some len ∧ detachedCt = .mem (bytes.take len)
  detachedFits : lenFitsWord32 detachedCt.len = true
  room : DecryptRoom aad args.payload.bytes scratch plaintext

/-- A decryption of what has been encrypted returns the payload and its length. -/
def ReturnsPayload (args : EncryptArgs) (out : EncryptOut) (aad : Bytes)
    (decrypt : DecryptArgs → DecryptOut → Checked Unit × DecryptOut) : Prop :=
  ∀ {input detachedCt scratch plaintext} hdr plaintextLen,
    Handed args out aad input detachedCt scratch plaintext →
    ∃ hdr', decrypt ⟨some input, detachedCt, args.extAad, some scratch⟩ ⟨some hdr, some plaintext, some plaintextLen⟩
      = (.ok (), ⟨some hdr', some (Bytes.overwrite plaintext 0 args.payload.bytes), some args.payload.bytes.length⟩)

/-- The receiver passes the message and the ciphertext that were created. -/
theorem Handed.created {args : EncryptArgs} {out : EncryptOut} {aad : Bytes} {input scratch : Buffer}
    {detachedCt : Pointer} {plaintext : Bytes} (h : Handed args out aad input detachedCt scratch plaintext)
    {bytes ciphertext : Bytes} {outLen : Nat} (hout : out.out = some bytes) (houtLen : out.outLen = some outLen)
    (hdetached : args.detached.isNull = false →
      out.detached = some (Bytes.overwrite args.detached.bytes 0 ciphertext)
      ∧ out.detachedLen = some ciphertext.length ∧ ciphertext.length ≤ args.detached.bytes.length) :
  input.bytes = bytes.take outLen ∧ (args.detached.isNull = false → detachedCt = .mem ciphertext)
  := by
  constructor
  · obtain ⟨bytes', len, hbytes, hlen, hinput⟩ := h.message
    rw [hout, Option.some.injEq] at hbytes
    rw [houtLen, Option.some.injEq] at hlen
    rw [hinput, hbytes, hlen]
  · intro hd
    obtain ⟨hbuf, hsz, hle⟩ := hdetached hd
    obtain ⟨bytes', len, hbytes, hlen, rfl⟩ := h.detached hd
    rw [hbuf, Option.some.injEq] at hbytes
    rw [hsz, Option.some.injEq] at hlen
    rw [← hbytes, ← hlen, Bytes.overwrite_eq (by omega), List.take_zero, List.nil_append, List.take_left]

variable [AeadSettings] [WolfCrypt] [AeadCrypt]

/-- What is encrypted with a symmetric key is decrypted with the same key. -/
theorem encrypt0_returns_payload (haead : CorrectAead) {key : Option Key} {alg : Int} {iv : Pointer}
    {args : EncryptArgs} (h : (encrypt0Encrypt key alg iv args).ret = .ok ()) :
  ∃ key' protectedHdr, key = some key' ∧ algProtectedHdr alg = .ok protectedHdr
    ∧ ReturnsPayload args (encrypt0Encrypt key alg iv args) (encStructure0 protectedHdr args.extAad.bytes).bytes
      (encrypt0Decrypt (some key'))
  := by
  obtain ⟨key', bytes, outLen, protectedHdr, ciphertext, hkey, hsealed, hout, houtLen, hbytes, hfits, hdetached⟩ :=
    encrypt0Encrypt_ok h
  refine ⟨key', protectedHdr, hkey, hsealed.protectedHdr_eq, ?_⟩
  intro input detachedCt scratch plaintext hdr plaintextLen hhanded
  obtain ⟨hinput, hct⟩ := hhanded.created hout houtLen hdetached
  rw [← hinput] at hfits
  rw [hbytes] at hinput
  exact ⟨_, encrypt0Decrypt_created haead hsealed hinput hfits hhanded.detachedFits hct hhanded.room⟩

variable [RecipientCrypt]

omit [AeadSettings] [AeadCrypt] in
/-- What is encrypted for a recipient is decrypted with the private half of the key. -/
theorem hpkeEncrypt0_returns_payload {Half : EccKey → EccKey → Prop} (hcorrect : CorrectHpke Half)
    (hhpke : haveHpke0 = true) {key : Option Key} {kid : Pointer} {args : EncryptArgs} {rng : Option Rng} {env : Env}
    (h : (hpkeEncrypt0Encrypt key kid args rng env).ret = .ok ()) :
  ∃ key' protectedHdr, key = some key' ∧ algProtectedHdr algHpke0 = .ok protectedHdr
    ∧ ∀ priv, key'.PrivateHalf Half priv →
      ReturnsPayload args (hpkeEncrypt0Encrypt key kid args rng env)
        (encStructure0 protectedHdr args.extAad.bytes).bytes (hpkeEncrypt0Decrypt (some priv))
  := by
  obtain ⟨key', bytes, outLen, protectedHdr, enc, ciphertext, hkey, hsealed, hout, houtLen, hbytes, hfits,
    hdetached⟩ := hpkeEncrypt0Encrypt_ok h
  refine ⟨key', protectedHdr, hkey, hsealed.protectedHdr_eq, ?_⟩
  intro priv hhalf input detachedCt scratch plaintext hdr plaintextLen hhanded
  obtain ⟨hinput, hct⟩ := hhanded.created hout houtLen hdetached
  rw [← hinput] at hfits
  rw [hbytes] at hinput
  exact ⟨_, hpkeEncrypt0Decrypt_created hcorrect hhpke hhalf hsealed hinput hfits hhanded.detachedFits hct hhanded.room⟩

/-- Whatever is encrypted in a COSE_Encrypt0 message is decrypted to the payload and its length, by the same
key or by the private half of the key of the recipient.  Any decryption that succeeds returns the plaintext
of a ciphertext that has been accepted under the structure with the protected bytes of the message; a
decryption that fails leaves only zeros behind, and the length zero. -/
theorem encrypt0_round_trip (haead : CorrectAead) {Half : EccKey → EccKey → Prop} (hcorrect : CorrectHpke Half) :
  (∀ key alg iv args, (encrypt0Encrypt key alg iv args).ret = .ok () →
    ∃ key' protectedHdr, key = some key' ∧ algProtectedHdr alg = .ok protectedHdr
      ∧ ReturnsPayload args (encrypt0Encrypt key alg iv args) (encStructure0 protectedHdr args.extAad.bytes).bytes
        (encrypt0Decrypt (some key')))
  ∧ (haveHpke0 = true → ∀ key kid args rng env, (hpkeEncrypt0Encrypt key kid args rng env).ret = .ok () →
    ∃ key' protectedHdr, key = some key' ∧ algProtectedHdr algHpke0 = .ok protectedHdr
      ∧ ∀ priv, key'.PrivateHalf Half priv →
        ReturnsPayload args (hpkeEncrypt0Encrypt key kid args rng env)
          (encStructure0 protectedHdr args.extAad.bytes).bytes (hpkeEncrypt0Decrypt (some priv)))
  ∧ (∀ key args out out', encrypt0Decrypt key args out = (.ok (), out') →
    ∃ key' input plaintext hdr payload msg, key = some key' ∧ args.input = some input
      ∧ out.plaintext = some plaintext
      ∧ out' = ⟨some hdr, some (Bytes.overwrite plaintext 0 payload), some payload.length⟩
      ∧ Encrypt0Opened key' input.bytes args.detachedCt args.extAad hdr payload msg)
  ∧ (∀ key args out out' fault, encrypt0Decrypt key args out = (.error fault, out') → out.Cleared out')
  ∧ (∀ key args out out', hpkeEncrypt0Decrypt key args out = (.ok (), out') →
    ∃ key' input plaintext hdr payload msg, key = some key' ∧ args.input = some input
      ∧ out.plaintext = some plaintext
      ∧ out' = ⟨some hdr, some (Bytes.overwrite plaintext 0 payload), some payload.length⟩
      ∧ HpkeEncrypt0Opened key' input.bytes args.detachedCt args.extAad hdr payload msg)
  ∧ (∀ key args out out' fault, hpkeEncrypt0Decrypt key args out = (.error fault, out') → out.Cleared out')
  := by
  refine ⟨?_, ?_, ?_, ?_, ?_, ?_⟩
  · intro key alg iv args h
    apply encrypt0_returns_payload haead h
  · intro hhpke key kid args rng env h
    apply hpkeEncrypt0_returns_payload hcorrect hhpke h
  · intro key args out out' h
    apply encrypt0Decrypt_ok h
  · intro key args out out' fault h
    apply DecryptOut.finish_error h
  · intro key args out out' h
    apply hpkeEncrypt0Decrypt_ok h
  · intro key args out out' fault h
    apply DecryptOut.finish_error h

end

section Instances

attribute [local instance] defaultSettings defaultAeadSettings p256Crypt

/-! ### Two messages -/

/-- A key for AES-GCM. -/
def integratedGcmKey : Bytes := (List.range' 0x10 16).map UInt8.ofNat

/-- The private key of a recipient. -/
def integratedPriv : Bytes :=
  [0xF3, 0xCE, 0x7F, 0xDA, 0xE5, 0x7E, 0x1A, 0x31, 0x0D, 0x87, 0xF1, 0xEB, 0xBD, 0xE6, 0xF3, 0x28, 0xBE, 0x0A,
   0x99, 0xCD, 0xBC, 0xAD, 0xF4, 0xD6, 0x58, 0x9C, 0xF2, 0x9D, 0xE4, 0xB8, 0xFF, 0xD2]

/-- The public key of the recipient. -/
def integratedPub : Bytes :=
  [0x04, 0xFE, 0x8C, 0x19, 0xCE, 0x09, 0x05, 0x19, 0x1E, 0xBC, 0x29, 0x8A, 0x92, 0x45, 0x79, 0x25, 0x31, 0xF2,
   0x6F, 0x0C, 0xEC, 0xE2, 0x46, 0x06, 0x39, 0xE8, 0xBC, 0x39, 0xCB, 0x7F, 0x70, 0x6A, 0x82, 0x6A, 0x77, 0x9B,
   0x4C, 0xF9, 0x69, 0xB8, 0xA0, 0xE5, 0x39, 0xC7, 0xF6, 0x2F, 0xB3, 0xD3, 0x0A, 0xD6, 0xAA, 0x8F, 0x80, 0xE3,
   0x0F, 0x1D, 0x12, 0x8A, 0xAF, 0xD6, 0x8A, 0x2C, 0xE7, 0x2E, 0xA0]

/-- An ephemeral key. -/
def integratedEphemeral : Bytes :=
  [0x49, 0x95, 0x78, 0x8E, 0xF4, 0xB9, 0xD6, 0x13, 0x2B, 0x24, 0x9C, 0xE5, 0x9A, 0x77, 0x28, 0x14, 0x93, 0xEB,
   0x39, 0xAF, 0x37, 0x3D, 0x23, 0x6A, 0x1F, 0xE4, 0x15, 0xCB, 0x0C, 0x2D, 0x7B, 0xEB]

/-- The public part of the ephemeral key, as it is sent. -/
def integratedEnc : Bytes :=
  [0x04, 0xA9, 0x27, 0x19, 0xC6, 0x19, 0x5D, 0x50, 0x85, 0x10, 0x4F, 0x46, 0x9A, 0x8B, 0x98, 0x14, 0xD5, 0x83,
   0x8F, 0xF7, 0x2B, 0x60, 0x50, 0x1E, 0x2C, 0x44, 0x66, 0xE5, 0xE6, 0x7B, 0x32, 0x5A, 0xC9, 0x85, 0x36, 0xD7,
   0xB6, 0x1A, 0x1A, 0xF4, 0xB7, 0x8E, 0x5B, 0x7F, 0x95, 0x1C, 0x09, 0x00, 0xBE, 0x86, 0x3C, 0x40, 0x3C, 0xE6,
   0x5C, 0x9B, 0xFC, 0xB9, 0x38, 0x26, 0x57, 0x22, 0x2D, 0x18, 0xC4]

/-- The ciphertext for the recipient. -/
def integratedCiphertext : Bytes :=
  [0x60, 0x3A, 0x20, 0xB5, 0x07, 0xFC, 0x81, 0x8F, 0x64, 0x96, 0x01, 0x87, 0x0F, 0x40, 0x62, 0x3A, 0x99, 0x73, 0x9A]

/-- The payload of both messages. -/
def integratedPayload : Bytes := [0x01, 0x02, 0x03]

/-- The structure that is authenticated with the payload, for a protected bucket. -/
def integratedAad (protectedHdr : Bytes) : Bytes :=
  [0x83, 0x68] ++ ctxEncrypt0 ++ stringBytes .bstr protectedHdr ++ [0x40]

/-- AES-GCM as far as one message goes. -/
@[reducible]
def integratedAeadCrypt : AeadCrypt where
  Aes := Bytes
  aesInit := some []
  aesGcmSetKey _ key := some key.bytes
  aesGcmEncrypt key payload iv aad _ :=
    if (key, iv, aad, payload) = (integratedGcmKey, (List.range 12).map UInt8.ofNat, integratedAad [0xA1, 0x01, 0x01],
        integratedPayload) then do
      let ciphertext ← RecordedCalls.block _ [0xF0, 0x77, 0x17]
      let tag ← RecordedCalls.block _ [0x8C, 0x1B, 0x4F, 0x40, 0x91, 0xA6, 0x01, 0x6E, 0xEF, 0x09, 0x49, 0x28, 0x61, 0x51,
        0x9C, 0x1C]
      return (ciphertext, tag)
    else none
  aesGcmDecrypt key ciphertext iv tag aad :=
    if (key, iv, aad, ciphertext, tag) = (integratedGcmKey, (List.range 12).map UInt8.ofNat,
        integratedAad [0xA1, 0x01, 0x01], [0xF0, 0x77, 0x17], [0x8C, 0x1B, 0x4F, 0x40, 0x91, 0xA6, 0x01, 0x6E, 0xEF, 0x09,
        0x49, 0x28, 0x61, 0x51, 0x9C, 0x1C]) then RecordedCalls.block _ integratedPayload
    else none
  aesCcmSetKey _ _ := none
  aesCcmEncrypt _ _ _ _ _ := none
  aesCcmDecrypt _ _ _ _ _ := none
  chacha20Poly1305Encrypt _ _ _ _ := none
  chacha20Poly1305Decrypt _ _ _ _ _ := none

theorem RecordedCalls.block_eq_some {n : Nat} {bs : Bytes} {block : Block n} :
  RecordedCalls.block n bs = some block ↔ block.val = bs
  := by
  unfold RecordedCalls.block
  split
  · rw [Option.some.injEq]
    constructor
    · rintro rfl
      rfl
    · rintro rfl
      rfl
  · rename_i hne
    constructor
    · rintro ⟨⟩
    · rintro rfl
      exact absurd block.property hne

theorem correctAead_integratedAeadCrypt :
  @CorrectAead integratedAeadCrypt
  := by
  let := integratedAeadCrypt
  constructor
  · intro key payload iv aad tagLen ciphertext tag h
    dsimp only [AeadCrypt.aesGcmEncrypt] at h
    split at h
    swap
    · cases h
    rename_i heq
    simp only [Prod.mk.injEq] at heq
    obtain ⟨rfl, rfl, rfl, rfl⟩ := heq
    simp only [Option.bind_eq_bind, Option.bind_eq_some_iff, Option.pure_def, Option.some.injEq, Prod.mk.injEq,
      RecordedCalls.block_eq_some] at h
    obtain ⟨_, hct, _, htag, rfl, rfl⟩ := h
    refine ⟨⟨integratedPayload, ?_⟩, ?_, rfl⟩
    · rw [hct]
      rfl
    · dsimp only [AeadCrypt.aesGcmDecrypt]
      rw [if_pos, RecordedCalls.block_eq_some]
      rw [hct, htag]
  · rintro _ _ _ _ _ _ _ ⟨⟩
  · rintro _ _ _ _ _ _ ⟨⟩

/-- HPKE as far as one message goes. -/
@[reducible]
def integratedRecipientCrypt : RecipientCrypt where
  rngGenerateBlock _ _ env := (none, env)
  initRng env := (none, env)
  aesKeyWrap _ _ _ := none
  aesKeyUnWrap _ _ _ := none
  eccInit := some ([] : Bytes)
  eccSetRng key _ := some key
  eccCheckKey _ := true
  eccMakeKeyEx _ _ _ _ env := (some integratedEphemeral, env)
  eccSharedSecret _ _ env := (none, env)
  eccExportPublicRaw _ _ := none
  eccImportUnsigned _ _ _ _ := none
  hkdf _ _ _ _ := none
  Hpke := Unit
  hpkeInit := some ()
  hpkeSerializePublicKey _ (key : Bytes) := if key = integratedEphemeral then some integratedEnc else none
  hpkeSealBase _ (ephemeral pub : Bytes) info aad payload :=
    if (ephemeral, pub, info, aad, payload) = (integratedEphemeral, integratedPub, [],
        integratedAad [0xA1, 0x01, 0x18, 0x23], integratedPayload) then
      RecordedCalls.block _ integratedCiphertext
    else none
  hpkeOpenBase _ (priv : Bytes) enc info aad ciphertext _ :=
    if (priv, enc, info, aad, ciphertext) = (integratedPriv, integratedEnc, [], integratedAad [0xA1, 0x01, 0x18, 0x23],
        integratedCiphertext) then
      RecordedCalls.block _ integratedPayload
    else none

/-- The keys of the recipient. -/
def integratedHalf (pub priv : Bytes) : Prop := pub = integratedPub ∧ priv = integratedPriv

attribute [local instance] integratedAeadCrypt integratedRecipientCrypt

theorem correctHpke_integrated :
  CorrectHpke integratedHalf
  := by
  constructor
  · rintro pub priv -
    constructor <;> rfl
  · rintro pub priv hpke (ephemeral : Bytes) enc info aad payload ciphertext ⟨rfl, rfl⟩ - henc hseal
    dsimp only [hpkeSerializePublicKey] at henc
    dsimp only [hpkeSealBase] at hseal
    split at hseal
    swap
    · cases hseal
    rename_i heq
    simp only [Prod.mk.injEq, true_and] at heq
    obtain ⟨rfl, rfl, rfl, rfl⟩ := heq
    rw [if_pos rfl, Option.some.injEq] at henc
    rw [RecordedCalls.block_eq_some] at hseal
    subst henc
    refine ⟨⟨integratedPayload, rfl⟩, ?_, rfl⟩
    dsimp only [hpkeOpenBase]
    rw [if_pos, RecordedCalls.block_eq_some]
    rw [hseal]

/-- The arguments of both calls; the second one detaches the ciphertext. -/
def integratedArgs (detached : Pointer) : EncryptArgs :=
  ⟨.mem integratedPayload, detached, some 0, .null 0, some (.ofBytes (List.replicate 32 0)),
    some (.ofBytes (List.replicate 128 0)), some 0⟩

/-- The message of a call, and its detached ciphertext. -/
def EncryptOut.handed (out : EncryptOut) : Bytes × Pointer :=
  ((out.out.getD []).take (out.outLen.getD 0), .mem ((out.detached.getD []).take (out.detachedLen.getD 0)))

/-- The arguments of a receiver of the results of a call. -/
def EncryptOut.decryptArgs (out : EncryptOut) : DecryptArgs :=
  ⟨some (.ofBytes out.handed.1), out.handed.2, .null 0, some (.ofBytes (List.replicate 32 0))⟩

set_option maxRecDepth 4000 in
/-- Both messages are decrypted, the second one with a detached ciphertext. -/
theorem encrypt0_round_trip_instance :
  (∃ hdr, encrypt0Decrypt (some (.ofSymmetric integratedGcmKey))
        (encrypt0Encrypt (some (.ofSymmetric integratedGcmKey)) algA128gcm (.mem ((List.range 12).map UInt8.ofNat))
          (integratedArgs (.null 0))).decryptArgs
      ⟨some .zero, some [0, 0, 0], some 0⟩ = (.ok (), ⟨some hdr, some integratedPayload, some 3⟩))
  ∧ ∃ hdr, hpkeEncrypt0Decrypt (some (Key.ofP256 integratedPriv true)) (hpkeEncrypt0Encrypt
        (some (Key.ofP256 integratedPub false)) (.mem [0x37]) (integratedArgs (.mem (List.replicate 20 0)))
        (some ()) ()).decryptArgs
      ⟨some .zero, some [0, 0, 0], some 0⟩ = (.ok (), ⟨some hdr, some integratedPayload, some 3⟩)
  := by
  obtain ⟨hsymm, hhpke, -⟩ := encrypt0_round_trip correctAead_integratedAeadCrypt correctHpke_integrated
  constructor
  · obtain ⟨key, protectedHdr, hkey, hprot, hdec⟩ := hsymm (some (.ofSymmetric integratedGcmKey)) algA128gcm
      (.mem ((List.range 12).map UInt8.ofNat)) (integratedArgs (.null 0)) (by decide +kernel)
    cases hkey
    have hprot' : protectedHdr = [0xA1, 0x01, 0x01] := Except.ok.inj (hprot.symm.trans (by decide +kernel))
    subst hprot'
    apply hdec .zero 0
    constructor
    · refine ⟨_, _, rfl, rfl, by decide +kernel⟩
    · rintro ⟨⟩
    · decide +kernel
    · constructor <;> decide +kernel
  · obtain ⟨key, protectedHdr, hkey, hprot, hdec⟩ := hhpke rfl (some (Key.ofP256 integratedPub false))
      (.mem [0x37]) (integratedArgs (.mem (List.replicate 20 0))) (some ()) () (by decide +kernel)
    cases hkey
    have hprot' : protectedHdr = [0xA1, 0x01, 0x18, 0x23] := Except.ok.inj (hprot.symm.trans (by decide +kernel))
    subst hprot'
    have hhalf : (Key.ofP256 integratedPub false).PrivateHalf integratedHalf (Key.ofP256 integratedPriv true) :=
      ⟨rfl, rfl, rfl, rfl, ⟨_, _, rfl, rfl, rfl, rfl⟩, rfl⟩
    apply hdec _ hhalf .zero 0
    constructor
    · refine ⟨_, _, rfl, rfl, by decide +kernel⟩
    · rintro -
      exact ⟨_, _, rfl, rfl, rfl⟩
    · decide +kernel
    · constructor <;> decide +kernel

end Instances

end WolfCose
