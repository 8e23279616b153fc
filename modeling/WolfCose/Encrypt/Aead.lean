import WolfCose.Lib.Blocks
import WolfCose.Sig.Verify

/-!
# Authenticated encryption

The algorithms of `wolfcose_alg.c` for authenticated encryption with additional data, and the
dispatch of the encrypting and decrypting functions over their families: AES-GCM, AES-CCM and
ChaCha20-Poly1305.  An encryption is the ciphertext of the payload followed by a tag.
-/

namespace WolfCose

open Program Settings

/-! ### Algorithms -/

/-- The settings of a build that select the algorithms for authenticated encryption. -/
class AeadSettings where
  /-- Whether `WOLFCOSE_HAVE_AESGCM` is defined. -/
  haveAesGcm : Bool
  /-- Whether `WOLFCOSE_HAVE_AESCCM` is defined. -/
  haveAesCcm : Bool
  /-- Whether `WOLFCOSE_HAVE_CHACHA20` is defined. -/
  haveChacha20 : Bool

/-- A build with every algorithm. -/
@[reducible]
def defaultAeadSettings : AeadSettings where
  haveAesGcm := true
  haveAesCcm := true
  haveChacha20 := true

open AeadSettings

/-- `WOLFCOSE_ALG_A128GCM` -/
def algA128gcm : Int := 1

/-- `WOLFCOSE_ALG_A192GCM` -/
def algA192gcm : Int := 2

/-- `WOLFCOSE_ALG_A256GCM` -/
def algA256gcm : Int := 3

/-- `WOLFCOSE_ALG_CHACHA20_POLY1305` -/
def algChacha20Poly1305 : Int := 24

/-- `WOLFCOSE_ALG_AES_CCM_16_64_128` -/
def algAesCcm16_64_128 : Int := 10

/-- `WOLFCOSE_ALG_AES_CCM_16_64_256` -/
def algAesCcm16_64_256 : Int := 11

/-- `WOLFCOSE_ALG_AES_CCM_64_64_128` -/
def algAesCcm64_64_128 : Int := 12

/-- `WOLFCOSE_ALG_AES_CCM_64_64_256` -/
def algAesCcm64_64_256 : Int := 13

/-- `WOLFCOSE_ALG_AES_CCM_16_128_128` -/
def algAesCcm16_128_128 : Int := 30

/-- `WOLFCOSE_ALG_AES_CCM_16_128_256` -/
def algAesCcm16_128_256 : Int := 31

/-- `WOLFCOSE_ALG_AES_CCM_64_128_128` -/
def algAesCcm64_128_128 : Int := 32

/-- `WOLFCOSE_ALG_AES_CCM_64_128_256` -/
def algAesCcm64_128_256 : Int := 33

/-- The algorithms with AES-GCM. -/
def isAesGcm (alg : Int) : Prop :=
  alg = algA128gcm ∨ alg = algA192gcm ∨ alg = algA256gcm

instance (alg : Int) : Decidable (isAesGcm alg) := inferInstanceAs (Decidable (_ ∨ _))

/-- The algorithms with AES-CCM. -/
def isAesCcm (alg : Int) : Prop :=
  alg = algAesCcm16_64_128 ∨ alg = algAesCcm16_64_256 ∨ alg = algAesCcm64_64_128 ∨ alg = algAesCcm64_64_256
    ∨ alg = algAesCcm16_128_128 ∨ alg = algAesCcm16_128_256 ∨ alg = algAesCcm64_128_128
    ∨ alg = algAesCcm64_128_256

instance (alg : Int) : Decidable (isAesCcm alg) := inferInstanceAs (Decidable (_ ∨ _))

section

variable [AeadSettings]

/-- `wolfCose_AeadKeyLen` -/
def aeadKeyLen (alg : Int) : Except Err Nat :=
  if haveAesGcm = true ∧ alg = algA128gcm then .ok 16
  else if haveAesGcm = true ∧ alg = algA192gcm then .ok 24
  else if haveAesGcm = true ∧ alg = algA256gcm then .ok 32
  else if haveChacha20 = true ∧ alg = algChacha20Poly1305 then .ok 32
  else if haveAesCcm = true ∧ (alg = algAesCcm16_64_128 ∨ alg = algAesCcm64_64_128 ∨ alg = algAesCcm16_128_128
      ∨ alg = algAesCcm64_128_128) then .ok 16
  else if haveAesCcm = true ∧ (alg = algAesCcm16_64_256 ∨ alg = algAesCcm64_64_256 ∨ alg = algAesCcm16_128_256
      ∨ alg = algAesCcm64_128_256) then .ok 32
  else .error .coseBadAlg

/-- `wolfCose_AeadNonceLen` -/
def aeadNonceLen (alg : Int) : Except Err Nat :=
  if haveAesGcm = true ∧ isAesGcm alg then .ok 12
  else if haveChacha20 = true ∧ alg = algChacha20Poly1305 then .ok 12
  else if haveAesCcm = true ∧ (alg = algAesCcm16_64_128 ∨ alg = algAesCcm16_64_256 ∨ alg = algAesCcm16_128_128
      ∨ alg = algAesCcm16_128_256) then .ok 13
  else if haveAesCcm = true ∧ (alg = algAesCcm64_64_128 ∨ alg = algAesCcm64_64_256 ∨ alg = algAesCcm64_128_128
      ∨ alg = algAesCcm64_128_256) then .ok 7
  else .error .coseBadAlg

/-- `wolfCose_AeadTagLen` -/
def aeadTagLen (alg : Int) : Except Err Nat :=
  if haveAesGcm = true ∧ isAesGcm alg then .ok 16
  else if haveChacha20 = true ∧ alg = algChacha20Poly1305 then .ok 16
  else if haveAesCcm = true ∧ (alg = algAesCcm16_64_128 ∨ alg = algAesCcm16_64_256 ∨ alg = algAesCcm64_64_128
      ∨ alg = algAesCcm64_64_256) then .ok 8
  else if haveAesCcm = true ∧ (alg = algAesCcm16_128_128 ∨ alg = algAesCcm16_128_256 ∨ alg = algAesCcm64_128_128
      ∨ alg = algAesCcm64_128_256) then .ok 16
  else .error .coseBadAlg

/-- `wolfCose_AeadCheckPayloadLen`, which is not called in a build without AES-CCM. -/
def aeadCheckPayloadLen (alg : Int) (payloadLen : Nat) : Except Err Unit :=
  if haveAesCcm = true ∧ (alg = algAesCcm16_64_128 ∨ alg = algAesCcm16_64_256 ∨ alg = algAesCcm16_128_128
      ∨ alg = algAesCcm16_128_256) ∧ payloadLen > 0xFFFF then .error .invalidArg
  else .ok ()

/-- An algorithm with a key is one of the algorithms above. -/
theorem isAead_of_aeadKeyLen {alg : Int} {keyLen : Nat} (h : aeadKeyLen alg = .ok keyLen) :
  isAesGcm alg ∨ isAesCcm alg ∨ alg = algChacha20Poly1305
  := by
  unfold aeadKeyLen at h
  unfold isAesGcm isAesCcm
  repeat' split at h
  all_goals grind

/-- A key is not empty. -/
theorem aeadKeyLen_pos {alg : Int} {keyLen : Nat} (h : aeadKeyLen alg = .ok keyLen) :
  0 < keyLen
  := by
  unfold aeadKeyLen at h
  repeat' split at h
  all_goals grind

/-- A nonce is not empty. -/
theorem aeadNonceLen_pos {alg : Int} {nonceLen : Nat} (h : aeadNonceLen alg = .ok nonceLen) :
  0 < nonceLen
  := by
  unfold aeadNonceLen at h
  split at h
  · cases h
    decide
  split at h
  · cases h
    decide
  split at h
  · cases h
    decide
  split at h
  · cases h
    decide
  · cases h

/-- A tag is not empty, and not longer than a block. -/
theorem aeadTagLen_bounds {alg : Int} {tagLen : Nat} (h : aeadTagLen alg = .ok tagLen) :
  0 < tagLen ∧ tagLen ≤ 16
  := by
  unfold aeadTagLen at h
  split at h
  · cases h
    decide
  split at h
  · cases h
    decide
  split at h
  · cases h
    decide
  split at h
  · cases h
    decide
  · cases h

end

/-! ### The primitives -/

/-- The functions of wolfCrypt for authenticated encryption.  One that reports errors returns
nothing then; otherwise it writes a ciphertext or a payload as long as its input, and a tag as
long as it is asked for. -/
class AeadCrypt where
  /-- A context `Aes`. -/
  Aes : Type
  /-- `wc_AesInit` -/
  aesInit : Option Aes
  /-- `wc_AesGcmSetKey` -/
  aesGcmSetKey : Aes → Pointer → Option Aes
  /-- `wc_AesGcmEncrypt` of a payload with a nonce and additional data. -/
  aesGcmEncrypt : Aes → (payload : Bytes) → (iv aad : Bytes) → (tagLen : Nat) →
    Option (Block payload.length × Block tagLen)
  /-- `wc_AesGcmDecrypt` of a ciphertext with a nonce, a tag and additional data. -/
  aesGcmDecrypt : Aes → (ciphertext : Bytes) → (iv tag aad : Bytes) → Option (Block ciphertext.length)
  /-- `wc_AesCcmSetKey` -/
  aesCcmSetKey : Aes → Pointer → Option Aes
  /-- `wc_AesCcmEncrypt` of a payload with a nonce and additional data. -/
  aesCcmEncrypt : Aes → (payload : Bytes) → (iv aad : Bytes) → (tagLen : Nat) →
    Option (Block payload.length × Block tagLen)
  /-- `wc_AesCcmDecrypt` of a ciphertext with a nonce, a tag and additional data. -/
  aesCcmDecrypt : Aes → (ciphertext : Bytes) → (iv tag aad : Bytes) → Option (Block ciphertext.length)
  /-- `wc_ChaCha20Poly1305_Encrypt` with a key and a nonce, of additional data and a payload. -/
  chacha20Poly1305Encrypt : Pointer → (iv aad payload : Bytes) → Option (Block payload.length × Block 16)
  /-- `wc_ChaCha20Poly1305_Decrypt` with a key and a nonce, of additional data, a ciphertext and
  a tag. -/
  chacha20Poly1305Decrypt : Pointer → (iv aad ciphertext tag : Bytes) → Option (Block ciphertext.length)

open AeadCrypt

/-! ### The dispatch over the families of algorithms -/

section

variable [AeadSettings] [AeadCrypt]

/-- A cipher that is ready to be used: a context with its key, or a key. -/
inductive AeadCipher where
  | aesGcm (aes : Aes)
  | aesCcm (aes : Aes)
  | chacha20Poly1305 (key : Pointer)

/-- The first steps of the branches of the encrypting and decrypting functions, which set the
key. -/
def aeadSetKey (alg : Int) (key : Pointer) : Checked AeadCipher :=
  if haveAesGcm = true ∧ isAesGcm alg then do
    let aes ← orCrypto aesInit
    let aes ← orCrypto (aesGcmSetKey aes key)
    return .aesGcm aes
  else if haveAesCcm = true ∧ isAesCcm alg then do
    let aes ← orCrypto aesInit
    let aes ← orCrypto (aesCcmSetKey aes key)
    return .aesCcm aes
  else if haveChacha20 = true ∧ alg = algChacha20Poly1305 then return .chacha20Poly1305 key
  else throw (.err .coseBadAlg)

omit [AeadSettings] in
/-- The steps that encrypt a payload: the ciphertext and after it the tag. -/
def aeadEncrypt (cipher : AeadCipher) (iv aad payload : Bytes) (tagLen : Nat) : Checked Bytes :=
  match cipher with
  | .aesGcm aes => do
      let (ciphertext, tag) ← orCrypto (aesGcmEncrypt aes payload iv aad tagLen)
      return ciphertext.val ++ tag.val
  | .aesCcm aes => do
      let (ciphertext, tag) ← orCrypto (aesCcmEncrypt aes payload iv aad tagLen)
      return ciphertext.val ++ tag.val
  | .chacha20Poly1305 key => do
      let (ciphertext, tag) ← orCrypto (chacha20Poly1305Encrypt key iv aad payload)
      return ciphertext.val ++ tag.val

/-- The result of a decryption, whose failure is `WOLFCOSE_E_COSE_DECRYPT_FAIL`. -/
def orDecryptFail {n : Nat} : Option (Block n) → Checked Bytes
  | some payload => .ok payload.val
  | none => .error (.err .coseDecryptFail)

omit [AeadSettings] in
/-- The steps that decrypt a ciphertext and check its tag. -/
def aeadDecrypt (cipher : AeadCipher) (iv aad ciphertext tag : Bytes) : Checked Bytes :=
  match cipher with
  | .aesGcm aes => orDecryptFail (aesGcmDecrypt aes ciphertext iv tag aad)
  | .aesCcm aes => orDecryptFail (aesCcmDecrypt aes ciphertext iv tag aad)
  | .chacha20Poly1305 key => orDecryptFail (chacha20Poly1305Decrypt key iv aad ciphertext tag)

/-! ### What the ciphers do -/

omit [AeadSettings] [AeadCrypt] in
theorem orDecryptFail_eq_ok {n : Nat} {x : Option (Block n)} {payload : Bytes} :
  orDecryptFail x = .ok payload ↔ ∃ block, x = some block ∧ block.val = payload
  := by
  cases x <;> simp [orDecryptFail]

/-- Whatever is encrypted is decrypted with the same cipher, nonce and additional data. -/
structure CorrectAead : Prop where
  aesGcm : ∀ {aes : Aes} {payload iv aad : Bytes} {tagLen : Nat} {ciphertext : Block payload.length}
    {tag : Block tagLen}, aesGcmEncrypt aes payload iv aad tagLen = some (ciphertext, tag) →
    ∃ block, aesGcmDecrypt aes ciphertext.val iv tag.val aad = some block ∧ block.val = payload
  aesCcm : ∀ {aes : Aes} {payload iv aad : Bytes} {tagLen : Nat} {ciphertext : Block payload.length}
    {tag : Block tagLen}, aesCcmEncrypt aes payload iv aad tagLen = some (ciphertext, tag) →
    ∃ block, aesCcmDecrypt aes ciphertext.val iv tag.val aad = some block ∧ block.val = payload
  chacha20Poly1305 : ∀ {key : Pointer} {payload iv aad : Bytes} {ciphertext : Block payload.length}
    {tag : Block 16}, chacha20Poly1305Encrypt key iv aad payload = some (ciphertext, tag) →
    ∃ block, chacha20Poly1305Decrypt key iv aad ciphertext.val tag.val = some block ∧ block.val = payload

/-- The key of ChaCha20-Poly1305 is used with the algorithm only. -/
theorem aeadTagLen_of_chacha {alg : Int} {key key' : Pointer} {tagLen : Nat}
    (hset : aeadSetKey alg key = .ok (.chacha20Poly1305 key')) (htag : aeadTagLen alg = .ok tagLen) :
  tagLen = 16
  := by
  unfold aeadSetKey at hset
  split at hset
  · simp only [bind_eq_ok, pure_eq_ok] at hset
    obtain ⟨_, -, _, -, ⟨⟩⟩ := hset
  split at hset
  · simp only [bind_eq_ok, pure_eq_ok] at hset
    obtain ⟨_, -, _, -, ⟨⟩⟩ := hset
  split at hset
  · rename_i hgcm _ hchacha
    rw [aeadTagLen, if_neg hgcm, if_pos hchacha] at htag
    exact (Except.ok.inj htag).symm
  · cases hset

/-- An encryption is a ciphertext as long as the payload and a tag in the length of the algorithm,
and a correct cipher decrypts it. -/
theorem aeadEncrypt_eq_ok {alg : Int} {key : Pointer} {cipher : AeadCipher} {iv aad payload sealed : Bytes}
    {tagLen : Nat} (hset : aeadSetKey alg key = .ok cipher) (htag : aeadTagLen alg = .ok tagLen)
    (h : aeadEncrypt cipher iv aad payload tagLen = .ok sealed) :
  ∃ ciphertext tag, sealed = ciphertext ++ tag ∧ ciphertext.length = payload.length ∧ tag.length = tagLen
    ∧ (CorrectAead → aeadDecrypt cipher iv aad ciphertext tag = .ok payload)
  := by
  cases cipher with
  | aesGcm aes =>
      simp only [aeadEncrypt, bind_eq_ok, orCrypto_eq_ok, pure_eq_ok] at h
      obtain ⟨⟨ciphertext, tag⟩, henc, rfl⟩ := h
      refine ⟨_, _, rfl, ciphertext.property, tag.property, ?_⟩
      intro hcorrect
      exact orDecryptFail_eq_ok.mpr (hcorrect.aesGcm henc)
  | aesCcm aes =>
      simp only [aeadEncrypt, bind_eq_ok, orCrypto_eq_ok, pure_eq_ok] at h
      obtain ⟨⟨ciphertext, tag⟩, henc, rfl⟩ := h
      refine ⟨_, _, rfl, ciphertext.property, tag.property, ?_⟩
      intro hcorrect
      exact orDecryptFail_eq_ok.mpr (hcorrect.aesCcm henc)
  | chacha20Poly1305 key =>
      simp only [aeadEncrypt, bind_eq_ok, orCrypto_eq_ok, pure_eq_ok] at h
      obtain ⟨⟨ciphertext, tag⟩, henc, rfl⟩ := h
      refine ⟨_, _, rfl, ciphertext.property, ?_, ?_⟩
      · rw [aeadTagLen_of_chacha hset htag]
        exact tag.property
      · intro hcorrect
        exact orDecryptFail_eq_ok.mpr (hcorrect.chacha20Poly1305 henc)

end

/-! ### A cipher that can be run -/

/-- The sum of all bytes a tag depends on. -/
def byteSum (data : List Bytes) : UInt8 := data.flatten.foldl UInt8.add 0

/-- Primitives that leave a payload as it is and have a sum of bytes as a tag, with keys in the lengths
of AES. -/
@[reducible]
def sumAeadCrypt : AeadCrypt where
  Aes := Bytes
  aesInit := some []
  aesGcmSetKey _ key := if key.len = 16 ∨ key.len = 24 ∨ key.len = 32 then some key.bytes else none
  aesGcmEncrypt key payload iv aad tagLen :=
    some (⟨payload, rfl⟩, ⟨List.replicate tagLen (byteSum [key, payload, iv, aad]), List.length_replicate⟩)
  aesGcmDecrypt key ciphertext iv tag aad :=
    if tag = List.replicate tag.length (byteSum [key, ciphertext, iv, aad]) then some ⟨ciphertext, rfl⟩ else none
  aesCcmSetKey _ key := if key.len = 16 ∨ key.len = 24 ∨ key.len = 32 then some key.bytes else none
  aesCcmEncrypt key payload iv aad tagLen :=
    some (⟨payload, rfl⟩, ⟨List.replicate tagLen (byteSum [key, payload, iv, aad]), List.length_replicate⟩)
  aesCcmDecrypt key ciphertext iv tag aad :=
    if tag = List.replicate tag.length (byteSum [key, ciphertext, iv, aad]) then some ⟨ciphertext, rfl⟩ else none
  chacha20Poly1305Encrypt key iv aad payload :=
    some (⟨payload, rfl⟩, ⟨List.replicate 16 (byteSum [key.bytes, payload, iv, aad]), List.length_replicate⟩)
  chacha20Poly1305Decrypt key iv aad ciphertext tag :=
    if tag = List.replicate 16 (byteSum [key.bytes, ciphertext, iv, aad]) then some ⟨ciphertext, rfl⟩ else none

end WolfCose
