import WolfCose.Encrypt.Distribution
import WolfCose.Mac.Mac0

/-!
# Creating COSE_Encrypt

`wc_CoseEncrypt_Encrypt` of `wolfcose_encrypt.c`.  The algorithm of the first recipient selects how the
key of the message comes about: it is the key of that recipient, it is agreed on with that recipient,
or it is drawn and encrypted for every recipient.
-/

namespace WolfCose

open Program Cbor Settings RecipientSettings WolfCrypt RecipientCrypt

section

variable [Settings] [RecipientSettings] [AeadSettings] [WolfCrypt] [AeadCrypt] [RecipientCrypt]

/-! ### The key of the message -/

/-- `wolfCose_ValidateRecipientKeyAlg` -/
def validateRecipientKeyAlg (key : Option Key) (recipientAlgId contentAlgId : Int) : Except Err Unit :=
  match key with
  | none => .ok ()
  | some key =>
      let expectedAlg :=
        if recipientAlgId = algUnset ∨ recipientAlgId = algDirect then contentAlgId else recipientAlgId
      if key.alg ≠ algUnset ∧ key.alg ≠ expectedAlg then .error .coseBadAlg else .ok ()

/-- How the key of a message is distributed, with what the recipients need. -/
inductive CekMode where
  | direct
  | keyWrap (rng : Rng)
  | ecdhEs (crv : Int) (ephem : EphemeralPub)
  | hpke (rng : Rng)

/-- The branch of `wc_CoseEncrypt_Encrypt` for recipients with HPKE, for which the key of the message is
drawn. -/
def hpkeCek (recipients : List Recipient) (keyLen : Nat) (rng : Option Rng) : Drawing (CekMode × Pointer) :=
  match rng with
  | none => throw (.err .invalidArg)
  | some rng => do
      steady (recipients.forM fun recipient => do
        failWhen (recipient.algId ≠ algHpke0Ke) .coseBadAlg
        let _ ← hpke0ValidateKey recipient.key algHpke0Ke false)
      let cek ← drawing (rngGenerateBlock rng keyLen)
      return (.hpke rng, .mem cek.val)

/-- The branch of `wc_CoseEncrypt_Encrypt` for a recipient with ECDH-ES, which the key of the message is
agreed on with. -/
def ecdhCek (recipients : List Recipient) (first : Recipient) (contentAlgId : Int) (keyLen : Nat)
    (rng : Option Rng) : Drawing (CekMode × Pointer) := do
  steady (failWhen (recipients.length > 1) .invalidArg)
  match first.key with
  | none => throw (.err .coseKeyType)
  | some key => do
      steady (failWhen (key.kty ≠ ktyEc2 ∨ key.object.isNull = true) .coseKeyType)
      match rng with
      | none => throw (.err .invalidArg)
      | some rng => do
          steady (failWhen (key.alg ≠ algUnset ∧ key.alg ≠ first.algId) .coseBadAlg)
          let recipientProtected ← steady (lift (algProtectedHdr first.algId))
          let (ephem, cek) ← ecdhEsDirect first.algId key contentAlgId keyLen recipientProtected 32 rng
          return (.ecdhEs key.crv ephem, .mem cek)

/-- The checks of `wc_CoseEncrypt_Encrypt` on a recipient with key wrap. -/
def checkKeyWrapRecipient (recipient : Recipient) : Checked Unit := do
  failWhen (¬ isKeyWrapAlg recipient.algId) .coseBadAlg
  match recipient.key with
  | none => throw (.err .coseKeyType)
  | some key => do
      failWhen (key.alg ≠ algUnset ∧ key.alg ≠ recipient.algId) .coseBadAlg
      failWhen (key.kty ≠ ktySymmetric) .coseKeyType
      let kekLen ← lift (keyWrapKeySize recipient.algId)
      failWhen (key.symmKeyLen ≠ kekLen) .coseKeyType

/-- The branch of `wc_CoseEncrypt_Encrypt` for recipients with key wrap, for which the key of the message
is drawn. -/
def keyWrapCek (recipients : List Recipient) (keyLen : Nat) (rng : Option Rng) : Drawing (CekMode × Pointer) :=
  match rng with
  | none => throw (.err .invalidArg)
  | some rng => do
      steady (recipients.forM checkKeyWrapRecipient)
      let cek ← drawing (rngGenerateBlock rng keyLen)
      return (.keyWrap rng, .mem cek.val)

/-- The branch of `wc_CoseEncrypt_Encrypt` for direct recipients: the key of the message is that of the
first one. -/
def directCek (recipients : List Recipient) (first : Recipient) (contentAlgId : Int) (keyLen : Nat) :
    Checked (CekMode × Pointer) :=
  match first.key with
  | none => throw (.err .coseKeyType)
  | some key => do
      failWhen (key.kty ≠ ktySymmetric ∨ key.symmKeyLen ≠ keyLen) .coseKeyType
      failWhen (key.alg ≠ algUnset ∧ key.alg ≠ contentAlgId) .coseBadAlg
      recipients.forM fun recipient => do
        failWhen (recipient.algId ≠ algDirect) .coseBadAlg
        lift (validateRecipientKeyAlg recipient.key recipient.algId contentAlgId)
      let symmKey ← key.symmKey
      return (.direct, symmKey)

/-- The steps of `wc_CoseEncrypt_Encrypt` that determine the key of the message. -/
def senderCek (recipients : List Recipient) (first : Recipient) (contentAlgId : Int) (keyLen : Nat)
    (rng : Option Rng) : Drawing (CekMode × Pointer) :=
  if hpke0KeEncrypt = true ∧ first.algId = algHpke0Ke then hpkeCek recipients keyLen rng
  else if isEcdhEsDirectAlg first.algId then ecdhCek recipients first contentAlgId keyLen rng
  else if isKeyWrapAlg first.algId then keyWrapCek recipients keyLen rng
  else steady (directCek recipients first contentAlgId keyLen)

/-! ### Recipients -/

/-- `wolfCose_EncodeEphemeralKey` -/
def encodeEphemeralKey (crv : Int) (ephem : EphemeralPub) : Enc Unit := do
  encodeMapStart 4
  encodeInt 1
  encodeInt ktyEc2
  encodeInt (-1)
  encodeInt crv
  encodeInt (-2)
  encodeBstr (.mem ephem.x)
  encodeInt (-3)
  encodeBstr (.mem ephem.y)

/-- `WOLFCOSE_HDR_EPHEMERAL_KEY` -/
def hdrEphemeralKey : Int := -1

/-- The steps that encode the kid of a recipient, if it has one. -/
def encodeRecipientKid (kid : Pointer) : Enc Unit :=
  onlyIf (hasKid kid) do
    encodeInt hdrKid
    encodeBstr kid

/-- The algorithms that stand in the unprotected bucket of a recipient. -/
def emitsAlg (alg : Int) : Prop := alg = algDirect ∨ isKeyWrapAlg alg

instance (alg : Int) : Decidable (emitsAlg alg) := inferInstanceAs (Decidable (_ ∨ _))

/-- The steps of `wc_CoseEncrypt_Encrypt` that encode the unprotected bucket of a recipient; `sealCtx` is
there for a recipient with HPKE. -/
def encodeRecipientBucket (mode : CekMode) (recipient : Recipient) (sealCtx : Option Hpke0SealCtx) : Enc Unit :=
  match sealCtx, mode with
  | some sealCtx, _ => do
      encodeMapStart 1
      encodeInt hdrHpkeEk
      encodeBstr (.mem sealCtx.enc)
  | none, .ecdhEs crv ephem => do
      encodeMapStart (if hasKid recipient.kid then 2 else 1)
      encodeRecipientKid recipient.kid
      encodeInt hdrEphemeralKey
      encodeEphemeralKey crv ephem
  | none, _ => do
      encodeMapStart ((if emitsAlg recipient.algId then 1 else 0) + if hasKid recipient.kid then 1 else 0)
      onlyIf (emitsAlg recipient.algId) do
        encodeInt hdrAlg
        encodeInt recipient.algId
      encodeRecipientKid recipient.kid

/-- The steps of `wc_CoseEncrypt_Encrypt` that encode the first two fields of a recipient. -/
def encodeRecipientHeaders (mode : CekMode) (recipient : Recipient) (recipientProtected : Bytes)
    (sealCtx : Option Hpke0SealCtx) : Enc Unit := do
  encodeArrayStart 3
  encodeBstr (.mem recipientProtected)
  encodeRecipientBucket mode recipient sealCtx

/-- The steps of `wc_CoseEncrypt_Encrypt` that seal the key of the message for a recipient with HPKE to the
place at the cursor. -/
def sealCek (sealCtx : Hpke0SealCtx) (recipient : Recipient) (info cek : Bytes) (ctx : EncCtx) : Checked EncCtx := do
  let ciphertextLen := cek.length + hpke0TagSz
  let ctx ← encodeAt (encodeHead .bstr ciphertextLen) ctx
  failWhen (ctx.idx > ctx.bufSz ∨ ciphertextLen > ctx.bufSz - ctx.idx) .cborOverflow
  let ciphertext ← hpke0Seal sealCtx recipient.key info [] cek ciphertextLen
  return ctx.put ciphertext

/-- The protected bucket of a recipient without HPKE. -/
def recipientProtectedHdr (alg : Int) : Except Err Bytes :=
  if emitsAlg alg then .ok [] else algProtectedHdr alg

/-- One turn of the loop of `wc_CoseEncrypt_Encrypt` over the recipients. -/
def encodeRecipient (mode : CekMode) (contentAlgId : Int) (cek : Bytes) (scratch : Buffer) (ctx : EncCtx)
    (recipient : Recipient) : Drawing EncCtx :=
  match mode with
  | .hpke rng => do
      let recipientProtected ← steady (lift (hpke0EncodeRecipientProtectedHdr algHpke0Ke recipient.kid))
      let info ← steady (lift (hpke0BuildRecipientInfo contentAlgId recipientProtected scratch))
      let sealCtx ← hpke0SealInit recipient.key algHpke0Ke rng
      let ctx ← steady (encodeAt (encodeRecipientHeaders mode recipient recipientProtected (some sealCtx)) ctx)
      steady (sealCek sealCtx recipient info cek ctx)
  | .keyWrap _ => do
      let recipientProtected ← steady (lift (recipientProtectedHdr recipient.algId))
      let ctx ← steady (encodeAt (encodeRecipientHeaders mode recipient recipientProtected none) ctx)
      let wrapped ← steady (keyWrap recipient.algId recipient.key cek 40)
      steady (encodeAt (encodeBstr (.mem wrapped)) ctx)
  | _ => do
      let recipientProtected ← steady (lift (recipientProtectedHdr recipient.algId))
      let ctx ← steady (encodeAt (encodeRecipientHeaders mode recipient recipientProtected none) ctx)
      steady (encodeAt (encodeBstr (.null 0)) ctx)

/-! ### The message -/

/-- The arguments of `wc_CoseEncrypt_Encrypt` besides the recipients and the algorithm; `outLen` is the
value that the caller has stored where the length of the message goes. -/
structure EncryptMultiArgs where
  iv : Pointer
  payload : Pointer
  detachedPayload : Pointer
  extAad : Pointer
  scratch : Option Buffer
  out : Option Buffer
  outLen : Option Nat
  rng : Option Rng

/-- The check of the lengths against the word size of wolfCrypt. -/
def EncryptMultiArgs.lengthsFit (args : EncryptMultiArgs) (scratch out : Buffer) : Prop :=
  lenFitsWord32 args.payload.len = true ∧ lenFitsWord32 args.extAad.len = true
    ∧ lenFitsWord32 args.detachedPayload.len = true ∧ lenFitsWord32 out.bytes.length = true
    ∧ lenFitsWord32 scratch.bytes.length = true

instance (args : EncryptMultiArgs) (scratch out : Buffer) : Decidable (args.lengthsFit scratch out) :=
  inferInstanceAs (Decidable (_ ∧ _))

/-- The payload that is encrypted. -/
def EncryptMultiArgs.encryptPayload (args : EncryptMultiArgs) : Pointer :=
  if args.detachedPayload.isNull = false then args.detachedPayload else args.payload

/-- The steps of `wc_CoseEncrypt_Encrypt` that encode the message before the ciphertext. -/
def encodeEncrypt (protectedHdr iv : Bytes) : Enc Unit := do
  encodeTag tagEncrypt
  encodeArrayStart 4
  encodeBstr (.mem protectedHdr)
  encodeMapStart 1
  encodeInt hdrIv
  encodeBstr (.mem iv)

/-- What is encrypted into a message: the cipher with its key, the structure that is authenticated with the
payload, the length of the tag, and the context with the cursor at the place for the ciphertext. -/
structure AeadCall where
  cipher : AeadCipher
  iv : Bytes
  aad : Bytes
  payload : Bytes
  tagLen : Nat
  ctx : EncCtx

/-- The steps of `wc_CoseEncrypt_Encrypt` up to the call of the cipher, after the checks for null
pointers; the result is also the mode and the key of the message. -/
def encryptPrepare (recipients : List Recipient) (first : Recipient) (contentAlgId : Int) (args : EncryptMultiArgs)
    (scratch out : Buffer) : Drawing (AeadCall × CekMode × Pointer) := do
  steady (failWhen (args.detachedPayload.isNull = true ∧ args.detachedPayload.len ≠ 0) .invalidArg)
  steady (failWhen (¬ args.lengthsFit scratch out) .invalidArg)
  steady (recipients.forM fun recipient => failWhen (¬ kidConsistent recipient.kid) .invalidArg)
  steady (failWhen (args.payload.isNull = true ∧ args.detachedPayload.isNull = true) .invalidArg)
  let payload := args.encryptPayload
  let keyLen ← steady (lift (aeadKeyLen contentAlgId))
  let tagLen ← steady (lift (aeadTagLen contentAlgId))
  steady (lift (aeadCheckPayloadLen contentAlgId payload.len))
  let nonceLen ← steady (lift (aeadNonceLen contentAlgId))
  steady (failWhen (args.iv.len ≠ nonceLen) .invalidArg)
  let (mode, cek) ← senderCek recipients first contentAlgId keyLen args.rng
  let protectedHdr ← steady (lift (algProtectedHdr contentAlgId))
  let aad ← steady (lift (buildEncStructure (.mem ctxEncrypt) (.mem protectedHdr) args.extAad (some scratch)))
  let ctx ← steady (encodeAt (encodeEncrypt protectedHdr args.iv.bytes) (.init out))
  steady (failWhen (args.detachedPayload.isNull = false) .unsupported)
  steady (failWhen (payload.len > sizeMax - tagLen) .bufferTooSmall)
  let ctx ← steady (encodeAt (encodeHead .bstr (payload.len + tagLen)) ctx)
  steady (failWhen (sizeSum ctx.idx (payload.len + tagLen) > ctx.bufSz) .cborOverflow)
  let cipher ← steady (aeadSetKey contentAlgId cek)
  return (⟨cipher, args.iv.bytes, aad, payload.bytes, tagLen, ctx⟩, mode, cek)

/-- The steps of `wc_CoseEncrypt_Encrypt` after the checks for null pointers. -/
def encryptMessage (recipients : List Recipient) (first : Recipient) (contentAlgId : Int) (args : EncryptMultiArgs)
    (scratch out : Buffer) : Drawing EncCtx := do
  let (call, mode, cek) ← encryptPrepare recipients first contentAlgId args scratch out
  let ctx ← steady (encryptAt call.cipher call.iv call.aad call.payload call.tagLen call.ctx)
  let ctx ← steady (encodeAt (encodeArrayStart recipients.length) ctx)
  recipients.foldlM (encodeRecipient mode contentAlgId cek.bytes scratch) ctx

/-- The last steps of `wc_CoseEncrypt_Encrypt`: the message is returned, or the output buffer is cleared. -/
def encryptFinish (args : EncryptMultiArgs) (p : Drawing EncCtx) (env : Env) : CreateOut :=
  match p env with
  | .ok ctx _ => ⟨.ok (), some ctx.buf.bytes, some ctx.idx⟩
  | .error fault _ => ⟨.error fault, args.out.map fun buf => forceZero buf.bytes, args.outLen⟩

/-- `wc_CoseEncrypt_Encrypt` -/
def encryptEncrypt (recipients : List Recipient) (contentAlgId : Int) (args : EncryptMultiArgs) (env : Env) :
    CreateOut :=
  encryptFinish args
    (match recipients.head?, args.scratch, args.out, args.outLen with
    | some first, some scratch, some out, some _ => do
        steady (failWhen (args.iv.isNull = true ∨ args.iv.len = 0) .invalidArg)
        encryptMessage recipients first contentAlgId args scratch out
    | _, _, _, _ => throw (.err .invalidArg)) env

/-! ### A call that succeeds -/

omit [RecipientSettings] [AeadSettings] [AeadCrypt] [RecipientCrypt] in
theorem encryptFinish_ok {args : EncryptMultiArgs} {p : Drawing EncCtx} {env : Env}
    (h : (encryptFinish args p env).ret = .ok ()) :
  ∃ ctx env', Runs p env ctx env'
  := by
  unfold encryptFinish at h
  cases hp : p env with
  | ok ctx env' => exact ⟨ctx, env', hp⟩
  | error fault env' =>
      rw [hp] at h
      cases h

/-- What a call that encrypts for recipients has done: the key of the message is determined, and every recipient is
encoded. -/
theorem encryptEncrypt_senderCek {recipients : List Recipient} {alg : Int} {args : EncryptMultiArgs} {env : Env}
    (hret : (encryptEncrypt recipients alg args env).ret = .ok ()) :
  ∃ first keyLen mode cek env₁ env₂, recipients.head? = some first ∧ aeadKeyLen alg = .ok keyLen
    ∧ Runs (senderCek recipients first alg keyLen args.rng) env₁ (mode, cek) env₂
    ∧ ∀ recipient ∈ recipients, ∃ scratch ctx env₃ ctx' env₄,
      Runs (encodeRecipient mode alg cek.bytes scratch ctx recipient) env₃ ctx' env₄
  := by
  obtain ⟨ctx, env', hruns⟩ := encryptFinish_ok hret
  split at hruns
  swap
  · exact absurd hruns (runs_throw _ _ _ _)
  rename_i first scratch out _ hfirst _ _ _
  simp only [encryptMessage, runs_steady_bind] at hruns
  obtain ⟨_, -, hruns⟩ := hruns
  obtain ⟨⟨call, mode, cek⟩, _, hprepared, hruns⟩ := (runs_bind _ _ _ _ _).mp hruns
  simp only [runs_steady_bind] at hruns
  obtain ⟨_, -, _, -, hloop⟩ := hruns
  simp only [encryptPrepare, runs_steady_bind, lift_eq_ok] at hprepared
  obtain ⟨_, -, _, -, _, -, _, -, keyLen, hkeyLen, _, -, _, -, _, -, _, -, hprepared⟩ := hprepared
  obtain ⟨⟨mode', cek'⟩, _, hcek, hprepared⟩ := (runs_bind _ _ _ _ _).mp hprepared
  simp only [runs_steady_bind, runs_pure] at hprepared
  obtain ⟨_, -, _, -, _, -, _, -, _, -, _, -, _, -, _, -, heq, -⟩ := hprepared
  cases heq
  refine ⟨first, keyLen, mode, cek, _, _, hfirst, hkeyLen, hcek, ?_⟩
  intro recipient hmem
  obtain ⟨_, _, _, _, hstep⟩ := runs_foldlM_of_mem hmem hloop
  exact ⟨_, _, _, _, _, hstep⟩

omit [AeadSettings] [AeadCrypt] in
/-- With a recipient with key wrap, the key of a message is wrapped for all recipients. -/
theorem mode_of_keyWrapRecipient {recipients : List Recipient} {first recipient : Recipient} {alg : Int} {keyLen : Nat}
    {rng : Option Rng} {mode : CekMode} {cek : Pointer} {env env' : Env} (hmem : recipient ∈ recipients)
    (hfirst : recipients.head? = some first) (hwrap : isKeyWrapAlg recipient.algId)
    (h : Runs (senderCek recipients first alg keyLen rng) env (mode, cek) env') :
  ∃ rng, mode = .keyWrap rng
  := by
  have halg := hwrap.2
  unfold senderCek at h
  simp only [runs_ite] at h
  rcases h with ⟨-, h⟩ | ⟨-, ⟨hecdh, h⟩ | ⟨-, ⟨-, h⟩ | ⟨-, h⟩⟩⟩
  · unfold hpkeCek at h
    split at h
    · exact absurd h (runs_throw _ _ _ _)
    · simp only [runs_steady_bind, forM_eq_ok, bind_eq_ok, failWhen_eq_ok] at h
      obtain ⟨_, hall, -⟩ := h
      obtain ⟨_, hhpke, -⟩ := hall recipient hmem
      rw [Decidable.not_not.mp hhpke] at halg
      exact absurd halg (by decide)
  · simp only [ecdhCek, runs_steady_bind, failWhen_eq_ok] at h
    obtain ⟨_, hone, -⟩ := h
    obtain rfl : recipient = first := by
      cases recipients with
      | nil => cases hmem
      | cons r rs =>
          obtain rfl : rs = [] := List.eq_nil_of_length_eq_zero (by rw [List.length_cons] at hone; omega)
          exact (List.mem_singleton.mp hmem).trans (Option.some.inj hfirst)
    rcases hecdh.2 with hecdh | hecdh
    all_goals
      rw [hecdh] at halg
      exact absurd halg (by decide)
  · unfold keyWrapCek at h
    split at h
    · exact absurd h (runs_throw _ _ _ _)
    · rename_i rng
      obtain ⟨_, -, h⟩ := (runs_steady_bind _ _ _ _ _).mp h
      obtain ⟨_, _, -, h⟩ := (runs_bind _ _ _ _ _).mp h
      exact ⟨rng, (Prod.mk.inj ((runs_pure _ _ _ _).mp h).1).1.symm⟩
  · rw [runs_steady, directCek] at h
    split at h
    · cases h.1
    · simp only [bind_eq_ok, forM_eq_ok, failWhen_eq_ok] at h
      obtain ⟨⟨_, -, _, -, _, hall, -⟩, -⟩ := h
      obtain ⟨_, hdirect, -⟩ := hall recipient hmem
      rw [Decidable.not_not.mp hdirect] at halg
      exact absurd halg (by decide)

end

end WolfCose
