import WolfCose.Encrypt.Encrypt

/-!
# Room for a ciphertext

Before `wc_CoseEncrypt0_Encrypt` and `wc_CoseEncrypt_Encrypt` call a cipher they check that the ciphertext
and its tag fit where they are written.  The check adds numbers of type `size_t`, so it means what it
should only if the sum does not wrap around.
-/

namespace WolfCose

open Program Cbor Settings WolfCrypt

section

variable [Settings] [AeadSettings] [WolfCrypt] [AeadCrypt]

/-! ### The calls of COSE_Encrypt0 -/

/-- The steps of `wc_CoseEncrypt0_Encrypt` up to the call of the cipher, after the checks for null
pointers. -/
def encrypt0Prepare (key : Key) (alg : Int) (iv : Pointer) (args : EncryptArgs) (scratch out : Buffer) :
    Checked AeadCall := do
  failWhen (¬ args.lengthsFit scratch out) .invalidArg
  failWhen (key.kty ≠ ktySymmetric) .coseKeyType
  failWhen (key.alg ≠ algUnset ∧ key.alg ≠ alg) .coseBadAlg
  let keyLen ← lift (aeadKeyLen alg)
  failWhen (key.symmKeyLen ≠ keyLen) .coseKeyType
  let tagLen ← lift (aeadTagLen alg)
  lift (aeadCheckPayloadLen alg args.payload.len)
  failWhen (args.detached.isNull = false ∧ (args.detachedLen = none ∨
    args.detached.len < sizeSum args.payload.len tagLen)) .bufferTooSmall
  let nonceLen ← lift (aeadNonceLen alg)
  failWhen (iv.len ≠ nonceLen) .invalidArg
  let protectedHdr ← lift (algProtectedHdr alg)
  let aad ← lift (buildEncStructure (.mem ctxEncrypt0) (.mem protectedHdr) args.extAad (some scratch))
  let ctx ← encodeAt (encodeEncrypt0 protectedHdr iv.bytes) (.init out)
  failWhen (args.payload.len > sizeMax - tagLen) .bufferTooSmall
  let symmKey ← key.symmKey
  let cipher ← aeadSetKey alg symmKey
  let ctx ← if args.detached.isNull = false then pure ctx else do
    let ctx ← encodeAt (encodeHead .bstr (args.payload.len + tagLen)) ctx
    failWhen (sizeSum ctx.idx (args.payload.len + tagLen) > ctx.bufSz) .bufferTooSmall
    pure ctx
  return ⟨cipher, iv.bytes, aad, args.payload.bytes, tagLen, ctx⟩

/-- The call of the cipher and what follows. -/
def encrypt0Seal (args : EncryptArgs) (call : AeadCall) : Checked (EncCtx × Option Bytes) :=
  if args.detached.isNull = false then do
    let ciphertext ← aeadEncrypt call.cipher call.iv call.aad call.payload call.tagLen
    let ctx ← encodeAt encodeNull call.ctx
    return (ctx, some ciphertext)
  else do
    let ctx ← encryptAt call.cipher call.iv call.aad call.payload call.tagLen call.ctx
    return (ctx, none)

/-- A message is created by the steps up to the call of the cipher, the call, and what follows. -/
theorem encrypt0Message_eq (key : Key) (alg : Int) (iv : Pointer) (args : EncryptArgs) (scratch out : Buffer) :
  encrypt0Message key alg iv args scratch out
    = encrypt0Prepare key alg iv args scratch out >>= encrypt0Seal args
  := by
  unfold encrypt0Message encrypt0Prepare encrypt0Payload encrypt0Seal
  simp only [bind_assoc, pure_bind]
  split <;> simp only [pure_bind, bind_assoc]

/-! ### The place of the ciphertext -/

/-- The place after the ciphertext and the tag in a message: they follow the given fields, which are a
protected bucket with the algorithm and an unprotected one with the nonce, and the head of the
ciphertext. -/
def ciphertextEnd (fields : Bytes → Bytes → Bytes) (alg : Int) (iv : Bytes) (payloadLen : Nat) : Nat :=
  match algProtectedHdr alg, aeadTagLen alg with
  | .ok protectedHdr, .ok tagLen =>
      (fields protectedHdr iv).length + (preferredHead .bstr (payloadLen + tagLen)).length + payloadLen + tagLen
  | _, _ => 0

/-- The bytes of a COSE_Encrypt message before the ciphertext. -/
def encryptFields (protectedHdr iv : Bytes) : Bytes :=
  preferredHead .tag tagEncrypt ++ preferredHead .array 4 ++
    (stringBytes .bstr protectedHdr ++ bucketBytes [(hdrIv, iv)])

omit [AeadSettings] [WolfCrypt] [AeadCrypt] in
theorem emits_encodeEncrypt (protectedHdr iv : Bytes) :
  Emits (encodeEncrypt protectedHdr iv) (encryptFields protectedHdr iv)
  := by
  have hbucket : bucketBytes [(hdrIv, iv)]
      = preferredHead .map 1 ++ (intHead hdrIv ++ stringBytes .bstr iv) := by
    rw [bucketBytes, mapBytes, Token.bytes_ofHead, List.map_singleton, entriesBytes_cons, entriesBytes_nil,
      List.append_nil, intHead_eq]
    rfl
  rw [encryptFields, hbucket]
  simp only [List.append_assoc]
  apply Emits.bind (emits_encodeHead _ _)
  apply Emits.bind (emits_encodeHead _ _)
  apply Emits.bind (emits_encodeBstr_mem _)
  apply Emits.bind (emits_encodeHead _ _)
  apply Emits.bind (emits_encodeInt _)
  apply emits_encodeBstr_mem

omit [AeadSettings] [WolfCrypt] [AeadCrypt] in
/-- Fields and the head of a ciphertext are written to the start of a buffer. -/
theorem encodeAt_head {p : Enc Unit} {fields : Bytes} (hp : Emits p fields) {out : Buffer} {ctLen : Nat}
    {ctx₁ ctx₂ : EncCtx} (h₁ : encodeAt p (.init out) = .ok ctx₁)
    (h₂ : encodeAt (encodeHead .bstr ctLen) ctx₁ = .ok ctx₂) :
  ctx₂.idx = fields.length + (preferredHead .bstr ctLen).length ∧ ctx₂.idx ≤ ctx₂.bufSz
    ∧ ctx₂.bufSz = out.bytes.length
  := by
  have hw₁ := (encodeAt_eq_ok hp).mp h₁
  have hw₂ := (encodeAt_eq_ok (emits_encodeHead _ _)).mp h₂
  refine ⟨?_, hw₂.idx_le (hw₁.idx_le (Nat.zero_le _)), ?_⟩
  · rw [hw₂.2, hw₁.2]
    exact congrArg (· + _) (Nat.zero_add _)
  · rw [hw₂.2, hw₁.2, EncCtx.bufSz_put, EncCtx.bufSz_put]
    rfl

omit [AeadSettings] [WolfCrypt] [AeadCrypt] in
/-- The check for room is right exactly if the sum it computes does not wrap around. -/
theorem fits_iff_of_checked {ctx : EncCtx} {ctLen : Nat} (hcheck : ¬ sizeSum ctx.idx ctLen > ctx.bufSz) :
  ctx.idx + ctLen ≤ ctx.bufSz ↔ ctx.idx + ctLen ≤ sizeMax
  := by
  have hmax : ctx.bufSz ≤ sizeMax := ctx.buf.length_le
  constructor
  · intro h
    omega
  · intro h
    rw [sizeSum, Nat.mod_eq_of_lt (Nat.lt_succ_of_le h)] at hcheck
    omega

/-! ### Room -/

/-- A call of a cipher whose ciphertext and tag end at a place in the message: if that place is a `size_t`
they lie in the output buffer, and it is one where `size_t` has 64 bits. -/
structure AttachedCall (call : AeadCall) (payloadLen outSz place : Nat) : Prop where
  place_eq : call.ctx.idx + payloadLen + call.tagLen = place
  fits_iff : call.ctx.idx + payloadLen + call.tagLen ≤ outSz ↔ place ≤ sizeMax
  wide : sizeMax = 2 ^ 64 - 1 → place ≤ sizeMax

omit [AeadSettings] [WolfCrypt] in
/-- A call after the check for room is one whose sum may still wrap around. -/
theorem attachedCall_of_checked {p : Enc Unit} {fields : Bytes} (hp : Emits p fields) {out : Buffer}
    {payloadLen : Nat} {ctx₁ : EncCtx} {call : AeadCall} (h₁ : encodeAt p (.init out) = .ok ctx₁)
    (h₂ : encodeAt (encodeHead .bstr (payloadLen + call.tagLen)) ctx₁ = .ok call.ctx)
    (hcheck : ¬ sizeSum call.ctx.idx (payloadLen + call.tagLen) > call.ctx.bufSz) (htag : call.tagLen ≤ 16)
    (hpayload : lenFitsWord32 payloadLen = true) (hout : lenFitsWord32 out.bytes.length = true) :
  AttachedCall call payloadLen out.bytes.length
    (fields.length + (preferredHead .bstr (payloadLen + call.tagLen)).length + payloadLen + call.tagLen)
  := by
  obtain ⟨hstart, hle, hsz⟩ := encodeAt_head hp h₁ h₂
  rw [lenFitsWord32, decide_eq_true_eq] at hpayload hout
  constructor
  · rw [hstart]
  · rw [← hstart, ← hsz, Nat.add_assoc]
    apply fits_iff_of_checked hcheck
  · intro h64
    rw [← hstart]
    omega

/-- A cipher that is called for COSE_Encrypt0 with the ciphertext in the message. -/
theorem encrypt0Prepare_attached {key : Key} {alg : Int} {iv : Pointer} {args : EncryptArgs} {scratch out : Buffer}
    {call : AeadCall} (h : encrypt0Prepare key alg iv args scratch out = .ok call)
    (hattached : args.detached.isNull = true) :
  AttachedCall call args.payload.len out.bytes.length
    (ciphertextEnd encrypt0Fields alg iv.bytes args.payload.len)
  := by
  have hne : ¬ args.detached.isNull = false := by
    rw [hattached]
    exact Bool.noConfusion
  simp only [encrypt0Prepare, bind_eq_ok, failWhen_eq_ok, lift_eq_ok, pure_eq_ok, if_neg hne] at h
  obtain ⟨_, hlengths, _, -, _, -, keyLen, -, _, -, tagLen, htag, _, -, _, -, nonceLen, -, _, -, protectedHdr, hprot,
    aad, -, ctx₁, h₁, _, -, symmKey, -, cipher, -, ctx₂, h₂, _, hcheck, _, rfl, rfl⟩ := h
  have hlengths := Decidable.not_not.mp hlengths
  rw [ciphertextEnd, hprot, htag]
  exact attachedCall_of_checked (emits_encodeEncrypt0 _ _) h₁ h₂ hcheck (aeadTagLen_bounds htag).2 hlengths.1
    hlengths.2.2.2.1

/-- A cipher that is called for COSE_Encrypt0 with a detached ciphertext has room for it. -/
theorem encrypt0Prepare_detached {key : Key} {alg : Int} {iv : Pointer} {args : EncryptArgs} {scratch out : Buffer}
    {call : AeadCall} (h : encrypt0Prepare key alg iv args scratch out = .ok call)
    (hdetached : args.detached.isNull = false) :
  args.payload.len + call.tagLen ≤ args.detached.len
  := by
  simp only [encrypt0Prepare, bind_eq_ok, failWhen_eq_ok, lift_eq_ok, pure_eq_ok, if_pos hdetached] at h
  obtain ⟨_, -, _, -, _, -, keyLen, -, _, -, tagLen, htag, _, -, _, hroom, nonceLen, -, _, -, protectedHdr, -, aad, -,
    ctx₁, -, _, hover, symmKey, -, cipher, -, ctx₂, -, rfl⟩ := h
  have htagLe := (aeadTagLen_bounds htag).2
  have hmax := lt_sizeMax
  have hcap : ¬ args.detached.len < sizeSum args.payload.len tagLen := fun hlt => hroom ⟨hdetached, .inr hlt⟩
  rw [sizeSum, Nat.mod_eq_of_lt (by omega)] at hcap
  exact Nat.le_of_not_lt hcap

variable [RecipientSettings] [RecipientCrypt]

/-- A cipher that is called for COSE_Encrypt; the ciphertext is never detached. -/
theorem encryptPrepare_attached {recipients : List Recipient} {first : Recipient} {contentAlgId : Int}
    {args : EncryptMultiArgs} {scratch out : Buffer} {env env' : Env} {call : AeadCall} {mode : CekMode}
    {cek : Pointer} (h : Runs (encryptPrepare recipients first contentAlgId args scratch out) env (call, mode, cek) env') :
  args.detachedPayload.isNull = true
    ∧ AttachedCall call args.payload.len out.bytes.length
      (ciphertextEnd encryptFields contentAlgId args.iv.bytes args.payload.len)
  := by
  simp only [encryptPrepare, runs_steady_bind, failWhen_eq_ok, lift_eq_ok] at h
  obtain ⟨_, -, _, hlengths, _, -, _, -, keyLen, -, tagLen, htag, _, -, nonceLen, -, _, -, h⟩ := h
  obtain ⟨⟨mode', cek'⟩, env₁, -, h⟩ := (runs_bind _ _ _ _ _).mp h
  simp only [runs_steady_bind, runs_pure, failWhen_eq_ok, lift_eq_ok] at h
  obtain ⟨protectedHdr, hprot, aad, -, ctx₁, h₁, _, hatt, _, -, ctx₂, h₂, _, hcheck, cipher, -, heq, -⟩ := h
  cases heq
  have hlengths := Decidable.not_not.mp hlengths
  have hpayload : args.encryptPayload = args.payload := if_neg hatt
  rw [hpayload] at h₂ hcheck
  refine ⟨Bool.not_eq_false _ ▸ hatt, ?_⟩
  rw [ciphertextEnd, hprot, htag]
  exact attachedCall_of_checked (emits_encodeEncrypt _ _) h₁ h₂ hcheck (aeadTagLen_bounds htag).2 hlengths.1
    hlengths.2.2.2.1

/-- A message is made by the steps up to the call of a cipher and those from the call on.  When the cipher is
called, a detached ciphertext and its tag fit in their buffer; a ciphertext in the message and its tag fit in
the output buffer if and only if the place after them, which the header layout and the length of the payload
determine, is a `size_t`.  Where `size_t` has 64 bits it always is. -/
theorem aead_room_iff :
  (∀ (key : Key) (alg : Int) (iv : Pointer) (args : EncryptArgs) (scratch out : Buffer),
      encrypt0Message key alg iv args scratch out = encrypt0Prepare key alg iv args scratch out >>= encrypt0Seal args
      ∧ ∀ call, encrypt0Prepare key alg iv args scratch out = .ok call →
        (args.detached.isNull = false → args.payload.len + call.tagLen ≤ args.detached.len)
        ∧ (args.detached.isNull = true →
            (call.ctx.idx + args.payload.len + call.tagLen ≤ out.bytes.length
              ↔ ciphertextEnd encrypt0Fields alg iv.bytes args.payload.len ≤ sizeMax)
            ∧ (sizeMax = 2 ^ 64 - 1 → ciphertextEnd encrypt0Fields alg iv.bytes args.payload.len ≤ sizeMax)))
    ∧ (∀ (recipients : List Recipient) (first : Recipient) (alg : Int) (args : EncryptMultiArgs)
        (scratch out : Buffer) (env env' : Env) (call : AeadCall) (mode : CekMode) (cek : Pointer),
      Runs (encryptPrepare recipients first alg args scratch out) env (call, mode, cek) env' →
        args.detachedPayload.isNull = true
        ∧ (call.ctx.idx + args.payload.len + call.tagLen ≤ out.bytes.length
            ↔ ciphertextEnd encryptFields alg args.iv.bytes args.payload.len ≤ sizeMax)
        ∧ (sizeMax = 2 ^ 64 - 1 → ciphertextEnd encryptFields alg args.iv.bytes args.payload.len ≤ sizeMax))
  := by
  constructor
  · intro key alg iv args scratch out
    refine ⟨encrypt0Message_eq key alg iv args scratch out, ?_⟩
    intro call h
    refine ⟨encrypt0Prepare_detached h, fun hattached => ?_⟩
    have hcall := encrypt0Prepare_attached h hattached
    exact ⟨hcall.fits_iff, hcall.wide⟩
  · intro recipients first alg args scratch out env env' call mode cek h
    obtain ⟨hdetached, hcall⟩ := encryptPrepare_attached h
    exact ⟨hdetached, hcall.fits_iff, hcall.wide⟩

end

/-! ### A place that is no `size_t` -/

section Instances

/-- A build for a 32-bit `size_t`. -/
@[reducible]
def narrowSettings : Settings :=
  { defaultSettings with
    sizeMax := 2 ^ 32 - 1
    sizeMax_eq := .inl rfl
    protectedHdrMax_le := by decide }

attribute [local instance] narrowSettings defaultAeadSettings failingCrypt sumAeadCrypt

/-- A key for AES-128. -/
def gcmKey : Key := .ofSymmetric (List.replicate 16 0)

/-- A nonce for AES-GCM. -/
def gcmNonce : Pointer := .mem (List.replicate 12 0)

/-- An output buffer of 64 bytes. -/
def smallOut : Buffer := .ofBytes (List.replicate 64 0)

/-- Arguments with a payload that leaves 40 values of a 32-bit `size_t` for the rest of a message. -/
def hugeArgs (payload : Bytes) : EncryptArgs where
  payload := .mem payload
  detached := .null 0
  detachedLen := none
  extAad := .null 0
  scratch := some smallOut
  out := some smallOut
  outLen := some 0

/-- The output buffer after the protected bucket with the algorithm and the unprotected one. -/
def smallFields : EncCtx := (EncCtx.init smallOut).put (encrypt0Fields [0xA1, 0x01, 0x01] gcmNonce.bytes)

/-- The cipher is called with a place for the ciphertext after 26 bytes. -/
theorem encrypt0Prepare_hugeArgs {payload : Bytes} (h : payload.length = 2 ^ 32 - 40) :
  ∃ call, encrypt0Prepare gcmKey algA128gcm gcmNonce (hugeArgs payload) smallOut smallOut = .ok call
    ∧ call.ctx.idx = 26 ∧ call.tagLen = 16
  := by
  have hlen : (hugeArgs payload).payload.len = 2 ^ 32 - 40 := h
  have hfit : (hugeArgs payload).lengthsFit smallOut smallOut := by
    refine ⟨?_, rfl, rfl, rfl, rfl⟩
    rw [hlen]
    decide
  have hprot : algProtectedHdr algA128gcm = .ok [0xA1, 0x01, 0x01] := by decide +kernel
  have h₁ : encodeAt (encodeEncrypt0 [0xA1, 0x01, 0x01] gcmNonce.bytes) (.init smallOut) = .ok smallFields :=
    encodeAt_of_fits (emits_encodeEncrypt0 _ _) (by decide +kernel)
  have h₂ : encodeAt (encodeHead .bstr (2 ^ 32 - 40 + 16)) smallFields = .ok _ :=
    encodeAt_of_fits (emits_encodeHead _ _) (by decide +kernel)
  have hidx : (smallFields.put (preferredHead .bstr (2 ^ 32 - 40 + 16))).idx = 26 := by decide +kernel
  -- 26 + (2 ^ 32 - 40 + 16) is 2 as a `size_t`
  have hwrap : ¬ sizeSum 26 (2 ^ 32 - 40 + 16) > 64 := by decide +kernel
  have hroom : ¬ ((hugeArgs payload).detached.isNull = false ∧ ((hugeArgs payload).detachedLen = none
      ∨ (hugeArgs payload).detached.len < sizeSum (2 ^ 32 - 40) 16)) := by
    rintro ⟨⟨⟩, -⟩
  simp only [encrypt0Prepare, bind_eq_ok, failWhen_eq_ok, lift_eq_ok, hlen]
  exact ⟨⟨_, _, _, _, 16, _⟩, ⟨(), not_not_intro hfit, (), by decide, (), by decide, 16, rfl, (), by decide, 16, rfl,
    (), by decide +kernel, (), hroom, 12, rfl, (), by decide, _, hprot, _, rfl, _, h₁, (), by decide +kernel, _, rfl,
    _, rfl, bind_eq_ok.mpr ⟨_, h₂, bind_eq_ok.mpr ⟨(), failWhen_eq_ok.mpr hwrap, rfl⟩⟩⟩, hidx, rfl⟩

/-- Where `size_t` has 32 bits there is a payload whose place wraps around: the cipher is called although the
ciphertext does not fit in the output buffer. -/
theorem aead_room_fails :
  ∃ payload call, encrypt0Prepare gcmKey algA128gcm gcmNonce (hugeArgs payload) smallOut smallOut = .ok call
    ∧ smallOut.bytes.length < call.ctx.idx + payload.length + call.tagLen
  := by
  have hlength : (List.replicate (2 ^ 32 - 40) 0 : Bytes).length = 2 ^ 32 - 40 := List.length_replicate
  obtain ⟨call, h, hidx, htag⟩ := encrypt0Prepare_hugeArgs hlength
  refine ⟨_, call, h, ?_⟩
  have hout : smallOut.bytes.length = 64 := by decide
  rw [hlength, hidx, htag, hout]
  decide

end Instances

end WolfCose
