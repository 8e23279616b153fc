import WolfCose.Encrypt.Decrypt

/-!
# COSE_Encrypt0 with HPKE

`wc_CoseHpkeEncrypt0_Encrypt` and `wc_CoseHpkeEncrypt0_Decrypt` of `wolfcose_encrypt0.c`: integrated
encryption, in which HPKE encrypts the payload itself.  The encapsulated key is in the unprotected
bucket.
-/

namespace WolfCose

open Program Cbor Settings WolfCrypt RecipientCrypt

section

variable [Settings] [WolfCrypt] [RecipientCrypt]

/-! ### Creating a message -/

/-- `WOLFCOSE_ALG_HPKE_0` -/
def algHpke0 : Int := 35

/-- What a failed call leaves behind: cleared buffers, and lengths that are zero. -/
def EncryptArgs.cleared (args : EncryptArgs) (fault : Fault) : EncryptOut :=
  ⟨.error fault, args.out.map fun buf => forceZero buf.bytes, args.outLen.map fun _ => 0,
    args.detached.content.map forceZero, args.detachedLen.map fun _ => 0⟩

/-- The last steps of `wc_CoseHpkeEncrypt0_Encrypt`: the results are returned, or the buffers are
cleared. -/
def hpkeEncrypt0Finish (args : EncryptArgs) (p : Drawing (EncCtx × Option Bytes)) (env : Env) : EncryptOut :=
  match p env with
  | .ok result _ => args.finished result
  | .error fault _ => args.cleared fault

/-- The steps of `wc_CoseHpkeEncrypt0_Encrypt` that encode the message before the ciphertext. -/
def encodeHpkeEncrypt0 (protectedHdr : Bytes) (kid : Pointer) (enc : Bytes) : Enc Unit := do
  encodeTag tagEncrypt0
  encodeArrayStart 3
  encodeBstr (.mem protectedHdr)
  encodeMapStart (if kid.isNull = false then 2 else 1)
  onlyIf (kid.isNull = false) do
    encodeInt hdrKid
    encodeBstr kid
  encodeInt hdrHpkeEk
  encodeBstr (.mem enc)

/-- The steps of `wc_CoseHpkeEncrypt0_Encrypt` that seal the payload, to the buffer for a detached
ciphertext or into the message. -/
def hpkeEncrypt0Payload (sealCtx : Hpke0SealCtx) (recipientKey : Key) (args : EncryptArgs) (aad : Bytes)
    (ctx : EncCtx) : Checked (EncCtx × Option Bytes) :=
  if args.detached.isNull = false then do
    let ctx ← encodeAt encodeNull ctx
    let ciphertext ← hpke0Seal sealCtx (some recipientKey) [] aad args.payload.bytes args.detached.len
    return (ctx, some ciphertext)
  else do
    let ciphertextLen := args.payload.len + hpke0TagSz
    let ctx ← encodeAt (encodeHead .bstr ciphertextLen) ctx
    failWhen (ctx.idx > ctx.bufSz ∨ ciphertextLen > ctx.bufSz - ctx.idx) .bufferTooSmall
    let ciphertext ← hpke0Seal sealCtx (some recipientKey) [] aad args.payload.bytes ciphertextLen
    return (ctx.put ciphertext, none)

/-- The steps of `wc_CoseHpkeEncrypt0_Encrypt` after the checks for null pointers. -/
def hpkeEncrypt0Message (recipientKey : Key) (kid : Pointer) (args : EncryptArgs) (scratch out : Buffer) (rng : Rng) :
    Drawing (EncCtx × Option Bytes) := do
  steady (failWhen ((kid.isNull = true ∧ kid.len ≠ 0) ∨ (kid.isNull = false ∧ kid.len = 0)) .invalidArg)
  steady (failWhen (args.payload.len > sizeMax - hpke0TagSz ∨ (args.detached.isNull = false ∧
    (args.detachedLen = none ∨ args.detached.len < args.payload.len + hpke0TagSz))) .bufferTooSmall)
  steady (failWhen (¬ args.lengthsFit scratch out) .invalidArg)
  let protectedHdr ← steady (lift (algProtectedHdr algHpke0))
  let aad ← steady (lift (buildEncStructure (.mem ctxEncrypt0) (.mem protectedHdr) args.extAad (some scratch)))
  let sealCtx ← hpke0SealInit (some recipientKey) algHpke0 rng
  let ctx ← steady (encodeAt (encodeHpkeEncrypt0 protectedHdr kid sealCtx.enc) (.init out))
  steady (hpkeEncrypt0Payload sealCtx recipientKey args aad ctx)

/-- `wc_CoseHpkeEncrypt0_Encrypt` -/
def hpkeEncrypt0Encrypt (recipientKey : Option Key) (kid : Pointer) (args : EncryptArgs) (rng : Option Rng)
    (env : Env) : EncryptOut :=
  hpkeEncrypt0Finish args
    (match recipientKey, args.scratch, args.out, args.outLen, rng with
    | some recipientKey, some scratch, some out, some _, some rng => do
        steady (failWhen (args.payload.isNull = true) .invalidArg)
        hpkeEncrypt0Message recipientKey kid args scratch out rng
    | _, _, _, _, _ => throw (.err .invalidArg)) env

/-! ### Decrypting a message -/

/-- What `wc_CoseHpkeEncrypt0_Decrypt` finds in a message: the protected bucket, the header, the
encapsulated key and the ciphertext. -/
structure HpkeEncrypt0Message where
  protectedData : Bytes
  hdr : Hdr
  ek : Option Bytes
  ciphertext : Bytes

/-- The check of the protected bucket: the algorithm is HPKE-0 if there is one, and the labels of
HPKE are not protected. -/
def hpkeProtectedBad (hdr : Hdr) (state : HdrState) : Prop :=
  (state.contains hdrAlg = true ∧ hdr.alg ≠ algHpke0) ∨ state.contains hdrHpkeEk = true
    ∨ state.contains hpke0PskIdLabel = true

instance (hdr : Hdr) (state : HdrState) : Decidable (hpkeProtectedBad hdr state) :=
  inferInstanceAs (Decidable (_ ∨ _))

/-- The steps of `wc_CoseHpkeEncrypt0_Decrypt` that decode both buckets; the result is the protected
bucket, the header and the encapsulated key. -/
def decodeHpkeHeaders : Dec (Bytes × Hdr × Option Bytes) := do
  let protectedData ← decodeBstr
  let (hdr, state) ← MonadExcept.ofExcept (decodeProtectedHdr (.mem protectedData) .zero)
  let algProtected := state.contains hdrAlg
  failIf (hpkeProtectedBad hdr state) .coseBadHdr
  let (hdr, state, ek) ← decodeUnprotectedHdrHpke hdr state
  failIf (hpkeHeaderBad algProtected hdr state ek) .coseBadHdr
  return (protectedData, hdr, ek)

/-- The steps of `wc_CoseHpkeEncrypt0_Decrypt` that decode the ciphertext. -/
def decodeHpkeCiphertext (detachedCt : Pointer) (hdr : Hdr) : Dec (Hdr × Bytes) := do
  let item ← decodeHead
  if item.majorType = .simple ∧ item.val = 22 then do
    failIf (detachedCt.isNull = true) .detachedPayload
    return ({ hdr with flags := hdr.flags ||| hdrFlagDetached }, detachedCt.bytes)
  else do
    failIf (item.majorType ≠ .bstr) .cborType
    return (hdr, item.data)

/-- The steps of `wc_CoseHpkeEncrypt0_Decrypt` that decode the message. -/
def decodeHpkeEncrypt0 (detachedCt : Pointer) : Dec HpkeEncrypt0Message := do
  decodeStart tagEncrypt0 3 0
  let (protectedData, hdr, ek) ← decodeHpkeHeaders
  let (hdr, ciphertext) ← decodeHpkeCiphertext detachedCt hdr
  decodeEnd
  return ⟨protectedData, hdr, ek, ciphertext⟩

/-- The steps of `wc_CoseHpkeEncrypt0_Decrypt` after the checks of its arguments; the result is the
header and the plaintext. -/
def hpkeEncrypt0DecryptMessage (recipientKey : Key) (input : Buffer) (detachedCt extAad : Pointer) (scratch : Buffer)
    (plaintextSz : Nat) : Checked (Hdr × Bytes) := do
  let msg ← decodeBuffer (decodeHpkeEncrypt0 detachedCt) input
  failWhen (msg.ciphertext.length < hpke0TagSz) .cborMalformed
  failWhen (msg.ciphertext.length - hpke0TagSz > plaintextSz) .bufferTooSmall
  let aad ← lift (buildEncStructure (.mem ctxEncrypt0) (.mem msg.protectedData) extAad (some scratch))
  let payload ← hpke0Open (some recipientKey) algHpke0 [] aad msg.ek msg.ciphertext plaintextSz
  return (msg.hdr, payload)

/-- `wc_CoseHpkeEncrypt0_Decrypt` -/
def hpkeEncrypt0Decrypt (recipientKey : Option Key) (args : DecryptArgs) (out : DecryptOut) :
    Checked Unit × DecryptOut :=
  out.finish <|
    match recipientKey, args.input, args.scratch, out.hdr, out.plaintext, out.plaintextLen with
    | some recipientKey, some input, some scratch, some _, some plaintext, some _ => do
        failWhen (input.bytes.length = 0) .invalidArg
        failWhen (lenFitsWord32 input.bytes.length = false ∨ lenFitsWord32 args.detachedCt.len = false ∨
          lenFitsWord32 args.extAad.len = false ∨ lenFitsWord32 plaintext.length = false ∨
          lenFitsWord32 scratch.bytes.length = false) .invalidArg
        hpkeEncrypt0DecryptMessage recipientKey input args.detachedCt args.extAad scratch plaintext.length
    | _, _, _, _, _, _ => throw (.err .invalidArg)

/-! ### What HPKE does -/

omit [Settings] [RecipientCrypt] in
/-- A key that HPKE-0 accepts refers to the key object that it is checked with. -/
theorem hpke0ValidateKey_object [RecipientCrypt] {key : Key} {alg : Int} {needPrivate : Bool} {eccKey : EccKey}
    (h : hpke0ValidateKey (some key) alg needPrivate = .ok eccKey) :
  key.object = .ecc eccKey
  := by
  simp only [hpke0ValidateKey, bind_eq_ok, failWhen_eq_ok, failAs_eq_ok, KeyObject.asEcc_eq_ok, pure_eq_ok] at h
  obtain ⟨_, -, _, -, eccKey', hobject, _, -, _, -, _, -, _, -, _, -, rfl⟩ := h
  exact hobject

/-- The ciphertext is the encryption of a payload for a recipient, whose key is checked, with the
encapsulated key of an ephemeral key. -/
def HpkeSealed (key : Key) (enc aad payload ciphertext : Bytes) : Prop :=
  ∃ eccKey hpke ephemeralKey, ∃ block : Block (payload.length + 16),
    hpke0ValidateKey (some key) algHpke0 false = .ok eccKey ∧ hpkeInit = some hpke
      ∧ hpkeSerializePublicKey hpke ephemeralKey = some enc ∧ enc.length = hpke0EncSz
      ∧ hpkeSealBase hpke ephemeralKey eccKey [] aad payload = some block ∧ ciphertext = block.val

/-- The recipient has accepted the whole ciphertext under the encapsulated key, and has decrypted it
to a payload. -/
def HpkeOpened (key : Key) (ek aad ciphertext payload : Bytes) : Prop :=
  ∃ eccKey hpke, hpke0ValidateKey (some key) algHpke0 true = .ok eccKey ∧ hpkeInit = some hpke
    ∧ ek.length = hpke0EncSz ∧ hpke0TagSz ≤ ciphertext.length
    ∧ ∃ block, hpkeOpenBase hpke eccKey ek [] aad ciphertext (ciphertext.length - hpke0TagSz) = some block
      ∧ block.val = payload

omit [Settings] in
/-- What is prepared for sealing. -/
theorem runs_hpke0SealInit {key : Key} {rng : Rng} {env env' : Env} {sealCtx : Hpke0SealCtx}
    (h : Runs (hpke0SealInit (some key) algHpke0 rng) env sealCtx env') :
  ∃ eccKey, hpke0ValidateKey (some key) algHpke0 false = .ok eccKey ∧ hpkeInit = some sealCtx.hpke
    ∧ hpkeSerializePublicKey sealCtx.hpke sealCtx.ephemeralKey = some sealCtx.enc
    ∧ sealCtx.enc.length = hpke0EncSz
  := by
  simp only [hpke0SealInit, runs_bind, runs_steady, runs_drawing, runs_pure, orCrypto_eq_ok, failWhen_eq_ok] at h
  obtain ⟨eccKey, _, ⟨hkey, -⟩, hpke, _, ⟨hinit, -⟩, _, _, -, ephemeralKey, _, -, enc, _, ⟨henc, -⟩, _, _, ⟨hlen, -⟩,
    rfl, -⟩ := h
  exact ⟨eccKey, hkey, hinit, henc, Decidable.not_not.mp hlen⟩

/-- What is sealed for a key that has been checked. -/
theorem hpke0Seal_eq_ok {key : Key} {eccKey : EccKey} {sealCtx : Hpke0SealCtx} {aad payload ciphertext : Bytes}
    {ciphertextSz : Nat} (hobject : key.object = .ecc eccKey)
    (h : hpke0Seal sealCtx (some key) [] aad payload ciphertextSz = .ok ciphertext) :
  (∃ block, hpkeSealBase sealCtx.hpke sealCtx.ephemeralKey eccKey [] aad payload = some block
      ∧ ciphertext = block.val)
    ∧ ciphertext.length = payload.length + hpke0TagSz ∧ lenFitsWord32 aad.length = true
  := by
  simp only [hpke0Seal, bind_eq_ok, failWhen_eq_ok, KeyObject.asEcc_eq_ok, orCrypto_eq_ok, pure_eq_ok] at h
  obtain ⟨_, -, _, hfits, _, hobject', block, hseal, rfl⟩ := h
  rw [hobject, KeyObject.ecc.injEq] at hobject'
  subst hobject'
  refine ⟨⟨block, hseal, rfl⟩, block.property, ?_⟩
  by_contra hne
  apply hfits
  exact .inr (.inl (Bool.eq_false_of_not_eq_true hne))

/-- Two key objects with the same parameters, which are checked alike. -/
structure SameParameters (eccKey eccKey' : EccKey) : Prop where
  size : eccSize eccKey' = eccSize eccKey
  hasDp : eccHasDp eccKey' = eccHasDp eccKey
  curve : eccActualCurve eccKey' = eccActualCurve eccKey
  check : eccCheckKey eccKey' = eccCheckKey eccKey

/-- HPKE is correct for the pairs of a public key and its private half: both have the same parameters,
and what is sealed for the public key with an ephemeral key is opened with the private half and the
public part of the ephemeral key. -/
structure CorrectHpke (Half : EccKey → EccKey → Prop) : Prop where
  parameters : ∀ {pub priv}, Half pub priv → SameParameters pub priv
  opens : ∀ {pub priv hpke ephemeralKey enc info aad plaintext} {ciphertext : Block (plaintext.length + 16)},
    Half pub priv → hpkeInit = some hpke → hpkeSerializePublicKey hpke ephemeralKey = some enc →
    hpkeSealBase hpke ephemeralKey pub info aad plaintext = some ciphertext →
    ∃ block, hpkeOpenBase hpke priv enc info aad ciphertext.val plaintext.length = some block
      ∧ block.val = plaintext

/-- The second key is the private half of the first one. -/
structure Key.PrivateHalf (Half : EccKey → EccKey → Prop) (key key' : Key) : Prop where
  kty : key'.kty = key.kty
  alg : key'.alg = key.alg
  crv : key'.crv = key.crv
  attachedType : key'.attachedType = key.attachedType
  object : ∃ pub priv, key.object = .ecc pub ∧ key'.object = .ecc priv ∧ Half pub priv
  hasPrivate : key'.hasPrivate = true

omit [Settings] in
/-- The private half of a key that HPKE-0 accepts is accepted. -/
theorem Key.PrivateHalf.validated {Half : EccKey → EccKey → Prop} (hcorrect : CorrectHpke Half) {key key' : Key}
    (h : key.PrivateHalf Half key') {alg : Int} {eccKey : EccKey}
    (hkey : hpke0ValidateKey (some key) alg false = .ok eccKey) :
  ∃ eccKey', hpke0ValidateKey (some key') alg true = .ok eccKey' ∧ Half eccKey eccKey'
  := by
  obtain ⟨pub, priv, hobject, hobject', hhalf⟩ := h.object
  have hpub := hpke0ValidateKey_object hkey
  rw [hobject, KeyObject.ecc.injEq] at hpub
  subst hpub
  obtain ⟨hsize, hdp, hcurve, hcheck⟩ := hcorrect.parameters hhalf
  refine ⟨priv, ?_, hhalf⟩
  simp only [hpke0ValidateKey, eccKeyCheckCurve, hobject, bind_eq_ok, failWhen_eq_ok, failAs_eq_ok,
    KeyObject.asEcc_eq_ok, pure_eq_ok, KeyObject.ecc.injEq] at hkey
  obtain ⟨_, hatt, _, hkty, _, rfl, _, hsz, _, ⟨_, -, crv, hcrv, size, hcrvSz, _, rfl, _, hactual, hcurve'⟩, _, hck,
    _, halg, _, -, -⟩ := hkey
  simp only [hpke0ValidateKey, eccKeyCheckCurve, hobject', h.kty, h.alg, h.crv, h.attachedType, h.hasPrivate,
    bind_eq_ok, failWhen_eq_ok, failAs_eq_ok, KeyObject.asEcc_eq_ok, pure_eq_ok, KeyObject.ecc.injEq]
  refine ⟨(), hatt, (), hkty, priv, rfl, (), ?_, (), ⟨(), Bool.false_ne_true, crv, hcrv, size, hcrvSz, priv, rfl, (),
    ?_, ?_⟩, (), ?_, (), halg, (), ?_, rfl⟩
  · rwa [hsize]
  · rwa [hsize]
  · rwa [hsize, hdp, hcurve]
  · rwa [hcheck]
  · rintro ⟨-, ⟨⟩⟩

omit [Settings] in
/-- A correct HPKE opens what it has sealed. -/
theorem HpkeSealed.opened {Half : EccKey → EccKey → Prop} (hcorrect : CorrectHpke Half) {key key' : Key}
    {enc aad payload ciphertext : Bytes} (h : HpkeSealed key enc aad payload ciphertext)
    (hhalf : key.PrivateHalf Half key') :
  HpkeOpened key' enc aad ciphertext payload
  := by
  obtain ⟨pub, hpke, ephemeralKey, block, hkey, hinit, henc, hlen, hseal, rfl⟩ := h
  obtain ⟨priv, hkey', hpair⟩ := hhalf.validated hcorrect hkey
  have hblock : block.val.length - hpke0TagSz = payload.length := by
    rw [block.property]
    rfl
  refine ⟨priv, hpke, hkey', hinit, hlen, ?_, ?_⟩
  · rw [block.property]
    exact Nat.le_add_left _ _
  · rw [hblock]
    exact hcorrect.opens hpair hinit henc hseal

omit [Settings] in
/-- The length of a ciphertext is that of the payload and the tag. -/
theorem HpkeSealed.length {key : Key} {enc aad payload ciphertext : Bytes}
    (h : HpkeSealed key enc aad payload ciphertext) :
  ciphertext.length = payload.length + hpke0TagSz
  := by
  obtain ⟨_, _, _, block, -, -, -, -, -, rfl⟩ := h
  exact block.property

/-! ### What is created -/

/-- The bytes of a message before the ciphertext. -/
def hpkeEncrypt0Fields (protectedHdr : Bytes) (kid : Pointer) (enc : Bytes) : Bytes :=
  preferredHead .tag tagEncrypt0 ++ preferredHead .array 3 ++
    (stringBytes .bstr protectedHdr ++ bucketBytes (kidEntries kid ++ [(hdrHpkeEk, enc)]))

omit [Settings] [WolfCrypt] [RecipientCrypt] in
/-- The unprotected bucket has the kid, if there is one, and the encapsulated key. -/
theorem bucketBytes_hpke (kid : Pointer) (enc : Bytes) :
  bucketBytes (kidEntries kid ++ [(hdrHpkeEk, enc)])
    = preferredHead .map (if hasKid kid then 2 else 1) ++
      ((if hasKid kid then intHead hdrKid ++ stringBytes .bstr kid.bytes else []) ++
        (intHead hdrHpkeEk ++ stringBytes .bstr enc))
  := by
  unfold kidEntries
  simp only [intHead_eq]
  split
  · rw [bucketBytes, mapBytes, Token.bytes_ofHead, List.singleton_append, List.map_cons, List.map_singleton,
      entriesBytes_cons, entriesBytes_cons, entriesBytes_nil, List.append_nil]
    rfl
  · rw [bucketBytes, mapBytes, Token.bytes_ofHead, List.nil_append, List.map_singleton, entriesBytes_cons,
      entriesBytes_nil, List.append_nil]
    rfl

omit [WolfCrypt] [RecipientCrypt] in
theorem emits_encodeHpkeEncrypt0 {protectedHdr : Bytes} {kid : Pointer} {enc : Bytes}
    (hkid : kid.isNull = false → hasKid kid) :
  Emits (encodeHpkeEncrypt0 protectedHdr kid enc) (hpkeEncrypt0Fields protectedHdr kid enc)
  := by
  have hiff : kid.isNull = false ↔ hasKid kid := ⟨hkid, And.left⟩
  have hcount : (if hasKid kid then 2 else 1) = if kid.isNull = false then 2 else 1 := if_congr hiff.symm rfl rfl
  rw [hpkeEncrypt0Fields, bucketBytes_hpke, hcount]
  simp only [List.append_assoc]
  apply Emits.bind (emits_encodeHead _ _)
  apply Emits.bind (emits_encodeHead _ _)
  apply Emits.bind (emits_encodeBstr_mem _)
  apply Emits.bind (emits_encodeHead _ _)
  apply Emits.bind
  · rw [← if_congr hiff rfl rfl]
    apply Emits.onlyIf
    intro h
    apply Emits.bind (emits_encodeInt _)
    apply emits_encodeBstr h
  apply Emits.bind (emits_encodeInt _)
  apply emits_encodeBstr_mem

/-- What a call that encrypts a message with HPKE has checked and computed. -/
structure HpkeEncrypt0Sealed (key : Key) (kid : Pointer) (args : EncryptArgs) (protectedHdr enc ciphertext : Bytes) :
    Prop where
  kid_of_valid : kid.isNull = false → hasKid kid
  protectedHdr_eq : algProtectedHdr algHpke0 = .ok protectedHdr
  extAad : args.extAad.Valid ∧ lenFitsWord32 args.extAad.len = true
  payload : lenFitsWord32 args.payload.len = true
  aad : lenFitsWord32 (encStructure0 protectedHdr args.extAad.bytes).bytes.length = true
  sealed : HpkeSealed key enc (encStructure0 protectedHdr args.extAad.bytes).bytes args.payload.bytes ciphertext

theorem hpkeEncrypt0Payload_ok {key : Key} {eccKey : EccKey} {sealCtx : Hpke0SealCtx} {args : EncryptArgs} {aad : Bytes}
    {ctx ctx' : EncCtx} {detachedCt : Option Bytes} (hobject : key.object = .ecc eccKey)
    (hvalid : args.payload.Valid) (hidx : ctx.idx ≤ ctx.bufSz)
    (h : hpkeEncrypt0Payload sealCtx key args aad ctx = .ok (ctx', detachedCt)) :
  ∃ ciphertext, (∃ block, hpkeSealBase sealCtx.hpke sealCtx.ephemeralKey eccKey [] aad args.payload.bytes = some block
      ∧ ciphertext = block.val)
    ∧ lenFitsWord32 aad.length = true
    ∧ ctx'.written = ctx.written ++ args.ciphertextBytes ciphertext ∧ ctx'.idx ≤ ctx'.bufSz
    ∧ ctx'.bufSz = ctx.bufSz
    ∧ detachedCt = (if args.detached.isNull = false then some ciphertext else none)
  := by
  unfold hpkeEncrypt0Payload at h
  unfold EncryptArgs.ciphertextBytes
  split at h
  · rename_i hd
    simp only [bind_eq_ok, pure_eq_ok, Prod.mk.injEq] at h
    obtain ⟨ctx₁, hnull, ciphertext, hseal, rfl, rfl⟩ := h
    obtain ⟨hblock, -, haad⟩ := hpke0Seal_eq_ok hobject hseal
    obtain ⟨hwritten, hle, hsz⟩ :=
      ((encodeAt_eq_ok (emits_encodeSimpleVal cborNull)).mp hnull).written_append rfl hidx
    refine ⟨ciphertext, hblock, haad, ?_, hle, hsz, ?_⟩
    · rw [hwritten, if_pos hd]
    · rw [if_pos hd]
  · rename_i hd
    simp only [bind_eq_ok, pure_eq_ok, failWhen_eq_ok, Prod.mk.injEq] at h
    obtain ⟨ctx₁, hhead, _, hroom, ciphertext, hseal, rfl, rfl⟩ := h
    obtain ⟨hblock, hlen, haad⟩ := hpke0Seal_eq_ok hobject hseal
    obtain ⟨hwritten, hle, hsz⟩ := ((encodeAt_eq_ok (emits_encodeHead _ _)).mp hhead).written_append rfl hidx
    rw [hvalid.len_eq] at hroom hwritten
    have hfit : ctx₁.idx + ciphertext.length ≤ ctx₁.bufSz := by omega
    obtain ⟨hwritten, hle, hsz'⟩ := EncCtx.Writes.written_append hwritten hle ⟨fun _ => hfit, rfl⟩
    refine ⟨ciphertext, hblock, haad, ?_, hle, hsz'.trans hsz, ?_⟩
    · rw [hwritten, if_neg hd, List.append_assoc, stringBytes, hlen]
    · rw [if_neg hd]

/-- A message that is created consists of the fields and the ciphertext, which may be detached. -/
theorem hpkeEncrypt0Encrypt_ok {key : Option Key} {kid : Pointer} {args : EncryptArgs} {rng : Option Rng} {env : Env}
    (h : (hpkeEncrypt0Encrypt key kid args rng env).ret = .ok ()) :
  ∃ key' bytes outLen protectedHdr enc ciphertext, key = some key'
    ∧ HpkeEncrypt0Sealed key' kid args protectedHdr enc ciphertext
    ∧ (hpkeEncrypt0Encrypt key kid args rng env).out = some bytes
    ∧ (hpkeEncrypt0Encrypt key kid args rng env).outLen = some outLen
    ∧ bytes.take outLen = hpkeEncrypt0Fields protectedHdr kid enc ++ args.ciphertextBytes ciphertext
    ∧ (bytes.take outLen).length ≤ 0xFFFFFFFF
    ∧ (args.detached.isNull = false →
      (hpkeEncrypt0Encrypt key kid args rng env).detached = some (Bytes.overwrite args.detached.bytes 0 ciphertext)
      ∧ (hpkeEncrypt0Encrypt key kid args rng env).detachedLen = some ciphertext.length
      ∧ ciphertext.length ≤ args.detached.bytes.length)
  := by
  unfold hpkeEncrypt0Encrypt hpkeEncrypt0Finish at h ⊢
  split at h
  swap
  · cases h
  rename_i result env' hrun
  change Runs _ _ _ _ at hrun
  split at hrun
  swap
  · exact (runs_throw _ _ _ _ hrun).elim
  rename_i key' scratch out _ rng hscratch hout houtLen
  simp only [hpkeEncrypt0Message, runs_bind, runs_steady, failWhen_eq_ok, lift_eq_ok, buildEncStructure_eq_ok] at hrun
  obtain ⟨_, _, ⟨hpayload, rfl⟩, _, _, ⟨hkid, rfl⟩, _, _, ⟨hroom, rfl⟩, _, _, ⟨hlengths, rfl⟩, protectedHdr, _,
    ⟨hprot, rfl⟩, aad, _, ⟨⟨-, -, -, haad, -, rfl⟩, rfl⟩, sealCtx, _, hinit, ctx₀, _, ⟨hctx₀, rfl⟩, hsealed, rfl⟩ := hrun
  obtain ⟨ctx, detachedCt⟩ := result
  have hlengths := Decidable.not_not.mp hlengths
  have valid {p : Pointer} (h : p.isNull = false) : p.Valid := fun hn => absurd (h.symm.trans hn) Bool.false_ne_true
  have hpayloadValid : args.payload.Valid := valid (Bool.eq_false_of_not_eq_true hpayload)
  have hkidValid : kid.isNull = false → hasKid kid := by
    intro hn
    refine ⟨hn, Nat.pos_of_ne_zero fun hz => ?_⟩
    exact hkid (.inr ⟨hn, hz⟩)
  obtain ⟨eccKey, hkey, hhpke, henc, henclen⟩ := runs_hpke0SealInit hinit
  have hwrites := (encodeAt_eq_ok (emits_encodeHpkeEncrypt0 hkidValid)).mp hctx₀
  have hempty : (EncCtx.init out).written = [] := List.take_zero
  obtain ⟨hwritten, hle, hsz⟩ := hwrites.written_append hempty (Nat.zero_le _)
  rw [List.nil_append] at hwritten
  obtain ⟨ciphertext, ⟨block, hseal, hblock⟩, haadFits, hwritten', hle', hsz', rfl⟩ :=
    hpkeEncrypt0Payload_ok (hpke0ValidateKey_object hkey) hpayloadValid hle hsealed
  rw [hwritten] at hwritten'
  refine ⟨key', ctx.buf.bytes, ctx.idx, protectedHdr, sealCtx.enc, ciphertext, rfl, ⟨hkidValid, hprot,
    ⟨haad, hlengths.2.1⟩, hlengths.1, haadFits, eccKey, sealCtx.hpke, sealCtx.ephemeralKey, block, hkey, hhpke, henc,
    henclen, hseal, hblock⟩, ?_, ?_, hwritten', ?_, ?_⟩
  · split <;> rfl
  · split <;> rfl
  · have hfits : out.bytes.length ≤ 0xFFFFFFFF := by simpa [lenFitsWord32] using hlengths.2.2.2.1
    have hbuf : ctx.buf.bytes.length = out.bytes.length := hsz'.trans hsz
    rw [List.length_take, hbuf]
    omega
  · intro hd
    rw [if_pos hd]
    refine ⟨rfl, rfl, ?_⟩
    have hcap : ¬ args.detached.len < args.payload.len + hpke0TagSz := fun hlt => hroom (.inr ⟨hd, .inr hlt⟩)
    rw [(valid hd).len_eq, hpayloadValid.len_eq] at hcap
    rw [hblock, block.property]
    exact Nat.le_of_not_lt hcap

/-! ### What is decoded -/

/-- The buckets of a message with HPKE: what is protected, the header, and the encapsulated key. -/
def HpkeHeadersValue (bs : Bytes) (r : Bytes × Hdr × Option Bytes) : Prop :=
  ∃ prot r₁ head es, bs = prot ++ mapBytes head es ∧ BstrValue 0 prot r.1
    ∧ decodeProtectedHdrEx (.mem r.1) .zero 0 = .ok r₁ ∧ ¬ hpkeProtectedBad r₁.1 r₁.2
    ∧ UnprotectedMap 0 true r₁.2 0 r₁.1 ⟨r.2.1, r.2.2⟩ head es
    ∧ ¬ hpkeHeaderBad (r₁.2.contains hdrAlg) r.2.1
      { r₁.2 with labelBits := r₁.2.labelBits ||| labelsBits (labelsOf es) } r.2.2

omit [WolfCrypt] [RecipientCrypt] in
theorem reads_decodeHpkeHeaders :
  Reads decodeHpkeHeaders HpkeHeadersValue
  := by
  rintro ctx ⟨protectedData, hdr, ek⟩ ctx'
  simp only [decodeHpkeHeaders, decodeBstr, decodeProtectedHdr, decodeUnprotectedHdrHpke, runs_bind, runs_failIf,
    runs_pure, runs_ofExcept, runs_decodeUnprotectedHdrInternal, reads_decodeBstrEx decodeFlagsValid_zero _ _ _]
  constructor
  · rintro ⟨_, _, ⟨prot, hprot, hc⟩, r₁, _, ⟨hdec, rfl⟩, _, _, ⟨hbad, rfl⟩, ⟨hdr', state', ek'⟩, _,
      ⟨-, head, es, hmap, hc', hst⟩, _, _, ⟨hbad', rfl⟩, he, rfl⟩
    cases he
    cases hst
    exact ⟨_, ⟨prot, r₁, head, es, rfl, hprot, hdec, hbad, hmap.move 0, hbad'⟩, hc.trans hc'⟩
  · rintro ⟨_, ⟨prot, r₁, head, es, rfl, hprot, hdec, hbad, hmap, hbad'⟩, hc⟩
    obtain ⟨c₁, hc₁, hc₂⟩ := hc.split
    exact ⟨protectedData, c₁, ⟨prot, hprot, hc₁⟩, r₁, c₁, ⟨hdec, rfl⟩, (), c₁, ⟨hbad, rfl⟩, (hdr, _, ek), ctx',
      ⟨decodeFlagsValid_zero, head, es, hmap.move _, hc₂, rfl⟩, (), ctx', ⟨hbad', rfl⟩, rfl, rfl⟩

/-- A ciphertext: null when it is detached, or a byte string. -/
def HpkeCiphertextValue (detachedCt : Pointer) (hdr : Hdr) (bs : Bytes) (r : Hdr × Bytes) : Prop :=
  TokenValue 0 (fun t => (t.major = .simple ∧ t.val = 22 ∧ detachedCt.isNull = false
      ∧ r = ({ hdr with flags := hdr.flags ||| hdrFlagDetached }, detachedCt.bytes))
    ∨ (t.major = .bstr ∧ r = (hdr, t.data))) bs

omit [WolfCrypt] [RecipientCrypt] in
theorem reads_decodeHpkeCiphertext (detachedCt : Pointer) (hdr : Hdr) :
  Reads (decodeHpkeCiphertext detachedCt hdr) (HpkeCiphertextValue detachedCt hdr)
  := by
  intro ctx r ctx'
  simp only [decodeHpkeCiphertext, decodeHead, runs_bind, runs_decodeHeadEx, runs_ite, runs_failIf, runs_pure,
    ne_eq, Decidable.not_not]
  constructor
  · rintro ⟨_, c₁, ⟨-, t, ht, hc, rfl⟩, ⟨⟨hm, hv⟩, _, _, ⟨hd, rfl⟩, rfl, rfl⟩ | ⟨-, _, _, ⟨hm, rfl⟩, rfl, rfl⟩⟩
    · exact ⟨_, ⟨t, ht, .inl ⟨hm, hv, Bool.eq_false_of_not_eq_true hd, rfl⟩, rfl⟩, hc⟩
    · exact ⟨_, ⟨t, ht, .inr ⟨hm, rfl⟩, rfl⟩, hc⟩
  · rintro ⟨_, ⟨t, ht, ⟨hm, hv, hd, rfl⟩ | ⟨hm, rfl⟩, rfl⟩, hc⟩
    · refine ⟨tokenItem t, ctx', ⟨decodeFlagsValid_zero, t, ht, hc, rfl⟩, .inl ⟨⟨hm, hv⟩, (), ctx', ⟨?_, rfl⟩, rfl,
        rfl⟩⟩
      rw [hd]
      exact Bool.false_ne_true
    · refine ⟨tokenItem t, ctx', ⟨decodeFlagsValid_zero, t, ht, hc, rfl⟩, .inr ⟨?_, (), ctx', ⟨hm, rfl⟩, rfl, rfl⟩⟩
      rintro ⟨hs, -⟩
      cases hm.symm.trans hs

/-- The bytes of a COSE_Encrypt0 message with HPKE and what they say. -/
def HpkeEncrypt0Encoding (detachedCt : Pointer) (input : Bytes) (msg : HpkeEncrypt0Message) : Prop :=
  ∃ start headers ciphertext hdr, input = start ++ (headers ++ ciphertext)
    ∧ StartValue 0 tagEncrypt0 3 start ∧ HpkeHeadersValue headers (msg.protectedData, hdr, msg.ek)
    ∧ HpkeCiphertextValue detachedCt hdr ciphertext (msg.hdr, msg.ciphertext)

omit [WolfCrypt] [RecipientCrypt] in
/-- A message is decoded exactly if it consists of its three fields, with nothing after them. -/
theorem decodeHpkeEncrypt0_eq_ok {detachedCt : Pointer} {input : Buffer} {msg : HpkeEncrypt0Message} :
  decodeBuffer (decodeHpkeEncrypt0 detachedCt) input = .ok msg ↔ HpkeEncrypt0Encoding detachedCt input.bytes msg
  := by
  simp only [decodeBuffer_eq_ok, decodeHpkeEncrypt0, runs_bind, runs_pure, runs_decodeStart decodeFlagsValid_zero,
    reads_decodeHpkeHeaders _ _ _, reads_decodeHpkeCiphertext _ _ _ _ _, runs_decodeEnd]
  constructor
  · rintro ⟨_, _, c₁, ⟨start, hstart, h₁, -⟩, ⟨protectedData, hdr, ek⟩, c₂, ⟨bs₂, hheaders, h₂⟩, ⟨hdr', ciphertext⟩, c₃,
      ⟨bs₃, hciphertext, h₃⟩, _, _, ⟨hend, rfl⟩, rfl, rfl⟩
    refine ⟨start, bs₂, bs₃, hdr, ?_, hstart, hheaders, hciphertext⟩
    exact (h₁.trans (h₂.trans h₃)).init_end hend
  · rintro ⟨start, bs₂, bs₃, hdr, hinput, hstart, hheaders, hciphertext⟩
    obtain ⟨last, hc, hend⟩ := DecCtx.consumes_whole input
    rw [hinput] at hc
    obtain ⟨c₁, h₁, hc⟩ := hc.split
    have hroom : 3 ≤ c₁.rest.length := by
      obtain ⟨t, -, -, rfl⟩ := hciphertext
      obtain ⟨prot, _, head, es, rfl, hprot, -⟩ := hheaders
      have k₁ := List.length_pos_iff.mpr hprot.ne_nil
      have k₂ := head.one_le_length_bytes
      have k₃ := t.one_le_length_bytes
      rw [hc.length_rest_eq]
      simp only [mapBytes, List.length_append]
      omega
    obtain ⟨c₂, h₂, h₃⟩ := hc.split
    exact ⟨last, (), c₁, ⟨start, hstart, h₁, hroom⟩, (msg.protectedData, hdr, msg.ek), c₂, ⟨bs₂, hheaders, h₂⟩,
      (msg.hdr, msg.ciphertext), last, ⟨bs₃, hciphertext, h₃⟩, (), last, ⟨hend, rfl⟩, rfl, rfl⟩

/-! ### What is decrypted -/

/-- What a successful decryption of a message with HPKE establishes. -/
structure HpkeEncrypt0Opened (key : Key) (input : Bytes) (detachedCt extAad : Pointer) (hdr : Hdr) (payload : Bytes)
    (msg : HpkeEncrypt0Message) : Prop where
  encoding : HpkeEncrypt0Encoding detachedCt input msg
  returned : hdr = msg.hdr
  opened : ∃ ek, msg.ek = some ek ∧ HpkeOpened key ek (encStructure0 msg.protectedData extAad.bytes).bytes
    msg.ciphertext payload

omit [Settings] in
theorem hpke0Open_eq_ok {key : Key} {aad ciphertext payload : Bytes} {enc : Option Bytes} {plaintextSz : Nat}
    (h : hpke0Open (some key) algHpke0 [] aad enc ciphertext plaintextSz = .ok payload) :
  ∃ ek, enc = some ek ∧ HpkeOpened key ek aad ciphertext payload
  := by
  simp only [hpke0Open, bind_eq_ok, failWhen_eq_ok, orCrypto_eq_ok, orDecryptFail_eq_ok] at h
  obtain ⟨_, hsome, _, hlen, _, -, _, -, eccKey, hkey, hpke, hinit, block, hopen, hblock⟩ := h
  cases enc with
  | none => exact absurd rfl hsome
  | some ek =>
      obtain ⟨hek, hshort⟩ := not_or.mp hlen
      exact ⟨ek, rfl, eccKey, hpke, hkey, hinit, Decidable.not_not.mp hek, Nat.le_of_not_lt hshort, block, hopen, hblock⟩

/-- The plaintext of a call that succeeds is that of a ciphertext which the recipient has accepted. -/
theorem hpkeEncrypt0Decrypt_ok {key : Option Key} {args : DecryptArgs} {out out' : DecryptOut}
    (h : hpkeEncrypt0Decrypt key args out = (.ok (), out')) :
  ∃ key' input plaintext hdr payload msg, key = some key' ∧ args.input = some input
    ∧ out.plaintext = some plaintext
    ∧ out' = ⟨some hdr, some (Bytes.overwrite plaintext 0 payload), some payload.length⟩
    ∧ HpkeEncrypt0Opened key' input.bytes args.detachedCt args.extAad hdr payload msg
  := by
  obtain ⟨hdr, payload, hret, rfl⟩ := DecryptOut.finish_ok h
  split at hret
  · rename_i key' input scratch _ plaintext _ hinput _ _ hplaintext _
    simp only [hpkeEncrypt0DecryptMessage, bind_eq_ok, failWhen_eq_ok, lift_eq_ok, pure_eq_ok,
      decodeHpkeEncrypt0_eq_ok, buildEncStructure_eq_ok] at hret
    obtain ⟨_, -, _, -, msg, henc, _, -, _, -, aad, ⟨-, -, -, -, -, rfl⟩, payload', hopen, he⟩ := hret
    cases he
    exact ⟨key', input, plaintext, _, payload, msg, rfl, hinput, hplaintext, by rw [hplaintext]; rfl, henc, rfl,
      hpke0Open_eq_ok hopen⟩
  · cases hret

/-! ### A message that is created is decrypted -/

omit [WolfCrypt] [RecipientCrypt] in
/-- A label that neither bucket has is not recorded. -/
theorem HdrState.Represents.not_contains_merged {state : HdrState} {labels ls : List Label} {label : Int}
    (h : state.Represents labels) (hl : .int label ∉ labels) (hls : .int label ∉ ls) :
  ({ state with labelBits := state.labelBits ||| labelsBits ls } : HdrState).contains label = false
  := by
  have hbits : ¬ (labelBit label ≠ 0 ∧ (labelsBits labels ||| labelsBits ls) &&& labelBit label ≠ 0) := by
    rintro ⟨-, hand⟩
    rw [← labelsBits_append, labelsBits_and_labelBit, List.mem_append] at hand
    exact hand.2.elim hl hls
  unfold HdrState.contains
  dsimp only
  rw [h.bits, if_neg hbits, List.any_eq_false]
  intro x hx heq
  rw [beq_iff_eq.mp heq] at hx
  exact hl ((h.integers label).mp hx).2

omit [Settings] [WolfCrypt] [RecipientCrypt] in
/-- The labels of the unprotected bucket of a message. -/
theorem labelsOf_hpkeEntries (kid : Pointer) (enc : Bytes) :
  labelsOf ((kidEntries kid ++ [(hdrHpkeEk, enc)]).map bstrEntry) = [.int hdrKid, .int hdrHpkeEk]
    ∨ labelsOf ((kidEntries kid ++ [(hdrHpkeEk, enc)]).map bstrEntry) = [.int hdrHpkeEk]
  := by
  unfold kidEntries
  split
  · exact .inl rfl
  · exact .inr rfl

omit [WolfCrypt] [RecipientCrypt] in
/-- The kid and the encapsulated key are put into a bucket of their own. -/
theorem unprotected_hpke {state : HdrState} {hdr : Hdr} {kid : Pointer} {enc : Bytes} (hhpke : haveHpke0 = true)
    (hrep : state.Represents [.int hdrAlg]) (hlen : hasKid kid → kid.bytes.length < 2 ^ 64)
    (henc : enc.length = hpke0EncSz) (hivs : hdr.iv = none) :
  Unprotected true state hdr (kidEntries kid ++ [(hdrHpkeEk, enc)])
  := by
  have hencLen : enc.length < 2 ^ 64 := by
    rw [henc]
    decide
  have hfresh {label : Int} (hne : label ≠ hdrAlg) : state.contains label = false := by
    apply Bool.eq_false_iff.mpr
    rw [ne_eq, hrep.contains_iff, List.mem_singleton, Label.int.injEq]
    exact hne
  have hkidNe : hdrKid ≠ hdrAlg := by decide
  have hekNe : hdrHpkeEk ≠ hdrAlg := by decide
  have hnodup : [hdrKid, hdrHpkeEk].Nodup := by decide
  unfold kidEntries
  split
  · rename_i hkid
    constructor
    · rw [List.singleton_append, List.forall_mem_cons, List.forall_mem_singleton]
      exact ⟨⟨.inl rfl, hlen hkid⟩, .inr (.inr (.inr ⟨hhpke, rfl⟩)), hencLen⟩
    · exact hnodup
    · rw [List.singleton_append, List.forall_mem_cons, List.forall_mem_singleton]
      exact ⟨hfresh hkidNe, hfresh hekNe⟩
    · exact Nat.le_of_ble_eq_true rfl
    · rintro ⟨h, -⟩
      change hdr.iv.isSome = true at h
      rw [hivs] at h
      cases h
  · rw [List.nil_append]
    constructor
    · rw [List.forall_mem_singleton]
      exact ⟨.inr (.inr (.inr ⟨hhpke, rfl⟩)), hencLen⟩
    · apply List.pairwise_singleton
    · rw [List.forall_mem_singleton]
      exact hfresh hekNe
    · exact Nat.le_of_ble_eq_true rfl
    · rintro ⟨h, -⟩
      change hdr.iv.isSome = true at h
      rw [hivs] at h
      cases h

omit [WolfCrypt] [RecipientCrypt] in
/-- The buckets of a message are read back. -/
theorem hpkeHeadersValue_created {protectedHdr : Bytes} {kid : Pointer} {enc : Bytes} (hhpke : haveHpke0 = true)
    (hprot : algProtectedHdr algHpke0 = .ok protectedHdr) (hlen : hasKid kid → kid.bytes.length < 2 ^ 64)
    (henc : enc.length = hpke0EncSz) :
  HpkeHeadersValue (stringBytes .bstr protectedHdr ++ bucketBytes (kidEntries kid ++ [(hdrHpkeEk, enc)]))
    (protectedHdr, { Hdr.zero with alg := algHpke0, kid := hdrKidOf kid }, some enc)
  := by
  obtain ⟨state, hdec, hrep⟩ := decode_algProtectedHdr (by decide) hprot
  have hprotLen : protectedHdr.length < 2 ^ 64 := by
    have h₁ := (algProtectedHdr_eq_ok.mp hprot).1
    have h₂ := protectedHdrMax_le
    have h₃ := sizeMax_lt
    omega
  have hiv : ({ Hdr.zero with alg := algHpke0 } : Hdr).iv = none := rfl
  have hmap := (unprotected_hpke hhpke hrep hlen henc hiv).map
  have hvars : (kidEntries kid ++ [(hdrHpkeEk, enc)]).foldl (UnprotectedVars.store true)
      ⟨{ Hdr.zero with alg := algHpke0 }, none⟩
        = ⟨{ Hdr.zero with alg := algHpke0, kid := hdrKidOf kid }, some enc⟩ := by
    unfold kidEntries hdrKidOf
    split <;> rfl
  rw [hvars] at hmap
  refine ⟨_, _, _, _, rfl, bstrValue_stringBytes hprotLen, hdec, ?_, hmap, ?_⟩
  · rintro (⟨-, hne⟩ | hek | hpsk)
    · exact hne rfl
    · rw [hrep.contains_iff, List.mem_singleton, Label.int.injEq] at hek
      exact absurd hek (by decide)
    · rw [hrep.contains_iff, List.mem_singleton, Label.int.injEq] at hpsk
      exact absurd hpsk (by decide)
  · rintro (⟨hprotected, -⟩ | hiv | hpartial | hek | hlen | hpsk)
    · exact Bool.noConfusion (hprotected.symm.trans ((hrep.contains_iff _).mpr (List.mem_singleton_self _)))
    · cases hiv
    · cases hpartial
    · cases hek
    · exact hlen henc
    · rw [hrep.not_contains_merged] at hpsk
      · cases hpsk
      · decide
      · rcases labelsOf_hpkeEntries kid enc with h | h
        · rw [h]
          decide
        · rw [h]
          decide

/-- The header that the decryption of a message with HPKE returns. -/
def EncryptArgs.hpkeHdr (args : EncryptArgs) (kid : Pointer) : Hdr :=
  { Hdr.zero with
    alg := algHpke0, kid := hdrKidOf kid, flags := if args.detached.isNull = false then 0 ||| hdrFlagDetached else 0 }

omit [WolfCrypt] [RecipientCrypt] in
/-- The ciphertext of a message is read back. -/
theorem hpkeCiphertextValue_ciphertextBytes {args : EncryptArgs} {detachedCt : Pointer} {hdr : Hdr} {ciphertext : Bytes}
    (hflags : hdr.flags = 0) (hlen : ciphertext.length < 2 ^ 64)
    (hdetached : args.detached.isNull = false → detachedCt = .mem ciphertext) :
  HpkeCiphertextValue detachedCt hdr (args.ciphertextBytes ciphertext)
    ({ hdr with flags := if args.detached.isNull = false then 0 ||| hdrFlagDetached else 0 }, ciphertext)
  := by
  unfold EncryptArgs.ciphertextBytes
  split
  · rename_i hd
    obtain rfl := hdetached hd
    refine ⟨_, accepted_null, .inl ⟨rfl, rfl, rfl, ?_⟩, rfl⟩
    rw [hflags]
    rfl
  · obtain ⟨t, ht, ⟨hm, rfl⟩, hbytes⟩ := @bstrValue_stringBytes _ 0 ciphertext hlen
    refine ⟨t, ht, .inr ⟨hm, ?_⟩, hbytes⟩
    rw [← hflags]

/-- A message that is created with HPKE is decrypted with the private half of the key to its payload. -/
theorem hpkeEncrypt0Decrypt_created {Half : EccKey → EccKey → Prop} (hcorrect : CorrectHpke Half)
    (hhpke : haveHpke0 = true) {key key' : Key} (hhalf : key.PrivateHalf Half key') {kid : Pointer} {args : EncryptArgs}
    {protectedHdr enc ciphertext : Bytes} (h : HpkeEncrypt0Sealed key kid args protectedHdr enc ciphertext)
    {input scratch : Buffer} {detachedCt : Pointer}
    (hinput : input.bytes = hpkeEncrypt0Fields protectedHdr kid enc ++ args.ciphertextBytes ciphertext)
    (hfits : input.bytes.length ≤ 0xFFFFFFFF) (hdetachedFits : lenFitsWord32 detachedCt.len = true)
    (hdetached : args.detached.isNull = false → detachedCt = .mem ciphertext) {plaintext : Bytes}
    (hroom : DecryptRoom (encStructure0 protectedHdr args.extAad.bytes).bytes args.payload.bytes scratch plaintext)
    {hdr : Hdr} {plaintextLen : Nat} :
  hpkeEncrypt0Decrypt (some key') ⟨some input, detachedCt, args.extAad, some scratch⟩
      ⟨some hdr, some plaintext, some plaintextLen⟩
    = (.ok (), ⟨some (args.hpkeHdr kid), some (Bytes.overwrite plaintext 0 args.payload.bytes),
        some args.payload.bytes.length⟩)
  := by
  obtain ⟨eccKey, hpke, hkey, hinit, henc, hle, block, hopen, hblock⟩ := h.sealed.opened hcorrect hhalf
  have hctLen := h.sealed.length
  have hpayloadLen : args.payload.bytes.length ≤ 0xFFFFFFFF := by
    have hle : args.payload.bytes.length ≤ args.payload.len := by
      cases args.payload with
      | null n => exact Nat.zero_le n
      | mem bs => exact Nat.le_refl _
    have hfit : args.payload.len ≤ 0xFFFFFFFF := by simpa [lenFitsWord32] using h.payload
    omega
  have htagSz : hpke0TagSz = 16 := rfl
  have hctFits : ciphertext.length < 2 ^ 64 := by omega
  have hkidLen : hasKid kid → kid.bytes.length < 2 ^ 64 := by
    intro hkid
    rw [hinput, hpkeEncrypt0Fields, bucketBytes_hpke] at hfits
    simp only [if_pos hkid, List.length_append, length_stringBytes] at hfits
    omega
  have hencoding : HpkeEncrypt0Encoding detachedCt input.bytes
      ⟨protectedHdr, args.hpkeHdr kid, some enc, ciphertext⟩ := by
    have hstart := @startValue_tag _ tagEncrypt0 3 True _ (by decide) (by decide)
    rw [if_pos trivial] at hstart
    refine ⟨_, _, _, _, ?_, hstart, hpkeHeadersValue_created hhpke h.protectedHdr_eq hkidLen henc,
      hpkeCiphertextValue_ciphertextBytes rfl hctFits hdetached⟩
    rw [hinput, hpkeEncrypt0Fields, List.append_assoc]
  rw [← decodeHpkeEncrypt0_eq_ok] at hencoding
  have hpayloadSz : ciphertext.length - hpke0TagSz = args.payload.bytes.length := by omega
  have hfitsPayload : lenFitsWord32 (ciphertext.length - hpke0TagSz) = true := by
    rw [hpayloadSz]
    simpa [lenFitsWord32] using hpayloadLen
  have hroomPayload := hroom.plaintextRoom
  have hopened : hpke0Open (some key') algHpke0 [] (encStructure0 protectedHdr args.extAad.bytes).bytes (some enc)
      ciphertext plaintext.length = .ok args.payload.bytes := by
    simp only [hpke0Open, bind_eq_ok, failWhen_eq_ok, orCrypto_eq_ok, orDecryptFail_eq_ok]
    refine ⟨(), Bool.false_ne_true, (), ?_, (), ?_, (), ?_, eccKey, hkey, hpke, hinit, block, hopen, hblock⟩
    · rintro (hne | hlt)
      · exact hne henc
      · omega
    · omega
    · rintro (hf | hf | hf)
      · cases hf
      · exact Bool.noConfusion (hf.symm.trans h.aad)
      · exact Bool.noConfusion (hf.symm.trans hfitsPayload)
  have hmessage : hpkeEncrypt0DecryptMessage key' input detachedCt args.extAad scratch plaintext.length
      = .ok (args.hpkeHdr kid, args.payload.bytes) := by
    simp only [hpkeEncrypt0DecryptMessage, bind_eq_ok, failWhen_eq_ok, lift_eq_ok, pure_eq_ok,
      buildEncStructure_eq_ok]
    refine ⟨_, hencoding, (), Nat.not_lt.mpr hle, (), ?_, _, ⟨rfl, rfl, Pointer.valid_mem _, h.extAad.1,
      ⟨scratch, rfl, hroom.scratchRoom⟩, rfl⟩, args.payload.bytes, hopened, rfl⟩
    change ¬ ciphertext.length - hpke0TagSz > plaintext.length
    omega
  have hinputFits : lenFitsWord32 input.bytes.length = true := by simpa [lenFitsWord32] using hfits
  have hne : ¬ input.bytes.length = 0 := by
    have := (Token.ofHead .tag tagEncrypt0).one_le_length_bytes
    rw [Token.bytes_ofHead] at this
    rw [hinput, hpkeEncrypt0Fields]
    simp only [List.length_append]
    omega
  simp only [hpkeEncrypt0Decrypt, hne, hinputFits, hdetachedFits, h.extAad.2, hroom.scratchFits, hroom.plaintextFits,
    hmessage]
  rfl

end

end WolfCose
