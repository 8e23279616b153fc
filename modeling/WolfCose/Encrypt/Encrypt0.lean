import WolfCose.Encrypt.Aead
import WolfCose.Mac.Mac0

/-!
# COSE_Encrypt0

`wc_CoseEncrypt0_Encrypt` and `wc_CoseEncrypt0_Decrypt` of `wolfcose_encrypt0.c` for symmetric
keys.  The ciphertext is in the message, or detached from it in a buffer of its own.
-/

namespace WolfCose

open Program Cbor Settings

/-! ### Arguments and results -/

/-- A buffer that is filled with zeros. -/
def forceZero (bs : Bytes) : Bytes := List.replicate bs.length 0

/-- The content of the buffer at a pointer, if it is not null. -/
def Pointer.content : Pointer → Option Bytes
  | .null _ => none
  | .mem bs => some bs

section

variable [Settings]

/-- The arguments that the functions which encrypt a message share.  `detached` is the buffer for
a detached ciphertext; `detachedLen` and `outLen` are the values that the caller has stored where
the lengths go. -/
structure EncryptArgs where
  payload : Pointer
  detached : Pointer
  detachedLen : Option Nat
  extAad : Pointer
  scratch : Option Buffer
  out : Option Buffer
  outLen : Option Nat

/-- The check of the lengths against the word size of wolfCrypt. -/
def EncryptArgs.lengthsFit (args : EncryptArgs) (scratch out : Buffer) : Prop :=
  lenFitsWord32 args.payload.len = true ∧ lenFitsWord32 args.extAad.len = true
    ∧ lenFitsWord32 args.detached.len = true ∧ lenFitsWord32 out.bytes.length = true
    ∧ lenFitsWord32 scratch.bytes.length = true

instance (args : EncryptArgs) (scratch out : Buffer) : Decidable (args.lengthsFit scratch out) :=
  inferInstanceAs (Decidable (_ ∧ _))

/-- What a function that encrypts a message leaves behind: its return value, the output buffer and
the length of the message in it, and the buffer for a detached ciphertext and its length. -/
structure EncryptOut where
  ret : Checked Unit
  out : Option Bytes
  outLen : Option Nat
  detached : Option Bytes
  detachedLen : Option Nat

/-- The results of an encryption that succeeds: the message, and the ciphertext if it is
detached. -/
def EncryptArgs.finished (args : EncryptArgs) : EncCtx × Option Bytes → EncryptOut
  | (ctx, none) => ⟨.ok (), some ctx.buf.bytes, some ctx.idx, args.detached.content, args.detachedLen⟩
  | (ctx, some ciphertext) =>
      ⟨.ok (), some ctx.buf.bytes, some ctx.idx, some (Bytes.overwrite args.detached.bytes 0 ciphertext),
        some ciphertext.length⟩

/-- The last steps of `wc_CoseEncrypt0_Encrypt`: the results are returned, or the buffers are
cleared. -/
def encrypt0Finish (args : EncryptArgs) : Checked (EncCtx × Option Bytes) → EncryptOut
  | .ok result => args.finished result
  | .error fault =>
      ⟨.error fault, args.out.map fun buf => forceZero buf.bytes, args.outLen, args.detached.content.map forceZero,
        args.detachedLen⟩

/-- The arguments of the functions that decrypt a message, without the key. -/
structure DecryptArgs where
  input : Option Buffer
  detachedCt : Pointer
  extAad : Pointer
  scratch : Option Buffer

/-- The memory a decrypting function writes its results to: the header, the buffer for the
plaintext and its length. -/
structure DecryptOut where
  hdr : Option Hdr
  plaintext : Option Bytes
  plaintextLen : Option Nat

/-- The last steps of a decrypting function: the results are stored, or cleared. -/
def DecryptOut.finish (out : DecryptOut) : Checked (Hdr × Bytes) → Checked Unit × DecryptOut
  | .ok (hdr, payload) =>
      (.ok (), ⟨some hdr, out.plaintext.map (Bytes.overwrite · 0 payload), some payload.length⟩)
  | .error fault =>
      (.error fault, ⟨out.hdr.map fun _ => .zero, out.plaintext.map forceZero, out.plaintextLen.map fun _ => 0⟩)

/-! ### Creating a message -/

/-- The sum of two numbers of type `size_t`, which wraps. -/
def sizeSum (a b : Nat) : Nat := (a + b) % (sizeMax + 1)

variable [AeadSettings] [AeadCrypt] [WolfCrypt]

omit [AeadSettings] [WolfCrypt] in
/-- The step that encrypts a payload to the place at the cursor.  A place outside of the buffer
is undefined. -/
def encryptAt (cipher : AeadCipher) (iv aad payload : Bytes) (tagLen : Nat) (ctx : EncCtx) : Checked EncCtx := do
  let ciphertext ← aeadEncrypt cipher iv aad payload tagLen
  if ctx.idx + ciphertext.length ≤ ctx.bufSz then return ctx.put ciphertext
  else throw .undefined

/-- The steps of `wc_CoseEncrypt0_Encrypt` that encode the message before the ciphertext. -/
def encodeEncrypt0 (protectedHdr iv : Bytes) : Enc Unit := do
  encodeTag tagEncrypt0
  encodeArrayStart 3
  encodeBstr (.mem protectedHdr)
  encodeMapStart 1
  encodeUint hdrIv.toNat
  encodeBstr (.mem iv)

/-- The steps of `wc_CoseEncrypt0_Encrypt` that encrypt the payload, to the buffer for a detached
ciphertext or into the message. -/
def encrypt0Payload (cipher : AeadCipher) (args : EncryptArgs) (iv aad : Bytes) (tagLen : Nat) (ctx : EncCtx) :
    Checked (EncCtx × Option Bytes) :=
  if args.detached.isNull = false then do
    let ciphertext ← aeadEncrypt cipher iv aad args.payload.bytes tagLen
    let ctx ← encodeAt encodeNull ctx
    return (ctx, some ciphertext)
  else do
    let ctx ← encodeAt (encodeHead .bstr (args.payload.len + tagLen)) ctx
    failWhen (sizeSum ctx.idx (args.payload.len + tagLen) > ctx.bufSz) .bufferTooSmall
    let ctx ← encryptAt cipher iv aad args.payload.bytes tagLen ctx
    return (ctx, none)

/-- The steps of `wc_CoseEncrypt0_Encrypt` after the checks for null pointers. -/
def encrypt0Message (key : Key) (alg : Int) (iv : Pointer) (args : EncryptArgs) (scratch out : Buffer) :
    Checked (EncCtx × Option Bytes) := do
  failWhen (¬ args.lengthsFit scratch out) .invalidArg
  failWhen (key.kty ≠ ktySymmetric) .coseKeyType
  failWhen (key.alg ≠ algUnset ∧ key.alg ≠ alg) .coseBadAlg
  let keyLen ← lift (aeadKeyLen alg)
  failWhen (key.symmKeyLen ≠ keyLen) .coseKeyType
  let tagLen ← lift (aeadTagLen alg)
  lift (aeadCheckPayloadLen alg args.payload.len)
  failWhen (args.detached.isNull = false ∧ (args.detachedLen = none ∨
    args.detached.len < sizeSum args.payload.len tagLen)) .bufferTooSmall
  let nonceLen ← lift (aeadNonceLen alg)
  failWhen (iv.len ≠ nonceLen) .invalidArg
  let protectedHdr ← lift (algProtectedHdr alg)
  let aad ← lift (buildEncStructure (.mem ctxEncrypt0) (.mem protectedHdr) args.extAad (some scratch))
  let ctx ← encodeAt (encodeEncrypt0 protectedHdr iv.bytes) (.init out)
  failWhen (args.payload.len > sizeMax - tagLen) .bufferTooSmall
  let symmKey ← key.symmKey
  let cipher ← aeadSetKey alg symmKey
  encrypt0Payload cipher args iv.bytes aad tagLen ctx

/-- `wc_CoseEncrypt0_Encrypt` -/
def encrypt0Encrypt (key : Option Key) (alg : Int) (iv : Pointer) (args : EncryptArgs) : EncryptOut :=
  encrypt0Finish args <|
    match key, args.scratch, args.out, args.outLen with
    | some key, some scratch, some out, some _ => do
        failWhen (iv.isNull = true ∨ args.payload.isNull = true) .invalidArg
        encrypt0Message key alg iv args scratch out
    | _, _, _, _ => throw (.err .invalidArg)

/-! ### Decrypting a message -/

/-- What `wc_CoseEncrypt0_Decrypt` finds in a message. -/
structure Encrypt0Message where
  headers : Headers
  hdr : Hdr
  ciphertext : Bytes

omit [AeadSettings] [AeadCrypt] [WolfCrypt] in
/-- The steps of `wc_CoseEncrypt0_Decrypt` that decode the ciphertext, which is null when it is
detached. -/
def decodeCiphertext (detachedCt : Pointer) (hdr : Hdr) : Dec (Hdr × Bytes) := do
  let (hdr, ciphertext) ← decodePayload detachedCt hdr 0
  failIf (ciphertext = none ∧ detachedCt.len = 0) .detachedPayload
  return (hdr, (verifyPayload detachedCt ciphertext).bytes)

/-- The steps of `wc_CoseEncrypt0_Decrypt` that decode the message. -/
def decodeEncrypt0 (detachedCt : Pointer) : Dec Encrypt0Message := do
  decodeStart tagEncrypt0 3 0
  let headers ← decodeHeaders 0
  let (hdr, ciphertext) ← decodeCiphertext detachedCt headers.hdr
  decodeEnd
  return ⟨headers, hdr, ciphertext⟩

/-- The steps of `wc_CoseEncrypt0_Decrypt` after the checks of its arguments; the result is the
header and the plaintext. -/
def encrypt0DecryptMessage (key : Key) (input : Buffer) (detachedCt extAad : Pointer) (scratch : Buffer)
    (plaintextSz : Nat) : Checked (Hdr × Bytes) := do
  failWhen (key.kty ≠ ktySymmetric) .coseKeyType
  let msg ← decodeBuffer (decodeEncrypt0 detachedCt) input
  let alg := msg.hdr.alg
  failWhen (key.alg ≠ algUnset ∧ key.alg ≠ alg) .coseBadAlg
  failWhen (key.alg = algUnset ∧ msg.headers.algProtected = false) .coseBadAlg
  let keyLen ← lift (aeadKeyLen alg)
  let tagLen ← lift (aeadTagLen alg)
  failWhen (msg.ciphertext.length < tagLen) .cborMalformed
  failWhen (key.symmKeyLen ≠ keyLen) .coseKeyType
  let payloadSz := msg.ciphertext.length - tagLen
  failAs .cborMalformed (lift (aeadCheckPayloadLen alg payloadSz))
  failWhen (payloadSz > plaintextSz) .bufferTooSmall
  let iv := msg.hdr.iv.getD []
  failWhen (iv.length = 0) .coseBadHdr
  let nonceLen ← lift (aeadNonceLen alg)
  failWhen (iv.length ≠ nonceLen) .coseBadHdr
  let aad ← lift (buildEncStructure (.mem ctxEncrypt0) (.mem msg.headers.protectedData) extAad (some scratch))
  let symmKey ← key.symmKey
  let cipher ← aeadSetKey alg symmKey
  let payload ← aeadDecrypt cipher iv aad (msg.ciphertext.take payloadSz) (msg.ciphertext.drop payloadSz)
  return (msg.hdr, payload)

/-- `wc_CoseEncrypt0_Decrypt` -/
def encrypt0Decrypt (key : Option Key) (args : DecryptArgs) (out : DecryptOut) : Checked Unit × DecryptOut :=
  out.finish <|
    match key, args.input, args.scratch, out.hdr, out.plaintext, out.plaintextLen with
    | some key, some input, some scratch, some _, some plaintext, some _ => do
        failWhen (lenFitsWord32 input.bytes.length = false ∨ lenFitsWord32 args.detachedCt.len = false ∨
          lenFitsWord32 args.extAad.len = false ∨ lenFitsWord32 plaintext.length = false ∨
          lenFitsWord32 scratch.bytes.length = false) .invalidArg
        encrypt0DecryptMessage key input args.detachedCt args.extAad scratch plaintext.length
    | _, _, _, _, _, _ => throw (.err .invalidArg)

/-! ### What is decoded -/

/-- A ciphertext: null when it is detached, or a byte string. -/
def CiphertextValue (detachedCt : Pointer) (hdr : Hdr) (bs : Bytes) (r : Hdr × Bytes) : Prop :=
  ∃ ciphertext, PayloadValue 0 detachedCt hdr bs (r.1, ciphertext) ∧ ¬ (ciphertext = none ∧ detachedCt.len = 0)
    ∧ r.2 = (verifyPayload detachedCt ciphertext).bytes

omit [AeadSettings] [AeadCrypt] [WolfCrypt] in
theorem reads_decodeCiphertext (detachedCt : Pointer) (hdr : Hdr) :
  Reads (decodeCiphertext detachedCt hdr) (CiphertextValue detachedCt hdr)
  := by
  rintro ctx ⟨hdr', ct⟩ ctx'
  simp only [decodeCiphertext, runs_bind, runs_failIf, runs_pure, reads_decodePayload decodeFlagsValid_zero _ _ _ _ _]
  constructor
  · rintro ⟨⟨_, ciphertext⟩, _, ⟨bs, hbs, hc⟩, _, _, ⟨hne, rfl⟩, he, rfl⟩
    cases he
    exact ⟨bs, ⟨ciphertext, hbs, hne, rfl⟩, hc⟩
  · rintro ⟨bs, ⟨ciphertext, hbs, hne, rfl⟩, hc⟩
    exact ⟨(hdr', ciphertext), ctx', ⟨bs, hbs, hc⟩, (), ctx', ⟨hne, rfl⟩, rfl, rfl⟩

/-- The bytes of a COSE_Encrypt0 message and what they say. -/
def Encrypt0Encoding (detachedCt : Pointer) (input : Bytes) (msg : Encrypt0Message) : Prop :=
  ∃ start headers ciphertext, input = start ++ (headers ++ ciphertext)
    ∧ StartValue 0 tagEncrypt0 3 start ∧ HeadersValue 0 headers msg.headers
    ∧ CiphertextValue detachedCt msg.headers.hdr ciphertext (msg.hdr, msg.ciphertext)

omit [AeadSettings] [AeadCrypt] [WolfCrypt] in
/-- A message is decoded exactly if it consists of its three fields, with nothing after them. -/
theorem decodeEncrypt0_eq_ok {detachedCt : Pointer} {input : Buffer} {msg : Encrypt0Message} :
  decodeBuffer (decodeEncrypt0 detachedCt) input = .ok msg ↔ Encrypt0Encoding detachedCt input.bytes msg
  := by
  have hf := decodeFlagsValid_zero
  simp only [decodeBuffer_eq_ok, decodeEncrypt0, runs_bind, runs_pure, runs_decodeStart hf,
    reads_decodeHeaders hf _ _ _, reads_decodeCiphertext _ _ _ _ _, runs_decodeEnd]
  constructor
  · rintro ⟨_, _, c₁, ⟨start, hstart, h₁, -⟩, headers, c₂, ⟨bs₂, hheaders, h₂⟩, ⟨hdr, ciphertext⟩, c₃,
      ⟨bs₃, hciphertext, h₃⟩, _, _, ⟨hend, rfl⟩, rfl, rfl⟩
    refine ⟨start, bs₂, bs₃, ?_, hstart, hheaders, hciphertext⟩
    exact (h₁.trans (h₂.trans h₃)).init_end hend
  · rintro ⟨start, bs₂, bs₃, hinput, hstart, hheaders, hciphertext⟩
    obtain ⟨last, hc, hend⟩ := DecCtx.consumes_whole input
    rw [hinput] at hc
    obtain ⟨c₁, h₁, hc⟩ := hc.split
    have hroom : 3 ≤ c₁.rest.length := by
      obtain ⟨_, hpayload, -⟩ := hciphertext
      have k₂ := hheaders.two_le_length
      have k₃ := List.length_pos_iff.mpr hpayload.ne_nil
      rw [hc.length_rest_eq]
      simp only [List.length_append]
      omega
    obtain ⟨c₂, h₂, h₃⟩ := hc.split
    exact ⟨last, (), c₁, ⟨start, hstart, h₁, hroom⟩, msg.headers, c₂, ⟨bs₂, hheaders, h₂⟩,
      (msg.hdr, msg.ciphertext), last, ⟨bs₃, hciphertext, h₃⟩, (), last, ⟨hend, rfl⟩, rfl, rfl⟩

/-! ### What is created -/

/-- The bytes of a message before the ciphertext. -/
def encrypt0Fields (protectedHdr iv : Bytes) : Bytes :=
  preferredHead .tag tagEncrypt0 ++ preferredHead .array 3 ++
    (stringBytes .bstr protectedHdr ++ bucketBytes [(hdrIv, iv)])

omit [AeadSettings] [AeadCrypt] [WolfCrypt] in
theorem emits_encodeEncrypt0 (protectedHdr iv : Bytes) :
  Emits (encodeEncrypt0 protectedHdr iv) (encrypt0Fields protectedHdr iv)
  := by
  have hbucket : bucketBytes [(hdrIv, iv)]
      = preferredHead .map 1 ++ (preferredHead .uint hdrIv.toNat ++ stringBytes .bstr iv) := by
    rw [bucketBytes, mapBytes, Token.bytes_ofHead, List.map_singleton, entriesBytes_cons, entriesBytes_nil,
      List.append_nil]
    rfl
  rw [encrypt0Fields, hbucket]
  simp only [List.append_assoc]
  apply Emits.bind (emits_encodeHead _ _)
  apply Emits.bind (emits_encodeHead _ _)
  apply Emits.bind (emits_encodeBstr_mem _)
  apply Emits.bind (emits_encodeHead _ _)
  apply Emits.bind (emits_encodeHead _ _)
  apply emits_encodeBstr_mem

/-- The bytes of the ciphertext in a message. -/
def EncryptArgs.ciphertextBytes (args : EncryptArgs) (ciphertext : Bytes) : Bytes :=
  if args.detached.isNull = false then [cborNull] else stringBytes .bstr ciphertext

/-- The structure that is authenticated with a ciphertext. -/
def encStructure0 (protectedHdr extAad : Bytes) : AuthStructure := .aead ctxEncrypt0 protectedHdr extAad

/-- The ciphertext is the encryption of a payload with the key and the algorithm of a message. -/
structure Sealed (key : Key) (alg : Int) (iv aad payload ciphertext : Bytes) : Prop where
  keyLen : aeadKeyLen alg = .ok key.symmKeyLen
  nonceLen : aeadNonceLen alg = .ok iv.length
  checked : aeadCheckPayloadLen alg payload.length = .ok ()
  encrypted : ∃ tagLen symmKey cipher, aeadTagLen alg = .ok tagLen ∧ key.symmKey = .ok symmKey
    ∧ aeadSetKey alg symmKey = .ok cipher ∧ aeadEncrypt cipher iv aad payload tagLen = .ok ciphertext

/-- What a call that encrypts a message has checked and computed. -/
structure Encrypt0Sealed (key : Key) (alg : Int) (iv : Bytes) (args : EncryptArgs)
    (protectedHdr ciphertext : Bytes) : Prop where
  symmetric : key.kty = ktySymmetric
  pinned : key.alg = algUnset ∨ key.alg = alg
  protectedHdr_eq : algProtectedHdr alg = .ok protectedHdr
  extAad : args.extAad.Valid ∧ lenFitsWord32 args.extAad.len = true
  payload : lenFitsWord32 args.payload.len = true
  sealed : Sealed key alg iv (encStructure0 protectedHdr args.extAad.bytes).bytes args.payload.bytes ciphertext

omit [Settings] [AeadCrypt] [WolfCrypt] in
/-- An algorithm with a key is an `int32_t`. -/
theorem inInt32Range_of_aeadKeyLen {alg : Int} {keyLen : Nat} (h : aeadKeyLen alg = .ok keyLen) :
  inInt32Range alg = true
  := by
  rcases isAead_of_aeadKeyLen h with (rfl | rfl | rfl) | (rfl | rfl | rfl | rfl | rfl | rfl | rfl | rfl) | rfl <;>
    decide

omit [AeadSettings] [AeadCrypt] [WolfCrypt] in
/-- A prefix that an encoding program has written is followed by what the next one writes. -/
theorem EncCtx.Writes.written_append {ctx ctx' : EncCtx} {a b : Bytes} (hwritten : ctx.written = a)
    (hidx : ctx.idx ≤ ctx.bufSz) (h : ctx.Writes b ctx') :
  ctx'.written = a ++ b ∧ ctx'.idx ≤ ctx'.bufSz ∧ ctx'.bufSz = ctx.bufSz
  := by
  refine ⟨?_, h.idx_le hidx, ?_⟩
  · rw [h.written_eq hidx, hwritten]
  · obtain ⟨-, rfl⟩ := h
    apply EncCtx.bufSz_put

omit [WolfCrypt] in
theorem encrypt0Payload_ok {alg : Int} {key : Pointer} {cipher : AeadCipher} {args : EncryptArgs} {iv aad : Bytes}
    {tagLen : Nat} {ctx ctx' : EncCtx} {detachedCt : Option Bytes} (hset : aeadSetKey alg key = .ok cipher)
    (htag : aeadTagLen alg = .ok tagLen) (hvalid : args.payload.Valid) (hidx : ctx.idx ≤ ctx.bufSz)
    (h : encrypt0Payload cipher args iv aad tagLen ctx = .ok (ctx', detachedCt)) :
  ∃ ciphertext, aeadEncrypt cipher iv aad args.payload.bytes tagLen = .ok ciphertext
    ∧ ctx'.written = ctx.written ++ args.ciphertextBytes ciphertext ∧ ctx'.idx ≤ ctx'.bufSz
    ∧ ctx'.bufSz = ctx.bufSz
    ∧ detachedCt = (if args.detached.isNull = false then some ciphertext else none)
  := by
  unfold encrypt0Payload at h
  unfold EncryptArgs.ciphertextBytes
  split at h
  · rename_i hd
    simp only [bind_eq_ok, pure_eq_ok, Prod.mk.injEq] at h
    obtain ⟨ciphertext, henc, ctx₁, hnull, rfl, rfl⟩ := h
    obtain ⟨hwritten, hle, hsz⟩ :=
      ((encodeAt_eq_ok (emits_encodeSimpleVal cborNull)).mp hnull).written_append rfl hidx
    refine ⟨ciphertext, henc, ?_, hle, hsz, ?_⟩
    · rw [hwritten, if_pos hd]
    · rw [if_pos hd]
  · rename_i hd
    simp only [bind_eq_ok, pure_eq_ok, failWhen_eq_ok, encryptAt, Prod.mk.injEq] at h
    obtain ⟨ctx₁, hhead, _, -, ctx₂, ⟨ciphertext, henc, hput⟩, rfl, rfl⟩ := h
    obtain ⟨hwritten, hle, hsz⟩ := ((encodeAt_eq_ok (emits_encodeHead _ _)).mp hhead).written_append rfl hidx
    obtain ⟨ct, tag, rfl, hct, htagLen, -⟩ := aeadEncrypt_eq_ok hset htag henc
    split at hput
    · rename_i hfit
      obtain rfl := Except.ok.inj hput
      obtain ⟨hwritten, hle, hsz'⟩ := EncCtx.Writes.written_append hwritten hle ⟨fun _ => hfit, rfl⟩
      refine ⟨_, henc, ?_, hle, hsz'.trans hsz, ?_⟩
      · rw [hwritten, if_neg hd, List.append_assoc, stringBytes, List.length_append, hct, htagLen, hvalid.len_eq]
      · rw [if_neg hd]
    · cases hput

/-- A message that is created consists of the fields and the ciphertext, which may be detached. -/
theorem encrypt0Encrypt_ok {key : Option Key} {alg : Int} {iv : Pointer} {args : EncryptArgs}
    (h : (encrypt0Encrypt key alg iv args).ret = .ok ()) :
  ∃ key' bytes outLen protectedHdr ciphertext, key = some key'
    ∧ Encrypt0Sealed key' alg iv.bytes args protectedHdr ciphertext
    ∧ (encrypt0Encrypt key alg iv args).out = some bytes ∧ (encrypt0Encrypt key alg iv args).outLen = some outLen
    ∧ bytes.take outLen = encrypt0Fields protectedHdr iv.bytes ++ args.ciphertextBytes ciphertext
    ∧ (bytes.take outLen).length ≤ 0xFFFFFFFF
    ∧ (args.detached.isNull = false →
      (encrypt0Encrypt key alg iv args).detached = some (Bytes.overwrite args.detached.bytes 0 ciphertext)
      ∧ (encrypt0Encrypt key alg iv args).detachedLen = some ciphertext.length
      ∧ ciphertext.length ≤ args.detached.bytes.length)
  := by
  unfold encrypt0Encrypt at h ⊢
  split at h
  · rename_i key' scratch out _ hscratch hout houtLen
    generalize hret : (do
      failWhen (iv.isNull = true ∨ args.payload.isNull = true) .invalidArg
      encrypt0Message key' alg iv args scratch out : Checked (EncCtx × Option Bytes)) = ret at h ⊢
    rcases ret with fault | ⟨ctx, detachedCt⟩
    · cases h
    simp only [encrypt0Message, bind_eq_ok, failWhen_eq_ok, lift_eq_ok, buildEncStructure_eq_ok] at hret
    obtain ⟨_, hnull, _, hlengths, _, hkty, _, hpin, keyLen, hkeyLen, _, hkeyLen', tagLen, htag, _, hcheck, _, hroom,
      nonceLen, hnonce, _, hiv, protectedHdr, hprot, aad, ⟨-, -, -, haad, -, rfl⟩, ctx₀, hctx₀, _, hover, symmKey,
      hsymm, cipher, hset, hpayload⟩ := hret
    have hivValid : iv.isNull = false := by
      cases hn : iv.isNull with
      | false => rfl
      | true => exact absurd (.inl hn) hnull
    have hpayloadValid : args.payload.isNull = false := by
      cases hn : args.payload.isNull with
      | false => rfl
      | true => exact absurd (.inr hn) hnull
    have valid {p : Pointer} (h : p.isNull = false) : p.Valid := fun hn => absurd (h.symm.trans hn) Bool.false_ne_true
    have hlengths := Decidable.not_not.mp hlengths
    have hwrites := (encodeAt_eq_ok (emits_encodeEncrypt0 _ _)).mp hctx₀
    have hempty : (EncCtx.init out).written = [] := List.take_zero
    obtain ⟨hwritten, hle, hsz⟩ := hwrites.written_append hempty (Nat.zero_le _)
    rw [List.nil_append] at hwritten
    obtain ⟨ciphertext, henc, hwritten', hle', hsz', rfl⟩ :=
      encrypt0Payload_ok hset htag (valid hpayloadValid) hle hpayload
    rw [hwritten] at hwritten'
    obtain ⟨ct, tag, hsealed, hct, htagLen, -⟩ := aeadEncrypt_eq_ok hset htag henc
    refine ⟨key', ctx.buf.bytes, ctx.idx, protectedHdr, ciphertext, rfl, ⟨Decidable.not_not.mp hkty, ?_, hprot,
      ⟨haad, hlengths.2.1⟩, hlengths.1, ⟨?_, ?_, ?_, tagLen, symmKey, cipher, htag, hsymm, hset, henc⟩⟩, ?_, ?_,
      hwritten', ?_, ?_⟩
    · exact Decidable.or_iff_not_imp_left.mpr fun hset => Decidable.not_not.mp fun hne => hpin ⟨hset, hne⟩
    · rw [hkeyLen, Decidable.not_not.mp hkeyLen']
    · rw [hnonce, ← Decidable.not_not.mp hiv, (valid hivValid).len_eq]
    · rw [← (valid hpayloadValid).len_eq]
      exact hcheck
    · split <;> rfl
    · split <;> rfl
    · have hfits : out.bytes.length ≤ 0xFFFFFFFF := by simpa [lenFitsWord32] using hlengths.2.2.2.1
      have hbuf : ctx.buf.bytes.length = out.bytes.length := hsz'.trans hsz
      rw [List.length_take, hbuf]
      omega
    · intro hd
      have hcap : ¬ args.detached.len < sizeSum args.payload.len tagLen := fun hlt => hroom ⟨hd, .inr hlt⟩
      have hmax := lt_sizeMax
      have htagLe := (aeadTagLen_bounds htag).2
      rw [sizeSum, Nat.mod_eq_of_lt (by omega)] at hcap
      rw [if_pos hd]
      refine ⟨rfl, rfl, ?_⟩
      rw [hsealed, List.length_append, hct, htagLen, ← (valid hd).len_eq, ← (valid hpayloadValid).len_eq]
      omega
  · cases h

/-! ### What is decrypted -/

/-- The cipher has accepted the whole ciphertext with its tag, and has decrypted it to a payload. -/
def Opened (key : Key) (alg : Int) (iv aad ciphertext payload : Bytes) : Prop :=
  ∃ tagLen symmKey cipher, aeadTagLen alg = .ok tagLen ∧ key.symmKey = .ok symmKey
    ∧ aeadSetKey alg symmKey = .ok cipher ∧ tagLen ≤ ciphertext.length
    ∧ aeadDecrypt cipher iv aad (ciphertext.take (ciphertext.length - tagLen))
      (ciphertext.drop (ciphertext.length - tagLen)) = .ok payload

omit [Settings] in
/-- A correct cipher accepts what it has encrypted. -/
theorem Sealed.opened (hcorrect : CorrectAead) {key : Key} {alg : Int} {iv aad payload ciphertext : Bytes}
    (h : Sealed key alg iv aad payload ciphertext) :
  Opened key alg iv aad ciphertext payload
  := by
  obtain ⟨tagLen, symmKey, cipher, htag, hsymm, hset, henc⟩ := h.encrypted
  obtain ⟨ct, tag, rfl, hct, htagLen, hdec⟩ := aeadEncrypt_eq_ok hset htag henc
  have hsub : (ct ++ tag).length - tagLen = ct.length := by
    rw [List.length_append]
    omega
  refine ⟨tagLen, symmKey, cipher, htag, hsymm, hset, ?_, ?_⟩
  · rw [List.length_append]
    omega
  · rw [hsub, List.take_left, List.drop_left]
    exact hdec hcorrect

omit [Settings] in
/-- The length of a ciphertext is that of the payload and the tag. -/
theorem Sealed.length {key : Key} {alg : Int} {iv aad payload ciphertext : Bytes}
    (h : Sealed key alg iv aad payload ciphertext) {tagLen : Nat} (htag : aeadTagLen alg = .ok tagLen) :
  ciphertext.length = payload.length + tagLen
  := by
  obtain ⟨tagLen', symmKey, cipher, htag', -, hset, henc⟩ := h.encrypted
  obtain rfl := Except.ok.inj (htag.symm.trans htag')
  obtain ⟨ct, tag, rfl, hct, htagLen, -⟩ := aeadEncrypt_eq_ok hset htag henc
  rw [List.length_append, hct, htagLen]

/-- What a successful decryption of a message establishes. -/
structure Encrypt0Opened (key : Key) (input : Bytes) (detachedCt extAad : Pointer) (hdr : Hdr) (payload : Bytes)
    (msg : Encrypt0Message) : Prop where
  encoding : Encrypt0Encoding detachedCt input msg
  returned : hdr = msg.hdr
  symmetric : key.kty = ktySymmetric
  pinned : key.alg ≠ algUnset → key.alg = hdr.alg
  protected_of_unset : key.alg = algUnset → msg.headers.algProtected = true
  opened : Opened key hdr.alg (hdr.iv.getD []) (encStructure0 msg.headers.protectedData extAad.bytes).bytes
    msg.ciphertext payload

theorem encrypt0DecryptMessage_ok {key : Key} {input scratch : Buffer} {detachedCt extAad : Pointer}
    {plaintextSz : Nat} {hdr : Hdr} {payload : Bytes}
    (h : encrypt0DecryptMessage key input detachedCt extAad scratch plaintextSz = .ok (hdr, payload)) :
  ∃ msg, Encrypt0Opened key input.bytes detachedCt extAad hdr payload msg
  := by
  simp only [encrypt0DecryptMessage, bind_eq_ok, failWhen_eq_ok, lift_eq_ok, pure_eq_ok, decodeEncrypt0_eq_ok,
    buildEncStructure_eq_ok] at h
  obtain ⟨_, hkty, msg, henc, _, hpin, _, hprot, keyLen, hkeyLen, tagLen, htag, _, hshort, _, hkeyLen', _, hcheck, _,
    hroom, _, -, nonceLen, -, _, -, aad, ⟨-, -, -, -, -, rfl⟩, symmKey, hsymm, cipher, hset, payload', hdec, he⟩ := h
  cases he
  refine ⟨msg, henc, rfl, Decidable.not_not.mp hkty, ?_, ?_, tagLen, symmKey, cipher, htag, hsymm, hset,
    Nat.le_of_not_lt hshort, hdec⟩
  · intro hset
    by_contra hne
    apply hpin
    exact ⟨hset, hne⟩
  · intro hunset
    by_contra hne
    apply hprot
    exact ⟨hunset, by simpa using hne⟩

omit [Settings] [AeadSettings] [AeadCrypt] [WolfCrypt] in
theorem DecryptOut.finish_ok {out out' : DecryptOut} {ret : Checked (Hdr × Bytes)}
    (h : out.finish ret = (.ok (), out')) :
  ∃ hdr payload, ret = .ok (hdr, payload)
    ∧ out' = ⟨some hdr, out.plaintext.map (Bytes.overwrite · 0 payload), some payload.length⟩
  := by
  rcases ret with fault | ⟨hdr, payload⟩
  · cases h
  · exact ⟨hdr, payload, rfl, (Prod.mk.inj h).2.symm⟩

/-- What a decryption that fails leaves behind: no plaintext, and the length zero. -/
def DecryptOut.Cleared (out out' : DecryptOut) : Prop :=
  out'.plaintext = out.plaintext.map forceZero ∧ out'.plaintextLen = out.plaintextLen.map fun _ => 0

omit [Settings] [AeadSettings] [AeadCrypt] [WolfCrypt] in
theorem DecryptOut.finish_error {out out' : DecryptOut} {ret : Checked (Hdr × Bytes)} {fault : Fault}
    (h : out.finish ret = (.error fault, out')) :
  out.Cleared out'
  := by
  rcases ret with fault' | ⟨hdr, payload⟩
  · cases h
    exact ⟨rfl, rfl⟩
  · cases h

/-- The plaintext of a call that succeeds is that of a ciphertext which the cipher has accepted. -/
theorem encrypt0Decrypt_ok {key : Option Key} {args : DecryptArgs} {out out' : DecryptOut}
    (h : encrypt0Decrypt key args out = (.ok (), out')) :
  ∃ key' input plaintext hdr payload msg, key = some key' ∧ args.input = some input
    ∧ out.plaintext = some plaintext
    ∧ out' = ⟨some hdr, some (Bytes.overwrite plaintext 0 payload), some payload.length⟩
    ∧ Encrypt0Opened key' input.bytes args.detachedCt args.extAad hdr payload msg
  := by
  obtain ⟨hdr, payload, hret, rfl⟩ := DecryptOut.finish_ok h
  split at hret
  · rename_i key' input scratch _ plaintext _ hinput _ _ hplaintext _
    simp only [bind_eq_ok, failWhen_eq_ok] at hret
    obtain ⟨_, -, hret⟩ := hret
    obtain ⟨msg, hmsg⟩ := encrypt0DecryptMessage_ok hret
    exact ⟨key', input, plaintext, hdr, payload, msg, rfl, hinput, hplaintext, by rw [hplaintext]; rfl, hmsg⟩
  · cases hret

/-! ### A message that is created is decrypted -/

/-- The header that the decryption of a message returns. -/
def EncryptArgs.hdr (args : EncryptArgs) (alg : Int) (iv : Bytes) : Hdr :=
  { Hdr.zero with alg, iv := some iv, flags := if args.detached.isNull = false then 0 ||| hdrFlagDetached else 0 }

omit [AeadSettings] [AeadCrypt] [WolfCrypt] in
/-- The ciphertext of a message is read back. -/
theorem ciphertextValue_ciphertextBytes {args : EncryptArgs} {detachedCt : Pointer} {hdr : Hdr} {ciphertext : Bytes}
    (hflags : hdr.flags = 0) (hlen : ciphertext.length < 2 ^ 64) (hne : ciphertext ≠ [])
    (hdetached : args.detached.isNull = false → detachedCt = .mem ciphertext) :
  CiphertextValue detachedCt hdr (args.ciphertextBytes ciphertext)
    ({ hdr with flags := if args.detached.isNull = false then 0 ||| hdrFlagDetached else 0 }, ciphertext)
  := by
  unfold EncryptArgs.ciphertextBytes
  split
  · rename_i hd
    obtain rfl := hdetached hd
    refine ⟨none, .inl ⟨rfl, rfl, ?_⟩, ?_, rfl⟩
    · rw [hflags]
    · rintro ⟨-, hzero⟩
      exact hne (List.eq_nil_of_length_eq_zero hzero)
  · refine ⟨some ciphertext, .inr ⟨ciphertext, bstrValue_stringBytes hlen, ?_⟩, by rintro ⟨⟨⟩, -⟩, rfl⟩
    rw [← hflags]

omit [AeadSettings] [AeadCrypt] [WolfCrypt] in
/-- A message is decoded to what was put into it. -/
theorem encrypt0Encoding_created {alg : Int} {iv protectedHdr ciphertext message : Bytes} {args : EncryptArgs}
    {detachedCt : Pointer} (halg : inInt32Range alg = true) (hprot : algProtectedHdr alg = .ok protectedHdr)
    (hmessage : message = encrypt0Fields protectedHdr iv ++ args.ciphertextBytes ciphertext)
    (hlen : message.length < 2 ^ 64) (hlen' : ciphertext.length < 2 ^ 64) (hne : ciphertext ≠ [])
    (hdetached : args.detached.isNull = false → detachedCt = .mem ciphertext) :
  Encrypt0Encoding detachedCt message
    ⟨⟨protectedHdr, { Hdr.zero with alg, iv := some iv }, true⟩, args.hdr alg iv, ciphertext⟩
  := by
  have hiv : iv.length < 2 ^ 64 := by
    rw [hmessage] at hlen
    simp only [encrypt0Fields, bucketBytes, mapBytes, List.map_singleton, entriesBytes_cons, bstrEntry, Entry.bytes,
      List.length_append, length_stringBytes] at hlen
    omega
  have hstart := @startValue_tag _ tagEncrypt0 3 True _ (by decide) (by decide)
  rw [if_pos trivial] at hstart
  have hunprot (state : HdrState) (hrep : state.Represents [.int hdrAlg]) :
      Unprotected false state { Hdr.zero with alg } [(hdrIv, iv)] := by
    constructor
    · rw [List.forall_mem_singleton]
      exact ⟨.inr (.inl rfl), hiv⟩
    · apply List.pairwise_singleton
    · rw [List.forall_mem_singleton, Bool.eq_false_iff, ne_eq, hrep.contains_iff, List.mem_singleton, Label.int.injEq]
      exact (by decide : ¬ hdrIv = hdrAlg)
    · exact Nat.le_of_ble_eq_true rfl
    · rintro ⟨-, h⟩
      cases h
  have hheaders := headersValue_alg halg hprot hunprot
  refine ⟨_, _, _, ?_, hstart, hheaders, ciphertextValue_ciphertextBytes rfl hlen' hne hdetached⟩
  rw [hmessage, encrypt0Fields, List.append_assoc]

/-- The buffers of a decryption have accepted lengths, and room for the structure and the
plaintext. -/
structure DecryptRoom (aad payload : Bytes) (scratch : Buffer) (plaintext : Bytes) : Prop where
  scratchFits : lenFitsWord32 scratch.bytes.length = true
  scratchRoom : aad.length ≤ scratch.bytes.length
  plaintextFits : lenFitsWord32 plaintext.length = true
  plaintextRoom : payload.length ≤ plaintext.length

/-- A message that is created is decrypted with the same key to its payload. -/
theorem encrypt0Decrypt_created (hcorrect : CorrectAead) {key : Key} {alg : Int} {iv : Bytes} {args : EncryptArgs}
    {protectedHdr ciphertext : Bytes} (h : Encrypt0Sealed key alg iv args protectedHdr ciphertext)
    {input scratch : Buffer} {detachedCt : Pointer}
    (hinput : input.bytes = encrypt0Fields protectedHdr iv ++ args.ciphertextBytes ciphertext)
    (hfits : input.bytes.length ≤ 0xFFFFFFFF) (hdetachedFits : lenFitsWord32 detachedCt.len = true)
    (hdetached : args.detached.isNull = false → detachedCt = .mem ciphertext) {plaintext : Bytes}
    (hroom : DecryptRoom (encStructure0 protectedHdr args.extAad.bytes).bytes args.payload.bytes scratch plaintext)
    {hdr : Hdr} {plaintextLen : Nat} :
  encrypt0Decrypt (some key) ⟨some input, detachedCt, args.extAad, some scratch⟩
      ⟨some hdr, some plaintext, some plaintextLen⟩
    = (.ok (), ⟨some (args.hdr alg iv), some (Bytes.overwrite plaintext 0 args.payload.bytes),
        some args.payload.bytes.length⟩)
  := by
  have halg := inInt32Range_of_aeadKeyLen h.sealed.keyLen
  obtain ⟨tagLen, symmKey, cipher, htag, hsymm, hset, hle, hdec⟩ := h.sealed.opened hcorrect
  have hctLen := h.sealed.length htag
  have hpayloadLen : args.payload.bytes.length ≤ 0xFFFFFFFF := by
    have hle : args.payload.bytes.length ≤ args.payload.len := by
      cases args.payload with
      | null n => exact Nat.zero_le n
      | mem bs => exact Nat.le_refl _
    have hfit : args.payload.len ≤ 0xFFFFFFFF := by simpa [lenFitsWord32] using h.payload
    omega
  have htagLe := aeadTagLen_bounds htag
  have hne : ciphertext ≠ [] := by
    apply List.ne_nil_of_length_pos
    omega
  have henc := encrypt0Encoding_created halg h.protectedHdr_eq hinput (by omega) (by omega) hne hdetached
  rw [← decodeEncrypt0_eq_ok] at henc
  have hpayloadSz : ciphertext.length - tagLen = args.payload.bytes.length := by omega
  have hmessage : encrypt0DecryptMessage key input detachedCt args.extAad scratch plaintext.length
      = .ok (args.hdr alg iv, args.payload.bytes) := by
    simp only [encrypt0DecryptMessage, bind_eq_ok, failWhen_eq_ok, failAs_eq_ok, lift_eq_ok, pure_eq_ok,
      buildEncStructure_eq_ok]
    refine ⟨(), fun hne => hne h.symmetric, _, henc, (), ?_, (), ?_, key.symmKeyLen, h.sealed.keyLen, tagLen, htag,
      (), Nat.not_lt.mpr hle, (), fun hne => hne rfl, (), ?_, (), ?_, (), ?_, iv.length, h.sealed.nonceLen, (),
      fun hne => hne rfl, _, ⟨rfl, rfl, Pointer.valid_mem _, h.extAad.1, ⟨scratch, rfl, hroom.scratchRoom⟩, rfl⟩,
      symmKey, hsymm, cipher, hset, args.payload.bytes, hdec, rfl⟩
    · rintro ⟨hset, hne⟩
      rcases h.pinned with hpin | hpin
      · exact hset hpin
      · exact hne hpin
    · rintro ⟨-, ⟨⟩⟩
    · rw [hpayloadSz]
      exact h.sealed.checked
    · have := hroom.plaintextRoom
      change ¬ ciphertext.length - tagLen > plaintext.length
      omega
    · have := aeadNonceLen_pos h.sealed.nonceLen
      change ¬ iv.length = 0
      omega
  have hinputFits : lenFitsWord32 input.bytes.length = true := by simpa [lenFitsWord32] using hfits
  simp only [encrypt0Decrypt, hinputFits, hdetachedFits, h.extAad.2, hroom.scratchFits, hroom.plaintextFits, hmessage]
  rfl

end

end WolfCose
