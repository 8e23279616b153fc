import WolfCose.Sign.Entries
import WolfCose.Sign1.Verify

/-!
# Verifying a COSE_Sign message

`wc_CoseSign_Verify` of `wolfcose_sign.c`, which verifies the signature at an index and skips
the others.  The message is decoded exactly if the signature at the index is accepted by the
header decoders and all others by the walker that skips them.
-/

namespace WolfCose

open Program Cbor Settings

section

variable [Settings]

/-! ### The message -/

/-- What `wc_CoseSign_Verify` finds in a message. -/
structure SignMessage where
  body : Headers
  hdr : Hdr
  payload : Option Bytes
  signer : Headers
  signature : Bytes

/-- The steps of `wc_CoseSign_Verify` that decode the message, with the algorithm that the key
is restricted to. -/
def decodeSign (keyAlg : Int) (signerIndex : Nat) (detached : Pointer) : Dec SignMessage := do
  decodeStart tagSign 4 0
  let body ← decodeHeaders 0
  let (hdr, payload) ← decodePayload detached body.hdr 0
  let signatureCount ← decodeArrayStart
  failIf (signerIndex ≥ signatureCount) .invalidArg
  repeatM signerIndex (fun _ => decodeSkippedSignature) ()
  let (signer, signature) ← decodeSigner keyAlg
  repeatM (signatureCount - (signerIndex + 1)) (fun _ => decodeSkippedSignature) ()
  decodeEnd
  return ⟨body, hdr, payload, signer, signature⟩

/-- The bytes of a message before its signatures. -/
def SignBody (detached : Pointer) (n : Nat) (bs : Bytes) (msg : SignMessage) : Prop :=
  ∃ start headers payload list, bs = start ++ (headers ++ (payload ++ list.bytes))
    ∧ StartValue 0 tagSign 4 start ∧ HeadersValue 0 headers msg.body
    ∧ PayloadValue 0 detached msg.body.hdr payload (msg.hdr, msg.payload)
    ∧ Accepted 0 list ∧ list.major = .array ∧ list.val = n

theorem DataItem.ne_nil {e : Bytes} (h : DataItem e) :
  e ≠ []
  := by
  obtain ⟨_, h⟩ := h
  apply h.ne_nil

/-- A message is decoded at an index exactly if the signature there is accepted when it is
selected and all others are skipped, with nothing after them. -/
theorem decodeSign_eq_ok {keyAlg : Int} {signerIndex : Nat} {detached : Pointer} {input : Buffer}
    {msg : SignMessage} :
  decodeBuffer (decodeSign keyAlg signerIndex detached) input = .ok msg
    ↔ ∃ (body : Bytes) (before : List Bytes) (e : Bytes) (after : List Bytes), input.bytes = body ++ (before.flatten ++ (e ++ after.flatten))
      ∧ SignBody detached (before.length + (after.length + 1)) body msg ∧ before.length = signerIndex
      ∧ (∀ x ∈ before, SkippedSignature x) ∧ (∀ x ∈ after, SkippedSignature x)
      ∧ SelectedSignature keyAlg e msg.signer msg.signature
  := by
  have hf := decodeFlagsValid_zero
  simp only [decodeBuffer_eq_ok, decodeSign, decodeArrayStart, runs_bind, runs_pure, runs_failIf,
    runs_decodeStart hf, reads_decodeHeaders hf _ _ _, reads_decodePayload hf _ _ _ _ _,
    runs_decodeArrayStartEx, reads_skippedSignatures, reads_decodeSigner _ _ _ _, runs_decodeEnd]
  constructor
  · rintro ⟨_, _, c₁, ⟨start, hstart, h₁, -⟩, headers, c₂, ⟨bs₂, hheaders, h₂⟩, ⟨hdr, payload⟩, c₃,
      ⟨bs₃, hpayload, h₃⟩, n, c₄, ⟨-, list, hlist, h₄, hm, hv, -⟩, _, _, ⟨hn, rfl⟩, _, c₅,
      ⟨before, rfl, hbefore, h₅⟩, ⟨signer, signature⟩, c₆, ⟨e, he, h₆⟩, _, c₇, ⟨after, hafter', hafter, h₇⟩,
      _, _, ⟨hend, rfl⟩, rfl, rfl⟩
    have hc := (h₁.trans (h₂.trans (h₃.trans h₄))).trans (h₅.trans (h₆.trans h₇))
    refine ⟨_, before, e, after, ?_, ⟨start, bs₂, bs₃, list, rfl, hstart, hheaders, hpayload, hlist, hm, ?_⟩,
      rfl, hbefore, hafter, he⟩
    · exact hc.init_end hend
    · omega
  · rintro ⟨body, before, e, after, hinput, ⟨start, bs₂, bs₃, list, rfl, hstart, hheaders, hpayload, hlist,
      hm, hv⟩, hbefore', hbefore, hafter, he⟩
    obtain ⟨last, hc, hend⟩ := DecCtx.consumes_whole input
    rw [hinput] at hc
    simp only [List.append_assoc] at hc
    obtain ⟨c₁, h₁, hc⟩ := hc.split
    have l₁ := hc.length_rest_eq
    obtain ⟨c₂, h₂, hc⟩ := hc.split
    obtain ⟨c₃, h₃, hc⟩ := hc.split
    obtain ⟨c₄, h₄, hc⟩ := hc.split
    have l₄ := hc.length_rest_eq
    obtain ⟨c₅, h₅, hc⟩ := hc.split
    obtain ⟨c₆, h₆, h₇⟩ := hc.split
    have hroom₁ : 4 ≤ c₁.rest.length := by
      have k₁ := hheaders.two_le_length
      have k₂ := List.length_pos_iff.mpr hpayload.ne_nil
      have k₃ := list.one_le_length_bytes
      rw [l₁]
      simp only [List.length_append]
      omega
    have hroom₄ : list.children ≤ c₄.rest.length := by
      have k₁ := Bytes.length_le_flatten fun x hx => (hbefore x hx).dataItem.ne_nil
      have k₂ := Bytes.length_le_flatten fun x hx => (hafter x hx).dataItem.ne_nil
      have k₃ := List.length_pos_iff.mpr he.dataItem.ne_nil
      rw [l₄, Token.children, hm, hv]
      simp only [List.length_append]
      omega
    exact ⟨_, (), c₁, ⟨start, hstart, h₁, hroom₁⟩, msg.body, c₂, ⟨bs₂, hheaders, h₂⟩, (msg.hdr, msg.payload),
      c₃, ⟨bs₃, hpayload, h₃⟩, _, c₄, ⟨hf, list, hlist, h₄, hm, hv, hroom₄⟩, (), c₄, ⟨by omega, rfl⟩, (), c₅,
      ⟨before, hbefore', hbefore, h₅⟩, (msg.signer, msg.signature), c₆, ⟨e, he, h₆⟩, (), last,
      ⟨after, by omega, hafter, h₇⟩, (), last, ⟨hend, rfl⟩, rfl, rfl⟩

/-! ### Verification -/

variable [WolfCrypt]

/-- The digest that `wc_CoseSign_Verify` computes before it dispatches, if the algorithm does
not sign the structure itself. -/
def signDigest (alg : Int) (tbs : Bytes) : Checked (Option (HashType × Bytes)) :=
  if algIsEddsa alg = false ∧ algIsMlDsa alg = false ∧ alg ≠ algHssLms then do
    let hashed ← hashFor alg tbs
    return some hashed
  else
    return none

/-- The content of the digest buffer, which is undefined if nothing was written to it. -/
def digestBuffer : Option (HashType × Bytes) → Checked (HashType × Bytes)
  | some hashed => .ok hashed
  | none => .error .undefined

/-- The dispatch of `wc_CoseSign_Verify` over the families of algorithms. -/
def signVerifyTbs (key : Key) (alg : Int) (tbs sig : Bytes) (scratchSz : Nat) : Checked Unit := do
  let hashed ← signDigest alg tbs
  if algIsEcdsa alg = true then verifyEcdsa true key alg (digestBuffer hashed) sig
  else if algIsEddsa alg = true then verifyEddsa key alg tbs sig
  else if haveRsapss = true ∧ algIsPss alg = true then verifyPss key (digestBuffer hashed) sig scratchSz
  else if haveMldsa = true ∧ algIsMlDsa alg = true then verifyMlDsa key alg tbs sig
  else if haveLms = true ∧ alg = algHssLms then verifyLms key tbs sig
  else throw (.err .coseBadAlg)

/-- The steps of `wc_CoseSign_Verify` after the checks of its arguments; the header gets the
algorithm of the signer. -/
def signVerifyMessage (key : Key) (signerIndex : Nat) (input : Buffer) (detached extAad : Pointer)
    (scratch : Buffer) : Checked (Hdr × Option Bytes) := do
  let msg ← decodeBuffer (decodeSign key.alg signerIndex detached) input
  let alg := msg.signer.hdr.alg
  let tbs ← lift (buildToBeSignedMaced (.mem ctxSignature) (.mem msg.body.protectedData)
    (.mem msg.signer.protectedData) extAad (verifyPayload detached msg.payload) (some scratch))
  signVerifyTbs key alg tbs msg.signature scratch.bytes.length
  return ({ msg.hdr with alg }, msg.payload)

/-- `wc_CoseSign_Verify` -/
def signVerify (args : VerifyArgs) (signerIndex : Nat) (out : VerifyOut) : Checked Unit × VerifyOut :=
  out.finish <|
    match args.key, args.input, args.scratch, out.hdr, out.payload, out.payloadLen with
    | some key, some input, some scratch, some _, some _, some _ => do
        failWhen (lenFitsWord32 input.bytes.length = false ∨ lenFitsWord32 args.detached.len = false ∨
          lenFitsWord32 args.extAad.len = false ∨ lenFitsWord32 scratch.bytes.length = false) .invalidArg
        signVerifyMessage key signerIndex input args.detached args.extAad scratch
    | _, _, _, _, _, _ => throw (.err .invalidArg)

/-- The digest, where there is one, is that of the bytes to be signed. -/
theorem signDigest_ok {alg : Int} {tbs : Bytes} {hashed : Option (HashType × Bytes)}
    (h : signDigest alg tbs = .ok hashed) (r : HashType × Bytes) (hr : digestBuffer hashed = .ok r) :
  Digest alg tbs r.1 r.2
  := by
  unfold signDigest at h
  split at h
  · simp only [bind_eq_ok, pure_eq_ok] at h
    obtain ⟨x, hx, rfl⟩ := h
    obtain rfl := Except.ok.inj hr
    apply hashFor_ok hx
  · rw [pure_eq_ok] at h
    rw [← h] at hr
    cases hr

theorem signVerifyTbs_ok {key : Key} {alg : Int} {tbs sig : Bytes} {scratchSz : Nat}
    (h : signVerifyTbs key alg tbs sig scratchSz = .ok ()) :
  key.Verified alg tbs sig
  := by
  unfold signVerifyTbs at h
  rw [bind_eq_ok] at h
  obtain ⟨hashed, hhash, h⟩ := h
  have hd := signDigest_ok hhash
  split at h
  · apply verifyEcdsa_ok _ hd h
    assumption
  split at h
  · apply verifyEddsa_ok _ h
    assumption
  split at h
  · rename_i hpss
    apply verifyPss_ok hpss.2 hd h
  split at h
  · apply verifyMlDsa_ok h
  split at h
  · rename_i hlms
    apply verifyLms_ok hlms.2 h
  · cases h

/-- The structure that a signature of a COSE_Sign message signs. -/
def sigStructure (bodyProtected signProtected extAad payload : Bytes) : AuthStructure :=
  .content ctxSignature bodyProtected (some signProtected) extAad payload none

/-- What a successful verification of a message establishes: the message is decoded, and the
signature at the index is verified with the algorithm of its header. -/
theorem signVerify_ok {args : VerifyArgs} {signerIndex : Nat} {out out' : VerifyOut}
    (h : signVerify args signerIndex out = (.ok (), out')) :
  ∃ key input msg, args.key = some key ∧ args.input = some input
    ∧ decodeBuffer (decodeSign key.alg signerIndex args.detached) input = .ok msg
    ∧ out' = .verified { msg.hdr with alg := msg.signer.hdr.alg } msg.payload
    ∧ key.Verified msg.signer.hdr.alg (sigStructure msg.body.protectedData msg.signer.protectedData
        args.extAad.bytes (verifyPayload args.detached msg.payload).bytes).bytes msg.signature
  := by
  obtain ⟨hdr, payload, hret, rfl⟩ := VerifyOut.finish_ok h
  split at hret
  · simp only [signVerifyMessage, bind_eq_ok, failWhen_eq_ok, lift_eq_ok, pure_eq_ok,
      buildToBeSignedMaced_eq_ok] at hret
    obtain ⟨_, -, msg, hdec, tbs, ⟨-, -, -, -, -, -, rfl⟩, _, hver, he⟩ := hret
    cases he
    exact ⟨_, _, msg, by assumption, by assumption, hdec, rfl, signVerifyTbs_ok hver⟩
  · cases hret

end

end WolfCose
