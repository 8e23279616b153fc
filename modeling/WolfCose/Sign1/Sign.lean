import WolfCose.Sig.Output
import WolfCose.Struct

/-!
# Creating a COSE_Sign1 message

`wc_CoseSign1_Sign_ex` of `wolfcose_sign1.c`.  Where the algorithm is HSS-LMS, the size of the
message is computed before anything is signed, so that whatever is encoded after the signature
is sure to fit.
-/

namespace WolfCose

open Program Cbor Settings WolfCrypt

section

variable [WolfCrypt] [Settings]

/-! ### The function -/

/-- `WOLFCOSE_SIGN1_UNTAGGED` -/
def sign1Untagged : UInt32 := 0x0001

/-- `wc_CoseSign1_SignSize_ex` -/
def sign1SignSizeEx (key : Option Key) (alg : Int) (kidLen payloadLen detachedLen : Nat)
    (flags : UInt32) : Checked Nat := do
  failWhen (flags &&& ~~~sign1Untagged ≠ 0) .invalidArg
  failWhen (payloadLen ≠ 0 ∧ detachedLen ≠ 0) .invalidArg
  failWhen (lenFitsWord32 payloadLen = false ∨ lenFitsWord32 detachedLen = false) .invalidArg
  failWhen (key.any (fun key => key.alg ≠ algUnset ∧ key.alg ≠ alg) = true) .coseBadAlg
  let sigLen ← signSigLen key alg
  let protectedHdr ← lift (algProtectedHdr alg)
  let total ← lift (if flags &&& sign1Untagged = 0 then sizeAdd 0 1 else .ok 0)
  let total ← lift (sizeAdd total 1)
  let total ← lift (sizeAddString total protectedHdr.length)
  let total ← lift (sizeAddKid total (kidLen ≠ 0) kidLen)
  let total ← lift (if detachedLen ≠ 0 then sizeAdd total 1 else sizeAddString total payloadLen)
  lift (sizeAddString total sigLen)

/-- The dispatch of `wc_CoseSign1_Sign_ex` over the families of algorithms. -/
def sign1SignTbs (key : Key) (alg : Int) (tbs : Bytes) (scratchSz : Nat) (rng : Option Rng) :
    Signing Bytes :=
  if key.delegated = true then signDelegated key alg tbs scratchSz
  else if algIsEddsa alg = true then do
    check (failWhen (key.kty ≠ ktyOkp) .coseKeyType)
    check (lift (algCheckCrv alg key.crv))
    signEddsa key tbs
  else if algIsEcdsa alg = true then do
    check (failWhen (key.kty ≠ ktyEc2) .coseKeyType)
    check (lift (algCheckCrv alg key.crv))
    check (eccKeyCheckCurve key.crv key.object)
    signEcdsa key (hashFor alg tbs) (fun _ => 132) rng
  else if haveRsapss = true ∧ algIsPss alg = true then signPss key (hashFor alg tbs) scratchSz rng
  else if haveMldsa = true ∧ algIsMlDsa alg = true then signMlDsa key alg tbs scratchSz rng
  else if haveLms = true ∧ lmsVerifyOnly = false ∧ alg = algHssLms then signLms true key tbs scratchSz
  else throw (.err .coseBadAlg)

/-- The steps of `wc_CoseSign1_Sign_ex` that encode the message. -/
def encodeSign1 (flags : UInt32) (protectedHdr : Bytes) (kid : Pointer) (args : SignArgs) (sig : Bytes) :
    Enc Unit := do
  onlyIf (flags &&& sign1Untagged = 0) (encodeTag tagSign1)
  encodeArrayStart 4
  encodeBstr (.mem protectedHdr)
  encodeKid kid
  encodePayload args
  encodeBstr (.mem sig)

/-- The checks of `wc_CoseSign1_Sign_ex` before it signs; the result is the protected header and
the bytes to be signed. -/
def sign1Prepare (key : Key) (alg : Int) (kid : Pointer) (args : SignArgs) (scratch out : Buffer)
    (flags : UInt32) : Checked (Bytes × Bytes) := do
  failWhen (args.sigPayload.isNull = true ∨ args.hasOutLen = false) .invalidArg
  failWhen (key.delegated = false ∧ args.rng.isNone = true) .invalidArg
  failWhen (flags &&& ~~~sign1Untagged ≠ 0) .invalidArg
  failWhen (¬ args.lengthsFit scratch out) .invalidArg
  failWhen (¬ kidConsistent kid) .invalidArg
  failWhen (args.payload.isNull = false ∧ args.detached.isNull = false) .invalidArg
  failWhen (keyCanSign key = false) .coseKeyType
  failWhen (key.alg ≠ algUnset ∧ key.alg ≠ alg) .coseBadAlg
  let protectedHdr ← lift (algProtectedHdr alg)
  let tbs ← lift (buildSigStructure (.mem protectedHdr) args.extAad args.sigPayload (some scratch))
  if haveLms = true ∧ alg = algHssLms then do
    let neededOut ← sign1SignSizeEx (some key) alg kid.len args.payload.len args.detached.len flags
    failWhen (out.bytes.length < neededOut) .bufferTooSmall
    return (protectedHdr, tbs)
  else return (protectedHdr, tbs)

/-- The steps of `wc_CoseSign1_Sign_ex`. -/
def sign1SignMessage (key : Key) (alg : Int) (kid : Pointer) (args : SignArgs) (scratch out : Buffer)
    (flags : UInt32) : Signing EncCtx := do
  let (protectedHdr, tbs) ← check (sign1Prepare key alg kid args scratch out flags)
  let sig ← sign1SignTbs key alg tbs scratch.bytes.length args.rng
  check (encodeAt (encodeSign1 flags protectedHdr kid args sig) (.init out))

/-- `wc_CoseSign1_Sign_ex` -/
def sign1SignEx (key : Option Key) (alg : Int) (kid : Pointer) (args : SignArgs) (flags : UInt32)
    (env : Env) : SignOut :=
  signFinish args
    (match key, args.scratch, args.out with
    | some key, some scratch, some out => sign1SignMessage key alg kid args scratch out flags
    | _, _, _ => throw (.err .invalidArg))
    env

/-! ### What is spent -/

theorem signs_sign1SignTbs (hdoc : DocumentedLengths) {key : Key} {alg : Int} {tbs : Bytes}
    {scratchSz : Nat} {rng : Option Rng} :
  Signs key alg (sign1SignTbs key alg tbs scratchSz rng)
  := by
  apply Signs.ite
  · intro _
    apply signs_signDelegated hdoc
  intro _
  apply Signs.ite
  · intro halg
    apply Signs.bindCheck
    intro _ _
    apply Signs.bindCheck
    intro _ hcrv
    rw [lift_eq_ok] at hcrv
    apply signs_signEddsa hdoc halg hcrv
  intro _
  apply Signs.ite
  · intro halg
    apply Signs.bindCheck
    intro _ _
    apply Signs.bindCheck
    intro _ hcrv
    rw [lift_eq_ok] at hcrv
    apply Signs.bindCheck
    intro _ _
    apply signs_signEcdsa halg hcrv
  intro _
  apply Signs.ite
  · intro h
    apply signs_signPss hdoc h.2
  intro _
  apply Signs.ite
  · intro h
    apply signs_signMlDsa hdoc h.1 h.2
  intro _
  apply Signs.ite
  · rintro ⟨hlms, hlocal, rfl⟩
    apply signs_signLms hlms hlocal
  intro _
  apply Signs.throw

/-- The bytes of a message before the signature. -/
def sign1Fields (flags : UInt32) (protectedHdr : Bytes) (kid : Pointer) (args : SignArgs) : Bytes :=
  (if flags &&& sign1Untagged = 0 then preferredHead .tag tagSign1 else []) ++
    (preferredHead .array 4 ++ (stringBytes .bstr protectedHdr ++ (kidBytes kid ++ payloadBytes args)))

theorem emits_encodeSign1 {flags : UInt32} {protectedHdr : Bytes} {kid : Pointer} {args : SignArgs}
    {sig : Bytes} (h : args.sigPayload.isNull = false) :
  Emits (encodeSign1 flags protectedHdr kid args sig)
    (sign1Fields flags protectedHdr kid args ++ stringBytes .bstr sig)
  := by
  unfold sign1Fields
  simp only [List.append_assoc]
  apply Emits.bind
  · apply Emits.onlyIf
    intro _
    apply emits_encodeHead
  apply Emits.bind
  · apply emits_encodeHead
  apply Emits.bind
  · apply emits_encodeBstr_mem
  apply Emits.bind
  · apply emits_encodeKid
  apply Emits.bind
  · apply emits_encodePayload h
  · apply emits_encodeBstr_mem

/-- The size that is computed in advance is enough for the message. -/
theorem length_sign1Fields_le {key : Key} {alg : Int} {kid : Pointer} {args : SignArgs} {flags : UInt32}
    {protectedHdr sig : Bytes} {size : Nat} (hkid : kidConsistent kid)
    (hpayload : args.sigPayload.isNull = false) (hprot : algProtectedHdr alg = .ok protectedHdr)
    (hsize : sign1SignSizeEx (some key) alg kid.len args.payload.len args.detached.len flags = .ok size)
    (hsig : HasSigLen key alg sig) :
  (sign1Fields flags protectedHdr kid args ++ stringBytes .bstr sig).length ≤ size
  := by
  simp only [sign1SignSizeEx, bind_eq_ok, lift_eq_ok, failWhen_eq_ok] at hsize
  obtain ⟨_, -, _, hboth, _, -, _, -, sigLen, hsigLen, _, hprot', tag, htag, array, harray, body, hbody,
    unprot, hunprot, content, hcontent, htotal⟩ := hsize
  rw [hprot] at hprot'
  obtain rfl := Except.ok.inj hprot'
  rw [← hsig _ hsigLen] at htotal
  have hhas : decide (kid.len ≠ 0) = decide (hasKid kid) := by
    rw [decide_eq_decide]
    unfold kidConsistent at hkid
    unfold hasKid
    constructor
    · intro h
      have := Nat.pos_of_ne_zero h
      exact ⟨hkid.mpr this, this⟩
    · rintro ⟨-, h⟩
      omega
  rw [hhas] at hunprot
  have htag' : (if flags &&& sign1Untagged = 0 then preferredHead .tag tagSign1 else []).length = tag := by
    split at htag
    · rename_i h
      rw [sizeAdd_eq_ok] at htag
      rw [if_pos h, ← htag.2]
      rfl
    · rename_i h
      rw [if_neg h, ← Except.ok.inj htag]
      rfl
  have harray' : (preferredHead .array 4).length = 1 := rfl
  have hcontent' : unprot + (payloadBytes args).length ≤ content := by
    unfold payloadBytes
    by_cases hd : args.isDetached = true
    · rw [if_pos hd, List.length_singleton]
      split at hcontent
      · rw [sizeAdd_eq_ok] at hcontent
        omega
      · simp only [sizeAddString, cborStringSize, bind_eq_ok, sizeAdd_eq_ok] at hcontent
        have : 1 ≤ cborHeadSize args.payload.len := by
          unfold cborHeadSize
          repeat' split
          all_goals omega
        omega
    · rw [SignArgs.sigPayload, if_neg hd] at hpayload
      have hvalid : args.payload.Valid := fun hn => absurd (hpayload.symm.trans hn) Bool.false_ne_true
      rw [if_neg hd]
      rw [hvalid.len_eq] at hcontent hboth
      split at hcontent
      · -- a null pointer to a detached payload came with a length; then the payload is empty
        have hz : args.payload.bytes.length = 0 := by omega
        rw [sizeAdd_eq_ok] at hcontent
        rw [List.eq_nil_of_length_eq_zero hz, ← hcontent.2]
        exact Nat.le_refl _
      · exact Nat.le_of_eq (sizeAddString_eq_ok (m := .bstr) hcontent).symm
  rw [sizeAdd_eq_ok] at harray
  have hbody' := sizeAddString_eq_ok (m := .bstr) hbody
  have hunprot' := sizeAddKid_eq_ok hunprot
  have htotal' := sizeAddString_eq_ok (m := .bstr) htotal
  simp only [sign1Fields, List.length_append, htag', harray']
  omega

theorem sign1Prepare_ok {key : Key} {alg : Int} {kid : Pointer} {args : SignArgs} {scratch out : Buffer}
    {flags : UInt32} {protectedHdr tbs : Bytes}
    (h : sign1Prepare key alg kid args scratch out flags = .ok (protectedHdr, tbs)) :
  args.sigPayload.isNull = false ∧ kidConsistent kid ∧ algProtectedHdr alg = .ok protectedHdr
    ∧ (haveLms = true → alg = algHssLms → ∃ neededOut, neededOut ≤ out.bytes.length
      ∧ sign1SignSizeEx (some key) alg kid.len args.payload.len args.detached.len flags = .ok neededOut)
  := by
  simp only [sign1Prepare, bind_eq_ok, lift_eq_ok, failWhen_eq_ok] at h
  obtain ⟨_, hargs, _, -, _, -, _, -, _, hkid, _, -, _, -, _, -, prot, hprot, tbs', -, h⟩ := h
  have hpayload : args.sigPayload.isNull = false := by
    by_contra hne
    exact hargs (.inl (by simpa using hne))
  split at h
  · simp only [bind_eq_ok, failWhen_eq_ok, pure_eq_ok, Prod.mk.injEq] at h
    obtain ⟨n, hn, _, hroom, rfl, rfl⟩ := h
    exact ⟨hpayload, Decidable.not_not.mp hkid, hprot, fun _ _ => ⟨n, Nat.le_of_not_lt hroom, hn⟩⟩
  · rename_i hno
    simp only [pure_eq_ok, Prod.mk.injEq] at h
    obtain ⟨rfl, rfl⟩ := h
    exact ⟨hpayload, Decidable.not_not.mp hkid, hprot, fun h₁ h₂ => absurd ⟨h₁, h₂⟩ hno⟩

theorem ends_sign1SignMessage (hdoc : DocumentedLengths) {key : Key} {alg : Int} {kid : Pointer}
    {args : SignArgs} {scratch out : Buffer} {flags : UInt32} {env : Env} :
  Ends (sign1SignMessage key alg kid args scratch out flags) ⟨env, []⟩ EndsWithSpent
    (fun _ s => Unspent s)
  := by
  apply Ends.bindOfExcept
  swap
  · exact fun _ _ => unspent_nil env
  rintro ⟨protectedHdr, tbs⟩ hprep
  obtain ⟨hpayload, hkid, hprot, hroom⟩ := sign1Prepare_ok hprep
  apply Ends.bind (signs_sign1SignTbs hdoc _ (unspent_nil env))
  intro sig s hsigned
  have hemits := @emits_encodeSign1 _ _ flags protectedHdr kid args sig hpayload
  apply Ends.ofExcept
  · intro ctx hctx inv hinv sig' hsp
    obtain ⟨-, rfl, -⟩ := hsigned.spends inv hinv sig' hsp
    rw [encodeAt_eq_ok hemits] at hctx
    refine ⟨sign1Fields flags protectedHdr kid args, ?_⟩
    rw [hctx.written_eq (Nat.zero_le _)]
    simp [EncCtx.written, EncCtx.init]
  · -- after a signature is spent, nothing can fail: the message fits
    intro e he inv hinv sig' hsp
    obtain ⟨halg, -, hlen⟩ := hsigned.spends inv hinv sig' hsp
    have hlms : haveLms = true := by
      rw [halg] at hlen
      exact (signSigLen_hssLms hlen).1.1
    obtain ⟨neededOut, hle, hsize⟩ := hroom hlms halg
    have hsigLen : HasSigLen key alg sig := by
      intro n hn
      rw [hlen] at hn
      exact Except.ok.inj hn
    have hfit := length_sign1Fields_le hkid hpayload hprot hsize hsigLen
    rw [encodeAt_of_fits hemits] at he
    · cases he
    · simp only [EncCtx.init, EncCtx.bufSz, Nat.zero_add]
      exact Nat.le_trans hfit hle

/-- A signature of an HSS-LMS key that is made for a message is in that message. -/
theorem sign1SignEx_keepsSpent (hdoc : DocumentedLengths) (key : Option Key) (alg : Int) (kid : Pointer)
    (args : SignArgs) (flags : UInt32) (env : Env) :
  (sign1SignEx key alg kid args flags env).KeepsSpent
  := by
  apply signFinish_keepsSpent
  split
  · apply ends_sign1SignMessage hdoc
  · apply Ends.throw
    apply unspent_nil

end

end WolfCose
