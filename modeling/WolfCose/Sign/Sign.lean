import WolfCose.Sign1.Sign
import WolfCose.Sign.Verify

/-!
# Creating a COSE_Sign message

`wc_CoseSign_Sign` of `wolfcose_sign.c`.  The signers sign one after another, each before its
signature is encoded, so where one of them is an HSS-LMS signer it has to be the last one, and
the size of the whole message is computed before the first one signs.
-/

namespace WolfCose

open Program Cbor Settings WolfCrypt

section

variable [WolfCrypt] [Settings]

/-! ### The checks -/

/-- A signer `WOLFCOSE_SIGNATURE`. -/
structure Signer where
  algId : Int
  key : Option Key
  kid : Pointer

/-- The checks of `wc_CoseSign_Sign` on the key and the algorithm of a signer. -/
def signerCheck (signer : Signer) : Checked Unit :=
  match signer.key with
  | none => throw (.err .coseKeyType)
  | some key => do
      failWhen (keyCanSign key = false) .coseKeyType
      failWhen (¬ kidConsistent signer.kid) .invalidArg
      failWhen (key.alg ≠ algUnset ∧ key.alg ≠ signer.algId) .coseBadAlg
      if key.delegated = true then return ()
      else if algIsEcdsa signer.algId = true then do
        failWhen (key.kty ≠ ktyEc2) .coseKeyType
        failAs .coseBadAlg (lift (algCheckCrv signer.algId key.crv))
        failAs .coseBadAlg (eccKeyCheckCurve key.crv key.object)
      else if algIsEddsa signer.algId = true then do
        failWhen (key.kty ≠ ktyOkp) .coseKeyType
        lift (algCheckCrv signer.algId key.crv)
      else if haveRsapss = true ∧ algIsPss signer.algId = true ∧ key.kty ≠ ktyRsa then
        throw (.err .coseKeyType)
      else if haveMldsa = true ∧ algIsMlDsa signer.algId = true then
        failAs .coseKeyType (mlDsaCheckKey key signer.algId)
      else return ()

/-- The size of one signature in the message. -/
def sizeAddSigner (total : Nat) (signer : Signer) : Checked Nat := do
  let protectedHdr ← lift (algProtectedHdr signer.algId)
  let sigLen ← signSigLen signer.key signer.algId
  let total ← lift (sizeAdd total 1)
  let total ← lift (sizeAddString total protectedHdr.length)
  let total ← lift (sizeAddKid total (hasKid signer.kid) signer.kid.len)
  lift (sizeAddString total sigLen)

/-- `wolfCose_SignEncodedSize` -/
def signEncodedSize (signers : List Signer) (payloadLen : Nat) (isDetached : Bool) : Checked Nat := do
  let total ← lift (sizeAdd 0 5)
  let total ← lift (if isDetached = true then sizeAdd total 1 else sizeAddString total payloadLen)
  let itemLen ← lift (cborStringSize signers.length)
  let total ← lift (sizeAdd total (itemLen - signers.length))
  signers.foldlM sizeAddSigner total

/-- Whether the signature of a signer is written after the structure it signs. -/
def signsInPlace (key : Key) (alg : Int) : Checked Bool :=
  if key.delegated = true then do
    let preHashes ← lift (extSignAlg alg)
    return !preHashes
  else return algIsMlDsa alg || alg == algHssLms

/-- The bytes that a signer signs. -/
def signerTbs (args : SignArgs) (scratch : Buffer) (protectedHdr : Bytes) : Checked Bytes :=
  lift (buildToBeSignedMaced (.mem ctxSignature) (.null 0) (.mem protectedHdr) args.extAad args.sigPayload
    (some scratch))

/-- The check of the scratch buffer for a signer. -/
def signerScratchCheck (args : SignArgs) (scratch : Buffer) (signer : Signer) : Checked Unit :=
  match signer.key with
  | none => throw .undefined
  | some key => do
      let protectedHdr ← lift (algProtectedHdr signer.algId)
      let tbs ← signerTbs args scratch protectedHdr
      let sigLen ← signSigLen signer.key signer.algId
      if lmsVerifyOnly = false ∧ key.delegated = false ∧ signer.algId = algHssLms then do
        let lmsKey ← key.object.asLms
        failWhen (¬ lmsCanSign lmsKey) .coseKeyType
      let inPlace ← signsInPlace key signer.algId
      let need ← lift (if inPlace = true then sizeAdd tbs.length sigLen else .ok (max tbs.length sigLen))
      failWhen (need > scratch.bytes.length) .bufferTooSmall

/-- The number of HSS-LMS signers. -/
def lmsCount (signers : List Signer) : Nat :=
  signers.countP (·.algId = algHssLms)

/-- The checks that no HSS-LMS signature is spent on a call that then fails. -/
def signPreflight (signers : List Signer) (args : SignArgs) (scratch out : Buffer) : Checked Unit := do
  failWhen (lmsCount signers > 1 ∨
    (lmsCount signers = 1 ∧ signers.getLast?.any (·.algId ≠ algHssLms) = true)) .invalidArg
  if lmsCount signers ≠ 0 then do
    let neededOut ← signEncodedSize signers args.payload.len args.isDetached
    failWhen (out.bytes.length < neededOut) .bufferTooSmall
    signers.forM (signerScratchCheck args scratch)
  else return ()

/-- The checks of `wc_CoseSign_Sign` before the first signer signs. -/
def signPrepare (signers : List Signer) (args : SignArgs) (scratch out : Buffer) : Checked Unit := do
  failWhen (signers.length = 0 ∨ args.sigPayload.isNull = true ∨ args.hasOutLen = false) .invalidArg
  failWhen (args.rng.isNone = true ∧ signers.any (fun signer => !signer.key.any Key.delegated) = true)
    .invalidArg
  failWhen (¬ args.lengthsFit scratch out) .invalidArg
  failWhen (args.payload.isNull = false ∧ args.detached.isNull = false) .invalidArg
  signers.forM signerCheck
  if lmsSigns then signPreflight signers args scratch out else return ()

/-! ### The loop over the signers -/

/-- The hash function of a signer, unless it signs the structure itself or is delegated. -/
def signerHashType (key : Key) (alg : Int) : Checked (Option HashType) :=
  if key.delegated = false ∧ algIsMlDsa alg = false ∧ alg ≠ algHssLms then do
    let hashType ← lift (algToHashType alg)
    return some hashType
  else return none

/-- The digest that a signer signs, if it signs one. -/
def signerDigest (alg : Int) (tbs : Bytes) (hashType : Option HashType) :
    Checked (Option (HashType × Bytes)) :=
  match hashType with
  | some hashType =>
      if algIsEddsa alg = false then do
        let digest ← hashTbs hashType tbs
        return some (hashType, digest)
      else return none
  | none => return none

/-- The dispatch of `wc_CoseSign_Sign` over the families of algorithms. -/
def signSignTbs (key : Key) (alg : Int) (hashed : Option (HashType × Bytes)) (tbs : Bytes) (scratchSz : Nat)
    (rng : Option Rng) : Signing Bytes :=
  if key.delegated = true then signDelegated key alg tbs scratchSz
  else if algIsEcdsa alg = true then signEcdsa key (digestBuffer hashed) (· * 2) rng
  else if algIsEddsa alg = true then signEddsa key tbs
  else if haveRsapss = true ∧ algIsPss alg = true then signPss key (digestBuffer hashed) scratchSz rng
  else if haveMldsa = true ∧ algIsMlDsa alg = true then signMlDsa key alg tbs scratchSz rng
  else if haveLms = true ∧ lmsVerifyOnly = false ∧ alg = algHssLms then signLms false key tbs scratchSz
  else throw (.err .coseBadAlg)

/-- The steps that encode a signature. -/
def encodeSignature (protectedHdr : Bytes) (kid : Pointer) (sig : Bytes) : Enc Unit := do
  encodeArrayStart 3
  encodeBstr (.mem protectedHdr)
  encodeKid kid
  encodeBstr (.mem sig)

/-- One round of the loop of `wc_CoseSign_Sign`. -/
def signOne (args : SignArgs) (scratch : Buffer) (ctx : EncCtx) (signer : Signer) : Signing EncCtx :=
  match signer.key with
  | none => throw .undefined
  | some key => do
      let hashType ← check (signerHashType key signer.algId)
      let protectedHdr ← check (lift (algProtectedHdr signer.algId))
      let tbs ← check (signerTbs args scratch protectedHdr)
      let hashed ← check (signerDigest signer.algId tbs hashType)
      let sig ← signSignTbs key signer.algId hashed tbs scratch.bytes.length args.rng
      check (encodeAt (encodeSignature protectedHdr signer.kid sig) ctx)

/-- The steps of `wc_CoseSign_Sign` that encode the message up to its signatures. -/
def encodeSignBody (args : SignArgs) (signerCount : Nat) : Enc Unit := do
  encodeTag tagSign
  encodeArrayStart 4
  encodeBstr (.null 0)
  encodeMapStart 0
  encodePayload args
  encodeArrayStart signerCount

/-- The steps of `wc_CoseSign_Sign`. -/
def signSignMessage (signers : List Signer) (args : SignArgs) (scratch out : Buffer) : Signing EncCtx := do
  check (signPrepare signers args scratch out)
  let ctx ← check (encodeAt (encodeSignBody args signers.length) (.init out))
  signers.foldlM (signOne args scratch) ctx

/-- `wc_CoseSign_Sign` -/
def signSign (signers : Option (List Signer)) (args : SignArgs) (env : Env) : SignOut :=
  signFinish args
    (match signers, args.scratch, args.out with
    | some signers, some scratch, some out => signSignMessage signers args scratch out
    | _, _, _ => throw (.err .invalidArg))
    env

/-! ### What is spent -/

theorem signs_signSignTbs (hdoc : DocumentedLengths) {signer : Signer} {key : Key}
    {hashed : Option (HashType × Bytes)} {tbs : Bytes} {scratchSz : Nat} {rng : Option Rng}
    (hkey : signer.key = some key) (hcheck : signerCheck signer = .ok ()) :
  Signs key signer.algId (signSignTbs key signer.algId hashed tbs scratchSz rng)
  := by
  simp only [signerCheck, hkey, bind_eq_ok, failWhen_eq_ok] at hcheck
  obtain ⟨_, -, _, -, _, -, hcheck⟩ := hcheck
  apply Signs.ite
  · intro _
    apply signs_signDelegated hdoc
  intro hlocal
  rw [if_neg hlocal] at hcheck
  apply Signs.ite
  · intro halg
    simp only [if_pos halg, bind_eq_ok, failAs_eq_ok, lift_eq_ok] at hcheck
    obtain ⟨_, -, _, hcrv, -⟩ := hcheck
    apply signs_signEcdsa halg hcrv
  intro hno
  rw [if_neg hno] at hcheck
  apply Signs.ite
  · intro halg
    simp only [if_pos halg, bind_eq_ok, lift_eq_ok] at hcheck
    obtain ⟨_, -, hcrv⟩ := hcheck
    apply signs_signEddsa hdoc halg hcrv
  intro _
  apply Signs.ite
  · intro h
    apply signs_signPss hdoc h.2
  intro _
  apply Signs.ite
  · intro h
    apply signs_signMlDsa hdoc h.1 h.2
  intro _
  apply Signs.ite
  · rintro ⟨hlms, hlocal, halg⟩
    rw [halg]
    apply signs_signLms hlms hlocal
  intro _
  apply Signs.throw

/-! ### Sizes -/

/-- The bytes of one signature in a message. -/
def signatureBytes (protectedHdr : Bytes) (kid : Pointer) (sig : Bytes) : Bytes :=
  preferredHead .array 3 ++ (stringBytes .bstr protectedHdr ++ (kidBytes kid ++ stringBytes .bstr sig))

omit [WolfCrypt] in
theorem emits_encodeSignature (protectedHdr : Bytes) (kid : Pointer) (sig : Bytes) :
  Emits (encodeSignature protectedHdr kid sig) (signatureBytes protectedHdr kid sig)
  := by
  apply Emits.bind
  · apply emits_encodeHead
  apply Emits.bind
  · apply emits_encodeBstr_mem
  apply Emits.bind
  · apply emits_encodeKid
  · apply emits_encodeBstr_mem

/-- The bytes of a message before its signatures. -/
def signFields (args : SignArgs) (signerCount : Nat) : Bytes :=
  preferredHead .tag tagSign ++ (preferredHead .array 4 ++ (stringBytes .bstr [] ++
    (preferredHead .map 0 ++ (payloadBytes args ++ preferredHead .array signerCount))))

theorem emits_encodeSignBody {args : SignArgs} {signerCount : Nat}
    (h : args.sigPayload.isNull = false) :
  Emits (encodeSignBody args signerCount) (signFields args signerCount)
  := by
  apply Emits.bind
  · apply emits_encodeHead
  apply Emits.bind
  · apply emits_encodeHead
  apply Emits.bind
  · apply (emitsIf_encodeBstr (.null 0)).emits
    exact fun _ => rfl
  apply Emits.bind
  · apply emits_encodeHead
  apply Emits.bind
  · apply emits_encodePayload h
  · apply emits_encodeHead

/-- The signature of a signer takes `size` bytes of the message, if it has the length that is
computed in advance. -/
def SignerSize (signer : Signer) (size : Nat) : Prop :=
  ∀ protectedHdr sig, algProtectedHdr signer.algId = .ok protectedHdr →
    (∀ n, signSigLen signer.key signer.algId = .ok n → sig.length = n) →
    (signatureBytes protectedHdr signer.kid sig).length = size

/-- The signatures of the signers together take `size` bytes. -/
def SignersSize : List Signer → Nat → Prop
  | [], size => size = 0
  | signer :: signers, size => ∃ n m, SignerSize signer n ∧ SignersSize signers m ∧ size = n + m

theorem sizeAddSigner_ok {total size : Nat} {signer : Signer}
    (h : sizeAddSigner total signer = .ok size) :
  ∃ n, SignerSize signer n ∧ size = total + n
  := by
  simp only [sizeAddSigner, bind_eq_ok, lift_eq_ok, sizeAdd_eq_ok] at h
  obtain ⟨prot, hprot, sigLen, hsigLen, _, ⟨-, rfl⟩, body, hbody, unprot, hunprot, htotal⟩ := h
  have hbody' := sizeAddString_eq_ok (m := .bstr) hbody
  have hunprot' := sizeAddKid_eq_ok hunprot
  refine ⟨size - total, ?_, ?_⟩
  · intro protectedHdr sig hp hsig
    rw [hprot] at hp
    obtain rfl := Except.ok.inj hp
    rw [← hsig _ hsigLen] at htotal
    have htotal' := sizeAddString_eq_ok (m := .bstr) htotal
    have harray : (preferredHead .array 3).length = 1 := rfl
    simp only [signatureBytes, List.length_append, harray]
    omega
  · simp only [sizeAddString, cborStringSize, bind_eq_ok, sizeAdd_eq_ok] at htotal
    omega

theorem sizeAddSigners_ok {total size : Nat} {signers : List Signer}
    (h : signers.foldlM sizeAddSigner total = .ok size) :
  ∃ n, SignersSize signers n ∧ size = total + n
  := by
  induction signers generalizing total with
  | nil =>
      rw [List.foldlM_nil, pure_eq_ok] at h
      exact ⟨0, rfl, h.symm⟩
  | cons signer signers ih =>
      rw [List.foldlM_cons, bind_eq_ok] at h
      obtain ⟨_, hsigner, h⟩ := h
      obtain ⟨n, hn, rfl⟩ := sizeAddSigner_ok hsigner
      obtain ⟨m, hm, rfl⟩ := ih h
      exact ⟨n + m, ⟨n, m, hn, hm, rfl⟩, Nat.add_assoc ..⟩

/-- The size that is computed in advance is that of the message. -/
theorem signEncodedSize_ok {signers : List Signer} {args : SignArgs} {size : Nat}
    (hpayload : args.sigPayload.isNull = false)
    (h : signEncodedSize signers args.payload.len args.isDetached = .ok size) :
  ∃ n, SignersSize signers n ∧ size = (signFields args signers.length).length + n
  := by
  simp only [signEncodedSize, bind_eq_ok, lift_eq_ok, sizeAdd_eq_ok] at h
  obtain ⟨_, ⟨-, rfl⟩, content, hcontent, itemLen, hitem, _, ⟨-, rfl⟩, hsigners⟩ := h
  obtain ⟨n, hn, rfl⟩ := sizeAddSigners_ok hsigners
  refine ⟨n, hn, ?_⟩
  have hcontent' : content = 5 + (payloadBytes args).length := by
    unfold payloadBytes
    by_cases hd : args.isDetached = true
    · simp only [hd, if_true, sizeAdd_eq_ok] at hcontent ⊢
      exact hcontent.2.symm
    · rw [SignArgs.sigPayload, if_neg hd] at hpayload
      have hvalid : args.payload.Valid := fun hn => absurd (hpayload.symm.trans hn) Bool.false_ne_true
      rw [if_neg hd] at hcontent ⊢
      rw [hvalid.len_eq] at hcontent
      apply sizeAddString_eq_ok hcontent
  have harray := cborStringSize_sub (m := .array) hitem
  have htag : (preferredHead .tag tagSign).length = 2 := rfl
  have hfour : (preferredHead .array 4).length = 1 := rfl
  have hempty : (stringBytes .bstr []).length = 1 := rfl
  have hmap : (preferredHead .map 0).length = 1 := rfl
  simp only [signFields, List.length_append, htag, hfour, hempty, hmap]
  omega

/-! ### The loop -/

omit [Settings] in
/-- An HSS-LMS signer can only be the last one. -/
def LmsLast : List Signer → Prop
  | [] => True
  | signer :: signers => (signer.algId = algHssLms → signers = []) ∧ LmsLast signers

omit [Settings] in
/-- A single HSS-LMS signer in the last place is the last one. -/
theorem lmsLast_of_count {signers : List Signer} (hcount : ¬ lmsCount signers > 1)
    (hlast : lmsCount signers = 1 → signers.getLast?.any (·.algId ≠ algHssLms) = false) :
  LmsLast signers
  := by
  induction signers with
  | nil => trivial
  | cons signer signers ih =>
      unfold lmsCount at hcount hlast ih
      rw [List.countP_cons] at hcount hlast
      constructor
      · intro halg
        rw [if_pos (decide_eq_true halg)] at hcount hlast
        have hzero : signers.countP (·.algId = algHssLms) = 0 := by omega
        have hl := hlast (by rw [hzero])
        cases signers with
        | nil => rfl
        | cons y ys =>
            obtain ⟨z, hz⟩ : ∃ z, (y :: ys).getLast? = some z :=
              ⟨_, List.getLast?_eq_some_getLast (List.cons_ne_nil y ys)⟩
            have hmem := List.mem_of_getLast? hz
            rw [List.getLast?_cons_cons, hz] at hl
            rw [List.countP_eq_zero] at hzero
            exact absurd hl (by simpa using hzero z hmem)
      · apply ih
        · omega
        · intro hone
          cases signers with
          | nil => cases hone
          | cons y ys =>
              rw [List.getLast?_cons_cons] at hlast
              apply hlast
              rw [hone] at hcount ⊢
              split at hcount
              · exact absurd (by decide) hcount
              · rename_i hne
                rw [if_neg hne]

/-- What the loop over the signers preserves: while there are signers left, nothing is spent;
and where an HSS-LMS signature may be, it is the last one and the rest of the message fits. -/
structure SignInvariant (signers : List Signer) (ctx : EncCtx) (s : SignState) : Prop where
  unspent : signers ≠ [] → Unspent s
  spent : signers = [] → EndsWithSpent ctx s
  idx_le : ctx.idx ≤ ctx.bufSz
  room : (lmsSigns → ∀ signer ∈ signers, signer.algId ≠ algHssLms)
    ∨ (LmsLast signers ∧ ∃ n, SignersSize signers n ∧ ctx.idx + n ≤ ctx.bufSz)

theorem Unspent.endsWithSpent {s : SignState} (h : Unspent s) (ctx : EncCtx) :
  EndsWithSpent ctx s
  := fun inv hinv sig hsp => absurd hsp (h inv hinv sig)

theorem ends_signOne (hdoc : DocumentedLengths) {args : SignArgs} {scratch : Buffer} {signer : Signer}
    {signers : List Signer} {ctx : EncCtx} {s : SignState} (hcheck : signerCheck signer = .ok ())
    (hinv : SignInvariant (signer :: signers) ctx s) :
  Ends (signOne args scratch ctx signer) s (SignInvariant signers) (fun _ s' => Unspent s')
  := by
  have hs := hinv.unspent (List.cons_ne_nil _ _)
  unfold signOne
  split
  · apply Ends.throw hs
  rename_i key hkey
  apply Ends.bindOfExcept
  swap
  · exact fun _ _ => hs
  intro hashType _
  apply Ends.bindOfExcept
  swap
  · exact fun _ _ => hs
  intro protectedHdr hprot
  rw [lift_eq_ok] at hprot
  apply Ends.bindOfExcept
  swap
  · exact fun _ _ => hs
  intro tbs _
  apply Ends.bindOfExcept
  swap
  · exact fun _ _ => hs
  intro hashed _
  apply Ends.bind (signs_signSignTbs hdoc hkey hcheck s hs)
  intro sig s' hsigned
  have hemits := emits_encodeSignature protectedHdr signer.kid sig
  have hwritten : ∀ ctx', encodeAt (encodeSignature protectedHdr signer.kid sig) ctx = .ok ctx' →
      ctx'.written = ctx.written ++ signatureBytes protectedHdr signer.kid sig ∧ ctx'.idx ≤ ctx'.bufSz
        ∧ ctx'.idx = ctx.idx + (signatureBytes protectedHdr signer.kid sig).length ∧ ctx'.bufSz = ctx.bufSz := by
    intro ctx' hctx
    rw [encodeAt_eq_ok hemits] at hctx
    refine ⟨hctx.written_eq hinv.idx_le, hctx.idx_le hinv.idx_le, ?_, ?_⟩
    · rw [hctx.2, EncCtx.idx_put]
    · rw [hctx.2, EncCtx.bufSz_put]
  by_cases hquiet : Unspent s'
  · -- nothing is spent in this round
    apply Ends.ofExcept
    swap
    · exact fun _ _ => hquiet
    intro ctx' hctx
    obtain ⟨-, hle, hidx, hbuf⟩ := hwritten ctx' hctx
    refine ⟨fun _ => hquiet, fun _ => hquiet.endsWithSpent ctx', hle, ?_⟩
    rcases hinv.room with hno | ⟨⟨hfirst, hlast⟩, _, ⟨n, m, hn, hm, rfl⟩, hfit⟩
    · exact .inl fun h x hx => hno h x (List.mem_cons_of_mem _ hx)
    right
    refine ⟨hlast, m, hm, ?_⟩
    by_cases halg : signer.algId = algHssLms
    · rw [hfirst halg] at hm
      rw [hm]
      exact hle
    · have hlen : ∀ k, signSigLen signer.key signer.algId = .ok k → sig.length = k := by
        rw [hkey]
        exact hsigned.length halg
      rw [hidx, hbuf, hn protectedHdr sig hprot hlen]
      omega
  · -- an HSS-LMS signature is spent: the signer is the last one and its signature fits
    obtain ⟨inv, hmem, sig', hsp⟩ : ∃ inv ∈ s'.invocations, ∃ sig, inv.Spends sig := by
      unfold Unspent at hquiet
      simpa using hquiet
    obtain ⟨halg, -, hlen⟩ := hsigned.spends inv hmem sig' hsp
    have hlms : lmsSigns := by
      rw [halg] at hlen
      exact (signSigLen_hssLms hlen).1
    rcases hinv.room with hno | ⟨⟨hfirst, -⟩, _, ⟨n, m, hn, hm, rfl⟩, hfit⟩
    · exact absurd halg (hno hlms signer List.mem_cons_self)
    have hnil := hfirst halg
    have hsize : (signatureBytes protectedHdr signer.kid sig).length = n := by
      apply hn protectedHdr sig hprot
      intro k hk
      rw [hkey, hlen] at hk
      exact Except.ok.inj hk
    have hroom : ctx.idx + (signatureBytes protectedHdr signer.kid sig).length ≤ ctx.bufSz := by
      omega
    apply Ends.ofExcept
    swap
    · intro e he
      rw [encodeAt_of_fits hemits hroom] at he
      cases he
    intro ctx' hctx
    obtain ⟨hw, hle, hidx, hbuf⟩ := hwritten ctx' hctx
    refine ⟨fun hne => absurd hnil hne, ?_, hle, .inr ?_⟩
    · intro _ inv' hmem' sig'' hsp'
      obtain ⟨-, rfl, -⟩ := hsigned.spends inv' hmem' sig'' hsp'
      refine ⟨ctx.written ++ (preferredHead .array 3 ++ (stringBytes .bstr protectedHdr ++
        kidBytes signer.kid)), ?_⟩
      rw [hw, signatureBytes]
      simp only [List.append_assoc]
    · rw [hnil]
      exact ⟨trivial, 0, rfl, hle⟩

theorem signPrepare_ok {signers : List Signer} {args : SignArgs} {scratch out : Buffer}
    (h : signPrepare signers args scratch out = .ok ()) :
  args.sigPayload.isNull = false ∧ (∀ signer ∈ signers, signerCheck signer = .ok ())
    ∧ (lmsSigns → (∀ signer ∈ signers, signer.algId ≠ algHssLms) ∨ (LmsLast signers
      ∧ ∃ n, SignersSize signers n ∧ (signFields args signers.length).length + n ≤ out.bytes.length))
  := by
  simp only [signPrepare, bind_eq_ok, failWhen_eq_ok, forM_eq_ok] at h
  obtain ⟨_, hargs, _, -, _, -, _, -, _, hcheck, h⟩ := h
  have hpayload : args.sigPayload.isNull = false := by
    by_contra hne
    exact hargs (.inr (.inl (by simpa using hne)))
  refine ⟨hpayload, hcheck, ?_⟩
  intro hlms
  simp only [if_pos hlms, signPreflight, bind_eq_ok, failWhen_eq_ok] at h
  obtain ⟨_, hrule, h⟩ := h
  by_cases hzero : lmsCount signers = 0
  · left
    unfold lmsCount at hzero
    rw [List.countP_eq_zero] at hzero
    intro signer hmem
    simpa using hzero signer hmem
  · right
    rw [if_pos hzero] at h
    simp only [bind_eq_ok, failWhen_eq_ok] at h
    obtain ⟨size, hsize, _, hfit, -⟩ := h
    obtain ⟨n, hn, rfl⟩ := signEncodedSize_ok hpayload hsize
    refine ⟨lmsLast_of_count (fun hgt => hrule (.inl hgt)) ?_, n, hn, Nat.le_of_not_lt hfit⟩
    intro hone
    by_contra hne
    apply hrule
    exact .inr ⟨hone, by simpa using hne⟩

theorem ends_signSignMessage (hdoc : DocumentedLengths) {signers : List Signer} {args : SignArgs}
    {scratch out : Buffer} {env : Env} :
  Ends (signSignMessage signers args scratch out) ⟨env, []⟩ EndsWithSpent (fun _ s => Unspent s)
  := by
  apply Ends.bindOfExcept
  swap
  · exact fun _ _ => unspent_nil env
  intro _ hprep
  obtain ⟨hpayload, hcheck, hlms⟩ := signPrepare_ok hprep
  apply Ends.bindOfExcept
  swap
  · exact fun _ _ => unspent_nil env
  intro ctx hctx
  rw [encodeAt_eq_ok (emits_encodeSignBody hpayload)] at hctx
  have hidx : ctx.idx = (signFields args signers.length).length := by
    rw [hctx.2, EncCtx.idx_put]
    exact Nat.zero_add _
  have hbuf : ctx.bufSz = out.bytes.length := by
    rw [hctx.2, EncCtx.bufSz_put]
    rfl
  have hinv : SignInvariant signers ctx ⟨env, []⟩ := by
    refine ⟨fun _ => unspent_nil env, fun _ => (unspent_nil env).endsWithSpent ctx,
      hctx.idx_le (Nat.zero_le _), ?_⟩
    by_cases h : lmsSigns
    · rcases hlms h with hno | ⟨hlast, n, hn, hfit⟩
      · exact .inl fun _ => hno
      · exact .inr ⟨hlast, n, hn, by omega⟩
    · exact .inl fun h' => absurd h' h
  have hloop := @Ends.foldlM _ _ _ _ _ (fun _ s => Unspent s) (signOne args scratch)
    (fun rest ctx s => (∀ signer ∈ rest, signerCheck signer = .ok ()) ∧ SignInvariant rest ctx s) signers ctx
    ?_ ⟨hcheck, hinv⟩
  · apply hloop.mono
    · rintro ctx' s' ⟨-, h⟩
      exact h.spent rfl
    · exact fun _ _ h => h
  · rintro signer rest ctx' s' ⟨hcheck', hinv'⟩
    obtain ⟨hfirst, hrest⟩ := List.forall_mem_cons.mp hcheck'
    apply (ends_signOne hdoc hfirst hinv').mono
    · exact fun ctx'' s'' h => ⟨hrest, h⟩
    · exact fun _ _ h => h

/-- A one-time signature is never spent on a message that is then not returned: whenever the
primitive for HSS-LMS or the callback of a delegated HSS-LMS signer made a signature of the
expected length, the call of `wc_CoseSign1_Sign_ex` or `wc_CoseSign_Sign` succeeds and the
signature is in its message. -/
theorem lms_signature_kept (hdoc : DocumentedLengths) :
  (∀ key alg kid args flags env, (sign1SignEx key alg kid args flags env).KeepsSpent)
    ∧ ∀ signers args env, (signSign signers args env).KeepsSpent
  := by
  constructor
  · intro key alg kid args flags env
    apply sign1SignEx_keepsSpent hdoc
  · intro signers args env
    apply signFinish_keepsSpent
    split
    · apply ends_signSignMessage hdoc
    · apply Ends.throw
      apply unspent_nil

end

section Instances

attribute [local instance] defaultSettings

/-- A wolfCrypt with HSS-LMS keys of one level of height 5 with Winternitz parameter 8, whose
signatures have 1296 bytes; the key is a counter of what is left. -/
@[reducible]
def lmsCrypt : WolfCrypt :=
  { failingCrypt with
    LmsKey := Nat
    lmsVerify := fun _ _ _ => .error
    lmsGetSigLen := fun _ => some 1296
    lmsSigsLeft := fun key => if key = 0 then 0 else 1
    lmsState := fun _ => .ok
    lmsSetState := fun key _ => key
    lmsSign := fun key _ _ env =>
      if key = 0 then ((none, key), env) else ((some (List.replicate 1296 0), key - 1), env) }

attribute [local instance] lmsCrypt

theorem documentedLengths_lmsCrypt :
  DocumentedLengths
  where
  lms := by
    rintro _ n ⟨⟩
    decide
  ed25519 := by rintro _ _ _ ⟨⟩
  ed448 := by rintro _ _ _ ⟨⟩
  rsaPss := by rintro _ _ _ _ _ _ _ _ _ ⟨⟩
  mlDsa44 := by rintro _ _ _ _ _ _ ⟨⟩
  mlDsa65 := by rintro _ _ _ _ _ _ ⟨⟩
  mlDsa87 := by rintro _ _ _ _ _ _ ⟨⟩

/-- A message of an HSS-LMS key, and what a failing call leaves when the buffer for the message is too short. -/
theorem lms_signature_kept_instance :
  let key : Key := ⟨ktyHssLms, algUnset, 0, .null 0, .lms (7 : Nat), 0, .null 0, true, .lms, none⟩
  let args (outSz : Nat) : SignArgs := ⟨.mem [0x68, 0x69], .null 0, .null 0, some (.ofBytes (List.replicate 2000 0)),
    some (.ofBytes (List.replicate outSz 0)), true, some ()⟩
  let r (outSz : Nat) := sign1SignEx (some key) algHssLms (.null 0) (args outSz) 0 ()
  ((r 1400).KeepsSpent ∧ (r 1400).ret = .ok () ∧ (r 1400).state.invocations.length = 1)
    ∧ (r 1300).KeepsSpent ∧ (r 1300).ret ≠ .ok () ∧ (r 1300).state.invocations = []
  := by
  intro key args r
  have hkept (outSz : Nat) : (r outSz).KeepsSpent := (lms_signature_kept documentedLengths_lmsCrypt).1 _ _ _ _ _ _
  refine ⟨⟨hkept 1400, ?_⟩, hkept 1300, ?_⟩
  · decide +kernel
  · decide +kernel

end Instances

end WolfCose
