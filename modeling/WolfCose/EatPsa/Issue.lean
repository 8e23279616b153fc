import WolfCose.Creation
import WolfCose.EatPsa.RoundTrip
import WolfCose.EatPsa.Verify
import WolfCose.Sign1.RoundTrip
import WolfCose.Tolerant

/-!
# Issuing PSA tokens

The functions that issue a token encode the claims and make a COSE_Sign1 or a COSE_Mac0 message of them.  Three
writable buffers take part, and all of them are rejected if they overlap, so that each of them may be followed on
its own.  What is issued is verified with its key, to a token of the same claims.
-/

namespace WolfCose

open Program Cbor Settings MacSettings EatPsaSettings WolfCrypt

section

variable [Settings] [MacSettings] [EatPsaSettings] [WolfCrypt] [MacCrypt]

/-! ### Issuing -/

/-- The arguments of a function that issues a token, apart from the key: the claims with what is known of their
places in memory, and the buffers for the encoded claims, for the structure to be authenticated and for the message,
with the places of the last two. -/
structure EatPsaIssueArgs where
  claims : Option EatPsaClaims
  place : EatPsaPlace
  claimsBuf : Option Buffer
  scratch : Option Buffer
  scratchStart : Nat
  out : Option Buffer
  outStart : Nat
  outLen : Option Nat

omit [Settings] [MacSettings] [EatPsaSettings] [WolfCrypt] [MacCrypt] in
/-- `wolfCose_EatPsaIssueBuffersOverlap` -/
def eatPsaIssueBuffersOverlap (claimsBuf scratch out : MemRange) : Bool :=
  eatPsaBuffersOverlap claimsBuf scratch || eatPsaBuffersOverlap claimsBuf out || eatPsaBuffersOverlap scratch out

/-- The steps of the functions that issue a token before the message is created: the checks, and the claims that are
encoded. -/
def eatPsaIssueClaims (key : Option Key) (algValid : Bool) (args : EatPsaIssueArgs) : Checked Bytes :=
  match key, args.claimsBuf, args.scratch, args.out, args.outLen with
  | some _, some claimsBuf, some scratch, some out, some _ => do
      failWhen (eatPsaIssueBuffersOverlap ⟨args.place.out, claimsBuf.bytes.length⟩
        ⟨args.scratchStart, scratch.bytes.length⟩ ⟨args.outStart, out.bytes.length⟩ = true) .invalidArg
      failWhen (algValid = false) .coseBadAlg
      lift (eatPsaEncodeClaims args.claims args.place (some claimsBuf))
  | _, _, _, _, _ => throw (.err .invalidArg)

omit [MacSettings] [EatPsaSettings] [WolfCrypt] [MacCrypt] in
/-- The last step of the functions that issue a token: the output buffer is cleared unless there is a token. -/
def eatPsaIssueClear (ret : Checked Unit) (out : Option Bytes) : Option Bytes :=
  match ret with
  | .ok _ => out
  | .error _ => out.map fun bytes => List.replicate bytes.length 0

/-- The arguments for a message with the encoded claims as its payload. -/
def EatPsaIssueArgs.mac (args : EatPsaIssueArgs) (payload : Bytes) : MacArgs where
  payload := .mem payload
  detached := .null 0
  extAad := .null 0
  scratch := args.scratch
  out := args.out
  outLen := args.outLen.map fun _ => 0

omit [MacSettings] [EatPsaSettings] [MacCrypt] in
/-- The same arguments for a message that is signed. -/
def EatPsaIssueArgs.sign (args : EatPsaIssueArgs) (payload : Bytes) (rng : Option Rng) : SignArgs :=
  { (args.mac payload).sign with rng }

/-- `wc_CoseEatPsaToken_CreateSign1` -/
def eatPsaTokenCreateSign1 (key : Option Key) (alg : Int) (args : EatPsaIssueArgs) (rng : Option Rng) (env : Env) :
    SignOut :=
  let r : SignOut :=
    match eatPsaIssueClaims key (eatPsaSignAlg alg) args with
    | .ok payload => sign1SignEx key alg (.null 0) (args.sign payload rng) 0 env
    | .error fault => ⟨.error fault, args.out.map Buffer.bytes, args.outLen.map fun _ => 0, ⟨env, []⟩⟩
  { r with out := eatPsaIssueClear r.ret r.out }

/-- `wc_CoseEatPsaToken_CreateMac0` -/
def eatPsaTokenCreateMac0 (key : Option Key) (alg : Int) (args : EatPsaIssueArgs) : CreateOut :=
  let r : CreateOut :=
    match eatPsaIssueClaims key (eatPsaMacAlg alg) args with
    | .ok payload => mac0Create key alg (.null 0) (args.mac payload)
    | .error fault => ⟨.error fault, args.out.map Buffer.bytes, args.outLen.map fun _ => 0⟩
  { r with out := eatPsaIssueClear r.ret r.out }

/-! ### The envelope -/

omit [MacSettings] [EatPsaSettings] [WolfCrypt] [MacCrypt] in
/-- The bit of a protected algorithm is set. -/
theorem bit_of_algProtected {protectedData : Buffer} {r : Hdr × HdrState}
    (hdecoded : decodeProtectedHdrEx (.mem protectedData.bytes) .zero eatPsaDecodeFlags = .ok r)
    (halg : r.2.contains hdrAlg = true) :
  ¬ r.2.labelBits &&& 0x00000001 = 0
  := by
  obtain ⟨prot, -, -, hrep, -⟩ := protected_entries hdecoded
  have hmem := (hrep.contains_iff hdrAlg).mp halg
  rw [hrep.bits]
  exact (labelsBits_and_labelBit (labelsOf prot) hdrAlg).mpr ⟨by decide, hmem⟩

omit [MacSettings] [EatPsaSettings] [WolfCrypt] [MacCrypt] in
/-- A message that is tagged starts with its tag. -/
theorem StartValue.tagged {flags : UInt32} {tag count : Nat} {start rest : Bytes}
    (hstart : StartValue flags tag count start) (htagged : TaggedWith tag (start ++ rest)) :
  ∃ t head, start = t.bytes ++ head.bytes ∧ (Accepted flags t ∧ t.major = .tag ∧ t.val = tag)
    ∧ Accepted flags head ∧ head.major = .array ∧ head.val = count
  := by
  obtain ⟨tagBytes, head, rfl, rfl | ⟨t, ht, hval, rfl⟩, hhead⟩ := hstart
  · obtain ⟨t, rest', hinput, ht, hmajor, -⟩ := htagged
    obtain ⟨rfl, -⟩ := Token.bytes_append_cancel hhead.1.wellFormed ht.wellFormed hinput
    rw [hhead.2.1] at hmajor
    cases hmajor
  · exact ⟨t, head, rfl, ⟨ht, hval⟩, hhead⟩

omit [MacSettings] [WolfCrypt] [MacCrypt] in
/-- The envelope is found of every message that the verification function decodes, if it is tagged, its payload is
attached, its algorithm is protected, and it refers to no certificates. -/
theorem eatPsaGetEnvelope_of_single {input : Buffer} {tag : Nat} (htag : tag = tagSign1 ∨ tag = tagMac0)
    (htagged : TaggedWith tag input.bytes) {headers : Headers} {hdr : Hdr} {payload : Option Bytes} {data : Bytes}
    (hmsg : SingleEncoding eatPsaDecodeFlags tag (.null 0) input.bytes headers hdr payload data)
    (halg : headers.algProtected = true) (hcerts : headers.hdr.flags &&& hdrFlagX5chain = 0) :
  ∃ bs, payload = some bs ∧ decodeBuffer eatPsaGetEnvelope input = .ok ⟨tag, bs, headers.hdr.alg⟩
  := by
  have hf := decodeFlagsValid_eatPsa
  obtain ⟨start, bs, payloadBytes, dataBytes, hinput, hstart, hheaders, hpayload, hdata⟩ := hmsg
  rw [hinput] at htagged
  obtain ⟨t, head, rfl, ⟨ht, hmajor, hval⟩, hhead, hheadMajor, hheadVal⟩ := hstart.tagged htagged
  obtain ⟨-, hnull, -⟩ | ⟨attached, hattached, hr⟩ := hpayload
  · cases hnull
  obtain ⟨-, rfl⟩ := Prod.mk.inj hr
  refine ⟨attached, rfl, ?_⟩
  obtain ⟨last, hc, hend⟩ := DecCtx.consumes_whole input
  rw [hinput, List.append_assoc] at hc
  obtain ⟨c₁, h₁, hc⟩ := hc.split
  obtain ⟨c₂, h₂, hc⟩ := hc.split
  have hroom : head.children ≤ c₂.rest.length := by
    have hlen := hheaders.two_le_length
    have hlen' := List.length_pos_iff.mpr hattached.ne_nil
    have hlen'' := List.length_pos_iff.mpr hdata.ne_nil
    rw [Token.children, hheadMajor, hc.length_rest_eq]
    simp only [List.length_append]
    omega
  obtain ⟨prot, r, mapHead, es, ek, rfl, hprot, hdecoded, hprotected, hmap⟩ := hheaders
  rw [List.append_assoc] at hc
  obtain ⟨c₃, h₃, hc⟩ := hc.split
  obtain ⟨c₄, h₄, hc⟩ := hc.split
  obtain ⟨c₅, h₅, h₆⟩ := hc.split
  have hprotLen : headers.protectedData.length ≤ sizeMax := by
    apply hprot.length_le.trans
    have hlen := input.length_le
    rw [hinput] at hlen
    simp only [List.length_append] at hlen
    omega
  have hdecoded' := hdecoded
  rw [← Buffer.bytes_ofBytes hprotLen] at hdecoded'
  have hbit := bit_of_algProtected hdecoded' (hprotected.symm.trans halg)
  have hnull : ¬ c₄.rest.head? = some cborNull := by
    rw [hc.rest_eq, List.append_assoc]
    exact hattached.head?_ne_null
  rw [decodeBuffer_eq_ok]
  simp only [eatPsaGetEnvelope, runs_bind, runs_failIf, runs_pure, runs_get, runs_ofExcept, runs_decodeTagEx,
    runs_decodeArrayStartEx, reads_decodeBstrEx hf _ _ _, runs_decodeUnprotectedHdrEx, runs_decodeEnd]
  refine ⟨_, tag, c₁, ⟨hf, t, ht, h₁, hmajor, hval⟩, (), c₁, ⟨?_, rfl⟩, 4, c₂,
    ⟨hf, head, hhead, h₂, hheadMajor, hheadVal, hroom⟩, (), c₂, ⟨?_, rfl⟩, headers.protectedData, c₃,
    ⟨prot, hprot, h₃⟩, r, c₃, ⟨hdecoded, rfl⟩, (), c₃, ⟨hbit, rfl⟩, (headers.hdr, _), c₄,
    ⟨hf, mapHead, es, ek, hmap.move _, h₄, rfl⟩, (), c₄, ⟨?_, rfl⟩, c₄, c₄, ⟨rfl, rfl⟩, (), c₄, ⟨hnull, rfl⟩,
    attached, c₅, ⟨payloadBytes, hattached, h₅⟩, data, _, ⟨dataBytes, hdata, h₆⟩, (), _, ⟨hend, rfl⟩, rfl, rfl⟩
  · rintro ⟨h, h'⟩
    exact htag.elim h h'
  · exact fun h => h rfl
  · exact fun h => h hcerts

/-! ### What a verifier takes from a message -/

/-- A message that a verifier with the key accepts, and whose payload is the encoded claims. -/
structure EatPsaMessage (key : Key) (input scratch : Buffer) (tag : Nat) (alg : Int) (claims : EatPsaClaims)
    (components : List EatPsaComponent) : Prop where
  valid : claims.Valid components
  texts : claims.TextsValid components
  payload_le : (claimsBytes claims components).length ≤ sizeMax
  envelope : decodeBuffer eatPsaGetEnvelope input = .ok ⟨tag, claimsBytes claims components, alg⟩
  algValid : eatPsaCheckEnvelopeAlg tag alg = .ok ()
  verified : ∃ hdr, hdr.flags &&& hdrFlagDetached = 0
    ∧ eatPsaVerifyMessage key input scratch ⟨tag, claimsBytes claims components, alg⟩
      = .ok (.verified hdr (some (claimsBytes claims components)))

/-- The token that a verifier takes from a message. -/
def EatPsaToken.ofMessage (tag : Nat) (claims : EatPsaClaims) (components : List EatPsaComponent) : EatPsaToken :=
  { EatPsaToken.ofClaims claims components with protection := if tag = tagSign1 then .sign1 else .mac0 }

/-- A message conveys claims to a verifier: with the nonce of the claims it is verified to a token of the same claims,
from which the components are handed out as they were; with every other nonce it is not; and a verifier that
selects the key by the claims asks for that of the device in the claims, and only for that. -/
structure EatPsaConveyed (key : Key) (input scratch : Buffer) (protection : EatPsaProtection) (alg : Int)
    (claims : EatPsaClaims) (components : List EatPsaComponent) (token : EatPsaToken) : Prop where
  carries : token.Carries claims components
  protection : token.protection = protection
  iterated : ∀ (ε σ : Type) (cb : EatPsaComponentCb ε σ),
    eatPsaForEachComponent (some token) (some cb) = components.forM (callComponentCb cb)
  verified : ∀ token₀, eatPsaTokenVerify (some key) ⟨some input, claims.nonce, some scratch, some token₀⟩
    = (.ok (), some token)
  otherNonce : ∀ token₀ nonce, nonceLengthValid nonce.length = true → claims.nonce ≠ .mem nonce →
    eatPsaTokenVerify (some key) ⟨some input, .mem nonce, some scratch, some token₀⟩
      = (.error (.err .eatPsaNonce), some .zero)
  resolved : ∀ (ε : Type) (resolver : EatPsaKeyResolver ε) (token₀ : EatPsaToken),
    eatPsaTokenVerifyByUeid (some resolver) ⟨some input, claims.nonce, some scratch, some token₀⟩
      = match resolver ⟨.current, claims.ueid, alg⟩ .zero with
        | .ok key' => resolvedFinish (some token₀) [⟨.current, claims.ueid, alg⟩] (ofLibrary (verifiedToken
            (eatPsaTokenVerify (some key') ⟨some input, claims.nonce, some scratch, some .zero⟩)))
        | .error e => ⟨.error (.inr e), some .zero, [⟨.current, claims.ueid, alg⟩]⟩

omit [MacSettings] [WolfCrypt] [MacCrypt] in
/-- The components of a token are handed out as they were encoded. -/
theorem eatPsaForEachComponent_ofMessage {claims : EatPsaClaims} {components : List EatPsaComponent}
    (h : claims.Valid components) (htexts : claims.TextsValid components)
    (hle : (claimsBytes claims components).length ≤ sizeMax) (tag : Nat) {ε σ : Type} (cb : EatPsaComponentCb ε σ) :
  eatPsaForEachComponent (some (.ofMessage tag claims components)) (some cb) = components.forM (callComponentCb cb)
  := by
  have hmem : ⟨2399, .components (arrayBytes components) components.length, arrayBytes components⟩
      ∈ writtenClaims claims components := by
    simp [writtenClaims]
  have harray : (arrayBytes components).length ≤ sizeMax := (length_written_le hmem).trans hle
  have hcount := (length_le_arrayBytes components).trans harray
  have hhead : Accepted eatPsaDecodeFlags (Token.ofHead .array components.length) :=
    accepted_ofHead rfl (by rintro ⟨⟩) (hcount.trans_lt sizeMax_lt)
  have hiter := eatPsaForEachSpan_eq cb ((Buffer.bytes_ofBytes harray).trans (arrayBytes_eq components)) hhead rfl
    (List.length_map componentBytes).symm (forall₂_componentBytes h htexts (harray.trans_lt sizeMax_lt))
  rw [List.length_map] at hiter
  exact hiter

namespace EatPsaMessage

variable {key : Key} {input scratch : Buffer} {tag : Nat} {alg : Int} {claims : EatPsaClaims}
  {components : List EatPsaComponent}

/-- The claims of a message are decoded. -/
theorem decoded (hfull : eatPsaTfmFull = true) (h : EatPsaMessage key input scratch tag alg claims components) :
  eatPsaDecodeClaims (some (.ofBytes (claimsBytes claims components))) = .ok (.ofClaims claims components)
  := eatPsaDecodeClaims_claimsBytes hfull h.valid h.texts (Buffer.bytes_ofBytes h.payload_le)

/-- Only the nonce decides whether the token of a message is accepted. -/
theorem verifyToken (hfull : eatPsaTfmFull = true) (h : EatPsaMessage key input scratch tag alg claims components)
    (expectedNonce : Pointer) :
  eatPsaVerifyToken key input expectedNonce scratch = do
    lift (eatPsaCheckNonce (.ofMessage tag claims components) expectedNonce)
    return .ofMessage tag claims components
  := by
  obtain ⟨hdr, hattached, hverified⟩ := h.verified
  have hdetached : failWhen (hdr.flags &&& hdrFlagDetached ≠ 0) .detachedPayload = .ok () := by
    rw [failWhen_eq_ok]
    exact fun hne => hne hattached
  calc eatPsaVerifyToken key input expectedNonce scratch
    _ = (do
        failWhen (hdr.flags &&& hdrFlagDetached ≠ 0) .detachedPayload
        let decodedClaims ← lift (eatPsaDecodeClaims (some (.ofBytes (claimsBytes claims components))))
        let token := { decodedClaims with protection := if tag = tagSign1 then .sign1 else .mac0 }
        lift (eatPsaCheckNonce token expectedNonce)
        return token) := by
      unfold eatPsaVerifyToken
      rw [h.envelope, ok_bind, h.algValid]
      simp only [hverified, ok_bind]
      rfl
    _ = _ := by
      rw [hdetached, h.decoded hfull]
      rfl

omit [Settings] [MacSettings] [EatPsaSettings] [WolfCrypt] [MacCrypt] in
/-- A nonce of a valid length is accepted exactly if it is that of the token. -/
theorem eatPsaCheckNonce_eq {token : EatPsaToken} {nonce nonce' : Bytes} (htoken : token.nonce = .mem nonce)
    (hlen : nonceLengthValid nonce'.length = true) :
  eatPsaCheckNonce token (.mem nonce') = if nonce' = nonce then .ok () else .error .eatPsaNonce
  := by
  have hvalid : rejectIf ((Pointer.mem nonce').isNull = true ∨ nonceLengthValid (Pointer.mem nonce').len = false)
      Err.invalidArg = .ok () := by
    rw [rejectIf_eq_ok]
    rintro (⟨⟨⟩⟩ | h)
    exact Bool.false_ne_true (h.symm.trans hlen)
  rw [eatPsaCheckNonce, hvalid, ok_bind, htoken]
  split
  · rename_i heq
    rw [heq, rejectIf_eq_ok, not_or, Decidable.not_not, Decidable.not_not]
    exact ⟨rfl, (eatPsaConstantCompare_eq_zero rfl).mpr rfl⟩
  · rename_i hne
    apply if_pos
    by_contra hsame
    rw [not_or, Decidable.not_not, Decidable.not_not] at hsame
    exact hne ((eatPsaConstantCompare_eq_zero hsame.1).mp hsame.2).symm

/-- A verifier takes the claims from a message. -/
theorem conveyed (hfull : eatPsaTfmFull = true) (h : EatPsaMessage key input scratch tag alg claims components) :
  EatPsaConveyed key input scratch (if tag = tagSign1 then .sign1 else .mac0) alg claims components
    (.ofMessage tag claims components)
  := by
  obtain ⟨nonce, hnonce⟩ : ∃ nonce, claims.nonce = .mem nonce := by
    have hnull := h.valid.nonce.1
    cases hclaims : claims.nonce with
    | null n =>
        rw [hclaims] at hnull
        cases hnull
    | mem nonce => exact ⟨nonce, rfl⟩
  have hlen : nonceLengthValid nonce.length = true := by
    have hlen := h.valid.nonce.2
    rw [hnonce] at hlen
    simp only [nonceLengthValid, Bool.or_eq_true, beq_iff_eq, or_assoc]
    exact hlen
  have htoken : (EatPsaToken.ofMessage tag claims components).nonce = .mem nonce := hnonce
  have hverify (token₀ : EatPsaToken) (nonce' : Bytes) (hlen' : nonceLengthValid nonce'.length = true) :
      eatPsaTokenVerify (some key) ⟨some input, .mem nonce', some scratch, some token₀⟩
        = if nonce' = nonce then (.ok (), some (.ofMessage tag claims components))
          else (.error (.err .eatPsaNonce), some .zero) := by
    have hvalid : failWhen ((Pointer.mem nonce').isNull = true ∨ nonceLengthValid (Pointer.mem nonce').len = false)
        .invalidArg = .ok () := by
      rw [failWhen_eq_ok]
      rintro (⟨⟨⟩⟩ | hinvalid)
      exact Bool.false_ne_true (hinvalid.symm.trans hlen')
    unfold eatPsaTokenVerify
    simp only
    rw [hvalid, ok_bind, h.verifyToken hfull, eatPsaCheckNonce_eq htoken hlen']
    split
    · rfl
    · rfl
  constructor
  · constructor
    all_goals rfl
  · rfl
  · exact fun ε σ cb => eatPsaForEachComponent_ofMessage h.valid h.texts h.payload_le tag cb
  · intro token₀
    rw [hnonce, hverify token₀ nonce hlen, if_pos rfl]
  · intro token₀ nonce' hlen' hne
    rw [hverify token₀ nonce' hlen', if_neg]
    rintro rfl
    exact hne hnonce
  · intro ε resolver token₀
    have hcall : eatPsaResolverCall (some resolver) ⟨some input, claims.nonce, some scratch, some token₀⟩
        = .ok (resolver, ⟨.current, claims.ueid, alg⟩) := by
      have hvalid : failWhen (claims.nonce.isNull = true ∨ nonceLengthValid claims.nonce.len = false) .invalidArg
          = .ok () := by
        rw [failWhen_eq_ok, hnonce]
        rintro (⟨⟨⟩⟩ | hinvalid)
        exact Bool.false_ne_true (hinvalid.symm.trans hlen)
      unfold eatPsaResolverCall
      simp only
      rw [hvalid, ok_bind, h.envelope, ok_bind, h.algValid]
      simp only [h.decoded hfull]
      rfl
    unfold eatPsaTokenVerifyByUeid
    rw [hcall]
    simp only
    cases resolver ⟨.current, claims.ueid, alg⟩ .zero with
    | ok key' => rfl
    | error e => rfl

end EatPsaMessage

/-! ### What is issued -/

omit [MacSettings] [EatPsaSettings] [MacCrypt] in
/-- A message that is signed is verified with the public key, whatever forms of heads are tolerated. -/
theorem Sign1Signed.verifyEx {pub : PublicOf} (hscheme : CorrectScheme pub) {key : Key} {alg : Int} {kid : Pointer}
    {args : SignArgs} {flags : UInt32} {env : Env} {scratch out input scratch' : Buffer}
    {protectedHdr tbs sig message : Bytes}
    (h : Sign1Signed key alg kid args flags env scratch out protectedHdr tbs sig message) {key' : Key}
    (hmatch : key'.Matches alg) (hpin : key'.alg = algUnset ∨ key'.alg = alg) (hpub : key.HasPublic pub alg key')
    (hlen : VerifiableLength alg tbs) (hinput : input.bytes = message) (hscratch : SufficientScratch scratch' tbs sig)
    {decodeFlags : UInt32} (hf : decodeFlagsValid decodeFlags = true) (hdr : Hdr) (payload : Option Bytes)
    (payloadLen : Nat) :
  sign1VerifyEx ⟨some key', some input, args.detached, args.extAad, some scratch'⟩
      ⟨some hdr, some payload, some payloadLen⟩ decodeFlags
    = (.ok (), .verified (signedHdr alg kid args) args.attached)
  := by
  obtain ⟨_, hmade⟩ := h.made
  obtain ⟨tbsInput, hsigned, hacc⟩ := hmade.accepts hscheme hpub
  have htbs := sign1VerifyTbs_of_accepts hmatch hlen hsigned hacc hscratch.sig
  have hret := h.verify hmatch.inInt32Range hpin hinput hscratch.tbs
  rw [htbs] at hret
  obtain ⟨-, hdetached, hextAad, -, hfit⟩ := h.prepared.lengths
  have hinputFit : lenFitsWord32 input.bytes.length = true := by
    have hle := h.message_le
    rw [← hinput] at hle
    unfold lenFitsWord32 at *
    rw [decide_eq_true_eq] at *
    omega
  have hstrict : sign1VerifyEx ⟨some key', some input, args.detached, args.extAad, some scratch'⟩
      ⟨some hdr, some payload, some payloadLen⟩ 0 = (.ok (), .verified (signedHdr alg kid args) args.attached) := by
    have heq := @sign1Verify_eq _ _ key' input scratch' args.detached args.extAad hdr payload payloadLen hinputFit
      hdetached hextAad hscratch.fits
    rw [hret] at heq
    exact heq
  apply sign1VerifyEx_of_decoded hf rfl id (fun _ => decodeSingle_tolerated hf) hstrict

omit [MacSettings] [WolfCrypt] [MacCrypt] in
/-- The envelope of a message that was created is found. -/
theorem eatPsaGetEnvelope_created {input : Buffer} {tag : Nat} (htag : tag = tagSign1 ∨ tag = tagMac0) {rest : Bytes}
    (htagged : input.bytes = preferredHead .tag tag ++ rest) {protectedData payload data : Bytes} {alg : Int} {hdr : Hdr}
    (hmsg : SingleEncoding 0 tag (.null 0) input.bytes ⟨protectedData, { Hdr.zero with alg }, true⟩ hdr
      (some payload) data) :
  decodeBuffer eatPsaGetEnvelope input = .ok ⟨tag, payload, alg⟩
  := by
  have hlt : tag < 2 ^ 64 := by
    obtain rfl | rfl := htag
    · decide
    · decide
  have htagged' : TaggedWith tag input.bytes := by
    refine ⟨.ofHead .tag tag, rest, ?_, accepted_ofHead rfl (by rintro ⟨⟩) hlt, rfl, rfl⟩
    rw [htagged, Token.bytes_ofHead]
  have hcerts : (0 : UInt8) &&& hdrFlagX5chain = 0 := by decide
  obtain ⟨bs, hbs, henv⟩ := eatPsaGetEnvelope_of_single htag htagged'
    (hmsg.tolerated decodeFlagsValid_eatPsa input.length_le) rfl hcerts
  rw [Option.some.inj hbs]
  exact henv

omit [MacSettings] [MacCrypt] in
/-- Only valid claims are encoded, and only for an algorithm that is allowed. -/
theorem eatPsaIssueClaims_ok {key : Option Key} {algValid : Bool} {args : EatPsaIssueArgs} {payload : Bytes}
    (h : eatPsaIssueClaims key algValid args = .ok payload) :
  algValid = true ∧ ∃ claims components, args.claims = some claims ∧ claims.Valid components
    ∧ claims.TextsValid components ∧ payload = claimsBytes claims components
  := by
  unfold eatPsaIssueClaims at h
  split at h
  · rename_i claimsBuf scratch out _ _ _ _ _
    simp only [bind_eq_ok, failWhen_eq_ok, lift_eq_ok] at h
    obtain ⟨_, -, _, halg, h⟩ := h
    refine ⟨Bool.of_not_eq_false halg, ?_⟩
    cases hclaims : args.claims with
    | none =>
        rw [hclaims] at h
        cases h
    | some claims =>
        rw [hclaims] at h
        obtain ⟨components, hvalid, htexts, hpayload⟩ := eatPsaEncodeClaims_eq_ok h
        exact ⟨claims, components, rfl, hvalid, htexts, hpayload⟩
  · cases h

/-- A message of valid claims that the verification function accepts. -/
theorem EatPsaMessage.of_single {key : Key} {input scratch : Buffer} {tag : Nat} {alg : Int} {claims : EatPsaClaims}
    {components : List EatPsaComponent} (htag : tag = tagSign1 ∨ tag = tagMac0) (hvalid : claims.Valid components)
    (htexts : claims.TextsValid components) (halg : eatPsaCheckEnvelopeAlg tag alg = .ok ()) {rest : Bytes}
    (htagged : input.bytes = preferredHead .tag tag ++ rest) {protectedData data : Bytes} {hdr : Hdr}
    (hmsg : SingleEncoding 0 tag (.null 0) input.bytes ⟨protectedData, { Hdr.zero with alg }, true⟩ hdr
      (some (claimsBytes claims components)) data)
    (hverified : eatPsaVerifyMessage key input scratch ⟨tag, claimsBytes claims components, alg⟩
      = .ok (.verified hdr (some (claimsBytes claims components)))) :
  EatPsaMessage key input scratch tag alg claims components
  := by
  have henv := eatPsaGetEnvelope_created htag htagged hmsg
  obtain ⟨start, bs, payloadBytes, dataBytes, hinput, -, -, hpayload, -⟩ := hmsg
  obtain ⟨-, -, hr⟩ | ⟨payload, hattached, hr⟩ := hpayload
  · cases (Prod.mk.inj hr).2
  · obtain ⟨rfl, hsome⟩ := Prod.mk.inj hr
    cases hsome
    have hflags : (0 : UInt8) &&& hdrFlagDetached = 0 := by decide
    refine ⟨hvalid, htexts, ?_, henv, halg, _, hflags, hverified⟩
    have hle := hattached.length_le
    have hlen := input.length_le
    rw [hinput] at hlen
    simp only [List.length_append] at hlen
    omega

/-- What `wc_CoseEatPsaToken_CreateSign1` issues is accepted with the public key. -/
theorem eatPsaMessage_sign1 {pub : PublicOf} (hscheme : CorrectScheme pub) (hfull : eatPsaTfmFull = true)
    {key : Option Key} {alg : Int} {args : EatPsaIssueArgs} {rng : Option Rng} {env : Env}
    (h : (eatPsaTokenCreateSign1 key alg args rng env).ret = .ok ()) :
  ∃ key₁ claims components bytes outLen protectedHdr sig, key = some key₁ ∧ args.claims = some claims
    ∧ claims.components = some components ∧ (eatPsaTokenCreateSign1 key alg args rng env).out = some bytes
    ∧ (eatPsaTokenCreateSign1 key alg args rng env).outLen = some outLen
    ∧ algProtectedHdr alg = .ok protectedHdr
    ∧ bytes.take outLen = sign1Fields 0 protectedHdr (.null 0) (args.sign (claimsBytes claims components) rng)
      ++ stringBytes .bstr sig
    ∧ ∀ key' input scratch, key'.Matches alg → key'.alg = algUnset ∨ key'.alg = alg → key₁.HasPublic pub alg key' →
      input.bytes = bytes.take outLen →
      SufficientScratch scratch (sigStructure1 protectedHdr [] (claimsBytes claims components)).bytes sig →
      EatPsaMessage key' input scratch tagSign1 alg claims components
  := by
  unfold eatPsaTokenCreateSign1 at h ⊢
  cases hissue : eatPsaIssueClaims key (eatPsaSignAlg alg) args with
  | error fault =>
      rw [hissue] at h
      cases h
  | ok payload =>
      simp only [hissue] at h ⊢
      obtain ⟨halg, claims, components, hclaims, hvalid, htexts, rfl⟩ := eatPsaIssueClaims_ok hissue
      obtain ⟨key₁, _, _, bytes, outLen, protectedHdr, tbs, sig, hkey, hout, houtLen, hsigned⟩ := sign1SignEx_ok h
      have htbs : tbs = (sigStructure1 protectedHdr [] (claimsBytes claims components)).bytes :=
        hsigned.prepared.structure_eq
      refine ⟨key₁, claims, components, bytes, outLen, protectedHdr, sig, hkey, hclaims, hvalid.components_eq, ?_,
        houtLen, hsigned.prepared.encoded, hsigned.message_eq, ?_⟩
      · rw [h, hout]
        rfl
      intro key' input scratch hmatch hpin hpub hinput hscratch
      rw [← htbs] at hscratch
      have hmsg : SingleEncoding 0 tagSign1 (.null 0) input.bytes ⟨protectedHdr, { Hdr.zero with alg }, true⟩
          (signedHdr alg (.null 0) (args.sign (claimsBytes claims components) rng))
          (some (claimsBytes claims components)) sig := by
        rw [hinput]
        exact sign1Encoding_signed hmatch.inInt32Range hsigned.prepared.encoded hsigned.message_eq
          (hinput ▸ input.length_le)
      have htagged : input.bytes = preferredHead .tag tagSign1 ++ (preferredHead .array 4
          ++ (stringBytes .bstr protectedHdr ++ (kidBytes (.null 0)
            ++ payloadBytes (args.sign (claimsBytes claims components) rng))) ++ stringBytes .bstr sig) := by
        have htag : (0 : UInt32) &&& sign1Untagged = 0 := by decide
        rw [hinput, hsigned.message_eq, sign1Fields, if_pos htag, List.append_assoc]
      have hlms : VerifiableLength alg tbs := by
        rintro rfl
        simp [eatPsaSignAlg, algHssLms, algEs256, algEs384, algEs512] at halg
      have hver := hsigned.verifyEx hscheme hmatch hpin hpub hlms hinput hscratch decodeFlagsValid_eatPsa .zero
        (some (claimsBytes claims components)) (claimsBytes claims components).length
      have hsign1 : eatPsaSign1 = true := by
        simp only [eatPsaTfmFull, Bool.and_eq_true, and_assoc] at hfull
        exact hfull.2.1
      apply EatPsaMessage.of_single (.inl rfl) hvalid htexts _ htagged hmsg
      · rw [eatPsaVerifyMessage, if_pos rfl, if_pos hsign1, verifiedOut_eq_ok]
        exact hver
      · rw [eatPsaCheckEnvelopeAlg, if_pos rfl, if_pos hsign1, rejectIf_eq_ok, halg]
        rintro ⟨⟩

/-- What `wc_CoseEatPsaToken_CreateMac0` issues is accepted with the same key. -/
theorem eatPsaMessage_mac0 (hdoc : DocumentedHmac) (hfull : eatPsaTfmFull = true) {key : Option Key} {alg : Int}
    {args : EatPsaIssueArgs} (h : (eatPsaTokenCreateMac0 key alg args).ret = .ok ()) :
  ∃ key₁ claims components bytes outLen protectedHdr, key = some key₁ ∧ args.claims = some claims
    ∧ claims.components = some components ∧ (eatPsaTokenCreateMac0 key alg args).out = some bytes
    ∧ (eatPsaTokenCreateMac0 key alg args).outLen = some outLen ∧ algProtectedHdr alg = .ok protectedHdr
    ∧ ∀ input scratch, input.bytes = bytes.take outLen → lenFitsWord32 scratch.bytes.length = true →
      (macStructure .mac0 protectedHdr [] (claimsBytes claims components)).bytes.length ≤ scratch.bytes.length →
      EatPsaMessage key₁ input scratch tagMac0 alg claims components
  := by
  unfold eatPsaTokenCreateMac0 at h ⊢
  cases hissue : eatPsaIssueClaims key (eatPsaMacAlg alg) args with
  | error fault =>
      rw [hissue] at h
      cases h
  | ok payload =>
      simp only [hissue] at h ⊢
      obtain ⟨halg, claims, components, hclaims, hvalid, htexts, rfl⟩ := eatPsaIssueClaims_ok hissue
      obtain ⟨key₁, bytes, outLen, protectedHdr, tag, hkey, hprepared, hout, houtLen, hmessage, hlen⟩ := mac0Create_ok h
      obtain ⟨_, _, -, -, -, hcreate⟩ := hprepared.lengths
      obtain ⟨hrange, hprot⟩ := createMac_encoded hcreate
      refine ⟨key₁, claims, components, bytes, outLen, protectedHdr, hkey, hclaims, hvalid.components_eq, ?_, houtLen,
        hprot, ?_⟩
      · rw [h, hout]
        rfl
      intro input scratch hinput hfits hroom
      have htagged : input.bytes = preferredHead .tag tagMac0 ++ (preferredHead .array 4
          ++ (stringBytes .bstr protectedHdr ++ (kidBytes (.null 0)
            ++ (payloadBytes (args.mac (claimsBytes claims components)).sign ++ stringBytes .bstr tag)))) := by
        rw [hinput, hmessage, mac0Fields]
        simp only [List.append_assoc]
      have hmsg : SingleEncoding 0 tagMac0 (.null 0) input.bytes ⟨protectedHdr, { Hdr.zero with alg }, true⟩
          (signedHdr alg (.null 0) (args.mac (claimsBytes claims components)).sign)
          (some (claimsBytes claims components)) tag := by
        have hstart := @startValue_tag _ tagMac0 4 True _ (by decide) (by decide)
        rw [if_pos trivial] at hstart
        have hfields : input.bytes = (preferredHead .tag tagMac0 ++ preferredHead .array 4)
            ++ (stringBytes .bstr protectedHdr ++ (kidBytes (.null 0)
              ++ (payloadBytes (args.mac (claimsBytes claims components)).sign ++ stringBytes .bstr tag))) := by
          rw [htagged, List.append_assoc]
        exact singleEncoding_fields hstart hrange hprot hfields input.length_le
      have hver := @mac0Verify_created _ _ _ _ hdoc _ _ _ _ _ _ hprepared input scratch (hinput.trans hmessage)
        (hinput ▸ hlen) ⟨hfits, hroom⟩ .zero (some (claimsBytes claims components)) (claimsBytes claims components).length
      have htolerant := mac0VerifyEx_of_decoded decodeFlagsValid_eatPsa rfl id
        (fun _ => decodeSingle_tolerated decodeFlagsValid_eatPsa) hver
      have hmac0 : eatPsaMac0 = true := by
        simp only [eatPsaTfmFull, Bool.and_eq_true, and_assoc] at hfull
        exact hfull.2.2.1
      have hne : tagMac0 ≠ tagSign1 := by decide
      apply EatPsaMessage.of_single (.inr rfl) hvalid htexts _ htagged hmsg
      · rw [eatPsaVerifyMessage, if_neg hne, if_pos rfl, if_pos hmac0, verifiedOut_eq_ok]
        exact htolerant
      · rw [eatPsaCheckEnvelopeAlg, if_neg hne, if_pos rfl, if_pos hmac0, rejectIf_eq_ok, halg]
        rintro ⟨⟩

/-! ### What is left where nothing is issued -/

/-- Nothing is left in the output buffer, and the length is zero. -/
structure EatPsaIssueArgs.Cleared (args : EatPsaIssueArgs) (out : Option Bytes) (outLen : Option Nat) : Prop where
  out : out = args.out.map fun buf => List.replicate buf.bytes.length 0
  outLen : outLen = args.outLen.map fun _ => 0

omit [MacSettings] [EatPsaSettings] [WolfCrypt] [MacCrypt] in
/-- The last step leaves what is cleared already. -/
theorem EatPsaIssueArgs.Cleared.clear {args : EatPsaIssueArgs} {ret : Checked Unit} {out : Option Bytes}
    {outLen : Option Nat} (h : args.Cleared out outLen) (hret : ret ≠ .ok ()) :
  args.Cleared (eatPsaIssueClear ret out) outLen
  := by
  cases ret with
  | ok _ => exact absurd rfl hret
  | error fault =>
      refine ⟨?_, h.outLen⟩
      simp only [eatPsaIssueClear, h.out, Option.map_map, Function.comp_def, List.length_replicate]

omit [MacSettings] [EatPsaSettings] [MacCrypt] in
/-- What the signing function leaves that fails is what the issuing function leaves. -/
theorem sign1_issue_cleared {key : Option Key} {alg : Int} {args : EatPsaIssueArgs} {payload : Bytes}
    {rng : Option Rng} {env : Env} (h : (sign1SignEx key alg (.null 0) (args.sign payload rng) 0 env).ret ≠ .ok ()) :
  args.Cleared (sign1SignEx key alg (.null 0) (args.sign payload rng) 0 env).out
    (sign1SignEx key alg (.null 0) (args.sign payload rng) 0 env).outLen
  := by
  have hcleared : (sign1SignEx key alg (.null 0) (args.sign payload rng) 0 env).Cleared (args.sign payload rng) :=
    signFinish_cleared h
  refine ⟨hcleared.out, ?_⟩
  rw [hcleared.outLen]
  simp only [EatPsaIssueArgs.sign, EatPsaIssueArgs.mac, MacArgs.sign, Option.isSome_map]
  cases args.outLen with
  | none => rfl
  | some _ => rfl

omit [EatPsaSettings] in
theorem mac0_issue_cleared {key : Option Key} {alg : Int} {args : EatPsaIssueArgs} {payload : Bytes}
    (h : (mac0Create key alg (.null 0) (args.mac payload)).ret ≠ .ok ()) :
  args.Cleared (mac0Create key alg (.null 0) (args.mac payload)).out
    (mac0Create key alg (.null 0) (args.mac payload)).outLen
  := by
  cases hret : (mac0Create key alg (.null 0) (args.mac payload)).ret with
  | ok _ => exact absurd hret h
  | error fault =>
      obtain ⟨hout, houtLen⟩ := macFinish_error hret
      exact ⟨hout, houtLen⟩

omit [MacSettings] [MacCrypt] in
theorem eatPsaTokenCreateSign1_cleared {key : Option Key} {alg : Int} {args : EatPsaIssueArgs} {rng : Option Rng}
    {env : Env} (h : (eatPsaTokenCreateSign1 key alg args rng env).ret ≠ .ok ()) :
  args.Cleared (eatPsaTokenCreateSign1 key alg args rng env).out (eatPsaTokenCreateSign1 key alg args rng env).outLen
  := by
  unfold eatPsaTokenCreateSign1 at h ⊢
  cases hissue : eatPsaIssueClaims key (eatPsaSignAlg alg) args with
  | error fault =>
      refine ⟨?_, rfl⟩
      simp only [eatPsaIssueClear, Option.map_map, Function.comp_def]
  | ok payload =>
      rw [hissue] at h
      exact (sign1_issue_cleared h).clear h

theorem eatPsaTokenCreateMac0_cleared {key : Option Key} {alg : Int} {args : EatPsaIssueArgs}
    (h : (eatPsaTokenCreateMac0 key alg args).ret ≠ .ok ()) :
  args.Cleared (eatPsaTokenCreateMac0 key alg args).out (eatPsaTokenCreateMac0 key alg args).outLen
  := by
  unfold eatPsaTokenCreateMac0 at h ⊢
  cases hissue : eatPsaIssueClaims key (eatPsaMacAlg alg) args with
  | error fault =>
      refine ⟨?_, rfl⟩
      simp only [eatPsaIssueClear, Option.map_map, Function.comp_def]
  | ok payload =>
      rw [hissue] at h
      exact (mac0_issue_cleared h).clear h

/-- Issuing a token leaves nothing behind, or a token that conveys its claims: one that is signed to every verifier
with the public key, and one with a MAC to every verifier with the same key. -/
theorem eatPsa_issue_verify {pub : PublicOf} (hscheme : CorrectScheme pub) (hdoc : DocumentedHmac)
    (hfull : eatPsaTfmFull = true) (key : Option Key) (alg : Int) (args : EatPsaIssueArgs) (rng : Option Rng)
    (env : Env) :
  ((eatPsaTokenCreateSign1 key alg args rng env).ret ≠ .ok () → args.Cleared
      (eatPsaTokenCreateSign1 key alg args rng env).out (eatPsaTokenCreateSign1 key alg args rng env).outLen)
    ∧ ((eatPsaTokenCreateSign1 key alg args rng env).ret = .ok () →
      ∃ key₁ claims components bytes outLen protectedHdr sig, key = some key₁ ∧ args.claims = some claims
        ∧ claims.components = some components ∧ (eatPsaTokenCreateSign1 key alg args rng env).out = some bytes
        ∧ (eatPsaTokenCreateSign1 key alg args rng env).outLen = some outLen
        ∧ algProtectedHdr alg = .ok protectedHdr
        ∧ bytes.take outLen = sign1Fields 0 protectedHdr (.null 0) (args.sign (claimsBytes claims components) rng)
          ++ stringBytes .bstr sig
        ∧ ∀ key' input scratch, key'.Matches alg → key'.alg = algUnset ∨ key'.alg = alg →
          key₁.HasPublic pub alg key' → input.bytes = bytes.take outLen →
          SufficientScratch scratch (sigStructure1 protectedHdr [] (claimsBytes claims components)).bytes sig →
          ∃ token, EatPsaConveyed key' input scratch .sign1 alg claims components token)
    ∧ ((eatPsaTokenCreateMac0 key alg args).ret ≠ .ok () →
      args.Cleared (eatPsaTokenCreateMac0 key alg args).out (eatPsaTokenCreateMac0 key alg args).outLen)
    ∧ ((eatPsaTokenCreateMac0 key alg args).ret = .ok () →
      ∃ key₁ claims components bytes outLen protectedHdr, key = some key₁ ∧ args.claims = some claims
        ∧ claims.components = some components ∧ (eatPsaTokenCreateMac0 key alg args).out = some bytes
        ∧ (eatPsaTokenCreateMac0 key alg args).outLen = some outLen ∧ algProtectedHdr alg = .ok protectedHdr
        ∧ ∀ input scratch, input.bytes = bytes.take outLen → lenFitsWord32 scratch.bytes.length = true →
          (macStructure .mac0 protectedHdr [] (claimsBytes claims components)).bytes.length ≤ scratch.bytes.length →
          ∃ token, EatPsaConveyed key₁ input scratch .mac0 alg claims components token)
  := by
  refine ⟨eatPsaTokenCreateSign1_cleared, ?_, eatPsaTokenCreateMac0_cleared, ?_⟩
  · intro h
    obtain ⟨key₁, claims, components, bytes, outLen, protectedHdr, sig, hkey, hclaims, hcomponents, hout, houtLen,
      hprot, hbytes, hmessage⟩ := eatPsaMessage_sign1 hscheme hfull h
    refine ⟨key₁, claims, components, bytes, outLen, protectedHdr, sig, hkey, hclaims, hcomponents, hout, houtLen,
      hprot, hbytes, ?_⟩
    intro key' input scratch hmatch hpin hpub hinput hscratch
    exact ⟨_, (hmessage key' input scratch hmatch hpin hpub hinput hscratch).conveyed hfull⟩
  · intro h
    obtain ⟨key₁, claims, components, bytes, outLen, protectedHdr, hkey, hclaims, hcomponents, hout, houtLen, hprot,
      hmessage⟩ := eatPsaMessage_mac0 hdoc hfull h
    refine ⟨key₁, claims, components, bytes, outLen, protectedHdr, hkey, hclaims, hcomponents, hout, houtLen, hprot, ?_⟩
    intro input scratch hinput hfits hroom
    exact ⟨_, (hmessage input scratch hinput hfits hroom).conveyed hfull⟩

end

section Instances

/-- The public key of `p256Private`. -/
def p256Public : Bytes :=
  [0x60, 0xFE, 0xD4, 0xBA, 0x25, 0x5A, 0x9D, 0x31, 0xC9, 0x61, 0xEB, 0x74, 0xC6, 0x35, 0x6D, 0x68,
    0xC0, 0x49, 0xB8, 0x92, 0x3B, 0x61, 0xFA, 0x6C, 0xE6, 0x69, 0x62, 0x2E, 0x60, 0xF2, 0x9F, 0xB6,
    0x79, 0x03, 0xFE, 0x10, 0x08, 0xB8, 0xBC, 0x99, 0xA4, 0x1A, 0xE9, 0xE9, 0x56, 0x28, 0xBC, 0x64,
    0xF2, 0xF1, 0xB2, 0x0C, 0x2D, 0x7E, 0x9F, 0x51, 0x77, 0xA3, 0xC2, 0x94, 0xD4, 0x46, 0x22, 0x99]

/-- The SHA-256 digest of the Sig_structure of the sample claims. -/
def issueDigest : Bytes :=
  [0xA6, 0x9E, 0x20, 0x6E, 0x11, 0x97, 0xBB, 0x84, 0x02, 0xF3, 0x82, 0xBC, 0xF7, 0xD0, 0x20, 0x15,
    0x8A, 0xA9, 0x1F, 0x15, 0xBF, 0x68, 0x9F, 0xD1, 0x23, 0x78, 0xF2, 0x2D, 0x33, 0x28, 0xD3, 0x40]

/-- The first coordinate of its signature. -/
def issueR : Bytes :=
  [0x26, 0xB1, 0x18, 0xD1, 0x7C, 0xD1, 0xBA, 0xA7, 0xFA, 0x61, 0x0D, 0xD0, 0x1D, 0x97, 0x0D, 0x51,
    0x46, 0x91, 0xEA, 0xD3, 0xC1, 0xA0, 0x67, 0x85, 0xD2, 0x32, 0x0A, 0x12, 0xA2, 0xF9, 0x40, 0xFB]

/-- The second coordinate of its signature. -/
def issueS : Bytes :=
  [0x85, 0xA6, 0xC4, 0x74, 0x21, 0xEB, 0x6F, 0xFE, 0x4C, 0xF5, 0x8F, 0x8B, 0x70, 0xE2, 0x4B, 0x76,
    0x51, 0x47, 0xF8, 0x19, 0x9D, 0x2A, 0xEA, 0x9F, 0x08, 0x9C, 0xD7, 0xDE, 0x5A, 0x75, 0x0D, 0xD9]

/-- The signature in DER. -/
def issueDer : Bytes :=
  [0x30, 0x45, 0x02, 0x20] ++ issueR ++ [0x02, 0x21, 0x00] ++ issueS

/-- The HMAC of the MAC_structure of the sample claims. -/
def issueMac : Bytes :=
  [0x62, 0x75, 0xAA, 0x43, 0x67, 0xE2, 0x67, 0x2B, 0xA1, 0x2B, 0x33, 0xF8, 0x4D, 0xB9, 0xC6, 0x32,
    0xFB, 0x8C, 0x02, 0x1F, 0xF4, 0x8E, 0x14, 0x85, 0x20, 0x49, 0xE8, 0xC3, 0x9A, 0x2E, 0x1B, 0x0C]

attribute [local instance] defaultSettings defaultMacSettings defaultEatPsaSettings

/-- The wolfCrypt that knows this signature. -/
@[reducible]
def issueCrypt : WolfCrypt :=
  { failingCrypt with
    hash := fun type data n =>
      if type = .sha256 ∧ n = 32
        ∧ data = [0x84, 0x6A] ++ ctxSignature1 ++ [0x43, 0xA1, 0x01, 0x26, 0x40, 0x59, 0x01, 0x54] ++ samplePayload.bytes
      then some issueDigest else none
    eccSize := fun (_ : Bytes) => 32
    eccHasDp := fun _ => true
    eccIdx := fun _ => 0
    eccGetCurveId := fun _ => .secp256r1
    eccSetDeterministicEx := fun key _ => some key
    eccSignHash := fun digest _ (key : Bytes) env =>
      (if key = p256Private ∧ digest = issueDigest then some issueDer else none, env)
    eccSigToRs := fun sig => if sig = issueDer then some (issueR, issueS) else none
    eccRsRawToSig := fun r s =>
      if r.dropWhile (· == 0) = issueR ∧ s.dropWhile (· == 0) = issueS then some issueDer else none
    eccVerifyHash := fun sig digest (key : Bytes) => some (sig == issueDer && digest == issueDigest && key == p256Public) }

attribute [local instance] issueCrypt

/-- The HMAC with the key of the sample. -/
def issueTable : List ((HashType × Bytes × Bytes) × Bytes) :=
  [((.sha256, hmac256Key, [0x84, 0x64] ++ ctxMac0 ++ [0x43, 0xA1, 0x01, 0x05, 0x40, 0x59, 0x01, 0x54]
      ++ samplePayload.bytes), issueMac)]

/-- The primitives as far as this HMAC goes. -/
@[reducible]
def issueMacCrypt : MacCrypt := hmacTableCrypt issueTable

attribute [local instance] issueMacCrypt

/-- The key pairs of this wolfCrypt. -/
def p256Pub : PublicOf where
  ecc key key' := key = p256Private ∧ key' = p256Public
  ed25519 _ _ := False
  ed448 _ _ := False
  rsa _ _ := False
  mldsa _ _ := False
  lms _ _ := False

theorem dropWhile_leftPad {n : Nat} {b : UInt8} {bs : Bytes} (hb : b ≠ 0) :
  (leftPad n (b :: bs)).dropWhile (· == 0) = b :: bs
  := by
  unfold leftPad
  induction n - (b :: bs).length with
  | zero => simp [hb]
  | succ k ih => simpa [List.replicate_succ] using ih

theorem correctScheme_p256Pub :
  CorrectScheme p256Pub
  where
  eccDeterministic := by
    rintro key key' signKey hashType hpub h
    rwa [← Option.some.inj h]
  ecdsa := by
    rintro key key' digest rng env derSig r s coordSz ⟨rfl, rfl⟩ hsign hrs - -
    obtain ⟨⟨-, rfl⟩, -⟩ := Option.ite_none_right_eq_some.mp hsign
    obtain ⟨-, hcoords⟩ := Option.ite_none_right_eq_some.mp hrs
    obtain ⟨rfl, rfl⟩ := Prod.mk.inj (Option.some.inj hcoords)
    refine ⟨issueDer, ?_, by decide⟩
    have hr' := @dropWhile_leftPad coordSz 0x26 (issueR.drop 1) (by decide)
    have hs' := @dropWhile_leftPad coordSz 0x85 (issueS.drop 1) (by decide)
    exact if_pos ⟨hr', hs'⟩
  ed25519 := by rintro _ _ _ _ ⟨⟩
  ed448 := by rintro _ _ _ _ ⟨⟩
  rsaPss := by rintro _ _ _ _ _ _ _ _ _ _ ⟨⟩
  mldsa := by rintro _ _ _ _ _ _ _ ⟨⟩
  lms := by rintro _ _ _ _ _ _ ⟨⟩

theorem documentedHmac_issueMacCrypt :
  DocumentedHmac
  := by
  apply documentedHmac_hmacTableCrypt
  decide

/-- The sample claims and three buffers. -/
def issueArgs : EatPsaIssueArgs where
  claims := some sampleClaims
  place := samplePlace
  claimsBuf := some (.ofBytes (List.replicate 512 0))
  scratch := some (.ofBytes (List.replicate 512 0))
  scratchStart := 2048
  out := some (.ofBytes (List.replicate 512 0))
  outStart := 4096
  outLen := some 0

theorem eatPsa_issue_verify_sample :
  ∃ components message token message' token', sampleClaims.components = some components
    ∧ EatPsaConveyed (.ofP256 p256Public false) message (.ofBytes (List.replicate 512 0)) .sign1 algEs256 sampleClaims
        components token
    ∧ EatPsaConveyed hmacKey message' (.ofBytes (List.replicate 512 0)) .mac0 algHmac256 sampleClaims components
        token'
  := by
  obtain ⟨-, hsign, -, -⟩ := @eatPsa_issue_verify _ _ _ _ _ p256Pub correctScheme_p256Pub documentedHmac_issueMacCrypt
    rfl (some (.ofP256 p256Private true)) algEs256 issueArgs (some ()) ()
  obtain ⟨-, -, -, hmac⟩ := @eatPsa_issue_verify _ _ _ _ _ p256Pub correctScheme_p256Pub documentedHmac_issueMacCrypt
    rfl (some hmacKey) algHmac256 issueArgs (some ()) ()
  obtain ⟨_, claims, components, bytes, outLen, protectedHdr, sig, ⟨⟩, ⟨⟩, hcomponents, hout, houtLen, hprot, hbytes,
    hsigned⟩ := hsign (by decide +kernel)
  obtain ⟨_, claims', components', bytes', outLen', protectedHdr', ⟨⟩, ⟨⟩, hcomponents', hout', houtLen', hprot',
    hmade⟩ := hmac (by decide +kernel)
  cases hcomponents
  cases hcomponents'
  cases hprot
  cases hprot'
  have hlen : bytes.length = 512 := by
    have hlen : (eatPsaTokenCreateSign1 (some (.ofP256 p256Private true)) algEs256 issueArgs (some ()) ()).out.map
        List.length = some 512 := by decide +kernel
    rw [hout] at hlen
    exact Option.some.inj hlen
  have hlen' : bytes'.length = 512 := by
    have hlen' : (eatPsaTokenCreateMac0 (some hmacKey) algHmac256 issueArgs).out.map List.length = some 512 := by
      decide +kernel
    rw [hout'] at hlen'
    exact Option.some.inj hlen'
  have hmessage (message : Bytes) (n : Nat) (h : message.length = 512) :
      (Buffer.ofBytes (message.take n)).bytes = message.take n := by
    apply Buffer.bytes_ofBytes
    apply (List.length_take_le' n message).trans
    rw [h]
    decide
  have hsig : sig.length ≤ 512 := by
    have hle := congrArg List.length hbytes
    have hpos := length_le_stringBytes .bstr sig
    rw [List.length_append, List.length_take] at hle
    omega
  have hmatch : (Key.ofP256 p256Public false).Matches algEs256 := .ecdsa rfl rfl rfl rfl rfl rfl
  have hscratch : (Buffer.ofBytes (List.replicate 512 0)).bytes.length = 512 := by decide +kernel
  obtain ⟨token, htoken⟩ := hsigned (.ofP256 p256Public false) _ (.ofBytes (List.replicate 512 0)) hmatch (.inl rfl)
    (.ecc ⟨rfl, rfl⟩) (hmessage bytes outLen hlen) ⟨by decide +kernel, by decide +kernel, hsig.trans hscratch.ge⟩
  obtain ⟨token', htoken'⟩ := hmade _ (.ofBytes (List.replicate 512 0)) (hmessage bytes' outLen' hlen')
    (by decide +kernel) (by decide +kernel)
  exact ⟨_, _, token, _, token', rfl, htoken, htoken'⟩

end Instances

end WolfCose
