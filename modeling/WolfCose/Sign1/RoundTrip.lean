import WolfCose.Sig.Runs
import WolfCose.Sign1.Sign
import WolfCose.Sign1.Verify

/-!
# Signing and verifying a COSE_Sign1 message

The message that `wc_CoseSign1_Sign_ex` returns is accepted by `wc_CoseSign1_Verify` with the
public key, and the verification returns what was signed.  There is one exception: a delegated
signer may make a signature for HSS-LMS over a structure that is too long for wolfCrypt to
verify.
-/

namespace WolfCose

open Program Cbor Settings WolfCrypt

section

variable [Settings] [WolfCrypt]

/-! ### Verification of what was signed -/

/-- The scratch buffer of a verification has an accepted length, and room for the structure and
for the signature. -/
structure SufficientScratch (scratch : Buffer) (tbs sig : Bytes) : Prop where
  fits : lenFitsWord32 scratch.bytes.length = true
  tbs : tbs.length ≤ scratch.bytes.length
  sig : sig.length ≤ scratch.bytes.length

theorem sign1VerifyTbs_of_accepts {key : Key} {alg : Int} {tbs input sig : Bytes} {scratchSz : Nat}
    (hmatch : key.Matches alg) (hlen : VerifiableLength alg tbs) (hinput : SignedInput alg tbs input)
    (hacc : key.object.Accepts alg input sig) (hroom : sig.length ≤ scratchSz) :
  sign1VerifyTbs key alg tbs sig scratchSz = .ok ()
  := by
  have hver := hmatch.verifies hlen hinput (fun _ _ hd => hashFor_eq_ok.mpr hd) hacc hroom
  unfold sign1VerifyTbs
  cases hver with
  | ecdsa hecdsa heddsa h => rwa [heddsa, if_neg Bool.false_ne_true, if_pos hecdsa]
  | eddsa hecdsa heddsa h => rwa [if_pos heddsa]
  | pss hecdsa heddsa hpss h =>
      rwa [hecdsa, heddsa, if_neg Bool.false_ne_true, if_neg Bool.false_ne_true, if_pos hpss]
  | mldsa hecdsa heddsa hpss hmldsa h =>
      rwa [hecdsa, heddsa, if_neg Bool.false_ne_true, if_neg Bool.false_ne_true, if_neg hpss, if_pos hmldsa]
  | lms hecdsa heddsa hpss hmldsa hlms h =>
      rwa [hecdsa, heddsa, if_neg Bool.false_ne_true, if_neg Bool.false_ne_true, if_neg hpss, if_neg hmldsa,
        if_pos hlms]

/-! ### What was signed -/

theorem runs_sign1SignTbs {key : Key} {alg : Int} {tbs sig : Bytes} {scratchSz : Nat} {rng : Option Rng}
    {s s' : SignState} (h : Runs (sign1SignTbs key alg tbs scratchSz rng) s sig s') :
  key.Made alg rng scratchSz tbs sig s s'
  := by
  unfold sign1SignTbs at h
  unfold Key.Made
  split at h
  · rename_i hdel
    rw [if_pos hdel]
    apply runs_signDelegated h
  rename_i hlocal
  rw [if_neg hlocal]
  split at h
  · rename_i halg
    simp only [runs_bind, runs_check] at h
    obtain ⟨_, _, ⟨-, rfl⟩, _, _, ⟨-, rfl⟩, h⟩ := h
    apply runs_signEddsa halg h
  split at h
  · rename_i halg
    simp only [runs_bind, runs_check, lift_eq_ok] at h
    obtain ⟨_, _, ⟨-, rfl⟩, _, _, ⟨hcrv, rfl⟩, _, _, ⟨-, rfl⟩, h⟩ := h
    apply runs_signEcdsa halg hcrv (fun _ => hashFor_ok) h
  split at h
  · rename_i halg
    apply runs_signPss halg.2 (fun _ => hashFor_ok) h
  split at h
  · rename_i halg
    apply runs_signMlDsa halg.2 h
  split at h
  · rename_i halg
    rw [halg.2.2]
    apply runs_signLms h
  · cases h

/-- The checks before a message is signed, with the protected header and the bytes to be
signed. -/
structure Sign1Prepared (alg : Int) (kid : Pointer) (args : SignArgs) (scratch out : Buffer)
    (protectedHdr tbs : Bytes) : Prop where
  payload : args.sigPayload.isNull = false
  lengths : args.lengthsFit scratch out
  exclusive : args.payload.isNull = true ∨ args.detached.isNull = true
  encoded : algProtectedHdr alg = .ok protectedHdr
  structure_valid : args.extAad.Valid ∧ args.sigPayload.Valid
  room : tbs.length ≤ scratch.bytes.length
  structure_eq : tbs = (sigStructure1 protectedHdr args.extAad.bytes args.sigPayload.bytes).bytes

theorem sign1Prepare_prepared {key : Key} {alg : Int} {kid : Pointer} {args : SignArgs} {scratch out : Buffer}
    {flags : UInt32} {protectedHdr tbs : Bytes}
    (h : sign1Prepare key alg kid args scratch out flags = .ok (protectedHdr, tbs)) :
  Sign1Prepared alg kid args scratch out protectedHdr tbs
  := by
  have hpayload := (sign1Prepare_ok h).1
  simp only [sign1Prepare, bind_eq_ok, lift_eq_ok, failWhen_eq_ok, buildSigStructure,
    buildToBeSignedMaced_eq_ok] at h
  obtain ⟨_, -, _, -, _, -, _, hlen, _, -, _, hboth, _, -, _, -, prot, hprot, tbs', htbs, h⟩ := h
  obtain ⟨-, -, -, haad, hvalid, ⟨_, hscr, hroom⟩, hstruct⟩ := htbs
  have heq : prot = protectedHdr ∧ tbs' = tbs := by
    split at h
    · simp only [bind_eq_ok, pure_eq_ok, Prod.mk.injEq] at h
      obtain ⟨_, -, _, -, h⟩ := h
      exact h
    · simpa only [pure_eq_ok, Prod.mk.injEq] using h
  obtain ⟨rfl, rfl⟩ := heq
  obtain rfl := Option.some.inj hscr
  refine ⟨hpayload, Decidable.not_not.mp hlen, ?_, hprot, ⟨haad, hvalid⟩, hroom, hstruct⟩
  rw [← Bool.not_eq_false, ← Bool.not_eq_false]
  exact Decidable.not_and_iff_not_or_not.mp hboth

/-- What a successful call of `wc_CoseSign1_Sign_ex` returns. -/
structure Sign1Signed (key : Key) (alg : Int) (kid : Pointer) (args : SignArgs) (flags : UInt32) (env : Env)
    (scratch out : Buffer) (protectedHdr tbs sig message : Bytes) : Prop where
  prepared : Sign1Prepared alg kid args scratch out protectedHdr tbs
  made : ∃ s', key.Made alg args.rng scratch.bytes.length tbs sig ⟨env, []⟩ s'
  message_eq : message = sign1Fields flags protectedHdr kid args ++ stringBytes .bstr sig
  message_le : message.length ≤ out.bytes.length

theorem sign1SignEx_ok {key : Option Key} {alg : Int} {kid : Pointer} {args : SignArgs} {flags : UInt32}
    {env : Env} (h : (sign1SignEx key alg kid args flags env).ret = .ok ()) :
  ∃ key' scratch out bytes outLen protectedHdr tbs sig, key = some key'
    ∧ (sign1SignEx key alg kid args flags env).out = some bytes
    ∧ (sign1SignEx key alg kid args flags env).outLen = some outLen
    ∧ Sign1Signed key' alg kid args flags env scratch out protectedHdr tbs sig (bytes.take outLen)
  := by
  obtain ⟨ctx, s, hruns, hret⟩ := signFinish_ok h
  have hret' : sign1SignEx key alg kid args flags env = ⟨.ok (), some ctx.buf.bytes, some ctx.idx, s⟩ := hret
  rw [hret']
  split at hruns
  · rename_i key' scratch out hscratch hout
    simp only [sign1SignMessage, runs_bind, runs_check] at hruns
    obtain ⟨⟨protectedHdr, tbs⟩, _, ⟨hprep, rfl⟩, sig, s', hsig, henc, -⟩ := hruns
    have hprepared := sign1Prepare_prepared hprep
    have hemits := @emits_encodeSign1 _ _ flags protectedHdr kid args sig hprepared.payload
    have hwrites := (encodeAt_eq_ok hemits).mp henc
    have hmessage := hwrites.written_eq (Nat.zero_le _)
    have hle := hwrites.idx_le (Nat.zero_le _)
    refine ⟨key', scratch, out, _, _, protectedHdr, tbs, sig, rfl, rfl, rfl, hprepared,
      ⟨s', runs_sign1SignTbs hsig⟩, ?_, ?_⟩
    · rw [← EncCtx.written, hmessage]
      simp [EncCtx.written, EncCtx.init]
    · rw [List.length_take]
      have hsz : ctx.buf.bytes.length = out.bytes.length := by
        obtain ⟨-, rfl⟩ := hwrites
        exact EncCtx.bufSz_put _ _
      omega
  · cases hruns

/-! ### The message -/

/-- The payload in the message, if it is attached. -/
def SignArgs.attached (args : SignArgs) : Option Bytes :=
  if args.isDetached = true then none else some args.payload.bytes

/-- The flags in the header of the message. -/
def SignArgs.hdrFlags (args : SignArgs) : UInt8 :=
  if args.isDetached = true then 0 ||| hdrFlagDetached else 0

/-- The payload of a message is read back. -/
theorem payloadValue_payloadBytes {args : SignArgs} {hdr : Hdr} (hflags : hdr.flags = 0)
    (hlen : (payloadBytes args).length < 2 ^ 64) :
  PayloadValue 0 args.detached hdr (payloadBytes args) ({ hdr with flags := args.hdrFlags }, args.attached)
  := by
  unfold payloadBytes SignArgs.hdrFlags SignArgs.attached at *
  by_cases hd : args.isDetached = true
  · left
    rw [if_pos hd, if_pos hd, if_pos hd, hflags]
    refine ⟨rfl, ?_, rfl⟩
    simpa only [SignArgs.isDetached, Bool.not_eq_true'] using hd
  · right
    rw [if_neg hd] at hlen
    rw [if_neg hd, if_neg hd, if_neg hd]
    rw [length_stringBytes] at hlen
    refine ⟨args.payload.bytes, bstrValue_stringBytes (by omega), ?_⟩
    rw [← hflags]

/-- The payload that is verified is the one that was signed. -/
theorem verifyPayload_attached (args : SignArgs) :
  (verifyPayload args.detached args.attached).bytes = args.sigPayload.bytes
  := by
  unfold SignArgs.attached SignArgs.sigPayload
  split
  · rfl
  · rfl

theorem Pointer.Valid.verifyPayload {args : SignArgs} (h : args.sigPayload.Valid) :
  (WolfCose.verifyPayload args.detached args.attached).Valid
  := by
  unfold SignArgs.attached
  unfold SignArgs.sigPayload at h
  split
  · rename_i hd
    rwa [if_pos hd] at h
  · apply Pointer.valid_mem

/-- The header that a verification returns. -/
def signedHdr (alg : Int) (kid : Pointer) (args : SignArgs) : Hdr :=
  { Hdr.zero with alg, kid := hdrKidOf kid, flags := args.hdrFlags }

omit [WolfCrypt] in
/-- The start of a message is read back. -/
theorem startValue_tag {tag count : Nat} (tagged : Prop) [Decidable tagged] (htag : tag < 2 ^ 64)
    (hcount : count < 2 ^ 64) :
  StartValue 0 tag count ((if tagged then preferredHead .tag tag else []) ++ preferredHead .array count)
  := by
  refine ⟨if tagged then preferredHead .tag tag else [], .ofHead .array count, ?_, ?_,
    accepted_ofHead rfl (by decide) hcount, rfl, rfl⟩
  · rw [Token.bytes_ofHead]
  · split
    · right
      exact ⟨.ofHead .tag tag, accepted_ofHead rfl (by decide) htag, ⟨rfl, rfl⟩, (Token.bytes_ofHead _ _).symm⟩
    · exact .inl rfl

/-- A message of four fields is decoded to what was put into it. -/
theorem singleEncoding_fields {tag : Nat} {start protectedHdr data message : Bytes} {alg : Int} {kid : Pointer}
    {args : SignArgs} (hstart : StartValue 0 tag 4 start) (halg : inInt32Range alg = true)
    (hprot : algProtectedHdr alg = .ok protectedHdr)
    (hmessage : message = start ++ (stringBytes .bstr protectedHdr
      ++ (kidBytes kid ++ (payloadBytes args ++ stringBytes .bstr data))))
    (hlen : message.length ≤ sizeMax) :
  SingleEncoding 0 tag args.detached message ⟨protectedHdr, { Hdr.zero with alg, kid := hdrKidOf kid }, true⟩
    (signedHdr alg kid args) args.attached data
  := by
  have hmax := sizeMax_lt
  have hlen' := hlen
  rw [hmessage] at hlen'
  simp only [List.length_append, length_stringBytes] at hlen'
  have hkid (hk : hasKid kid) : kid.bytes.length < 2 ^ 64 := by
    rw [kidBytes, if_pos hk, if_pos hk] at hlen'
    simp only [List.length_append, length_stringBytes] at hlen'
    omega
  have hpayload := @payloadValue_payloadBytes _ _ args { Hdr.zero with alg, kid := hdrKidOf kid } rfl (by omega)
  have hdata : data.length < 2 ^ 64 := by omega
  refine ⟨_, _, _, _, ?_, hstart, headersValue_kid halg hprot hkid, hpayload, bstrValue_stringBytes hdata⟩
  rw [hmessage, List.append_assoc]

/-- A message is decoded to what was put into it. -/
theorem sign1Encoding_signed {alg : Int} {kid : Pointer} {args : SignArgs} {flags : UInt32}
    {protectedHdr sig message : Bytes} (halg : inInt32Range alg = true)
    (hprot : algProtectedHdr alg = .ok protectedHdr)
    (hmessage : message = sign1Fields flags protectedHdr kid args ++ stringBytes .bstr sig)
    (hlen : message.length ≤ sizeMax) :
  Sign1Encoding 0 args.detached message
    ⟨⟨protectedHdr, { Hdr.zero with alg, kid := hdrKidOf kid }, true⟩, signedHdr alg kid args, args.attached,
      sig⟩
  := by
  apply singleEncoding_fields (startValue_tag (flags &&& sign1Untagged = 0) (by decide) (by decide)) halg hprot
  · rw [hmessage]
    simp only [sign1Fields, List.append_assoc]
  · exact hlen

omit [Settings] [WolfCrypt] in
theorem length_sigStructure1 (protectedData extAad payload : Bytes) :
  (sigStructure1 protectedData extAad payload).bytes.length
    = 12 + (stringBytes .bstr protectedData).length + (stringBytes .bstr extAad).length
      + (stringBytes .bstr payload).length
  := by
  have hhead : (preferredHead .array 4).length = 1 := rfl
  have hcontext : (stringBytes .tstr ctxSignature1).length = 11 := rfl
  simp only [sigStructure1, AuthStructure.bytes, AuthStructure.tokens, AuthStructure.optionalString,
    AuthStructure.optionalFields, Option.map_none, Option.toList_none, Option.isSome_none, Bool.toNat_false,
    List.cons_append, List.nil_append, List.flatMap_cons, List.flatMap_nil, List.append_nil, Token.bytes_ofHead,
    Token.bytes_ofString, List.length_append, hhead, hcontext]
  omega

/-- The structure that a call of `wc_CoseSign1_Sign_ex` signs. -/
def SignArgs.structure1 (args : SignArgs) (protectedHdr : Bytes) : Bytes :=
  (sigStructure1 protectedHdr args.extAad.bytes args.sigPayload.bytes).bytes

/-- Whether a message is verified depends on its signature alone. -/
theorem Sign1Signed.verify {key : Key} {alg : Int} {kid : Pointer} {args : SignArgs} {flags : UInt32}
    {env : Env} {scratch out input scratch' : Buffer} {protectedHdr tbs sig message : Bytes}
    (h : Sign1Signed key alg kid args flags env scratch out protectedHdr tbs sig message) {key' : Key}
    (halg : inInt32Range alg = true) (hpin : key'.alg = algUnset ∨ key'.alg = alg)
    (hinput : input.bytes = message) (hroom : tbs.length ≤ scratch'.bytes.length) :
  sign1VerifyMessage key' input args.detached args.extAad scratch' 0
    = (sign1VerifyTbs key' alg tbs sig scratch'.bytes.length).map fun _ =>
        (signedHdr alg kid args, args.attached)
  := by
  have henc := sign1Encoding_signed halg h.prepared.encoded h.message_eq (hinput ▸ input.length_le)
  rw [← hinput, ← decodeSign1_eq_ok decodeFlagsValid_zero] at henc
  have hpinned : failWhen (key'.alg ≠ algUnset ∧ key'.alg ≠ alg) .coseBadAlg = .ok () := by
    rw [failWhen_eq_ok]
    rintro ⟨hset, hne⟩
    rcases hpin with hpin | hpin
    · exact hset hpin
    · exact hne hpin
  have hprotected : failWhen (key'.alg = algUnset ∧ true = false) .coseBadAlg = .ok () := by
    rw [failWhen_eq_ok]
    rintro ⟨-, ⟨⟩⟩
  have hbuild : lift (buildSigStructure (.mem protectedHdr) args.extAad
      (verifyPayload args.detached args.attached) (some scratch')) = .ok tbs := by
    obtain ⟨haad, hpayload⟩ := h.prepared.structure_valid
    rw [lift_eq_ok, buildSigStructure, buildToBeSignedMaced_eq_ok]
    refine ⟨rfl, isUtf8_ctx (List.mem_cons_self ..), Pointer.valid_mem _, haad, hpayload.verifyPayload,
      ⟨_, rfl, hroom⟩, ?_⟩
    rw [h.prepared.structure_eq, ← verifyPayload_attached args]
    rfl
  simp only [sign1VerifyMessage, henc, ok_bind]
  rw [show (signedHdr alg kid args).alg = alg from rfl, hpinned, hprotected, hbuild, ok_bind, ok_bind, ok_bind]
  cases sign1VerifyTbs key' alg tbs sig scratch'.bytes.length with
  | ok _ => rfl
  | error _ => rfl

/-- A call whose lengths fit returns what its steps return. -/
theorem sign1Verify_eq {key : Key} {input scratch : Buffer} {detached extAad : Pointer} {hdr : Hdr}
    {payload : Option Bytes} {payloadLen : Nat} (hinput : lenFitsWord32 input.bytes.length = true)
    (hdetached : lenFitsWord32 detached.len = true) (hextAad : lenFitsWord32 extAad.len = true)
    (hscratch : lenFitsWord32 scratch.bytes.length = true) :
  sign1Verify ⟨some key, some input, detached, extAad, some scratch⟩ ⟨some hdr, some payload, some payloadLen⟩
    = VerifyOut.finish ⟨some hdr, some payload, some payloadLen⟩
        (sign1VerifyMessage key input detached extAad scratch 0)
  := by
  simp only [sign1Verify, sign1VerifyEx, decodeFlagsValid_zero, hinput, hdetached, hextAad, hscratch]
  rfl

/-- A message that is signed is verified with the public key, whatever the signer, the kid, the
payload and the external data are, and the verification returns the payload, the kid and the
algorithm.  For HSS-LMS a delegated signer must not have signed a structure whose length is no
`int`. -/
theorem sign1_sign_verify {pub : PublicOf} (hscheme : CorrectScheme pub) {key : Key} {alg : Int} {kid : Pointer}
    {args : SignArgs} {flags : UInt32} {env : Env}
    (hsign : (sign1SignEx (some key) alg kid args flags env).ret = .ok ()) {key' : Key}
    (hmatch : key'.Matches alg) (hpin : key'.alg = algUnset ∨ key'.alg = alg)
    (hpub : key.HasPublic pub alg key')
    (hlen : key.delegated = true → ∀ protectedHdr, algProtectedHdr alg = .ok protectedHdr →
      VerifiableLength alg (args.structure1 protectedHdr)) :
  ∃ bytes outLen protectedHdr sig, (sign1SignEx (some key) alg kid args flags env).out = some bytes
    ∧ (sign1SignEx (some key) alg kid args flags env).outLen = some outLen
    ∧ bytes.take outLen = sign1Fields flags protectedHdr kid args ++ stringBytes .bstr sig
    ∧ ∀ input scratch hdr payload payloadLen, input.bytes = bytes.take outLen →
      SufficientScratch scratch (args.structure1 protectedHdr) sig →
      sign1Verify ⟨some key', some input, args.detached, args.extAad, some scratch⟩
          ⟨some hdr, some payload, some payloadLen⟩
        = (.ok (), .verified (signedHdr alg kid args) args.attached)
  := by
  obtain ⟨_, scratch, out, bytes, outLen, protectedHdr, tbs, sig, hkey, hout, houtLen, hsigned⟩ :=
    sign1SignEx_ok hsign
  obtain rfl := Option.some.inj hkey
  have hprepared := hsigned.prepared
  have htbs : tbs = args.structure1 protectedHdr := hprepared.structure_eq
  obtain ⟨_, hmade⟩ := hsigned.made
  obtain ⟨input, hinput, hacc⟩ := hmade.accepts hscheme hpub
  have hverifiable : VerifiableLength alg tbs := by
    cases hdel : key.delegated with
    | true =>
        rw [htbs]
        apply hlen hdel _ hprepared.encoded
    | false => apply hmade.verifiableLength hdel
  refine ⟨bytes, outLen, protectedHdr, sig, hout, houtLen, hsigned.message_eq, ?_⟩
  intro msg scratch' hdr payload payloadLen hmsg hscratch
  rw [← htbs] at hscratch
  have hver := sign1VerifyTbs_of_accepts hmatch hverifiable hinput hacc hscratch.sig
  have hret := hsigned.verify hmatch.inInt32Range hpin hmsg hscratch.tbs
  rw [hver] at hret
  obtain ⟨-, hdetached, hextAad, -, hfit⟩ := hprepared.lengths
  have hmsgFit : lenFitsWord32 msg.bytes.length = true := by
    have hle := hsigned.message_le
    rw [← hmsg] at hle
    unfold lenFitsWord32 at *
    rw [decide_eq_true_eq] at *
    omega
  rw [sign1Verify_eq hmsgFit hdetached hextAad hscratch.fits, hret]
  rfl

end

section Instances

attribute [local instance] defaultSettings

section Ed25519

/-- The payload "hi", attached. -/
def ed25519SigningArgs [WolfCrypt] (rng : Option Rng) : SignArgs where
  payload := .mem [0x68, 0x69]
  detached := .null 0
  extAad := .null 0
  scratch := some (.ofBytes (List.replicate 128 0))
  out := some (.ofBytes (List.replicate 128 0))
  hasOutLen := true
  rng

attribute [local instance] sign1Crypt

set_option maxRecDepth 4000 in
theorem sign1_sign_verify_instance :
  let args := ed25519SigningArgs (some ())
  ∃ bytes outLen protectedHdr sig,
    (sign1SignEx (some (.ofEd25519 ed25519Secret true)) (-19) (.mem [7]) args 0 ()).out = some bytes
    ∧ (sign1SignEx (some (.ofEd25519 ed25519Secret true)) (-19) (.mem [7]) args 0 ()).outLen = some outLen
    ∧ bytes.take outLen = sign1Fields 0 protectedHdr (.mem [7]) args ++ stringBytes .bstr sig
    ∧ ∀ input scratch hdr payload payloadLen, input.bytes = bytes.take outLen →
      SufficientScratch scratch (args.structure1 protectedHdr) sig →
      sign1Verify ⟨some (.ofEd25519 ed25519Public false), some input, .null 0, .null 0, some scratch⟩
          ⟨some hdr, some payload, some payloadLen⟩
        = (.ok (), .verified (signedHdr (-19) (.mem [7]) args) (some [0x68, 0x69]))
  := by
  intro args
  apply sign1_sign_verify (correctScheme_ed25519Pub [sign1Answer] (by decide)) (by rfl)
  · apply Key.Matches.ed25519 (by decide) rfl rfl rfl rfl rfl rfl
  · exact .inl rfl
  · apply PublicOf.Object.ed25519
    exact ⟨sign1Answer, List.mem_singleton_self _, rfl, rfl⟩
  · rintro ⟨⟩

end Ed25519

section Lms

attribute [local instance] lmsCallbackCrypt

/-- The arguments for an attached payload. -/
def lmsSignArgs (data : Bytes) (buf : Buffer) : SignArgs where
  payload := .mem data
  detached := .null 0
  extAad := .null 0
  scratch := some buf
  out := some buf
  hasOutLen := true
  rng := none

/-- The delegated signer signs a payload of any length for which there is room. -/
theorem sign1SignEx_lmsSigner {data : Bytes} {buf : Buffer} (hbuf : buf.bytes.length ≤ 0xFFFFFFFF)
    (hroom : data.length + 64 ≤ buf.bytes.length) :
  (sign1SignEx (some lmsSigner) algHssLms (.null 0) (lmsSignArgs data buf) 0 ()).ret = .ok ()
  := by
  obtain ⟨prot, hprot⟩ : ∃ prot, algProtectedHdr algHssLms = .ok prot := ⟨_, rfl⟩
  have hprotLen : prot.length = 4 := by
    rw [← Except.ok.inj hprot]
    rfl
  have hhead := cborHeadSize_le data.length
  rw [if_pos (by omega)] at hhead
  have htbs : ((lmsSignArgs data buf).structure1 prot).length ≤ data.length + 23 := by
    rw [SignArgs.structure1, length_sigStructure1, length_stringBytes, length_stringBytes, length_stringBytes,
      hprotLen]
    change 12 + 5 + 1 + (cborHeadSize data.length + data.length) ≤ _
    omega
  have hfields (sig : Bytes) (hsig : sig.length = 1) :
      (sign1Fields 0 prot (.null 0) (lmsSignArgs data buf) ++ stringBytes .bstr sig).length ≤ data.length + 15 := by
    have hpayload : payloadBytes (lmsSignArgs data buf) = stringBytes .bstr data := rfl
    simp only [sign1Fields, List.length_append, hpayload, length_stringBytes, hprotLen, hsig]
    change 1 + (1 + (5 + (1 + (cborHeadSize data.length + data.length)))) + 2 ≤ _
    omega
  have hneeded : sign1SignSizeEx (some lmsSigner) algHssLms 0 data.length 0 0
      = .ok (10 + cborHeadSize data.length + data.length) := by
    have hmax : sizeMax = 2 ^ 64 - 1 := rfl
    have hone : cborHeadSize 1 = 1 := rfl
    have hdata : sizeAddString 8 data.length = _ := sizeAddString_of_le (by omega)
    have hsig : sizeAddString (8 + (cborHeadSize data.length + data.length)) 1
        = .ok (10 + cborHeadSize data.length + data.length) := by
      rw [sizeAddString_of_le (by omega), hone, Except.ok.injEq]
      omega
    have hfits : lenFitsWord32 data.length = true := decide_eq_true (by omega)
    simp only [sign1SignSizeEx, bind_eq_ok, failWhen_eq_ok, lift_eq_ok]
    refine ⟨(), (by decide), (), (fun h => h.2 rfl), (), ?_, (), Bool.false_ne_true, 1, rfl, prot, hprot, 1, rfl, 2,
      rfl, 7, ?_, 8, rfl, _, hdata, hsig⟩
    · rintro (h | h)
      · exact Bool.false_ne_true (h.symm.trans hfits)
      · cases h
    · rw [hprotLen]
      rfl
  have hprep : sign1Prepare lmsSigner algHssLms (.null 0) (lmsSignArgs data buf) buf buf 0
      = .ok (prot, (lmsSignArgs data buf).structure1 prot) := by
    have hfits (n : Nat) (h : n ≤ 0xFFFFFFFF) : lenFitsWord32 n = true := decide_eq_true h
    simp only [sign1Prepare, bind_eq_ok, failWhen_eq_ok, lift_eq_ok, buildSigStructure,
      buildToBeSignedMaced_eq_ok]
    refine ⟨(), ?_, (), ?_, (), ?_, (), ?_, (), ?_, (), ?_, (), ?_, (), ?_, prot, hprot, _,
      ⟨rfl, isUtf8_ctx (List.mem_cons_self ..), Pointer.valid_mem _, fun _ => rfl, Pointer.valid_mem _,
        ⟨buf, rfl, ?_⟩, rfl⟩, ?_⟩
    · rintro (h | h) <;> cases h
    · rintro ⟨h, -⟩
      cases h
    · exact (by decide : ¬ (0 : UInt32) &&& ~~~sign1Untagged ≠ 0)
    · rw [Decidable.not_not]
      exact ⟨hfits _ (by simp only [lmsSignArgs, Pointer.len]; omega), rfl, rfl, hfits _ hbuf, hfits _ hbuf⟩
    · exact (by decide : ¬ ¬ kidConsistent (.null 0))
    · rintro ⟨-, h⟩
      cases h
    · rintro ⟨⟩
    · rintro ⟨h, -⟩
      exact h rfl
    · change ((lmsSignArgs data buf).structure1 prot).length ≤ _
      omega
    · rw [if_pos ⟨rfl, trivial⟩]
      simp only [bind_eq_ok, failWhen_eq_ok, pure_eq_ok]
      refine ⟨_, hneeded, (), ?_, rfl⟩
      omega
  generalize (lmsSignArgs data buf).structure1 prot = tbs at htbs hprep
  have hsig : Runs (sign1SignTbs lmsSigner algHssLms tbs buf.bytes.length none) ⟨(), []⟩ [UInt8.ofNat tbs.length]
      ⟨(), [.signCb lmsSigner algHssLms (lmsCall tbs) (some ([UInt8.ofNat tbs.length], 1))]⟩ := by
    rw [sign1SignTbs, if_pos (by decide)]
    apply runs_signDelegated_lmsSigner
    omega
  have hret : ∃ ctx s, Runs (sign1SignMessage lmsSigner algHssLms (.null 0) (lmsSignArgs data buf) buf buf 0)
      ⟨(), []⟩ ctx s := by
    simp only [sign1SignMessage, runs_bind, runs_check]
    refine ⟨_, _, _, _, ⟨hprep, rfl⟩, _, _, hsig, encodeAt_of_fits (emits_encodeSign1 rfl) ?_, rfl⟩
    have := hfields [UInt8.ofNat tbs.length] rfl
    change 0 + (sign1Fields 0 prot (.null 0) (lmsSignArgs data buf) ++ _).length ≤ buf.bytes.length
    omega
  obtain ⟨ctx, s, hruns⟩ := hret
  change (signFinish _ (sign1SignMessage lmsSigner algHssLms (.null 0) (lmsSignArgs data buf) buf buf 0) _).ret = _
  rw [signFinish, hruns]

theorem matches_lmsVerifier :
  lmsVerifier.Matches algHssLms
  := .lms rfl rfl rfl rfl

/-- A signature over a structure that is too long is not verified. -/
theorem verifyLms_lmsVerifier {tbs sig : Bytes} (h : intMax < tbs.length) :
  verifyLms lmsVerifier tbs sig = .error (.err .invalidArg)
  := by
  have hcheck : lmsCheckKey lmsVerifier = .ok () := rfl
  have hlong : failWhen (tbs.length > intMax) .invalidArg = .error (.err .invalidArg) := if_pos h
  rw [verifyLms, hcheck, ok_bind, hlong, error_bind]

/-- A payload for the delegated signer whose structure has more than 2³¹ - 1 bytes. -/
def longPayload : Bytes := List.replicate (2 ^ 31) 0

/-- A buffer of the greatest length that wolfCrypt can take. -/
def longBuffer : Buffer := .ofBytes (List.replicate (2 ^ 32 - 1) 0)

theorem length_longBuffer :
  longBuffer.bytes.length = 2 ^ 32 - 1
  := by
  rw [longBuffer, Buffer.bytes_ofBytes]
  · apply List.length_replicate
  · rw [List.length_replicate]
    decide

/-- The signature of a delegated signer over a longer structure is not verified. -/
theorem sign1_sign_verify_long_payload :
  CorrectScheme lmsPub ∧ lmsVerifier.Matches algHssLms ∧ lmsVerifier.alg = algUnset
    ∧ lmsSigner.HasPublic lmsPub algHssLms lmsVerifier
    ∧ (sign1SignEx (some lmsSigner) algHssLms (.null 0) (lmsSignArgs longPayload longBuffer) 0 ()).ret = .ok ()
    ∧ ∃ bytes outLen protectedHdr sig,
      (sign1SignEx (some lmsSigner) algHssLms (.null 0) (lmsSignArgs longPayload longBuffer) 0 ()).out = some bytes
      ∧ (sign1SignEx (some lmsSigner) algHssLms (.null 0) (lmsSignArgs longPayload longBuffer) 0 ()).outLen
        = some outLen
      ∧ SufficientScratch longBuffer ((lmsSignArgs longPayload longBuffer).structure1 protectedHdr) sig
      ∧ bytes.take outLen = sign1Fields 0 protectedHdr (.null 0) (lmsSignArgs longPayload longBuffer)
        ++ stringBytes .bstr sig
      ∧ (sign1Verify ⟨some lmsVerifier, some (.ofBytes (bytes.take outLen)), .null 0, .null 0, some longBuffer⟩
          ⟨some .zero, some none, some 0⟩).1 = .error (.err .invalidArg)
  := by
  have hlong : longPayload.length = 2 ^ 31 := List.length_replicate
  have hbuf := length_longBuffer
  have hret : (sign1SignEx (some lmsSigner) algHssLms (.null 0) (lmsSignArgs longPayload longBuffer) 0 ()).ret = _ :=
    sign1SignEx_lmsSigner (by omega) (by omega)
  refine ⟨correctScheme_lmsPub, matches_lmsVerifier, rfl, ?_, hret, ?_⟩
  · intro cb _
    apply callbackSigns_lmsSigner
  obtain ⟨_, scratch, out, bytes, outLen, protectedHdr, tbs, sig, hkey, hout, houtLen, hsigned⟩ :=
    sign1SignEx_ok hret
  obtain rfl := Option.some.inj hkey
  have htbs : tbs = (lmsSignArgs longPayload longBuffer).structure1 protectedHdr := hsigned.prepared.structure_eq
  have htbsLong : intMax < tbs.length := by
    have hpayload : (stringBytes .bstr longPayload).length = cborHeadSize longPayload.length + longPayload.length :=
      length_stringBytes _ _
    have hmax : intMax = 2 ^ 31 - 1 := rfl
    rw [htbs, SignArgs.structure1, length_sigStructure1]
    change _ < _ + (stringBytes .bstr longPayload).length
    omega
  obtain ⟨-, -, -, hscratchFit, houtFit⟩ := hsigned.prepared.lengths
  have hmessage := hsigned.message_eq
  have hle := hsigned.message_le
  have hroom := hsigned.prepared.room
  rw [lenFitsWord32, decide_eq_true_eq] at hscratchFit houtFit
  have hsigLe : sig.length ≤ (bytes.take outLen).length := by
    rw [hmessage, List.length_append, length_stringBytes]
    omega
  have hinput : (Buffer.ofBytes (bytes.take outLen)).bytes = bytes.take outLen := by
    apply Buffer.bytes_ofBytes
    have hmax : sizeMax = 2 ^ 64 - 1 := rfl
    omega
  have hfits (n : Nat) (h : n ≤ 0xFFFFFFFF) : lenFitsWord32 n = true := decide_eq_true h
  refine ⟨bytes, outLen, protectedHdr, sig, hout, houtLen, ⟨hfits _ (by omega), ?_, by omega⟩, hmessage, ?_⟩
  · rw [← htbs]
    omega
  have hverify : sign1VerifyMessage lmsVerifier (.ofBytes (bytes.take outLen)) (.null 0) (.null 0) longBuffer 0 = _ :=
    hsigned.verify (by decide) (.inl rfl) hinput (by omega)
  have hlms : sign1VerifyTbs lmsVerifier algHssLms tbs sig longBuffer.bytes.length = _ := verifyLms_lmsVerifier htbsLong
  rw [hlms] at hverify
  rw [sign1Verify_eq (hfits _ (by rw [hinput]; omega)) rfl rfl (hfits _ (by omega)), hverify]
  rfl

end Lms

end Instances

end WolfCose
