import WolfCose.EatPsa.Decoded
import WolfCose.Mac.Mac0

/-!
# Verifying PSA tokens

`wc_CoseEatPsaToken_Verify` and `wc_CoseEatPsaToken_VerifyByUeid`.  The envelope is parsed once to
find the algorithm, and for the routing claims that select a key, and again by the function that
verifies the message.  Both parses find the same payload, so the token that is returned is the
one that has been authenticated.
-/

namespace WolfCose

open Program Cbor Settings MacSettings EatPsaSettings

section

variable [Settings] [MacSettings] [EatPsaSettings]

/-! ### The envelope -/

/-- What `wolfCose_EatPsaGetEnvelope` finds in a token. -/
structure EatPsaEnvelope where
  tag : Nat
  payload : Bytes
  alg : Int
  deriving DecidableEq

/-- `wolfCose_EatPsaGetEnvelope` -/
def eatPsaGetEnvelope : Dec EatPsaEnvelope := do
  let tag ← decodeTagEx eatPsaDecodeFlags
  failIf (tag ≠ tagSign1 ∧ tag ≠ tagMac0) .coseBadTag
  let arrayCount ← decodeArrayStartEx eatPsaDecodeFlags
  failIf (arrayCount ≠ 4) .cborMalformed
  let protectedData ← decodeBstrEx eatPsaDecodeFlags
  let (hdr, hdrState) ←
    MonadExcept.ofExcept (decodeProtectedHdrEx (.mem protectedData) .zero eatPsaDecodeFlags)
  failIf (hdrState.labelBits &&& 0x00000001 = 0) .coseBadHdr
  let (hdr, _) ← decodeUnprotectedHdrEx hdr hdrState eatPsaDecodeFlags
  failIf (hdr.flags &&& hdrFlagX5chain ≠ 0) .unsupported
  let ctx ← get
  failIf (ctx.rest.head? = some cborNull) .detachedPayload
  let payload ← decodeBstrEx eatPsaDecodeFlags
  let _ ← decodeBstrEx eatPsaDecodeFlags
  decodeEnd
  return ⟨tag, payload, hdr.alg⟩

/-- `wolfCose_EatPsaSignAlg` -/
def eatPsaSignAlg (alg : Int) : Bool :=
  (haveEs256 && alg == algEs256) || (haveEs384 && alg == algEs384) || (haveEs512 && alg == algEs512)

/-- `wolfCose_EatPsaMacAlg` -/
def eatPsaMacAlg (alg : Int) : Bool :=
  (haveHmac256 && alg == algHmac256) || (haveHmac384 && alg == algHmac384) || (haveHmac512 && alg == algHmac512)

/-- `wolfCose_EatPsaCheckEnvelopeAlg` -/
def eatPsaCheckEnvelopeAlg (tag : Nat) (alg : Int) : Except Err Unit :=
  if tag = tagSign1 then
    if eatPsaSign1 = true then rejectIf (eatPsaSignAlg alg = false) .coseBadAlg else .error .unsupported
  else if tag = tagMac0 then
    if eatPsaMac0 = true then rejectIf (eatPsaMacAlg alg = false) .coseBadAlg else .error .unsupported
  else .error .coseBadTag

omit [Settings] [MacSettings] [EatPsaSettings] in
/-- The lengths that `wc_CoseEatPsaToken_Verify` takes for a nonce. -/
def nonceLengthValid (len : Nat) : Bool := len == 32 || len == 48 || len == 64

/-- `wolfCose_EatPsaCheckNonce` -/
def eatPsaCheckNonce (token : EatPsaToken) (expectedNonce : Pointer) : Except Err Unit := do
  rejectIf (expectedNonce.isNull = true ∨ nonceLengthValid expectedNonce.len = false) .invalidArg
  rejectIf (token.nonce.len ≠ expectedNonce.len ∨
    eatPsaConstantCompare token.nonce.bytes expectedNonce.bytes ≠ 0) .eatPsaNonce

/-! ### Verification -/

variable [WolfCrypt] [MacCrypt]

/-- The results of a verification function that has to succeed. -/
def verifiedOut (r : Checked Unit × VerifyOut) : Checked VerifyOut := do
  r.1
  return r.2

/-- The call of the verification function for the tag of a token. -/
def eatPsaVerifyMessage (key : Key) (input scratch : Buffer) (envelope : EatPsaEnvelope) : Checked VerifyOut :=
  let args : VerifyArgs := ⟨some key, some input, .null 0, .null 0, some scratch⟩
  let out : VerifyOut := ⟨some .zero, some (some envelope.payload), some envelope.payload.length⟩
  if envelope.tag = tagSign1 then
    if eatPsaSign1 = true then verifiedOut (sign1VerifyEx args out eatPsaDecodeFlags) else throw (.err .unsupported)
  else if envelope.tag = tagMac0 then
    if eatPsaMac0 = true then verifiedOut (mac0VerifyEx args out eatPsaDecodeFlags) else throw (.err .unsupported)
  else return out

/-- The steps of `wc_CoseEatPsaToken_Verify` after the checks of its arguments. -/
def eatPsaVerifyToken (key : Key) (input : Buffer) (expectedNonce : Pointer) (scratch : Buffer) :
    Checked EatPsaToken := do
  let envelope ← decodeBuffer eatPsaGetEnvelope input
  lift (eatPsaCheckEnvelopeAlg envelope.tag envelope.alg)
  let out ← eatPsaVerifyMessage key input scratch envelope
  failWhen ((out.hdr.getD .zero).flags &&& hdrFlagDetached ≠ 0) .detachedPayload
  let claims ← lift (eatPsaDecodeClaims (out.payload.join.map .ofBytes))
  let token := { claims with protection := if envelope.tag = tagSign1 then .sign1 else .mac0 }
  lift (eatPsaCheckNonce token expectedNonce)
  return token

/-- The last steps of a function that verifies a token: the token is stored, or cleared. -/
def eatPsaFinish {ε : Type} (token : Option EatPsaToken) (ret : Except ε EatPsaToken) :
    Except ε Unit × Option EatPsaToken :=
  match ret with
  | .ok verified => (.ok (), some verified)
  | .error e => (.error e, token.map fun _ => .zero)

/-- The arguments of the functions that verify a token, beside the key; `token` is what the caller
has stored where the token goes. -/
structure EatPsaVerifyArgs where
  input : Option Buffer
  expectedNonce : Pointer
  scratch : Option Buffer
  token : Option EatPsaToken

/-- `wc_CoseEatPsaToken_Verify` -/
def eatPsaTokenVerify (key : Option Key) (args : EatPsaVerifyArgs) : Checked Unit × Option EatPsaToken :=
  eatPsaFinish args.token <|
    match key, args.input, args.scratch, args.token with
    | some key, some input, some scratch, some _ => do
        failWhen (args.expectedNonce.isNull = true ∨ nonceLengthValid args.expectedNonce.len = false) .invalidArg
        eatPsaVerifyToken key input args.expectedNonce scratch
    | _, _, _, _ => throw (.err .invalidArg)

/-! ### Both parses agree -/

omit [Settings] [MacSettings] [EatPsaSettings] [WolfCrypt] [MacCrypt] in
theorem contains_of_bit {state : HdrState} (h : ¬ state.labelBits &&& 0x00000001 = 0) :
  state.contains hdrAlg = true
  := if_pos ⟨by decide, h⟩

omit [MacSettings] [EatPsaSettings] [WolfCrypt] [MacCrypt] in
/-- The steps of `wolfCose_EatPsaGetEnvelope` that both parses share. -/
theorem eatPsaGetEnvelope_runs {ctx ctx' : DecCtx} {envelope : EatPsaEnvelope}
    (h : Runs eatPsaGetEnvelope ctx envelope ctx') :
  ∃ c₁ c₂ c₃ c₄ c₅ prot r r', Runs (decodeTagEx eatPsaDecodeFlags) ctx envelope.tag c₁
    ∧ Runs (decodeArrayStartEx eatPsaDecodeFlags) c₁ 4 c₂ ∧ Runs (decodeBstrEx eatPsaDecodeFlags) c₂ prot c₃
    ∧ Runs (MonadExcept.ofExcept (decodeProtectedHdrEx (.mem prot) .zero eatPsaDecodeFlags) : Dec _) c₃ r c₃
    ∧ ¬ r.2.labelBits &&& 0x00000001 = 0 ∧ Runs (decodeUnprotectedHdrEx r.1 r.2 eatPsaDecodeFlags) c₃ r' c₄
    ∧ ¬ c₄.rest.head? = some cborNull ∧ Runs (decodeBstrEx eatPsaDecodeFlags) c₄ envelope.payload c₅
    ∧ envelope.alg = r'.1.alg
  := by
  unfold eatPsaGetEnvelope at h
  obtain ⟨tag, c₁, htag, h⟩ := (runs_bind _ _ _ _ _).mp h
  obtain ⟨_, _, hcheck, h⟩ := (runs_bind _ _ _ _ _).mp h
  obtain ⟨-, rfl⟩ := (runs_failIf _ _ _ _ _).mp hcheck
  obtain ⟨n, c₂, harray, h⟩ := (runs_bind _ _ _ _ _).mp h
  obtain ⟨_, _, hcheck, h⟩ := (runs_bind _ _ _ _ _).mp h
  obtain ⟨hcount, rfl⟩ := (runs_failIf _ _ _ _ _).mp hcheck
  rw [Decidable.not_not.mp hcount] at harray
  obtain ⟨prot, c₃, hprot, h⟩ := (runs_bind _ _ _ _ _).mp h
  obtain ⟨r, _, hr, h⟩ := (runs_bind _ _ _ _ _).mp h
  obtain ⟨hdec, rfl⟩ := (runs_ofExcept _ _ _ _).mp hr
  obtain ⟨_, _, hcheck, h⟩ := (runs_bind _ _ _ _ _).mp h
  obtain ⟨hbit, rfl⟩ := (runs_failIf _ _ _ _ _).mp hcheck
  obtain ⟨r', c₄, hunprot, h⟩ := (runs_bind _ _ _ _ _).mp h
  obtain ⟨_, _, hcheck, h⟩ := (runs_bind _ _ _ _ _).mp h
  obtain ⟨-, rfl⟩ := (runs_failIf _ _ _ _ _).mp hcheck
  obtain ⟨_, _, hget, h⟩ := (runs_bind _ _ _ _ _).mp h
  obtain ⟨rfl, rfl⟩ := (runs_get _ _ _).mp hget
  obtain ⟨_, _, hcheck, h⟩ := (runs_bind _ _ _ _ _).mp h
  obtain ⟨hattached, rfl⟩ := (runs_failIf _ _ _ _ _).mp hcheck
  obtain ⟨payload, c₅, hpayload, h⟩ := (runs_bind _ _ _ _ _).mp h
  obtain ⟨_, _, -, h⟩ := (runs_bind _ _ _ _ _).mp h
  obtain ⟨_, _, -, h⟩ := (runs_bind _ _ _ _ _).mp h
  obtain ⟨rfl, -⟩ := (runs_pure _ _ _ _).mp h
  exact ⟨c₁, c₂, c₃, c₄, c₅, prot, r, r', htag, harray, hprot, hr, hbit, hunprot, hattached, hpayload, rfl⟩

omit [MacSettings] [EatPsaSettings] [WolfCrypt] [MacCrypt] in
/-- What `wolfCose_EatPsaGetEnvelope` finds is what the verification function for the tag finds: the
payload is attached, and the algorithm is that of the header and is protected. -/
theorem eatPsaGetEnvelope_agrees {input : Buffer} {envelope : EatPsaEnvelope}
    (henv : decodeBuffer eatPsaGetEnvelope input = .ok envelope) {α : Type}
    {make : Headers → Hdr → Option Bytes → Bytes → α} {detached : Pointer} {a : α}
    (hmsg : decodeBuffer (decodeSingle envelope.tag make detached eatPsaDecodeFlags) input = .ok a) :
  ∃ headers data, a = make headers headers.hdr (some envelope.payload) data ∧ headers.hdr.alg = envelope.alg
    ∧ headers.algProtected = true
  := by
  obtain ⟨_, henv⟩ := decodeBuffer_eq_ok.mp henv
  obtain ⟨c₁, c₂, c₃, c₄, c₅, prot, r, r', htag, harray, hprot, hr, hbit, hunprot, hattached, hpayload, halg⟩ :=
    eatPsaGetEnvelope_runs henv
  rw [decodeBuffer_eq_ok] at hmsg
  have hpeek : (DecCtx.init input).peekType = some .tag := by
    obtain ⟨-, t, ht, hc, hm, -⟩ := (runs_decodeTagEx _ _ _ _).mp htag
    rw [← List.append_nil t.bytes] at hc
    rw [DecCtx.peekType_eq ht.wellFormed hc, hm]
  simp only [decodeSingle, decodeStart, decodeHeaders, decodePayload, runs_bind, runs_failIf, runs_get, runs_pure,
    runs_onlyIf, runs_ite, runs_set, ne_eq, Decidable.not_not] at hmsg
  obtain ⟨_, _, s₃, ⟨_, _, ⟨rfl, rfl⟩, _, s₁, htag', _, s₂, harray', -, rfl⟩, _, s₄,
    ⟨_, _, hprot', _, _, hr', _, _, hunprot', rfl, rfl⟩, _, s₅, ⟨_, _, ⟨rfl, rfl⟩, hpayload'⟩, data, _, -, _, _, -,
    rfl, -⟩ := hmsg
  rcases htag' with ⟨-, _, _, htag', -, rfl⟩ | ⟨hne, -⟩
  swap
  · exact absurd hpeek hne
  -- step by step, the verification function reads what has been read before
  obtain ⟨-, rfl⟩ := htag.unique htag'
  obtain ⟨-, rfl⟩ := harray.unique harray'
  obtain ⟨rfl, rfl⟩ := hprot.unique hprot'
  obtain ⟨rfl, rfl⟩ := hr.unique hr'
  obtain ⟨rfl, rfl⟩ := hunprot.unique hunprot'
  rcases hpayload' with ⟨hnull, -⟩ | ⟨-, _, _, hpayload', rfl, rfl⟩
  · exact absurd hnull hattached
  obtain ⟨rfl, -⟩ := hpayload.unique hpayload'
  exact ⟨_, data, rfl, halg.symm, contains_of_bit hbit⟩

/-! ### Selecting the key by the claims -/

/-- What a resolver of keys is handed. -/
structure ResolverCall where
  profile : EatPsaProfile
  ueid : Pointer
  alg : Int

/-- A resolver of keys fills in a key, or fails with an error of its own. -/
abbrev EatPsaKeyResolver (ε : Type) := ResolverCall → Key → Except ε Key

/-- The errors of a call that uses a resolver: those of the library, and those of the resolver. -/
abbrev Resolved (ε α : Type) := Except (Fault ⊕ ε) α

/-- A step of the library beside a resolver. -/
def ofLibrary {ε α : Type} (x : Checked α) : Resolved ε α := x.mapError .inl

/-- What a call that uses a resolver leaves behind: its return value, the token, and the calls of
the resolver. -/
structure ResolvedOut (ε : Type) where
  ret : Resolved ε Unit
  token : Option EatPsaToken
  calls : List ResolverCall

/-- The steps of `wc_CoseEatPsaToken_VerifyByUeid` before the resolver is called. -/
def eatPsaResolverCall {ε : Type} (resolver : Option (EatPsaKeyResolver ε)) (args : EatPsaVerifyArgs) :
    Checked (EatPsaKeyResolver ε × ResolverCall) :=
  match resolver, args.input, args.scratch, args.token with
  | some resolver, some input, some _, some _ => do
      failWhen (args.expectedNonce.isNull = true ∨ nonceLengthValid args.expectedNonce.len = false) .invalidArg
      let envelope ← decodeBuffer eatPsaGetEnvelope input
      lift (eatPsaCheckEnvelopeAlg envelope.tag envelope.alg)
      let untrusted ← lift (eatPsaDecodeClaims (some (.ofBytes envelope.payload)))
      return (resolver, ⟨untrusted.profile, untrusted.ueid, envelope.alg⟩)
  | _, _, _, _ => throw (.err .invalidArg)

/-- The last steps of `wc_CoseEatPsaToken_VerifyByUeid`. -/
def resolvedFinish {ε : Type} (token : Option EatPsaToken) (calls : List ResolverCall)
    (ret : Resolved ε EatPsaToken) : ResolvedOut ε :=
  ⟨(eatPsaFinish token ret).1, (eatPsaFinish token ret).2, calls⟩

/-- The call of `wc_CoseEatPsaToken_Verify` within `wc_CoseEatPsaToken_VerifyByUeid`, which fails on
an error and returns the token else. -/
def verifiedToken (r : Checked Unit × Option EatPsaToken) : Checked EatPsaToken := do
  r.1
  return r.2.getD .zero

/-- `wc_CoseEatPsaToken_VerifyByUeid` -/
def eatPsaTokenVerifyByUeid {ε : Type} (resolver : Option (EatPsaKeyResolver ε)) (args : EatPsaVerifyArgs) :
    ResolvedOut ε :=
  match eatPsaResolverCall resolver args with
  | .error fault => resolvedFinish args.token [] (.error (.inl fault))
  | .ok (resolver, call) =>
      resolvedFinish args.token [call] <| do
        let key ← (resolver call .zero).mapError .inr
        ofLibrary (verifiedToken (eatPsaTokenVerify (some key) { args with token := some .zero }))

/-! ### What is verified -/

omit [MacSettings] [EatPsaSettings] [WolfCrypt] [MacCrypt] in
/-- The input starts with a tag. -/
def TaggedWith (tag : Nat) (input : Bytes) : Prop :=
  ∃ t rest, input = t.bytes ++ rest ∧ Accepted eatPsaDecodeFlags t ∧ t.major = .tag ∧ t.val = tag

/-- A payload is authenticated by a COSE_Sign1 message: it is attached, the algorithm is protected
and one of those for this message, and the primitive of the key has accepted the signature over it. -/
structure AuthenticSign1 (key : Key) (input payload : Bytes) (alg : Int) (msg : Sign1Message) : Prop where
  tagged : TaggedWith tagSign1 input
  encoding : Sign1Encoding eatPsaDecodeFlags (.null 0) input msg
  attached : msg.payload = some payload
  alg_protected : ProtectedAlg eatPsaDecodeFlags msg.headers.protectedData alg
  alg_allowed : eatPsaSignAlg alg = true
  verified : key.Verified alg (sigStructure1 msg.headers.protectedData [] payload).bytes msg.sigData

/-- A payload is authenticated by a COSE_Mac0 message: it is attached, the algorithm is protected
and one of those for this message, and the tag is the MAC of it with the key. -/
structure AuthenticMac0 (key : Key) (input payload : Bytes) (alg : Int) (msg : Mac0Message) : Prop where
  tagged : TaggedWith tagMac0 input
  encoding : Mac0Encoding eatPsaDecodeFlags (.null 0) input msg
  attached : msg.payload = some payload
  alg_protected : ProtectedAlg eatPsaDecodeFlags msg.headers.protectedData alg
  alg_allowed : eatPsaMacAlg alg = true
  authentic : key.Authenticates .mac0 alg msg.headers.protectedData [] payload msg.tag

/-- A payload is authenticated, by a message of the kind that the token names. -/
def EatPsaAuthentic (key : Key) (input payload : Bytes) (alg : Int) : EatPsaProtection → Prop
  | .sign1 => ∃ msg, AuthenticSign1 key input payload alg msg
  | .mac0 => ∃ msg, AuthenticMac0 key input payload alg msg
  | .none => False

/-- A token is verified with a key: every field of it is decoded from an authenticated payload, and
its nonce is the expected one. -/
structure EatPsaVerified (key : Key) (input : Bytes) (expectedNonce : Pointer) (token : EatPsaToken)
    (payload : Buffer) (alg : Int) : Prop where
  authentic : EatPsaAuthentic key input payload.bytes alg token.protection
  decoded : ∃ claims, eatPsaDecodeClaims (some payload) = .ok claims
    ∧ token = { claims with protection := token.protection }
  nonce : token.nonce = expectedNonce

omit [MacSettings] [EatPsaSettings] [WolfCrypt] [MacCrypt] in
theorem eatPsaGetEnvelope_tagged {input : Buffer} {envelope : EatPsaEnvelope}
    (henv : decodeBuffer eatPsaGetEnvelope input = .ok envelope) :
  TaggedWith envelope.tag input.bytes
  := by
  obtain ⟨_, henv⟩ := decodeBuffer_eq_ok.mp henv
  obtain ⟨c₁, _, _, _, _, _, _, _, htag, -⟩ := eatPsaGetEnvelope_runs henv
  obtain ⟨-, t, ht, hc, hm, hv⟩ := (runs_decodeTagEx _ _ _ _).mp htag
  refine ⟨t, c₁.rest, ?_, ht, hm, hv⟩
  rw [← hc.rest_eq, DecCtx.rest_init]

omit [MacSettings] [WolfCrypt] [MacCrypt] in
/-- What a verification function that succeeds finds in a message for which the envelope has been
found. -/
theorem single_of_envelope {input : Buffer} {envelope : EatPsaEnvelope}
    (henv : decodeBuffer eatPsaGetEnvelope input = .ok envelope) {headers : Headers} {hdr : Hdr}
    {payload : Option Bytes} {data : Bytes}
    (hmsg : SingleEncoding eatPsaDecodeFlags envelope.tag (.null 0) input.bytes headers hdr payload data)
    (hset : envelope.alg ≠ 0) :
  payload = some envelope.payload ∧ hdr.alg = envelope.alg
    ∧ ProtectedAlg eatPsaDecodeFlags headers.protectedData envelope.alg ∧ envelope.payload.length ≤ sizeMax
  := by
  have hdecode := (@decodeSingle_eq_ok _ _ _ (fun headers hdr payload data => (headers, hdr, payload, data)) _
    decodeFlagsValid_eatPsa).mpr ⟨headers, hdr, payload, data, rfl, hmsg⟩
  obtain ⟨_, _, heq, halg, hprot⟩ := eatPsaGetEnvelope_agrees henv hdecode
  obtain ⟨rfl, rfl, rfl, rfl⟩ : _ ∧ _ ∧ _ ∧ _ := by simpa only [Prod.mk.injEq] using heq
  obtain ⟨start, hs, ps, sig, hinput, -, hheaders, hpayload, -⟩ := hmsg
  have hlen := input.length_le
  simp only [hinput, List.length_append] at hlen
  refine ⟨rfl, halg, ?_, ?_⟩
  · rw [← halg] at hset ⊢
    apply hheaders.protectedAlg _ hset hprot
    obtain ⟨prot, _, head, es, _, rfl, hbstr, -⟩ := hheaders
    have := hbstr.length_le
    rw [List.length_append] at hlen
    omega
  · rcases hpayload with ⟨-, -, heq⟩ | ⟨bs, hbs, heq⟩
    · cases congrArg Prod.snd heq
    · obtain rfl := Option.some.inj (congrArg Prod.snd heq)
      have := hbs.length_le
      omega

omit [Settings] [EatPsaSettings] [MacSettings] [WolfCrypt] [MacCrypt] in
theorem verifiedOut_eq_ok {r : Checked Unit × VerifyOut} {out : VerifyOut} :
  verifiedOut r = .ok out ↔ r = (.ok (), out)
  := by
  obtain ⟨ret, out'⟩ := r
  cases ret with
  | ok u => simp [verifiedOut]
  | error fault => simp [verifiedOut]

omit [MacSettings] [EatPsaSettings] [WolfCrypt] [MacCrypt] in
theorem alg_ne_zero_of_sign {alg : Int} (h : eatPsaSignAlg alg = true) :
  alg ≠ 0
  := by
  rintro rfl
  simp only [eatPsaSignAlg, Bool.or_eq_true, Bool.and_eq_true, beq_iff_eq] at h
  rcases h with (⟨-, h⟩ | ⟨-, h⟩) | ⟨-, h⟩ <;> cases h

omit [Settings] [EatPsaSettings] [WolfCrypt] [MacCrypt] in
theorem alg_ne_zero_of_mac {alg : Int} (h : eatPsaMacAlg alg = true) :
  alg ≠ 0
  := by
  rintro rfl
  simp only [eatPsaMacAlg, Bool.or_eq_true, Bool.and_eq_true, beq_iff_eq] at h
  rcases h with (⟨-, h⟩ | ⟨-, h⟩) | ⟨-, h⟩ <;> cases h

/-- The protection that a token with a tag has. -/
theorem eatPsaVerifyMessage_ok (hdoc : DocumentedHmac) {key : Key} {input scratch : Buffer}
    {envelope : EatPsaEnvelope} (henv : decodeBuffer eatPsaGetEnvelope input = .ok envelope)
    (halg : eatPsaCheckEnvelopeAlg envelope.tag envelope.alg = .ok ()) {out : VerifyOut}
    (h : eatPsaVerifyMessage key input scratch envelope = .ok out) :
  out.payload = some (some envelope.payload) ∧ envelope.payload.length ≤ sizeMax
    ∧ EatPsaAuthentic key input.bytes envelope.payload envelope.alg
      (if envelope.tag = tagSign1 then .sign1 else .mac0)
  := by
  have htagged := eatPsaGetEnvelope_tagged henv
  unfold eatPsaCheckEnvelopeAlg at halg
  unfold eatPsaVerifyMessage at h
  by_cases hsign : envelope.tag = tagSign1
  · rw [if_pos hsign] at h halg ⊢
    by_cases hon : eatPsaSign1 = true
    · rw [if_pos hon] at h halg
      rw [rejectIf_eq_ok, Bool.not_eq_false] at halg
      obtain ⟨_, _, hdr, payload, msg, ⟨⟩, ⟨⟩, rfl, hmsg⟩ := sign1VerifyEx_ok (verifiedOut_eq_ok.mp h)
      obtain ⟨rfl, rfl⟩ := hmsg.returned
      have hsingle := hmsg.encoding
      rw [hsign] at htagged
      obtain ⟨hpayload, halgEq, hprot, hlen⟩ := single_of_envelope henv (by rw [hsign]; exact hsingle)
        (alg_ne_zero_of_sign halg)
      have hver := hmsg.verified
      rw [hpayload, halgEq] at hver
      exact ⟨by rw [VerifyOut.verified, hpayload], hlen, msg, htagged, hsingle, hpayload, hprot, halg, hver⟩
    · rw [if_neg hon] at halg
      cases halg
  · rw [if_neg hsign] at h halg ⊢
    by_cases hmac : envelope.tag = tagMac0
    · rw [if_pos hmac] at h halg
      by_cases hon : eatPsaMac0 = true
      · rw [if_pos hon] at h halg
        rw [rejectIf_eq_ok, Bool.not_eq_false] at halg
        obtain ⟨_, _, hdr, payload, msg, ⟨⟩, ⟨⟩, rfl, hmsg⟩ := mac0VerifyEx_ok hdoc (verifiedOut_eq_ok.mp h)
        obtain ⟨rfl, rfl⟩ := hmsg.returned
        have hsingle := hmsg.encoding
        rw [hmac] at htagged
        obtain ⟨hpayload, halgEq, hprot, hlen⟩ := single_of_envelope henv (by rw [hmac]; exact hsingle)
          (alg_ne_zero_of_mac halg)
        have hver := hmsg.authentic
        rw [hpayload, halgEq] at hver
        exact ⟨by rw [VerifyOut.verified, hpayload], hlen, msg, htagged, hsingle, hpayload, hprot, halg, hver⟩
      · rw [if_neg hon] at halg
        cases halg
    · rw [if_neg hmac] at halg
      cases halg

omit [Settings] [MacSettings] [EatPsaSettings] [WolfCrypt] [MacCrypt] in
/-- The nonce of a token is the expected one. -/
theorem eatPsaCheckNonce_ok {token : EatPsaToken} {expectedNonce : Pointer} (hnonce : ∃ nonce, token.nonce = .mem nonce)
    (h : eatPsaCheckNonce token expectedNonce = .ok ()) :
  token.nonce = expectedNonce
  := by
  simp only [eatPsaCheckNonce, bind_eq_ok, rejectIf_eq_ok] at h
  obtain ⟨_, hexpected, hsame⟩ := h
  obtain ⟨nonce, hn⟩ := hnonce
  rw [hn] at hsame ⊢
  cases expectedNonce with
  | null n => exact absurd (.inl rfl) hexpected
  | mem bs =>
      rw [not_or, Decidable.not_not, Decidable.not_not] at hsame
      rw [(eatPsaConstantCompare_eq_zero hsame.1).mp hsame.2]

/-- The token of a call that succeeds is verified. -/
theorem eatPsaVerifyToken_ok (hdoc : DocumentedHmac) {key : Key} {input scratch : Buffer} {expectedNonce : Pointer}
    {token : EatPsaToken} (h : eatPsaVerifyToken key input expectedNonce scratch = .ok token) :
  ∃ envelope, decodeBuffer eatPsaGetEnvelope input = .ok envelope
    ∧ (Buffer.ofBytes envelope.payload).bytes = envelope.payload
    ∧ EatPsaVerified key input.bytes expectedNonce token (.ofBytes envelope.payload) envelope.alg
  := by
  simp only [eatPsaVerifyToken, bind_eq_ok, lift_eq_ok, failWhen_eq_ok, pure_eq_ok] at h
  obtain ⟨envelope, henv, _, halg, out, hout, _, -, claims, hclaims, _, hnonce, rfl⟩ := h
  obtain ⟨hpayload, hlen, hauth⟩ := eatPsaVerifyMessage_ok hdoc henv halg hout
  rw [hpayload] at hclaims
  have hbytes := Buffer.bytes_ofBytes hlen
  obtain ⟨_, es, -, -, -, hes, -⟩ := eatPsaDecodeClaims_eq_ok.mp hclaims
  refine ⟨envelope, henv, hbytes, ⟨?_, ⟨claims, hclaims, rfl⟩, eatPsaCheckNonce_ok hes.from.nonce hnonce⟩⟩
  rw [hbytes]
  exact hauth

omit [Settings] [MacSettings] [EatPsaSettings] [WolfCrypt] [MacCrypt] in
theorem eatPsaFinish_ok {ε : Type} {token token' : Option EatPsaToken} {ret : Except ε EatPsaToken}
    (h : eatPsaFinish token ret = (.ok (), token')) :
  ∃ verified, ret = .ok verified ∧ token' = some verified
  := by
  cases ret with
  | ok verified => exact ⟨verified, rfl, (Prod.mk.inj h).2.symm⟩
  | error e => cases h

omit [Settings] [MacSettings] [EatPsaSettings] [WolfCrypt] [MacCrypt] in
/-- A call that fails leaves a token of zeros. -/
theorem eatPsaFinish_error {ε : Type} {token token' : Option EatPsaToken} {ret : Except ε EatPsaToken} {e : ε}
    (h : eatPsaFinish token ret = (.error e, token')) :
  token' = token.map fun _ => .zero
  := by
  cases ret with
  | ok verified => cases h
  | error e => exact (Prod.mk.inj h).2.symm

/-- The message of a call of `wc_CoseEatPsaToken_Verify` that succeeds is verified. -/
theorem eatPsaTokenVerify_ok (hdoc : DocumentedHmac) {key : Option Key} {args : EatPsaVerifyArgs}
    {token' : Option EatPsaToken} (h : eatPsaTokenVerify key args = (.ok (), token')) :
  ∃ key' input envelope token, key = some key' ∧ args.input = some input ∧ token' = some token
    ∧ decodeBuffer eatPsaGetEnvelope input = .ok envelope
    ∧ (Buffer.ofBytes envelope.payload).bytes = envelope.payload
    ∧ EatPsaVerified key' input.bytes args.expectedNonce token (.ofBytes envelope.payload) envelope.alg
  := by
  obtain ⟨token, hret, rfl⟩ := eatPsaFinish_ok h
  split at hret
  · simp only [bind_eq_ok, failWhen_eq_ok] at hret
    obtain ⟨_, -, hret⟩ := hret
    obtain ⟨envelope, henv, hbytes, hver⟩ := eatPsaVerifyToken_ok hdoc hret
    exact ⟨_, _, envelope, token, rfl, by assumption, rfl, henv, hbytes, hver⟩
  · cases hret

omit [Settings] [MacSettings] [EatPsaSettings] [WolfCrypt] [MacCrypt] in
theorem resolvedFinish_ok {ε : Type} {token : Option EatPsaToken} {calls : List ResolverCall}
    {ret : Resolved ε EatPsaToken} (h : (resolvedFinish token calls ret).ret = .ok ()) :
  ∃ verified, ret = .ok verified ∧ resolvedFinish token calls ret = ⟨.ok (), some verified, calls⟩
  := by
  cases ret with
  | ok verified => exact ⟨verified, rfl, rfl⟩
  | error e => cases h

omit [Settings] [MacSettings] [EatPsaSettings] [WolfCrypt] [MacCrypt] in
theorem resolvedFinish_error {ε : Type} {token : Option EatPsaToken} {calls : List ResolverCall}
    {ret : Resolved ε EatPsaToken} {e : Fault ⊕ ε} (h : (resolvedFinish token calls ret).ret = .error e) :
  (resolvedFinish token calls ret).token = token.map fun _ => .zero
  := by
  cases ret with
  | ok verified => cases h
  | error e => rfl

omit [Settings] [MacSettings] [EatPsaSettings] [WolfCrypt] [MacCrypt] in
theorem verifiedToken_eq_ok {r : Checked Unit × Option EatPsaToken} {token : EatPsaToken} :
  verifiedToken r = .ok token ↔ r.1 = .ok () ∧ r.2.getD .zero = token
  := by
  obtain ⟨ret, token'⟩ := r
  cases ret with
  | ok u => simp [verifiedToken]
  | error fault => simp [verifiedToken]

/-- The resolver has been called once, with what the returned token says. -/
theorem eatPsaTokenVerifyByUeid_ok (hdoc : DocumentedHmac) {ε : Type} {resolver : Option (EatPsaKeyResolver ε)}
    {args : EatPsaVerifyArgs} (h : (eatPsaTokenVerifyByUeid resolver args).ret = .ok ()) :
  ∃ resolver' key' input token payload alg, resolver = some resolver' ∧ args.input = some input
    ∧ (eatPsaTokenVerifyByUeid resolver args).token = some token
    ∧ EatPsaVerified key' input.bytes args.expectedNonce token payload alg
    ∧ (eatPsaTokenVerifyByUeid resolver args).calls = [⟨token.profile, token.ueid, alg⟩]
    ∧ resolver' ⟨token.profile, token.ueid, alg⟩ .zero = .ok key'
  := by
  cases hcall : eatPsaResolverCall resolver args with
  | error fault =>
      simp only [eatPsaTokenVerifyByUeid, hcall] at h
      cases h
  | ok r =>
      obtain ⟨resolver', call⟩ := r
      simp only [eatPsaTokenVerifyByUeid, hcall] at h ⊢
      obtain ⟨token, hret, hout⟩ := resolvedFinish_ok h
      rw [hout]
      simp only [bind_eq_ok, ofLibrary, mapError_eq_ok, verifiedToken_eq_ok] at hret
      obtain ⟨key, hresolved, hverify, htoken⟩ := hret
      obtain ⟨_, input, envelope, token', ⟨⟩, hinput, htoken', henv, hbytes, hver⟩ :=
        eatPsaTokenVerify_ok hdoc (Prod.ext hverify rfl)
      obtain rfl : token' = token := (congrArg (fun token => token.getD .zero) htoken').symm.trans htoken
      -- the claims that the resolver has seen are those of the token
      unfold eatPsaResolverCall at hcall
      split at hcall
      · rename_i hinput' _ _
        obtain rfl := Option.some.inj (hinput.symm.trans hinput')
        simp only [bind_eq_ok, failWhen_eq_ok, lift_eq_ok, pure_eq_ok, Prod.mk.injEq] at hcall
        obtain ⟨_, -, envelope', henv', _, -, untrusted, hclaims', rfl, rfl⟩ := hcall
        obtain rfl := Except.ok.inj (henv.symm.trans henv')
        obtain ⟨claims, hclaims, htokenEq⟩ := hver.decoded
        obtain rfl := Except.ok.inj (hclaims.symm.trans hclaims')
        have hprofile : token'.profile = claims.profile := by rw [htokenEq]
        have hueid : token'.ueid = claims.ueid := by rw [htokenEq]
        rw [← hprofile, ← hueid] at hresolved ⊢
        exact ⟨_, key, _, token', _, _, rfl, hinput, rfl, hver, rfl, hresolved⟩
      · cases hcall

/-- A token that `wc_CoseEatPsaToken_Verify` or `wc_CoseEatPsaToken_VerifyByUeid` returns is the one
that is authenticated, with the key that the resolver has found for the claims of this very token
and for the algorithm of the message.  A call that fails leaves a token of zeros. -/
theorem eatPsa_verify_authentic (hdoc : DocumentedHmac) {ε : Type} (key : Option Key)
    (resolver : Option (EatPsaKeyResolver ε)) (args : EatPsaVerifyArgs) :
  (∀ token', eatPsaTokenVerify key args = (.ok (), token') →
    ∃ key' input token payload alg, key = some key' ∧ args.input = some input ∧ token' = some token
      ∧ EatPsaVerified key' input.bytes args.expectedNonce token payload alg)
  ∧ ((eatPsaTokenVerifyByUeid resolver args).ret = .ok () →
    ∃ resolver' key' input token payload alg, resolver = some resolver' ∧ args.input = some input
      ∧ (eatPsaTokenVerifyByUeid resolver args).token = some token
      ∧ EatPsaVerified key' input.bytes args.expectedNonce token payload alg
      ∧ (eatPsaTokenVerifyByUeid resolver args).calls = [⟨token.profile, token.ueid, alg⟩]
      ∧ resolver' ⟨token.profile, token.ueid, alg⟩ .zero = .ok key')
  ∧ (∀ fault token', eatPsaTokenVerify key args = (.error fault, token') →
    token' = args.token.map fun _ => .zero)
  ∧ (∀ e, (eatPsaTokenVerifyByUeid resolver args).ret = .error e →
    (eatPsaTokenVerifyByUeid resolver args).token = args.token.map fun _ => .zero)
  := by
  refine ⟨?_, ?_, ?_, ?_⟩
  · intro token' h
    obtain ⟨key', input, envelope, token, hkey, hinput, htoken, -, -, hver⟩ := eatPsaTokenVerify_ok hdoc h
    exact ⟨key', input, token, _, _, hkey, hinput, htoken, hver⟩
  · exact eatPsaTokenVerifyByUeid_ok hdoc
  · intro fault token' h
    exact eatPsaFinish_error h
  · intro e h
    unfold eatPsaTokenVerifyByUeid at h ⊢
    split at h <;> apply resolvedFinish_error h

end

section Instances

/-- Two software components, one of them with a measurement type. -/
def sampleComponents : Bytes :=
  [0x82, 0xA2, 0x02, 0x58, 0x20] ++ List.replicate 32 0x55 ++ [0x05, 0x58, 0x20] ++ List.replicate 32 0x66
    ++ [0xA3, 0x01, 0x62, 0x42, 0x4C, 0x02, 0x58, 0x20] ++ List.replicate 32 0x77
    ++ [0x05, 0x58, 0x20] ++ List.replicate 32 0x66

/-- Claims of the current profile. -/
def sampleTokenPayload : Bytes :=
  [0xA7, 0x0A, 0x58, 0x20] ++ List.replicate 32 0x11 ++ [0x19, 0x01, 0x00, 0x58, 0x21, 0x01]
    ++ List.replicate 32 0x22 ++ [0x19, 0x01, 0x09, 0x78, 0x21] ++ eatPsaTfmProfile
    ++ [0x19, 0x09, 0x5A, 0x20, 0x19, 0x09, 0x5B, 0x19, 0x30, 0x00, 0x19, 0x09, 0x5C, 0x58, 0x20]
    ++ List.replicate 32 0x33 ++ [0x19, 0x09, 0x5F] ++ sampleComponents

/-- The HMAC of the MAC_structure of these claims. -/
def sampleTokenMac : Bytes :=
  [0xEF, 0xDC, 0xA1, 0xEE, 0x68, 0xB4, 0x2C, 0xB3, 0x0E, 0x4A, 0x69, 0xB1, 0x08, 0xF6, 0x45, 0xD9, 0x08, 0x3C,
    0xBF, 0xBE, 0x5B, 0xD9, 0x53, 0xFF, 0xBA, 0x97, 0x1A, 0x9D, 0x26, 0x74, 0x0E, 0x02]

/-- The HMAC with the key of the token. -/
def sampleTokenTable : List ((HashType × Bytes × Bytes) × Bytes) :=
  [((.sha256, hmac256Key, [0x84, 0x64] ++ ctxMac0 ++ [0x43, 0xA1, 0x01, 0x05, 0x40, 0x59, 0x01, 0x35]
      ++ sampleTokenPayload), sampleTokenMac)]

/-- The primitives as far as this HMAC goes. -/
@[reducible]
def sampleTokenCrypt : MacCrypt := hmacTableCrypt sampleTokenTable

attribute [local instance] defaultSettings defaultMacSettings defaultEatPsaSettings failingCrypt sampleTokenCrypt

theorem documentedHmac_sampleTokenCrypt :
  DocumentedHmac
  := by
  apply documentedHmac_hmacTableCrypt
  decide

/-- A token protected by a MAC. -/
def sampleTokenArgs : EatPsaVerifyArgs where
  input := some (.ofBytes ([0xD1, 0x84, 0x43, 0xA1, 0x01, 0x05, 0xA0, 0x59, 0x01, 0x35] ++ sampleTokenPayload
    ++ [0x58, 0x20] ++ sampleTokenMac))
  expectedNonce := .mem (List.replicate 32 0x11)
  scratch := some (.ofBytes (List.replicate 512 0))
  token := some .zero

/-- A resolver that knows one instance. -/
def sampleResolver : EatPsaKeyResolver Unit := fun call _ =>
  if call.ueid = .mem (0x01 :: List.replicate 32 0x22) then .ok hmacKey else .error ()

theorem sampleToken_verifies :
  eatPsaTokenVerify (some hmacKey) sampleTokenArgs = (.ok (), (eatPsaTokenVerify (some hmacKey) sampleTokenArgs).2)
  := by
  have h : (eatPsaTokenVerify (some hmacKey) sampleTokenArgs).1 = .ok () := by decide +kernel
  rw [← h]

theorem eatPsa_verify_authentic_instance :
  ∃ token payload alg, eatPsaTokenVerify (some hmacKey) sampleTokenArgs = (.ok (), some token)
    ∧ (∃ input, EatPsaVerified hmacKey input sampleTokenArgs.expectedNonce token payload alg)
    ∧ (eatPsaTokenVerifyByUeid (some sampleResolver) sampleTokenArgs).calls.length = 1
  := by
  obtain ⟨hverify, hresolve, -, -⟩ := eatPsa_verify_authentic documentedHmac_sampleTokenCrypt (some hmacKey)
    (some sampleResolver) sampleTokenArgs
  obtain ⟨_, input, token, payload, alg, ⟨⟩, -, htoken, hver⟩ := hverify _ sampleToken_verifies
  obtain ⟨_, _, _, _, _, _, -, -, -, -, hcalls, -⟩ := hresolve (by decide +kernel)
  refine ⟨token, payload, alg, ?_, ⟨_, hver⟩, ?_⟩
  · rw [← htoken]
    exact sampleToken_verifies
  · rw [hcalls]
    rfl

end Instances

end WolfCose
