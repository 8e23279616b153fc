import WolfCose.Mac.Mac0
import WolfCose.Recipient

/-!
# COSE_Mac

`wc_CoseMac_Create` and `wc_CoseMac_Verify` of `wolfcose_mac.c`, which share the key of the
message with every recipient.  A message that is created is accepted at the index of every
recipient, and a message that is accepted starts with the fields whose MAC is its fourth one.
-/

namespace WolfCose

open Program Cbor Settings

section

variable [Settings] [MacSettings] [WolfCrypt] [MacCrypt]

/-! ### Creating a message -/

/-- The checks of the MAC functions that a key is there and symmetric. -/
def symmetricKey : Option Key → Checked Key
  | some key => do
      failWhen (key.kty ≠ ktySymmetric) .coseKeyType
      return key
  | none => throw (.err .coseKeyType)

/-- The steps of `wc_CoseMac_Create` that encode a recipient. -/
def encodeDirectRecipient (kid : Pointer) : Enc Unit := do
  encodeArrayStart 3
  encodeBstr (.null 0)
  encodeMapStart (if hasKid kid then 2 else 1)
  encodeInt hdrAlg
  encodeInt algDirect
  onlyIf (hasKid kid) do
    encodeInt hdrKid
    encodeBstr kid
  encodeBstr (.null 0)

/-- The steps of `wc_CoseMac_Create` that encode the message. -/
def encodeMac (protectedHdr : Bytes) (recipients : List Recipient) (args : MacArgs) (tag : Bytes) : Enc Unit := do
  encodeTag tagMac
  encodeArrayStart 5
  encodeBstr (.mem protectedHdr)
  encodeMapStart 0
  encodePayload args.sign
  encodeBstr (.mem tag)
  encodeArrayStart recipients.length
  recipients.forM fun recipient => encodeDirectRecipient recipient.kid

/-- The steps of `wc_CoseMac_Create` after the checks for null pointers. -/
def macCreateMessage (first : Recipient) (recipients : List Recipient) (alg : Int) (args : MacArgs)
    (scratch out : Buffer) : Checked EncCtx := do
  failWhen (¬ args.sign.lengthsFit scratch out) .invalidArg
  recipients.forM fun recipient => failWhen (¬ kidConsistent recipient.kid) .invalidArg
  failWhen (args.payload.isNull = true ∧ args.detached.isNull = true) .invalidArg
  failWhen (args.payload.isNull = false ∧ args.detached.isNull = false) .invalidArg
  let key ← symmetricKey first.key
  recipients.forM fun recipient =>
    failWhen (recipient.key.any (fun key => key.alg ≠ algUnset ∧ key.alg ≠ alg) = true) .coseBadAlg
  recipients.forM fun recipient => failWhen (recipient.algId ≠ algDirect) .coseBadAlg
  let (protectedHdr, tag) ← createMac .mac key alg args.extAad args.sign.sigPayload scratch
  encodeAt (encodeMac protectedHdr recipients args tag) (.init out)

/-- `wc_CoseMac_Create` -/
def macCreate (recipients : List Recipient) (alg : Int) (args : MacArgs) : CreateOut :=
  macFinish args <|
    match recipients.head?, args.scratch, args.out, args.outLen with
    | some first, some scratch, some out, some _ => macCreateMessage first recipients alg args scratch out
    | _, _, _, _ => throw (.err .invalidArg)

/-! ### Verifying a message -/

/-- The steps of `wc_CoseMac_Verify` that decode the payload. -/
def decodeMacPayload (detached : Pointer) (hdr : Hdr) : Dec (Hdr × Option Bytes) := do
  let ctx ← get
  let item ← decodeHead
  if ctx.rest.head? = some cborNull then do
    failIf (detached.isNull = true) .detachedPayload
    return ({ hdr with flags := hdr.flags ||| hdrFlagDetached }, none)
  else do
    failIf (item.majorType ≠ .bstr) .cborType
    return (hdr, some item.data)

/-- The steps of `wc_CoseMac_Verify` that decode the encrypted key of the selected recipient,
which may be null unless the recipient is direct. -/
def decodeRecipientValue (alg : Int) : Dec (Option Bytes) := do
  let ctx ← get
  let item ← decodeHead
  failIf (alg = algDirect ∧ (item.majorType ≠ .bstr ∨ item.data.length ≠ 0)) .coseBadHdr
  if alg ≠ algDirect ∧ ctx.rest.head? = some cborNull then return none
  else do
    failIf (item.majorType ≠ .bstr) .cborType
    return some item.data

/-- The steps of `wc_CoseMac_Verify` that decode the selected recipient: the result is its
algorithm, its encrypted key, and the mode that it has in common with those before it. -/
def decodeSelectedRecipient (mode : Option RecipientMode) : Dec (Int × Option Bytes × Option RecipientMode) := do
  let recipArrCount ← decodeArrayStart
  failIf (recipArrCount ≠ 3) .cborMalformed
  let recip ← decodeHeaders 0
  let alg := recip.hdr.alg
  let mode ← MonadExcept.ofExcept (updateRecipientMode alg mode)
  failIf (alg = algDirect ∧ recip.protectedData.length ≠ 0) .coseBadHdr
  let value ← decodeRecipientValue alg
  return (alg, value, mode)

/-- What `wc_CoseMac_Verify` finds in a message. -/
structure MacMessage where
  headers : Headers
  hdr : Hdr
  payload : Option Bytes
  tag : Bytes
  recipientAlg : Int
  recipientValue : Option Bytes

/-- The steps of `wc_CoseMac_Verify` that decode the recipients. -/
def decodeRecipients (recipientIndex : Nat) : Dec (Int × Option Bytes) := do
  let recipientsCount ← decodeArrayStart
  failIf (recipientIndex ≥ recipientsCount) .invalidArg
  let mode ← decodeSkippedRecipients recipientIndex none
  let (alg, value, mode) ← decodeSelectedRecipient mode
  let _ ← decodeSkippedRecipients (recipientsCount - (recipientIndex + 1)) mode
  return (alg, value)

/-- The steps of `wc_CoseMac_Verify` that decode the message. -/
def decodeMac (detached : Pointer) (recipientIndex : Nat) : Dec MacMessage := do
  decodeStart tagMac 5 0
  let headers ← decodeHeaders 0
  let (hdr, payload) ← decodeMacPayload detached headers.hdr
  let tag ← decodeBstr
  let (recipientAlg, recipientValue) ← decodeRecipients recipientIndex
  decodeEnd
  return ⟨headers, hdr, payload, tag, recipientAlg, recipientValue⟩

/-- The arguments of `wc_CoseMac_Verify` that it reads. -/
structure MacVerifyArgs where
  recipient : Option Recipient
  recipientIndex : Nat
  input : Option Buffer
  detached : Pointer
  extAad : Pointer
  scratch : Option Buffer

/-- The steps of `wc_CoseMac_Verify` after the checks of its arguments; the result is the header
and the payload in the message. -/
def macVerifyMessage (recipient : Recipient) (recipientIndex : Nat) (input : Buffer) (detached extAad : Pointer)
    (scratch : Buffer) : Checked (Hdr × Option Bytes) := do
  let msg ← decodeBuffer (decodeMac detached recipientIndex) input
  let alg := msg.headers.hdr.alg
  let key ← symmetricKey recipient.key
  failWhen (key.alg = algUnset ∧ msg.headers.algProtected = false) .coseBadAlg
  failWhen (key.alg ≠ algUnset ∧ key.alg ≠ alg) .coseBadAlg
  failWhen (msg.recipientAlg ≠ algDirect) .unsupported
  failWhen ((msg.recipientValue.getD []).length ≠ 0) .cborMalformed
  failWhen (recipient.algId ≠ algUnset ∧ recipient.algId ≠ msg.recipientAlg) .coseBadAlg
  verifyMac .mac key alg msg.headers.protectedData extAad (verifyPayload detached msg.payload) msg.tag scratch
  return (msg.hdr, msg.payload)

/-- `wc_CoseMac_Verify` -/
def macVerify (args : MacVerifyArgs) (out : VerifyOut) : Checked Unit × VerifyOut :=
  out.finish <|
    match args.recipient, args.input, args.scratch, out.hdr, out.payload, out.payloadLen with
    | some recipient, some input, some scratch, some _, some _, some _ => do
        failWhen (input.bytes.length = 0) .invalidArg
        failWhen (lenFitsWord32 input.bytes.length = false ∨ lenFitsWord32 args.detached.len = false ∨
          lenFitsWord32 args.extAad.len = false ∨ lenFitsWord32 scratch.bytes.length = false) .invalidArg
        macVerifyMessage recipient args.recipientIndex input args.detached args.extAad scratch
    | _, _, _, _, _, _ => throw (.err .invalidArg)

/-! ### What is created -/

/-- The bytes of a message before the recipients. -/
def macFields (protectedHdr : Bytes) (args : MacArgs) (tag : Bytes) : Bytes :=
  preferredHead .tag tagMac ++ preferredHead .array 5 ++
    (stringBytes .bstr protectedHdr ++ (kidBytes (.null 0) ++
      (payloadBytes args.sign ++ stringBytes .bstr tag)))

/-- The bytes of the recipients of a message. -/
def recipientsBytes (kids : List Pointer) : Bytes :=
  preferredHead .array kids.length ++ kids.flatMap directRecipientBytes

omit [MacSettings] [WolfCrypt] [MacCrypt] in
theorem emits_encodeDirectRecipient (kid : Pointer) :
  Emits (encodeDirectRecipient kid) (directRecipientBytes kid)
  := by
  have hempty : Emits (encodeBstr (.null 0)) (stringBytes .bstr []) :=
    (emitsIf_encodeBstr _).emits fun _ => rfl
  have hint (v : Int) : Emits (encodeInt v) (intToken v).bytes := by
    rw [← intHead_eq]
    apply emits_encodeInt
  have hbucket : directBucket kid = preferredHead .map (if hasKid kid then 2 else 1) ++
      ((intToken hdrAlg).bytes ++ ((intToken algDirect).bytes ++
        if hasKid kid then (intToken hdrKid).bytes ++ stringBytes .bstr kid.bytes else [])) := by
    rcases directEntries_cases kid with ⟨hkid, he, -⟩ | ⟨hkid, he, -⟩
    · rw [directBucket, mapBytes, Token.bytes_ofHead, he, entriesBytes_cons, entriesBytes_cons, entriesBytes_nil,
        List.append_nil, if_pos hkid, if_pos hkid]
      rfl
    · rw [directBucket, mapBytes, Token.bytes_ofHead, he, entriesBytes_cons, entriesBytes_nil, if_neg hkid,
        if_neg hkid]
      rfl
  rw [directRecipientBytes, hbucket]
  simp only [List.append_assoc]
  apply Emits.bind (emits_encodeHead _ _)
  apply Emits.bind hempty
  apply Emits.bind (emits_encodeHead _ _)
  apply Emits.bind (hint _)
  apply Emits.bind (hint _)
  apply Emits.bind _ hempty
  apply Emits.onlyIf
  intro hkid
  apply Emits.bind (hint _)
  apply emits_encodeBstr hkid.1

omit [MacSettings] [MacCrypt] in
theorem emits_encodeMac {protectedHdr : Bytes} {recipients : List Recipient} {args : MacArgs} {tag : Bytes}
    (h : args.sign.sigPayload.isNull = false) :
  Emits (encodeMac protectedHdr recipients args tag)
    (macFields protectedHdr args tag ++ recipientsBytes (recipients.map (·.kid)))
  := by
  have hkid : kidBytes (.null 0) = preferredHead .map 0 := rfl
  rw [macFields, recipientsBytes, hkid, List.length_map, List.flatMap_map]
  simp only [List.append_assoc]
  apply Emits.bind (emits_encodeHead _ _)
  apply Emits.bind (emits_encodeHead _ _)
  apply Emits.bind (emits_encodeBstr_mem _)
  apply Emits.bind (emits_encodeHead _ _)
  apply Emits.bind (emits_encodePayload h)
  apply Emits.bind (emits_encodeBstr_mem _)
  apply Emits.bind (emits_encodeHead _ _)
  have hrecipient (recipient : Recipient) := emits_encodeDirectRecipient recipient.kid
  exact Emits.forM hrecipient recipients

/-! ### What is decoded -/

omit [MacSettings] [WolfCrypt] [MacCrypt] in
/-- A byte string at the cursor is read as an item, and does not start like null. -/
theorem BstrValue.runs_decodeHead {bs data : Bytes} (h : BstrValue 0 bs data) {ctx ctx' : DecCtx}
    (hc : ctx.Consumes bs ctx') :
  ctx.rest.head? ≠ some cborNull
    ∧ ∃ item, Runs decodeHead ctx item ctx' ∧ item.majorType = .bstr ∧ item.data = data
  := by
  refine ⟨?_, ?_⟩
  · rw [hc.rest_eq]
    apply h.head?_ne_null
  · obtain ⟨t, ht, ⟨hm, hd⟩, rfl⟩ := h
    refine ⟨tokenItem t, ?_, hm, hd⟩
    rw [decodeHead, runs_decodeHeadEx]
    exact ⟨decodeFlagsValid_zero, t, ht, hc, rfl⟩

omit [MacSettings] [WolfCrypt] [MacCrypt] in
/-- Null at the cursor is read as an item. -/
theorem runs_decodeHead_null {ctx ctx' : DecCtx} (hc : ctx.Consumes [cborNull] ctx') :
  ctx.rest.head? = some cborNull ∧ ∃ item, Runs decodeHead ctx item ctx'
  := by
  refine ⟨?_, tokenItem ⟨.imm, .simple, 22, []⟩, ?_⟩
  · rw [hc.rest_eq]
    rfl
  · rw [decodeHead, runs_decodeHeadEx]
    exact ⟨decodeFlagsValid_zero, _, accepted_null, hc, rfl⟩

omit [MacSettings] [WolfCrypt] [MacCrypt] in
/-- The payload is read as in the other messages, although the steps are others. -/
theorem reads_decodeMacPayload (detached : Pointer) (hdr : Hdr) :
  Reads (decodeMacPayload detached hdr) (PayloadValue 0 detached hdr)
  := by
  intro ctx r ctx'
  simp only [decodeMacPayload, runs_bind, runs_get, runs_ite, runs_failIf, runs_pure, Bool.not_eq_true,
    ne_eq, Decidable.not_not]
  constructor
  · rintro ⟨_, _, ⟨rfl, rfl⟩, item, c₁, hitem, ⟨hnull, _, _, ⟨hd, rfl⟩, rfl, rfl⟩ |
      ⟨-, _, _, ⟨hm, rfl⟩, rfl, rfl⟩⟩
    · refine ⟨_, .inl ⟨rfl, hd, rfl⟩, ?_⟩
      have hadv := consumes_null hnull
      obtain ⟨-, _, hrun⟩ := runs_decodeHead_null hadv
      obtain ⟨-, rfl⟩ := hitem.unique hrun
      exact hadv
    · rw [decodeHead, runs_decodeHeadEx] at hitem
      obtain ⟨-, t, ht, hc, rfl⟩ := hitem
      exact ⟨_, .inr ⟨_, ⟨t, ht, ⟨hm, rfl⟩, rfl⟩, rfl⟩, hc⟩
  · rintro ⟨bs, ⟨rfl, hd, rfl⟩ | ⟨payload, hbs, rfl⟩, hc⟩
    · obtain ⟨hnull, item, hitem⟩ := runs_decodeHead_null hc
      exact ⟨ctx, ctx, ⟨rfl, rfl⟩, item, ctx', hitem, .inl ⟨hnull, (), ctx', ⟨hd, rfl⟩, rfl, rfl⟩⟩
    · obtain ⟨hnull, item, hitem, hm, rfl⟩ := hbs.runs_decodeHead hc
      exact ⟨ctx, ctx, ⟨rfl, rfl⟩, item, ctx', hitem, .inr ⟨hnull, (), ctx', ⟨hm, rfl⟩, rfl, rfl⟩⟩

omit [MacSettings] [WolfCrypt] [MacCrypt] in
/-- A direct recipient is read when it is selected. -/
theorem runs_decodeSelectedRecipient_direct {kid : Pointer} (hlen : hasKid kid → kid.bytes.length < 2 ^ 64)
    {mode : Option RecipientMode} (hmode : mode = none ∨ mode = some .directEncryption) {ctx ctx' : DecCtx}
    (h : ctx.Consumes (directRecipientBytes kid) ctx') :
  Runs (decodeSelectedRecipient mode) ctx (algDirect, some [], some .directEncryption) ctx'
  := by
  have hempty : BstrValue 0 (stringBytes .bstr []) [] := bstrValue_stringBytes (by decide)
  rw [directRecipientBytes, ← List.append_assoc (stringBytes _ _)] at h
  obtain ⟨c₁, h₁, h⟩ := h.split
  obtain ⟨c₂, h₂, h₃⟩ := h.split
  have hheaders := headersValue_direct hlen
  have hroom : 3 ≤ c₁.rest.length := by
    have l₂ := hheaders.two_le_length
    have l₃ := List.length_pos_iff.mpr hempty.ne_nil
    rw [h.length_rest_eq, List.length_append]
    omega
  obtain ⟨hnull, item, hitem, hm, hd⟩ := hempty.runs_decodeHead h₃
  simp only [decodeSelectedRecipient, decodeArrayStart, runs_bind, runs_decodeArrayStartEx, runs_failIf, runs_pure,
    runs_ofExcept, reads_decodeHeaders decodeFlagsValid_zero _ _ _]
  refine ⟨3, c₁, ⟨decodeFlagsValid_zero, .ofHead .array 3, accepted_ofHead rfl (by decide) (by decide), ?_, rfl,
    rfl, hroom⟩, (), c₁, ⟨by decide, rfl⟩, _, c₂, ⟨_, hheaders, h₂⟩, some .directEncryption, c₂,
    ⟨updateRecipientMode_direct hmode, rfl⟩, (), c₂, ⟨?_, rfl⟩, some [], ctx', ?_, rfl, rfl⟩
  · rwa [Token.bytes_ofHead]
  · rintro ⟨-, hne⟩
    apply hne
    rfl
  · simp only [decodeRecipientValue, runs_bind, runs_get, runs_failIf]
    refine ⟨c₂, c₂, ⟨rfl, rfl⟩, item, ctx', hitem, (), ctx', ⟨?_, rfl⟩, ?_⟩
    · rintro ⟨-, hne | hne⟩
      · exact hne hm
      · rw [hd] at hne
        exact hne rfl
    · rw [if_neg (by rintro ⟨hne, -⟩; exact hne rfl)]
      simp only [runs_bind, runs_failIf, runs_pure, hd]
      exact ⟨(), ctx', ⟨fun hne => hne hm, rfl⟩, trivial, rfl⟩

omit [MacSettings] [WolfCrypt] [MacCrypt] in
/-- Direct recipients are read at every index. -/
theorem runs_decodeRecipients_direct {kids : List Pointer}
    (hlen : ∀ kid ∈ kids, hasKid kid → kid.bytes.length < 2 ^ 64) (hcount : kids.length < 2 ^ 64)
    {recipientIndex : Nat} (hindex : recipientIndex < kids.length) {ctx ctx' : DecCtx}
    (h : ctx.Consumes (recipientsBytes kids) ctx') :
  Runs (decodeRecipients recipientIndex) ctx (algDirect, some []) ctx'
  := by
  obtain ⟨before, kid, after, rfl, rfl⟩ : ∃ before kid after, kids = before ++ kid :: after
      ∧ before.length = recipientIndex :=
    ⟨kids.take recipientIndex, kids[recipientIndex], kids.drop (recipientIndex + 1), by simp,
      by rw [List.length_take]; omega⟩
  have hbefore := fun k hk => hlen k (List.mem_append_left _ hk)
  have hkid := hlen kid (by simp)
  have hafter := fun k hk => hlen k (List.mem_append_right _ (List.mem_cons_of_mem _ hk))
  have hcons : (before ++ kid :: after).length = before.length + (after.length + 1) := by simp
  have hroom : (before ++ kid :: after).length
      ≤ ((before ++ kid :: after).flatMap directRecipientBytes).length := by
    have hne : ∀ bs ∈ (before ++ kid :: after).map directRecipientBytes, bs ≠ [] := by
      intro bs hbs
      obtain ⟨k, -, rfl⟩ := List.mem_map.mp hbs
      apply List.append_ne_nil_of_left_ne_nil (preferredHead_ne_nil _ _)
    have hle := Bytes.length_le_flatten hne
    rwa [List.length_map] at hle
  rw [recipientsBytes] at h
  obtain ⟨c₁, h₁, h⟩ := h.split
  have hrest := h.length_rest_eq
  rw [List.flatMap_append, List.flatMap_cons] at h
  obtain ⟨c₂, h₂, h⟩ := h.split
  obtain ⟨c₃, h₃, h₄⟩ := h.split
  obtain ⟨mode, hrun₂, hmode⟩ := runs_decodeSkippedRecipients_direct hbefore (.inl rfl) h₂
  obtain ⟨mode', hrun₄, -⟩ := runs_decodeSkippedRecipients_direct hafter (.inr rfl) h₄
  simp only [decodeRecipients, decodeArrayStart, runs_bind, runs_decodeArrayStartEx, runs_failIf, runs_pure]
  refine ⟨(before ++ kid :: after).length, c₁, ⟨decodeFlagsValid_zero,
    .ofHead .array (before ++ kid :: after).length, accepted_ofHead rfl (by decide) hcount, ?_, rfl, rfl, ?_⟩,
    (), c₁, ⟨by omega, rfl⟩, mode, c₂, hrun₂, (algDirect, some [], some .directEncryption), c₃,
    runs_decodeSelectedRecipient_direct hkid hmode h₃, mode', ctx', ?_, rfl, rfl⟩
  · rwa [Token.bytes_ofHead]
  · rw [hrest]
    exact Nat.le_trans hroom (Nat.le_add_right _ _)
  · have hsub : (before ++ kid :: after).length - (before.length + 1) = after.length := by omega
    rw [hsub]
    exact hrun₄

/-- The bytes of a message before its recipients, and what they say. -/
def MacEncoding (detached : Pointer) (input : Bytes) (msg : MacMessage) : Prop :=
  ∃ start headers payload tag recipients, input = start ++ (headers ++ (payload ++ (tag ++ recipients)))
    ∧ StartValue 0 tagMac 5 start ∧ HeadersValue 0 headers msg.headers
    ∧ PayloadValue 0 detached msg.headers.hdr payload (msg.hdr, msg.payload)
    ∧ BstrValue 0 tag msg.tag

omit [MacSettings] [WolfCrypt] [MacCrypt] in
/-- A message that is decoded starts with its fields. -/
theorem decodeMac_encoding {detached : Pointer} {recipientIndex : Nat} {input : Buffer} {msg : MacMessage}
    (h : decodeBuffer (decodeMac detached recipientIndex) input = .ok msg) :
  MacEncoding detached input.bytes msg
  := by
  have hf := decodeFlagsValid_zero
  simp only [decodeBuffer_eq_ok, decodeMac, decodeBstr, runs_bind, runs_pure, runs_decodeStart hf,
    reads_decodeHeaders hf _ _ _, reads_decodeMacPayload _ _ _ _ _, reads_decodeBstrEx hf _ _ _] at h
  obtain ⟨_, _, c₁, ⟨start, hstart, h₁, -⟩, headers, c₂, ⟨bs₂, hheaders, h₂⟩, ⟨hdr, payload⟩, c₃,
    ⟨bs₃, hpayload, h₃⟩, tag, c₄, ⟨bs₄, htag, h₄⟩, _, _, -, _, _, -, rfl, -⟩ := h
  have hc := (h₁.trans (h₂.trans (h₃.trans h₄))).rest_eq
  refine ⟨start, bs₂, bs₃, bs₄, c₄.rest, ?_, hstart, hheaders, hpayload, htag⟩
  rw [DecCtx.rest_init] at hc
  simpa only [List.append_assoc] using hc

/-- What a successful verification of a message establishes. -/
structure MacVerified (recipient : Recipient) (key : Key) (input : Bytes) (detached extAad : Pointer)
    (hdr : Hdr) (payload : Option Bytes) (msg : MacMessage) : Prop where
  encoding : MacEncoding detached input msg
  returned : hdr = msg.hdr ∧ payload = msg.payload
  key_eq : recipient.key = some key
  symmetric : key.kty = ktySymmetric
  pinned : key.alg ≠ algUnset → key.alg = hdr.alg
  protected_of_unset : key.alg = algUnset → msg.headers.algProtected = true
  authentic : key.Authenticates .mac hdr.alg msg.headers.protectedData extAad.bytes
    (verifyPayload detached msg.payload).bytes msg.tag

omit [Settings] [MacSettings] [MacCrypt] in
theorem symmetricKey_eq_ok {key? : Option Key} {key : Key} :
  symmetricKey key? = .ok key ↔ key? = some key ∧ key.kty = ktySymmetric
  := by
  cases key? with
  | none => simp [symmetricKey]
  | some key' =>
      simp only [symmetricKey, bind_eq_ok, failWhen_eq_ok, pure_eq_ok, Option.some.injEq, ne_eq,
        Decidable.not_not]
      constructor
      · rintro ⟨_, hkty, rfl⟩
        exact ⟨rfl, hkty⟩
      · rintro ⟨rfl, hkty⟩
        exact ⟨(), hkty, rfl⟩

theorem macVerifyMessage_ok (hdoc : DocumentedHmac) {recipient : Recipient} {recipientIndex : Nat}
    {input scratch : Buffer} {detached extAad : Pointer} {hdr : Hdr} {payload : Option Bytes}
    (h : macVerifyMessage recipient recipientIndex input detached extAad scratch = .ok (hdr, payload)) :
  ∃ key msg, MacVerified recipient key input.bytes detached extAad hdr payload msg
  := by
  simp only [macVerifyMessage, bind_eq_ok, failWhen_eq_ok, pure_eq_ok, symmetricKey_eq_ok] at h
  obtain ⟨msg, hdec, key, ⟨hkey, hkty⟩, _, hprot, _, hpin, _, -, _, -, _, -, _, hver, he⟩ := h
  cases he
  have henc := decodeMac_encoding hdec
  obtain ⟨_, _, _, _, _, -, -, -, hpayload, -⟩ := henc
  have halg : msg.hdr.alg = msg.headers.hdr.alg := hpayload.alg
  refine ⟨key, msg, decodeMac_encoding hdec, ⟨rfl, rfl⟩, hkey, hkty, ?_, ?_, ?_⟩
  · intro hset
    rw [halg]
    by_contra hne
    apply hpin
    exact ⟨hset, hne⟩
  · intro hunset
    by_contra hne
    apply hprot
    exact ⟨hunset, by simpa using hne⟩
  · rw [halg]
    exact verifyMac_eq_ok hdoc hver

/-- The message of a call that succeeds is verified. -/
theorem macVerify_ok (hdoc : DocumentedHmac) {args : MacVerifyArgs} {out out' : VerifyOut}
    (h : macVerify args out = (.ok (), out')) :
  ∃ recipient key input hdr payload msg, args.recipient = some recipient ∧ args.input = some input
    ∧ out' = .verified hdr payload
    ∧ MacVerified recipient key input.bytes args.detached args.extAad hdr payload msg
  := by
  obtain ⟨hdr, payload, hret, rfl⟩ := VerifyOut.finish_ok h
  split at hret
  · simp only [bind_eq_ok, failWhen_eq_ok] at hret
    obtain ⟨_, -, _, -, hret⟩ := hret
    obtain ⟨key, msg, hmsg⟩ := macVerifyMessage_ok hdoc hret
    exact ⟨_, key, _, hdr, payload, msg, by assumption, by assumption, rfl, hmsg⟩
  · cases hret

/-! ### A message that is created is verified -/

/-- A message that is created consists of the fields and the recipients. -/
theorem macCreate_ok {recipients : List Recipient} {alg : Int} {args : MacArgs}
    (h : (macCreate recipients alg args).ret = .ok ()) :
  ∃ first key bytes outLen protectedHdr tag, recipients.head? = some first ∧ first.key = some key
    ∧ MacPrepared .mac key alg args protectedHdr tag
    ∧ (macCreate recipients alg args).out = some bytes ∧ (macCreate recipients alg args).outLen = some outLen
    ∧ bytes.take outLen = macFields protectedHdr args tag ++ recipientsBytes (recipients.map (·.kid))
    ∧ (bytes.take outLen).length ≤ 0xFFFFFFFF
  := by
  obtain ⟨ctx, hret, hfin⟩ := macFinish_ok h
  have hfin' : macCreate recipients alg args = ⟨.ok (), some ctx.buf.bytes, some ctx.idx⟩ := hfin
  rw [hfin']
  split at hret
  · rename_i first scratch out _ hfirst hscratch hout _
    simp only [macCreateMessage, bind_eq_ok, failWhen_eq_ok, forM_eq_ok, symmetricKey_eq_ok] at hret
    obtain ⟨_, hlen, _, -, _, hpayload, _, -, key, ⟨hkey, hkty⟩, _, hpins, _, -, ⟨protectedHdr, tag⟩, hcreate,
      henc⟩ := hret
    have hsig := sigPayload_isNull hpayload
    obtain ⟨hmessage, hle⟩ := encodeAt_init (emits_encodeMac hsig) henc
    have hlen := Decidable.not_not.mp hlen
    refine ⟨first, key, _, _, protectedHdr, tag, hfirst, hkey, ⟨hkty, ?_, hsig, scratch, out, hscratch, hout,
      hlen, hcreate⟩, rfl, rfl, hmessage, ?_⟩
    · have hpin := hpins first (List.mem_of_mem_head? hfirst)
      rw [hkey, Option.any_some, decide_eq_true_eq] at hpin
      exact Decidable.or_iff_not_imp_left.mpr fun hset => Decidable.not_not.mp fun hne => hpin ⟨hset, hne⟩
    · have hfits : out.bytes.length ≤ 0xFFFFFFFF := by simpa [lenFitsWord32] using hlen.2.2.2.2
      rw [hmessage]
      omega
  · cases hret

omit [Settings] [MacSettings] [WolfCrypt] [MacCrypt] in
/-- The kids and the number of the recipients fit the message. -/
theorem recipientsBytes_lengths {kids : List Pointer} (h : (recipientsBytes kids).length < 2 ^ 64) :
  (∀ kid ∈ kids, hasKid kid → kid.bytes.length < 2 ^ 64) ∧ kids.length < 2 ^ 64
  := by
  have hmem {kid : Pointer} (hkid : kid ∈ kids) : directRecipientBytes kid ≠ [] :=
    List.append_ne_nil_of_left_ne_nil (preferredHead_ne_nil _ _) _
  rw [recipientsBytes, List.length_append] at h
  constructor
  · intro kid hkid hhas
    have hle := length_le_length_flatMap (f := directRecipientBytes) hkid
    rcases directEntries_cases kid with ⟨-, he, -⟩ | ⟨hn, -, -⟩
    · rw [directRecipientBytes, directBucket, mapBytes, he, entriesBytes_cons, entriesBytes_cons,
        entriesBytes_nil] at hle
      simp only [List.length_append, bstrEntry, Entry.bytes, length_stringBytes] at hle
      omega
    · exact absurd hhas hn
  · have hne : ∀ bs ∈ kids.map directRecipientBytes, bs ≠ [] := by
      intro bs hbs
      obtain ⟨k, hk, rfl⟩ := List.mem_map.mp hbs
      exact hmem hk
    have hle := Bytes.length_le_flatten hne
    rw [List.length_map] at hle
    have hflat : ((kids.map directRecipientBytes).flatten).length = (kids.flatMap directRecipientBytes).length := rfl
    omega

omit [MacSettings] [MacCrypt] in
/-- A message is decoded at every index to what was put into it. -/
theorem decodeMac_created {alg : Int} {args : MacArgs} {protectedHdr tag : Bytes} {kids : List Pointer}
    {input : Buffer} (halg : inInt32Range alg = true) (hprot : algProtectedHdr alg = .ok protectedHdr)
    (hinput : input.bytes = macFields protectedHdr args tag ++ recipientsBytes kids)
    {recipientIndex : Nat} (hindex : recipientIndex < kids.length) :
  decodeBuffer (decodeMac args.detached recipientIndex) input
    = .ok ⟨⟨protectedHdr, { Hdr.zero with alg }, true⟩, signedHdr alg (.null 0) args.sign, args.sign.attached, tag,
        algDirect, some []⟩
  := by
  have hf := decodeFlagsValid_zero
  have hmax := sizeMax_lt
  have hlen := input.length_le
  rw [hinput] at hlen
  have hstart := @startValue_tag _ tagMac 5 True _ (by decide) (by decide)
  rw [if_pos trivial] at hstart
  have hheaders := @headersValue_kid _ _ _ (.null 0) halg hprot (by rintro ⟨h, -⟩; cases h)
  simp only [macFields, List.length_append, length_stringBytes] at hlen
  obtain ⟨hkids, hcount⟩ := @recipientsBytes_lengths kids (by omega)
  have hpayload := @payloadValue_payloadBytes _ _ args.sign { Hdr.zero with alg } rfl (by omega)
  have htag : BstrValue 0 (stringBytes .bstr tag) tag := bstrValue_stringBytes (by omega)
  have hc : (DecCtx.init input).Consumes input.bytes ((DecCtx.init input).advance input.bytes.length) := by
    apply DecCtx.consumes_of_rest (r := [])
    rw [DecCtx.rest_init, List.append_nil]
  have hend : ((DecCtx.init input).advance input.bytes.length).idx
      = ((DecCtx.init input).advance input.bytes.length).bufSz := Nat.zero_add _
  generalize (DecCtx.init input).advance input.bytes.length = last at hc hend
  rw [hinput, macFields] at hc
  simp only [List.append_assoc] at hc
  rw [← List.append_assoc, ← List.append_assoc (stringBytes _ protectedHdr)] at hc
  obtain ⟨c₁, h₁, hc⟩ := hc.split
  have hroom : 5 ≤ c₁.rest.length := by
    have l₂ := hheaders.two_le_length
    have l₃ := List.length_pos_iff.mpr hpayload.ne_nil
    have l₄ := List.length_pos_iff.mpr htag.ne_nil
    have l₅ := List.length_pos_iff.mpr (preferredHead_ne_nil .array kids.length)
    rw [hc.length_rest_eq]
    simp only [List.length_append, recipientsBytes] at l₂ ⊢
    omega
  obtain ⟨c₂, h₂, hc⟩ := hc.split
  obtain ⟨c₃, h₃, hc⟩ := hc.split
  obtain ⟨c₄, h₄, h₅⟩ := hc.split
  simp only [decodeBuffer_eq_ok, decodeMac, decodeBstr, runs_bind, runs_pure, runs_decodeStart hf,
    reads_decodeHeaders hf _ _ _, reads_decodeMacPayload _ _ _ _ _, reads_decodeBstrEx hf _ _ _, runs_decodeEnd]
  exact ⟨last, (), c₁, ⟨_, hstart, h₁, hroom⟩, _, c₂, ⟨_, hheaders, h₂⟩, _, c₃, ⟨_, hpayload, h₃⟩, tag, c₄,
    ⟨_, htag, h₄⟩, (algDirect, some []), last, runs_decodeRecipients_direct hkids hcount hindex h₅, (), last,
    ⟨hend, rfl⟩, rfl, rfl⟩

/-- A message that is created is verified at the index of every recipient with the key of the
message, and the verification returns its payload. -/
theorem macVerify_created (hdoc : DocumentedHmac) {key : Key} {alg : Int} {args : MacArgs}
    {protectedHdr tag : Bytes} (h : MacPrepared .mac key alg args protectedHdr tag) {kids : List Pointer}
    {input scratch : Buffer} (hinput : input.bytes = macFields protectedHdr args tag ++ recipientsBytes kids)
    (hfits : input.bytes.length ≤ 0xFFFFFFFF) (hscratch : MacScratch scratch .mac protectedHdr args)
    {recipient : Recipient} (hkey : recipient.key = some key)
    (hpolicy : recipient.algId = algUnset ∨ recipient.algId = algDirect) {recipientIndex : Nat}
    (hindex : recipientIndex < kids.length) {hdr : Hdr} {payload : Option Bytes} {payloadLen : Nat} :
  macVerify ⟨some recipient, recipientIndex, some input, args.detached, args.extAad, some scratch⟩
      ⟨some hdr, some payload, some payloadLen⟩
    = (.ok (), .verified (signedHdr alg (.null 0) args.sign) args.sign.attached)
  := by
  obtain ⟨scratch', out, -, -, hlengths, hcreate⟩ := h.lengths
  obtain ⟨halg, hprot⟩ := createMac_encoded hcreate
  have hdec := decodeMac_created halg hprot hinput hindex
  have hmessage : macVerifyMessage recipient recipientIndex input args.detached args.extAad scratch
      = .ok (signedHdr alg (.null 0) args.sign, args.sign.attached) := by
    simp only [macVerifyMessage, bind_eq_ok, failWhen_eq_ok, pure_eq_ok, symmetricKey_eq_ok]
    refine ⟨_, hdec, key, ⟨hkey, h.symmetric⟩, (), ?_, (), ?_, (), fun hne => hne rfl, (), fun hne => hne rfl,
      (), ?_, (), h.verify hdoc hscratch.room, rfl⟩
    · rintro ⟨-, ⟨⟩⟩
    · rintro ⟨hset, hne⟩
      rcases h.pinned with hpin | hpin
      · exact hset hpin
      · exact hne hpin
    · rintro ⟨hset, hne⟩
      rcases hpolicy with hp | hp
      · exact hset hp
      · exact hne hp
  have hne : ¬ input.bytes.length = 0 := by
    have hpos := List.length_pos_iff.mpr (preferredHead_ne_nil .tag tagMac)
    rw [hinput]
    simp only [macFields, List.length_append]
    omega
  have hinputFits : lenFitsWord32 input.bytes.length = true := by simpa [lenFitsWord32] using hfits
  have hdetached : lenFitsWord32 args.detached.len = true := hlengths.2.1
  have hextAad : lenFitsWord32 args.extAad.len = true := hlengths.2.2.1
  simp only [macVerify, failWhen, rejectIf, if_neg hne, hinputFits, hdetached, hextAad, hscratch.fits, hmessage]
  rfl

/-! ### Creation and verification -/

/-- Every COSE_Mac0 message that is created is verified with its key, and the verification returns
the payload in the message. -/
def Mac0RoundTrip : Prop :=
  ∀ (key : Option Key) (alg : Int) (kid : Pointer) (args : MacArgs), (mac0Create key alg kid args).ret = .ok () →
    ∃ bytes outLen protectedHdr, (mac0Create key alg kid args).out = some bytes
      ∧ (mac0Create key alg kid args).outLen = some outLen ∧ algProtectedHdr alg = .ok protectedHdr
      ∧ ∀ (input scratch : Buffer) (hdr : Hdr) (payload : Option Bytes) (payloadLen : Nat),
        input.bytes = bytes.take outLen → MacScratch scratch .mac0 protectedHdr args →
        mac0Verify ⟨key, some input, args.detached, args.extAad, some scratch⟩
            ⟨some hdr, some payload, some payloadLen⟩
          = (.ok (), .verified (signedHdr alg kid args.sign) args.sign.attached)

/-- Every COSE_Mac message that is created for recipients with one key is verified with it at the
index of each of them, and the verification returns the payload in the message. -/
def MacRoundTrip : Prop :=
  ∀ (recipients : List Recipient) (alg : Int) (args : MacArgs), (macCreate recipients alg args).ret = .ok () →
    ∃ bytes outLen protectedHdr, (macCreate recipients alg args).out = some bytes
      ∧ (macCreate recipients alg args).outLen = some outLen ∧ algProtectedHdr alg = .ok protectedHdr
      ∧ ∀ key : Option Key, (∀ recipient ∈ recipients, recipient.key = key) →
        ∀ (recipient : Recipient) (recipientIndex : Nat) (input scratch : Buffer) (hdr : Hdr)
          (payload : Option Bytes) (payloadLen : Nat),
        recipient.key = key → recipient.algId = algUnset ∨ recipient.algId = algDirect →
        recipientIndex < recipients.length →
        input.bytes = bytes.take outLen → MacScratch scratch .mac protectedHdr args →
        macVerify ⟨some recipient, recipientIndex, some input, args.detached, args.extAad, some scratch⟩
            ⟨some hdr, some payload, some payloadLen⟩
          = (.ok (), .verified (signedHdr alg (.null 0) args.sign) args.sign.attached)

/-- The tag of every COSE_Mac0 message that is verified is the MAC of what is returned. -/
def Mac0Binds : Prop :=
  ∀ (args : VerifyArgs) (out out' : VerifyOut) (flags : UInt32),
    mac0VerifyEx args out flags = (.ok (), out') →
    ∃ key input hdr payload msg, args.key = some key ∧ args.input = some input
      ∧ out' = .verified hdr payload ∧ Mac0Encoding flags args.detached input.bytes msg
      ∧ hdr = msg.hdr ∧ payload = msg.payload
      ∧ key.Authenticates .mac0 hdr.alg msg.headers.protectedData args.extAad.bytes
        (verifyPayload args.detached payload).bytes msg.tag

/-- The tag of every COSE_Mac message that is verified is the MAC of what is returned. -/
def MacBinds : Prop :=
  ∀ (args : MacVerifyArgs) (out out' : VerifyOut),
    macVerify args out = (.ok (), out') →
    ∃ recipient key input hdr payload msg, args.recipient = some recipient ∧ recipient.key = some key
      ∧ args.input = some input ∧ out' = .verified hdr payload ∧ MacEncoding args.detached input.bytes msg
      ∧ hdr = msg.hdr ∧ payload = msg.payload
      ∧ key.Authenticates .mac hdr.alg msg.headers.protectedData args.extAad.bytes
        (verifyPayload args.detached payload).bytes msg.tag

/-- The functions that create and verify messages with a MAC agree, and the verification binds the
tag to the content of the message. -/
theorem mac_create_verify (hdoc : DocumentedHmac) :
  Mac0RoundTrip ∧ MacRoundTrip ∧ Mac0Binds ∧ MacBinds
  := by
  refine ⟨?_, ?_, ?_, ?_⟩
  · intro key alg kid args h
    obtain ⟨key', bytes, outLen, protectedHdr, tag, rfl, hprepared, hout, houtLen, hmessage, hle⟩ := mac0Create_ok h
    obtain ⟨_, _, -, -, -, hcreate⟩ := hprepared.lengths
    refine ⟨bytes, outLen, protectedHdr, hout, houtLen, (createMac_encoded hcreate).2, ?_⟩
    intro input scratch hdr payload payloadLen hinput hscratch
    rw [← hinput] at hmessage hle
    exact mac0Verify_created hdoc hprepared hmessage hle hscratch
  · intro recipients alg args h
    obtain ⟨first, key', bytes, outLen, protectedHdr, tag, hfirst, hkey', hprepared, hout, houtLen, hmessage, hle⟩ :=
      macCreate_ok h
    obtain ⟨_, _, -, -, -, hcreate⟩ := hprepared.lengths
    refine ⟨bytes, outLen, protectedHdr, hout, houtLen, (createMac_encoded hcreate).2, ?_⟩
    intro key hkeys recipient recipientIndex input scratch hdr payload payloadLen hkey hpolicy hindex hinput hscratch
    rw [← hinput] at hmessage hle
    have hfirstKey := hkeys first (List.mem_of_mem_head? hfirst)
    rw [hkey', ← hkey] at hfirstKey
    rw [← List.length_map (f := fun r : Recipient => r.kid)] at hindex
    exact macVerify_created hdoc hprepared hmessage hle hscratch hfirstKey.symm hpolicy hindex
  · intro args out out' flags h
    obtain ⟨key, input, hdr, payload, msg, hkey, hinput, hout, hmsg⟩ := mac0VerifyEx_ok hdoc h
    refine ⟨key, input, hdr, payload, msg, hkey, hinput, hout, hmsg.encoding, hmsg.returned.1, hmsg.returned.2, ?_⟩
    rw [hmsg.returned.2]
    exact hmsg.authentic
  · intro args out out' h
    obtain ⟨recipient, key, input, hdr, payload, msg, hrecipient, hinput, hout, hmsg⟩ := macVerify_ok hdoc h
    refine ⟨recipient, key, input, hdr, payload, msg, hrecipient, hmsg.key_eq, hinput, hout, hmsg.encoding,
      hmsg.returned.1, hmsg.returned.2, ?_⟩
    rw [hmsg.returned.2]
    exact hmsg.authentic

end

section Instances

/-- The HMACs with this key of both MAC_structures of a payload of three bytes. -/
def hmac256Table : List ((HashType × Bytes × Bytes) × Bytes) :=
  [((.sha256, hmac256Key, [0x84, 0x64] ++ ctxMac0 ++ [0x43, 0xA1, 0x01, 0x05, 0x40, 0x43, 0x01, 0x02, 0x03]),
      [0xED, 0x34, 0x5E, 0x09, 0x10, 0xD5, 0x35, 0xD2, 0x96, 0x3D, 0x07, 0x45, 0x8F, 0xCA, 0xF4, 0xBC, 0x8E, 0x67,
        0x2C, 0xCB, 0x4A, 0x8B, 0xFC, 0x62, 0x5C, 0x36, 0xC8, 0x27, 0x44, 0xB6, 0xA9, 0x05]),
    ((.sha256, hmac256Key, [0x84, 0x63] ++ ctxMac ++ [0x43, 0xA1, 0x01, 0x05, 0x40, 0x43, 0x01, 0x02, 0x03]),
      [0x21, 0x17, 0xD7, 0xAA, 0xD3, 0xEE, 0x67, 0x1E, 0x2A, 0x47, 0x46, 0xFD, 0xC7, 0x93, 0x43, 0x51, 0xA9, 0x7D,
        0xA3, 0xC2, 0x78, 0x87, 0xC6, 0xF8, 0x1C, 0xA1, 0xD9, 0x55, 0xCA, 0x54, 0x62, 0x5A])]

attribute [local instance] defaultSettings defaultMacSettings failingCrypt

/-- The primitives as far as these HMACs go. -/
@[reducible]
def hmac256Crypt : MacCrypt := hmacTableCrypt hmac256Table

attribute [local instance] hmac256Crypt

theorem documentedHmac_hmac256Crypt :
  DocumentedHmac
  := by
  apply documentedHmac_hmacTableCrypt
  decide

/-- The arguments for a payload of three bytes. -/
def hmacArgs : MacArgs where
  payload := .mem [0x01, 0x02, 0x03]
  detached := .null 0
  extAad := .null 0
  scratch := some (.ofBytes (List.replicate 64 0))
  out := some (.ofBytes (List.replicate 128 0))
  outLen := some 0

/-- Two recipients, one of them with a kid. -/
def hmacRecipients : List Recipient :=
  [⟨algDirect, some hmacKey, .mem [0x31]⟩, ⟨algDirect, some hmacKey, .null 0⟩]

theorem mac_create_verify_instance :
  ∃ bytes outLen bytes' outLen',
    mac0Create (some hmacKey) algHmac256 (.mem [0x31]) hmacArgs = ⟨.ok (), some bytes, some outLen⟩
    ∧ mac0Verify ⟨some hmacKey, some (.ofBytes (bytes.take outLen)), .null 0, .null 0, hmacArgs.scratch⟩
        ⟨some .zero, some none, some 0⟩
      = (.ok (), .verified (signedHdr algHmac256 (.mem [0x31]) hmacArgs.sign) (some [0x01, 0x02, 0x03]))
    ∧ macCreate hmacRecipients algHmac256 hmacArgs = ⟨.ok (), some bytes', some outLen'⟩
    ∧ macVerify ⟨some ⟨algUnset, some hmacKey, .null 0⟩, 1, some (.ofBytes (bytes'.take outLen')), .null 0, .null 0,
        hmacArgs.scratch⟩ ⟨some .zero, some none, some 0⟩
      = (.ok (), .verified (signedHdr algHmac256 (.null 0) hmacArgs.sign) (some [0x01, 0x02, 0x03]))
  := by
  obtain ⟨hmac0, hmac, -, -⟩ := mac_create_verify documentedHmac_hmac256Crypt
  have hret : (mac0Create (some hmacKey) algHmac256 (.mem [0x31]) hmacArgs).ret = .ok () := by decide +kernel
  have hret' : (macCreate hmacRecipients algHmac256 hmacArgs).ret = .ok () := by decide +kernel
  obtain ⟨bytes, outLen, prot, hout, houtLen, hprot, hverify⟩ := hmac0 _ _ _ _ hret
  obtain ⟨bytes', outLen', prot', hout', houtLen', hprot', hverify'⟩ := hmac _ _ _ hret'
  have hlen : bytes.length ≤ sizeMax := by
    have h : ((mac0Create (some hmacKey) algHmac256 (.mem [0x31]) hmacArgs).out.getD []).length = 128 := by decide +kernel
    rw [hout] at h
    exact Nat.le_trans (Nat.le_of_eq h) (by decide)
  have hlen' : bytes'.length ≤ sizeMax := by
    have h : ((macCreate hmacRecipients algHmac256 hmacArgs).out.getD []).length = 128 := by decide +kernel
    rw [hout'] at h
    exact Nat.le_trans (Nat.le_of_eq h) (by decide)
  have hprotEq : algProtectedHdr algHmac256 = .ok [0xA1, 0x01, 0x05] := by rfl
  obtain rfl := Except.ok.inj (hprotEq.symm.trans hprot)
  obtain rfl := Except.ok.inj (hprotEq.symm.trans hprot')
  have hscratch : MacScratch (.ofBytes (List.replicate 64 0)) .mac0 [0xA1, 0x01, 0x05] hmacArgs :=
    ⟨by decide +kernel, by decide +kernel⟩
  have hscratch' : MacScratch (.ofBytes (List.replicate 64 0)) .mac [0xA1, 0x01, 0x05] hmacArgs :=
    ⟨by decide +kernel, by decide +kernel⟩
  have hinput (bs : Bytes) (n : Nat) (h : bs.length ≤ sizeMax) : (Buffer.ofBytes (bs.take n)).bytes = bs.take n :=
    Buffer.bytes_ofBytes (Nat.le_trans (List.length_take_le' _ _) h)
  have hkeys : ∀ recipient ∈ hmacRecipients, recipient.key = some hmacKey := by
    intro recipient h
    simp only [hmacRecipients, List.mem_cons, List.not_mem_nil, or_false] at h
    rcases h with rfl | rfl <;> rfl
  refine ⟨bytes, outLen, bytes', outLen', ?_, hverify _ _ _ _ _ (hinput _ _ hlen) hscratch, ?_,
    hverify' _ hkeys ⟨algUnset, some hmacKey, .null 0⟩ 1 _ _ _ _ _ rfl (.inl rfl) (by decide)
      (hinput _ _ hlen') hscratch'⟩
  · rw [← hret, ← hout, ← houtLen]
  · rw [← hret', ← hout', ← houtLen']

end Instances

end WolfCose
