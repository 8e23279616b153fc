import WolfCose.Mac.Compute
import WolfCose.Sign1.RoundTrip

/-!
# COSE_Mac0

`wc_CoseMac0_Create` and `wolfCose_Mac0_Verify_ex` of `wolfcose_mac0.c`.  A message that is
created is accepted with the key that it was created with, and a message that is accepted is
exactly an optional tag and an array of four fields, the last of which is the MAC of the others.
-/

namespace WolfCose

open Program Cbor Settings

section

variable [Settings] [MacSettings] [WolfCrypt] [MacCrypt]

/-! ### Creating a message -/

/-- The arguments that the functions which create a message with a MAC share; `outLen` is the
value that the caller has stored where the length of the message goes. -/
structure MacArgs where
  payload : Pointer
  detached : Pointer
  extAad : Pointer
  scratch : Option Buffer
  out : Option Buffer
  outLen : Option Nat

/-- The same arguments as those of a signing function without a generator. -/
def MacArgs.sign (args : MacArgs) : SignArgs :=
  ⟨args.payload, args.detached, args.extAad, args.scratch, args.out, args.outLen.isSome, none⟩

/-- What a function that creates a message leaves behind: its return value, the output buffer,
and the length of the message in it. -/
@[ext]
structure CreateOut where
  ret : Checked Unit
  out : Option Bytes
  outLen : Option Nat

/-- The last steps of a function that creates a message with a MAC: the message is returned, or
the output buffer is cleared. -/
def macFinish (args : MacArgs) (ret : Checked EncCtx) : CreateOut :=
  match ret with
  | .ok ctx => ⟨.ok (), some ctx.buf.bytes, some ctx.idx⟩
  | .error fault => ⟨.error fault, args.out.map fun buf => List.replicate buf.bytes.length 0, args.outLen⟩

/-- The steps of `wc_CoseMac0_Create` that encode the message. -/
def encodeMac0 (protectedHdr : Bytes) (kid : Pointer) (args : MacArgs) (tag : Bytes) : Enc Unit := do
  encodeTag tagMac0
  encodeArrayStart 4
  encodeBstr (.mem protectedHdr)
  encodeKid kid
  encodePayload args.sign
  encodeBstr (.mem tag)

/-- The steps of `wc_CoseMac0_Create` after the checks for null pointers. -/
def mac0CreateMessage (key : Key) (alg : Int) (kid : Pointer) (args : MacArgs) (scratch out : Buffer) :
    Checked EncCtx := do
  failWhen (¬ args.sign.lengthsFit scratch out) .invalidArg
  failWhen (args.payload.isNull = false ∧ args.detached.isNull = false) .invalidArg
  failWhen (args.payload.isNull = true ∧ args.detached.isNull = true) .invalidArg
  failWhen (¬ kidConsistent kid) .invalidArg
  failWhen (key.kty ≠ ktySymmetric) .coseKeyType
  failWhen (key.alg ≠ algUnset ∧ key.alg ≠ alg) .coseBadAlg
  let (protectedHdr, tag) ← createMac .mac0 key alg args.extAad args.sign.sigPayload scratch
  encodeAt (encodeMac0 protectedHdr kid args tag) (.init out)

/-- `wc_CoseMac0_Create` -/
def mac0Create (key : Option Key) (alg : Int) (kid : Pointer) (args : MacArgs) : CreateOut :=
  macFinish args <|
    match key, args.scratch, args.out, args.outLen with
    | some key, some scratch, some out, some _ => mac0CreateMessage key alg kid args scratch out
    | _, _, _, _ => throw (.err .invalidArg)

/-! ### Verifying a message -/

/-- What `wolfCose_Mac0_Verify_ex` finds in a message. -/
structure Mac0Message where
  headers : Headers
  hdr : Hdr
  payload : Option Bytes
  tag : Bytes

/-- The steps of `wolfCose_Mac0_Verify_ex` that decode the message. -/
def decodeMac0 (detached : Pointer) (flags : UInt32) : Dec Mac0Message :=
  decodeSingle tagMac0 Mac0Message.mk detached flags

/-- The steps of `wolfCose_Mac0_Verify_ex` after the checks of its arguments; the result is the
header and the payload in the message. -/
def mac0VerifyMessage (key : Key) (input : Buffer) (detached extAad : Pointer) (scratch : Buffer)
    (flags : UInt32) : Checked (Hdr × Option Bytes) := do
  failWhen (key.kty ≠ ktySymmetric) .coseKeyType
  let msg ← decodeBuffer (decodeMac0 detached flags) input
  let alg := msg.hdr.alg
  failWhen (key.alg ≠ algUnset ∧ key.alg ≠ alg) .coseBadAlg
  failWhen (key.alg = algUnset ∧ msg.headers.algProtected = false) .coseBadAlg
  verifyMac .mac0 key alg msg.headers.protectedData extAad (verifyPayload detached msg.payload) msg.tag scratch
  return (msg.hdr, msg.payload)

/-- `wolfCose_Mac0_Verify_ex` -/
def mac0VerifyEx (args : VerifyArgs) (out : VerifyOut) (flags : UInt32) : Checked Unit × VerifyOut :=
  out.finish <|
    match args.key, args.input, args.scratch, out.hdr, out.payload, out.payloadLen with
    | some key, some input, some scratch, some _, some _, some _ => do
        failWhen (decodeFlagsValid flags = false) .invalidArg
        failWhen (lenFitsWord32 input.bytes.length = false ∨ lenFitsWord32 args.detached.len = false ∨
          lenFitsWord32 args.extAad.len = false ∨ lenFitsWord32 scratch.bytes.length = false) .invalidArg
        mac0VerifyMessage key input args.detached args.extAad scratch flags
    | _, _, _, _, _, _ => throw (.err .invalidArg)

/-- `wc_CoseMac0_Verify` -/
def mac0Verify (args : VerifyArgs) (out : VerifyOut) : Checked Unit × VerifyOut :=
  mac0VerifyEx args out 0

/-! ### What is accepted -/

/-- The bytes of a COSE_Mac0 message and what they say. -/
def Mac0Encoding (flags : UInt32) (detached : Pointer) (input : Bytes) (msg : Mac0Message) : Prop :=
  SingleEncoding flags tagMac0 detached input msg.headers msg.hdr msg.payload msg.tag

omit [MacSettings] [WolfCrypt] [MacCrypt] in
theorem decodeMac0_eq_ok {flags : UInt32} (hf : decodeFlagsValid flags = true) {detached : Pointer}
    {input : Buffer} {msg : Mac0Message} :
  decodeBuffer (decodeMac0 detached flags) input = .ok msg ↔ Mac0Encoding flags detached input.bytes msg
  := by
  rw [decodeMac0, decodeSingle_eq_ok hf]
  constructor
  · rintro ⟨_, _, _, _, rfl, h⟩
    exact h
  · intro h
    exact ⟨_, _, _, _, rfl, h⟩

/-- The tag is the MAC of a MAC_structure with a key, in the length of the algorithm. -/
def Key.Authenticates (key : Key) (kind : MacKind) (alg : Int) (protectedData extAad payload tag : Bytes) : Prop :=
  ∃ symmKey, key.symmKey = .ok symmKey ∧ macTagSize alg = .ok tag.length
    ∧ MacOf symmKey alg (macStructure kind protectedData extAad payload).bytes tag

/-- What a successful verification of a message establishes. -/
structure Mac0Verified (key : Key) (input : Bytes) (detached extAad : Pointer) (flags : UInt32)
    (hdr : Hdr) (payload : Option Bytes) (msg : Mac0Message) : Prop where
  encoding : Mac0Encoding flags detached input msg
  returned : hdr = msg.hdr ∧ payload = msg.payload
  symmetric : key.kty = ktySymmetric
  pinned : key.alg ≠ algUnset → key.alg = hdr.alg
  protected_of_unset : key.alg = algUnset → msg.headers.algProtected = true
  authentic : key.Authenticates .mac0 hdr.alg msg.headers.protectedData extAad.bytes
    (verifyPayload detached msg.payload).bytes msg.tag

theorem mac0VerifyMessage_ok (hdoc : DocumentedHmac) {key : Key} {input scratch : Buffer}
    {detached extAad : Pointer} {flags : UInt32} (hf : decodeFlagsValid flags = true) {hdr : Hdr}
    {payload : Option Bytes}
    (h : mac0VerifyMessage key input detached extAad scratch flags = .ok (hdr, payload)) :
  ∃ msg, Mac0Verified key input.bytes detached extAad flags hdr payload msg
  := by
  simp only [mac0VerifyMessage, bind_eq_ok, failWhen_eq_ok, pure_eq_ok, decodeMac0_eq_ok hf] at h
  obtain ⟨_, hkty, msg, henc, _, hpin, _, hprot, _, hver, he⟩ := h
  cases he
  refine ⟨msg, henc, ⟨rfl, rfl⟩, Decidable.not_not.mp hkty, ?_, ?_, verifyMac_eq_ok hdoc hver⟩
  · intro hset
    by_contra hne
    apply hpin
    exact ⟨hset, hne⟩
  · intro hunset
    by_contra hne
    apply hprot
    exact ⟨hunset, by simpa using hne⟩

/-- The message of a call that succeeds is verified. -/
theorem mac0VerifyEx_ok (hdoc : DocumentedHmac) {args : VerifyArgs} {out out' : VerifyOut} {flags : UInt32}
    (h : mac0VerifyEx args out flags = (.ok (), out')) :
  ∃ key input hdr payload msg, args.key = some key ∧ args.input = some input
    ∧ out' = .verified hdr payload
    ∧ Mac0Verified key input.bytes args.detached args.extAad flags hdr payload msg
  := by
  obtain ⟨hdr, payload, hret, rfl⟩ := VerifyOut.finish_ok h
  split at hret
  · simp only [bind_eq_ok, failWhen_eq_ok, Bool.not_eq_false] at hret
    obtain ⟨_, hf, _, -, hret⟩ := hret
    obtain ⟨msg, hmsg⟩ := mac0VerifyMessage_ok hdoc hf hret
    exact ⟨_, _, hdr, payload, msg, by assumption, by assumption, rfl, hmsg⟩
  · cases hret

/-! ### What is created -/

omit [MacSettings] [WolfCrypt] [MacCrypt] in
theorem macFinish_ok {args : MacArgs} {ret : Checked EncCtx} (h : (macFinish args ret).ret = .ok ()) :
  ∃ ctx, ret = .ok ctx ∧ macFinish args ret = ⟨.ok (), some ctx.buf.bytes, some ctx.idx⟩
  := by
  cases ret with
  | ok ctx => exact ⟨ctx, rfl, rfl⟩
  | error fault => cases h

/-- The bytes of a message before the tag. -/
def mac0Fields (protectedHdr : Bytes) (kid : Pointer) (args : MacArgs) : Bytes :=
  preferredHead .tag tagMac0 ++ preferredHead .array 4 ++
    (stringBytes .bstr protectedHdr ++ (kidBytes kid ++ payloadBytes args.sign))

omit [MacSettings] [MacCrypt] in
theorem emits_encodeMac0 {protectedHdr : Bytes} {kid : Pointer} {args : MacArgs} {tag : Bytes}
    (h : args.sign.sigPayload.isNull = false) :
  Emits (encodeMac0 protectedHdr kid args tag) (mac0Fields protectedHdr kid args ++ stringBytes .bstr tag)
  := by
  unfold mac0Fields
  simp only [List.append_assoc]
  apply Emits.bind (emits_encodeHead _ _)
  apply Emits.bind (emits_encodeHead _ _)
  apply Emits.bind (emits_encodeBstr_mem _)
  apply Emits.bind (emits_encodeKid _)
  apply Emits.bind (emits_encodePayload h)
  apply emits_encodeBstr_mem

/-- What a call that creates a message has checked and computed before it encodes the message. -/
structure MacPrepared (kind : MacKind) (key : Key) (alg : Int) (args : MacArgs) (protectedHdr tag : Bytes) :
    Prop where
  symmetric : key.kty = ktySymmetric
  pinned : key.alg = algUnset ∨ key.alg = alg
  payload : args.sign.sigPayload.isNull = false
  lengths : ∃ scratch out, args.scratch = some scratch ∧ args.out = some out
    ∧ args.sign.lengthsFit scratch out
    ∧ createMac kind key alg args.extAad args.sign.sigPayload scratch = .ok (protectedHdr, tag)

omit [MacSettings] [MacCrypt] in
theorem sigPayload_isNull {args : MacArgs} (h : ¬ (args.payload.isNull = true ∧ args.detached.isNull = true)) :
  args.sign.sigPayload.isNull = false
  := by
  unfold SignArgs.sigPayload SignArgs.isDetached MacArgs.sign
  cases hd : args.detached.isNull with
  | false => simpa using hd
  | true => simpa [hd] using h

theorem mac0Create_ok {key : Option Key} {alg : Int} {kid : Pointer} {args : MacArgs}
    (h : (mac0Create key alg kid args).ret = .ok ()) :
  ∃ key' bytes outLen protectedHdr tag, key = some key' ∧ MacPrepared .mac0 key' alg args protectedHdr tag
    ∧ (mac0Create key alg kid args).out = some bytes ∧ (mac0Create key alg kid args).outLen = some outLen
    ∧ bytes.take outLen = mac0Fields protectedHdr kid args ++ stringBytes .bstr tag
    ∧ (bytes.take outLen).length ≤ 0xFFFFFFFF
  := by
  obtain ⟨ctx, hret, hfin⟩ := macFinish_ok h
  have hfin' : mac0Create key alg kid args = ⟨.ok (), some ctx.buf.bytes, some ctx.idx⟩ := hfin
  rw [hfin']
  split at hret
  · rename_i key' scratch out _ hscratch hout _
    simp only [mac0CreateMessage, bind_eq_ok, failWhen_eq_ok] at hret
    obtain ⟨_, hlen, _, -, _, hpayload, _, -, _, hkty, _, hpin, ⟨protectedHdr, tag⟩, hcreate, henc⟩ := hret
    have hsig := sigPayload_isNull hpayload
    obtain ⟨hmessage, hle⟩ := encodeAt_init (emits_encodeMac0 hsig) henc
    have hlen := Decidable.not_not.mp hlen
    refine ⟨key', _, _, protectedHdr, tag, rfl, ⟨Decidable.not_not.mp hkty, ?_, hsig, scratch, out, hscratch,
      hout, hlen, hcreate⟩, rfl, rfl, hmessage, ?_⟩
    · exact Decidable.or_iff_not_imp_left.mpr fun hset => Decidable.not_not.mp fun hne => hpin ⟨hset, hne⟩
    · have hfits : out.bytes.length ≤ 0xFFFFFFFF := by simpa [lenFitsWord32] using hlen.2.2.2.2
      rw [hmessage]
      omega
  · cases hret

omit [Settings] [WolfCrypt] [MacCrypt] in
/-- An algorithm with a tag is an `int32_t`. -/
theorem inInt32Range_of_macTagSize {alg : Int} {tagSz : Nat} (h : macTagSize alg = .ok tagSz) :
  inInt32Range alg = true
  := by
  unfold macTagSize at h
  split at h
  · rename_i hc
    rw [hc.2]
    decide
  split at h
  · rename_i hc
    rw [hc.2]
    decide
  split at h
  · rename_i hc
    rw [hc.2]
    decide
  split at h
  · rename_i hc
    rcases hc.2 with hc | hc <;> rw [hc] <;> decide
  split at h
  · rename_i hc
    rcases hc.2 with hc | hc <;> rw [hc] <;> decide
  · cases h

theorem createMac_encoded {kind : MacKind} {key : Key} {alg : Int} {extAad payload : Pointer}
    {scratch : Buffer} {protectedHdr tag : Bytes}
    (h : createMac kind key alg extAad payload scratch = .ok (protectedHdr, tag)) :
  inInt32Range alg = true ∧ algProtectedHdr alg = .ok protectedHdr
  := by
  simp only [createMac, bind_eq_ok, lift_eq_ok, pure_eq_ok, Prod.mk.injEq] at h
  obtain ⟨tagSz, htag, _, hprot, _, -, _, -, rfl, -⟩ := h
  exact ⟨inInt32Range_of_macTagSize htag, hprot⟩

/-- The tag of a message that is created is accepted. -/
theorem MacPrepared.verify (hdoc : DocumentedHmac) {kind : MacKind} {key : Key} {alg : Int} {args : MacArgs}
    {protectedHdr tag : Bytes} (h : MacPrepared kind key alg args protectedHdr tag) {scratch : Buffer}
    (hroom : (macStructure kind protectedHdr args.extAad.bytes args.sign.sigPayload.bytes).bytes.length
      ≤ scratch.bytes.length) :
  verifyMac kind key alg protectedHdr args.extAad (verifyPayload args.detached args.sign.attached) tag scratch
    = .ok ()
  := by
  obtain ⟨_, _, -, -, -, hcreate⟩ := h.lengths
  have hvalid : args.sign.sigPayload.Valid := fun hn => absurd (h.payload.symm.trans hn) Bool.false_ne_true
  exact verifyMac_createMac hdoc hcreate hvalid.verifyPayload (verifyPayload_attached args.sign) hroom

/-- The scratch buffer of a verification has an accepted length, and room for the structure. -/
structure MacScratch (scratch : Buffer) (kind : MacKind) (protectedHdr : Bytes) (args : MacArgs) : Prop where
  fits : lenFitsWord32 scratch.bytes.length = true
  room : (macStructure kind protectedHdr args.extAad.bytes args.sign.sigPayload.bytes).bytes.length
    ≤ scratch.bytes.length

/-- A message that is created is verified with the same key, and the verification returns its
payload. -/
theorem mac0Verify_created (hdoc : DocumentedHmac) {key : Key} {alg : Int} {kid : Pointer} {args : MacArgs}
    {protectedHdr tag : Bytes} (h : MacPrepared .mac0 key alg args protectedHdr tag) {input scratch : Buffer}
    (hinput : input.bytes = mac0Fields protectedHdr kid args ++ stringBytes .bstr tag)
    (hfits : input.bytes.length ≤ 0xFFFFFFFF) (hscratch : MacScratch scratch .mac0 protectedHdr args)
    {hdr : Hdr} {payload : Option Bytes} {payloadLen : Nat} :
  mac0Verify ⟨some key, some input, args.detached, args.extAad, some scratch⟩
      ⟨some hdr, some payload, some payloadLen⟩
    = (.ok (), .verified (signedHdr alg kid args.sign) args.sign.attached)
  := by
  obtain ⟨scratch', out, -, -, hlengths, hcreate⟩ := h.lengths
  obtain ⟨halg, hprot⟩ := createMac_encoded hcreate
  have hstart := @startValue_tag _ tagMac0 4 True _ (by decide) (by decide)
  rw [if_pos trivial] at hstart
  simp only [mac0Fields, List.append_assoc] at hinput
  rw [← List.append_assoc] at hinput
  have henc : Mac0Encoding 0 args.detached input.bytes
      ⟨⟨protectedHdr, { Hdr.zero with alg, kid := hdrKidOf kid }, true⟩, signedHdr alg kid args.sign,
        args.sign.attached, tag⟩ :=
    @singleEncoding_fields _ _ _ _ _ _ _ _ _ args.sign hstart halg hprot hinput input.length_le
  rw [← decodeMac0_eq_ok decodeFlagsValid_zero] at henc
  have hmessage : mac0VerifyMessage key input args.detached args.extAad scratch 0
      = .ok (signedHdr alg kid args.sign, args.sign.attached) := by
    simp only [mac0VerifyMessage, bind_eq_ok, failWhen_eq_ok, pure_eq_ok]
    refine ⟨(), by rw [h.symmetric]; simp, _, henc, (), ?_, (), ?_, (), h.verify hdoc hscratch.room, rfl⟩
    · rintro ⟨hset, hne⟩
      rcases h.pinned with hpin | hpin
      · exact hset hpin
      · exact hne hpin
    · rintro ⟨-, ⟨⟩⟩
  have hinputFits : lenFitsWord32 input.bytes.length = true := by simpa [lenFitsWord32] using hfits
  have hdetached : lenFitsWord32 args.detached.len = true := hlengths.2.1
  have hextAad : lenFitsWord32 args.extAad.len = true := hlengths.2.2.1
  simp only [mac0Verify, mac0VerifyEx, decodeFlagsValid_zero, hinputFits, hdetached, hextAad, hscratch.fits,
    hmessage]
  rfl

end

section Instances

/-- The primitives as far as they are known from a table of the HMACs of data with a hash function
and a key. -/
@[reducible]
def hmacTableCrypt (table : List ((HashType × Bytes × Bytes) × Bytes)) : MacCrypt where
  Hmac := HashType × Bytes × Bytes
  hmacInit := some (.sha256, [], [])
  hmacSetKey _ type key := some (type, key.bytes, [])
  hmacUpdate hmac data := some (hmac.1, hmac.2.1, hmac.2.2 ++ data)
  hmacFinal hmac := table.lookup hmac
  Aes := Unit
  aesInit := none
  aesSetKey _ _ _ := none
  aesCbcEncrypt _ _ := none

/-- A key for HMAC with SHA-256. -/
def hmac256Key : Bytes := (List.range 32).map UInt8.ofNat

theorem documentedHmac_hmacTableCrypt {table : List ((HashType × Bytes × Bytes) × Bytes)}
    (htable : ∀ entry ∈ table, entry.2.length = entry.1.1.digestSize) :
  @DocumentedHmac (hmacTableCrypt table)
  := by
  intro type key data digest h
  have hlookup : table.lookup (type, key.bytes, data) = some digest := h
  obtain ⟨before, after, heq, -⟩ := List.lookup_eq_some_iff.mp hlookup
  apply htable ((type, key.bytes, data), digest)
  rw [heq]
  simp

/-- The key with these bytes. -/
def hmacKey [WolfCrypt] : Key := .ofSymmetric hmac256Key

end Instances

end WolfCose
