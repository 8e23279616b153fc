import WolfCose.Hdr.Reorder
import WolfCose.Hdr.Tolerant
import WolfCose.Mac.Mac0
import WolfCose.Sign1.Verify

/-!
# Messages that are decoded tolerantly

The verification functions for COSE_Sign1 and COSE_Mac0 with `WOLFCOSE_COSE_DECODE_ALLOW_NONPREFERRED` accept
what they accept without it, and they accept a message whatever the widths of the heads in its envelope and in
its unprotected bucket.
-/

namespace WolfCose

open Program Cbor Settings

section

variable [Settings] {flags : UInt32}

/-! ### From strict to tolerant -/

theorem StartValue.tolerated {tag count : Nat} {bs : Bytes} (h : StartValue 0 tag count bs) :
  StartValue flags tag count bs
  := by
  obtain ⟨tagBytes, head, hbs, htag, hhead, hmajor⟩ := h
  exact ⟨tagBytes, head, hbs, htag.imp id TokenValue.tolerated, hhead.tolerated, hmajor⟩

theorem HeadersValue.tolerated (hf : decodeFlagsValid flags = true) {bs : Bytes} {headers : Headers}
    (hlen : bs.length ≤ sizeMax) (h : HeadersValue 0 bs headers) :
  HeadersValue flags bs headers
  := by
  obtain ⟨prot, r, head, es, ek, rfl, hprot, hdecoded, halg, hmap⟩ := h
  refine ⟨prot, r, head, es, ek, rfl, hprot.tolerated, ?_, halg, hmap.tolerated⟩
  apply decodeProtectedHdrEx_tolerated hf _ hdecoded
  have hdata := hprot.length_le
  rw [List.length_append] at hlen
  omega

theorem PayloadValue.tolerated {detached : Pointer} {hdr : Hdr} {bs : Bytes} {r : Hdr × Option Bytes}
    (h : PayloadValue 0 detached hdr bs r) :
  PayloadValue flags detached hdr bs r
  := by
  apply h.imp id
  rintro ⟨payload, hpayload, hr⟩
  exact ⟨payload, hpayload.tolerated, hr⟩

theorem SingleEncoding.tolerated (hf : decodeFlagsValid flags = true) {tag : Nat} {detached : Pointer} {input : Bytes}
    {headers : Headers} {hdr : Hdr} {payload : Option Bytes} {data : Bytes} (hlen : input.length ≤ sizeMax)
    (h : SingleEncoding 0 tag detached input headers hdr payload data) :
  SingleEncoding flags tag detached input headers hdr payload data
  := by
  obtain ⟨start, bs, payloadBytes, dataBytes, rfl, hstart, hheaders, hpayload, hdata⟩ := h
  refine ⟨start, bs, payloadBytes, dataBytes, rfl, hstart.tolerated, ?_, hpayload.tolerated, hdata.tolerated⟩
  apply hheaders.tolerated hf
  simp only [List.length_append] at hlen
  omega

theorem decodeSingle_tolerated (hf : decodeFlagsValid flags = true) {α : Type} {tag : Nat}
    {make : Headers → Hdr → Option Bytes → Bytes → α} {detached : Pointer} {input : Buffer} {a : α}
    (h : decodeBuffer (decodeSingle tag make detached 0) input = .ok a) :
  decodeBuffer (decodeSingle tag make detached flags) input = .ok a
  := by
  rw [decodeSingle_eq_ok decodeFlagsValid_zero] at h
  rw [decodeSingle_eq_ok hf]
  obtain ⟨headers, hdr, payload, data, hmake, hencoding⟩ := h
  exact ⟨headers, hdr, payload, data, hmake, hencoding.tolerated hf input.length_le⟩

/-! ### Other widths -/

/-- However a message is read as an array, a protected bucket and a map of data items, the map has no entry of
HPKE. -/
def WithoutHpkeEntry (flags : UInt32) (tag : Nat) (input : Bytes) : Prop :=
  ∀ start prot data head es rest, input = start ++ (prot ++ (mapBytes head es ++ rest)) →
    StartValue flags tag 4 start → BstrValue flags prot data → MapHead flags es head →
    (∀ e ∈ es, e.Labelled flags) → (∀ e ∈ es, DataItems 1 e.value) → .int hdrHpkeEk ∉ labelsOf es

/-- The values of a map are data items. -/
theorem UnprotectedMap.dataItems {wantEk : Bool} {hdrState : HdrState} {i : Nat} {hdr : Hdr} {vars' : UnprotectedVars}
    {head : Token} {es : List Entry} (h : UnprotectedMap flags wantEk hdrState i hdr vars' head es) {e : Entry}
    (he : e ∈ es) :
  DataItems 1 e.value
  := by
  apply h.scans.forall (Q := DataItems 1) _ e he
  intro label i bs s s' hvalue
  exact (makes_unprotectedValue flags wantEk label bs s s' hvalue).1

section

variable (htol : allowsNonpreferred flags = true)

include htol

theorem survives_start (tag count : Nat) :
  Survives (StartValue flags tag count)
  := by
  have htag : Survives (fun bs => bs = [] ∨ TokenValue flags (fun t => t.major = .tag ∧ t.val = tag) bs) := by
    apply Survives.or Survives.nil
    apply survives_token htol
    intro t t' hsame h
    exact ⟨hsame.major.trans h.1, hsame.val.trans h.2⟩
  have hhead : Survives (TokenValue flags fun t => t.major = .array ∧ t.val = count) := by
    apply survives_token htol
    intro t t' hsame h
    exact ⟨hsame.major.trans h.1, hsame.val.trans h.2⟩
  rintro _ r b ⟨tagBytes, head, rfl, htagBytes, haccepted, hmajor, hval⟩ h
  obtain ⟨_, r', rfl, ⟨tagBytes', headBytes, rfl, htag', ⟨head', haccepted', ⟨hmajor', hval'⟩, rfl⟩⟩, hrest⟩ :=
    htag.append hhead ⟨tagBytes, head.bytes, rfl, htagBytes, head, haccepted, ⟨hmajor, hval⟩, rfl⟩ h
  exact ⟨_, r', rfl, ⟨tagBytes', head', rfl, htag', haccepted', hmajor', hval'⟩, hrest⟩

theorem survives_payload (detached : Pointer) (hdr : Hdr) (r : Hdr × Option Bytes) :
  Survives (fun bs => PayloadValue flags detached hdr bs r)
  := by
  apply Survives.or
  · exact (Survives.simple accepted_null.wellFormed rfl).and _
  · exact .witnessed fun payload => (survives_bstr htol payload).and _

/-- A message with other widths has the same meaning, if it has no entry of HPKE. -/
theorem SingleEncoding.rewidth {tag : Nat} {detached : Pointer} {input input' : Bytes} {headers : Headers} {hdr : Hdr}
    {payload : Option Bytes} {data : Bytes} (hek : haveHpke0 = true → WithoutHpkeEntry flags tag input)
    (hinput : Rewidth input input') (h : SingleEncoding flags tag detached input headers hdr payload data) :
  SingleEncoding flags tag detached input' headers hdr payload data
  := by
  obtain ⟨start, _, payloadBytes, dataBytes, rfl, hstart, ⟨prot, r, head, es, ek, rfl, hprot, hdecoded, halg, hmap⟩,
    hpayload, hdata⟩ := h
  have hwithout : haveHpke0 = true → .int hdrHpkeEk ∉ labelsOf es := by
    intro hhpke
    apply hek hhpke start prot _ head es (payloadBytes ++ dataBytes) _ hstart hprot hmap.map.head hmap.map.labelled
    · intro e he
      exact hmap.dataItems he
    · simp only [List.append_assoc]
  simp only [List.append_assoc] at hinput
  obtain ⟨start', b₁, rfl, hstart', -, hinput⟩ := survives_start htol tag 4 hstart hinput
  obtain ⟨prot', b₂, rfl, hprot', -, hinput⟩ := survives_bstr htol _ hprot hinput
  rw [← List.append_assoc head.bytes] at hinput
  obtain ⟨head', es', b₃, rfl, -, hmap', hinput⟩ := hmap.rewidth htol hwithout hinput
  obtain ⟨payloadBytes', dataBytes', rfl, hpayload', -, hinput⟩ := survives_payload htol detached _ _ hpayload hinput
  have hdata' := (survives_bstr htol data).whole hdata hinput
  refine ⟨start', prot' ++ mapBytes head' es', payloadBytes', dataBytes', ?_, hstart', ?_, hpayload', hdata'⟩
  · simp only [List.append_assoc]
  · exact ⟨prot', r, head', es', ek, rfl, hprot', hdecoded, halg, hmap'⟩

theorem decodeSingle_rewidth (hf : decodeFlagsValid flags = true) {α : Type} {tag : Nat}
    {make : Headers → Hdr → Option Bytes → Bytes → α} {detached : Pointer} {input input' : Buffer} {a : α}
    (hek : haveHpke0 = true → WithoutHpkeEntry flags tag input.bytes) (hinput : Rewidth input.bytes input'.bytes)
    (h : decodeBuffer (decodeSingle tag make detached flags) input = .ok a) :
  decodeBuffer (decodeSingle tag make detached flags) input' = .ok a
  := by
  rw [decodeSingle_eq_ok hf] at h ⊢
  obtain ⟨headers, hdr, payload, data, hmake, hencoding⟩ := h
  exact ⟨headers, hdr, payload, data, hmake, hencoding.rewidth htol hek hinput⟩

end

/-! ### Verification -/

section

variable [WolfCrypt]

/-- The steps that the verification functions share: their checks, and then those for a message. -/
def verifyWith (verify : Key → Buffer → Pointer → Pointer → Buffer → UInt32 → Checked (Hdr × Option Bytes))
    (args : VerifyArgs) (out : VerifyOut) (flags : UInt32) : Checked Unit × VerifyOut :=
  out.finish <|
    match args.key, args.input, args.scratch, out.hdr, out.payload, out.payloadLen with
    | some key, some input, some scratch, some _, some _, some _ => do
        failWhen (decodeFlagsValid flags = false) .invalidArg
        failWhen (lenFitsWord32 input.bytes.length = false ∨ lenFitsWord32 args.detached.len = false ∨
          lenFitsWord32 args.extAad.len = false ∨ lenFitsWord32 scratch.bytes.length = false) .invalidArg
        verify key input args.detached args.extAad scratch flags
    | _, _, _, _, _, _ => throw (.err .invalidArg)

section

variable {verify : Key → Buffer → Pointer → Pointer → Buffer → UInt32 → Checked (Hdr × Option Bytes)}

theorem verifyWith_input {args : VerifyArgs} {out out' : VerifyOut}
    (h : verifyWith verify args out flags = (.ok (), out')) :
  ∃ input, args.input = some input
  := by
  obtain ⟨hdr, payload, hret, -⟩ := VerifyOut.finish_ok h
  split at hret
  · exact ⟨_, by assumption⟩
  · cases hret

/-- What is verified depends on the message only through what is decoded. -/
theorem verifyWith_of_message {flags' : UInt32} (hf : decodeFlagsValid flags' = true) {args : VerifyArgs}
    {out out' : VerifyOut} {input input' : Buffer} (hinput : args.input = some input)
    (hfits : lenFitsWord32 input.bytes.length = true → lenFitsWord32 input'.bytes.length = true)
    (hmessage : ∀ key scratch r, verify key input args.detached args.extAad scratch flags = .ok r →
      verify key input' args.detached args.extAad scratch flags' = .ok r)
    (h : verifyWith verify args out flags = (.ok (), out')) :
  verifyWith verify { args with input := some input' } out flags' = (.ok (), out')
  := by
  obtain ⟨hdr, payload, hret, rfl⟩ := VerifyOut.finish_ok h
  split at hret
  · rename_i key _ scratch hdr₀ payload₀ len₀ hkey hinput' hscratch hhdr hpayload hlen
    obtain rfl := Option.some.inj (hinput.symm.trans hinput')
    simp only [bind_eq_ok, failWhen_eq_ok, not_or, Bool.not_eq_false] at hret
    obtain ⟨_, -, _, ⟨hlenFits, hfits'⟩, hverify⟩ := hret
    simp only [verifyWith, hkey, hscratch, hhdr, hpayload, hlen]
    have hrun : (do
        failWhen (decodeFlagsValid flags' = false) .invalidArg
        failWhen (lenFitsWord32 input'.bytes.length = false ∨ lenFitsWord32 args.detached.len = false ∨
          lenFitsWord32 args.extAad.len = false ∨ lenFitsWord32 scratch.bytes.length = false) .invalidArg
        verify key input' args.detached args.extAad scratch flags' : Checked (Hdr × Option Bytes))
        = .ok (hdr, payload) := by
      simp only [bind_eq_ok, failWhen_eq_ok, not_or, Bool.not_eq_false]
      exact ⟨(), hf, (), ⟨hfits hlenFits, hfits'⟩, hmessage _ _ _ hverify⟩
    rw [hrun]
    rfl
  · cases hret

end

theorem sign1VerifyEx_eq (args : VerifyArgs) (out : VerifyOut) (flags : UInt32) :
  sign1VerifyEx args out flags = verifyWith sign1VerifyMessage args out flags
  := rfl

theorem sign1VerifyEx_of_decoded {flags' : UInt32} (hf : decodeFlagsValid flags' = true) {args : VerifyArgs}
    {out out' : VerifyOut} {input input' : Buffer} (hinput : args.input = some input)
    (hfits : lenFitsWord32 input.bytes.length = true → lenFitsWord32 input'.bytes.length = true)
    (hdecoded : ∀ msg, decodeBuffer (decodeSign1 args.detached flags) input = .ok msg →
      decodeBuffer (decodeSign1 args.detached flags') input' = .ok msg)
    (h : sign1VerifyEx args out flags = (.ok (), out')) :
  sign1VerifyEx { args with input := some input' } out flags' = (.ok (), out')
  := by
  rw [sign1VerifyEx_eq] at h ⊢
  apply verifyWith_of_message hf hinput hfits _ h
  intro key scratch r hverify
  rw [sign1VerifyMessage, bind_eq_ok] at hverify ⊢
  obtain ⟨msg, hmsg, hverified⟩ := hverify
  exact ⟨msg, hdecoded msg hmsg, hverified⟩

variable [MacSettings] [MacCrypt]

theorem mac0VerifyEx_eq (args : VerifyArgs) (out : VerifyOut) (flags : UInt32) :
  mac0VerifyEx args out flags = verifyWith mac0VerifyMessage args out flags
  := rfl

theorem mac0VerifyEx_of_decoded {flags' : UInt32} (hf : decodeFlagsValid flags' = true) {args : VerifyArgs}
    {out out' : VerifyOut} {input input' : Buffer} (hinput : args.input = some input)
    (hfits : lenFitsWord32 input.bytes.length = true → lenFitsWord32 input'.bytes.length = true)
    (hdecoded : ∀ msg, decodeBuffer (decodeMac0 args.detached flags) input = .ok msg →
      decodeBuffer (decodeMac0 args.detached flags') input' = .ok msg)
    (h : mac0VerifyEx args out flags = (.ok (), out')) :
  mac0VerifyEx { args with input := some input' } out flags' = (.ok (), out')
  := by
  rw [mac0VerifyEx_eq] at h ⊢
  apply verifyWith_of_message hf hinput hfits _ h
  intro key scratch r hverify
  simp only [mac0VerifyMessage, bind_eq_ok] at hverify ⊢
  obtain ⟨_, hkty, msg, hmsg, hverified⟩ := hverify
  exact ⟨(), hkty, msg, hdecoded msg hmsg, hverified⟩

/-- Tolerant decoding extends strict decoding: of data items, of both header buckets, and of the messages that are
verified. -/
theorem tolerant_conservative (hf : decodeFlagsValid flags = true) :
  (∀ ctx u ctx', Runs (skipEx 0) ctx u ctx' → Runs (skipEx flags) ctx u ctx')
    ∧ (∀ data hdr r, data.length ≤ sizeMax → decodeProtectedHdrEx (.mem data) hdr 0 = .ok r →
      decodeProtectedHdrEx (.mem data) hdr flags = .ok r)
    ∧ (∀ hdr hdrState ctx r ctx', Runs (decodeUnprotectedHdrEx hdr hdrState 0) ctx r ctx' →
      Runs (decodeUnprotectedHdrEx hdr hdrState flags) ctx r ctx')
    ∧ (∀ args out out', sign1VerifyEx args out 0 = (.ok (), out') → sign1VerifyEx args out flags = (.ok (), out'))
    ∧ (∀ args out out', mac0VerifyEx args out 0 = (.ok (), out') → mac0VerifyEx args out flags = (.ok (), out'))
  := by
  refine ⟨fun _ _ _ => skipEx_tolerated hf, fun _ _ _ hdata => decodeProtectedHdrEx_tolerated hf hdata,
    fun _ _ _ _ _ => decodeUnprotectedHdrEx_tolerated hf, ?_, ?_⟩
  · intro args out out' h
    obtain ⟨input, hinput⟩ := verifyWith_input (sign1VerifyEx_eq args out 0 ▸ h)
    have hverified := sign1VerifyEx_of_decoded hf hinput id (fun _ => decodeSingle_tolerated hf) h
    rwa [← hinput] at hverified
  · intro args out out' h
    obtain ⟨input, hinput⟩ := verifyWith_input (mac0VerifyEx_eq args out 0 ▸ h)
    have hverified := mac0VerifyEx_of_decoded hf hinput id (fun _ => decodeSingle_tolerated hf) h
    rwa [← hinput] at hverified

/-- Where other forms of heads are tolerated, a message is verified with the same result whatever the widths of its
heads, unless it has an entry of HPKE, which is decoded strictly in a build that has HPKE. -/
theorem tolerant_rewidth (hf : decodeFlagsValid flags = true) (htol : allowsNonpreferred flags = true)
    {input input' : Buffer} (hinput : Rewidth input.bytes input'.bytes)
    (hfits : lenFitsWord32 input.bytes.length = lenFitsWord32 input'.bytes.length) (args : VerifyArgs)
    (out out' : VerifyOut) :
  ((haveHpke0 = true → WithoutHpkeEntry flags tagSign1 input.bytes ∧ WithoutHpkeEntry flags tagSign1 input'.bytes) →
      (sign1VerifyEx { args with input := some input } out flags = (.ok (), out')
        ↔ sign1VerifyEx { args with input := some input' } out flags = (.ok (), out')))
    ∧ ((haveHpke0 = true → WithoutHpkeEntry flags tagMac0 input.bytes ∧ WithoutHpkeEntry flags tagMac0 input'.bytes) →
      (mac0VerifyEx { args with input := some input } out flags = (.ok (), out')
        ↔ mac0VerifyEx { args with input := some input' } out flags = (.ok (), out')))
  := by
  constructor
  · intro hek
    constructor
    · apply sign1VerifyEx_of_decoded hf rfl (fun h => hfits.symm.trans h)
      exact fun _ => decodeSingle_rewidth htol hf (fun hhpke => (hek hhpke).1) hinput
    · apply sign1VerifyEx_of_decoded hf rfl (fun h => hfits.trans h)
      exact fun _ => decodeSingle_rewidth htol hf (fun hhpke => (hek hhpke).2) hinput.symm
  · intro hek
    constructor
    · apply mac0VerifyEx_of_decoded hf rfl (fun h => hfits.symm.trans h)
      exact fun _ => decodeSingle_rewidth htol hf (fun hhpke => (hek hhpke).1) hinput
    · apply mac0VerifyEx_of_decoded hf rfl (fun h => hfits.trans h)
      exact fun _ => decodeSingle_rewidth htol hf (fun hhpke => (hek hhpke).2) hinput.symm

end

end

section Instances

attribute [local instance] defaultSettings

/-- A message that starts with a tag, an array, a byte string and an empty map has no entry of HPKE. -/
theorem withoutHpkeEntry_of_tokens {flags : UInt32} {tag : Nat} {tagToken array prot map : Token} {rest : Bytes}
    (htag : tagToken.WellFormed ∧ tagToken.major = .tag) (harray : array.WellFormed ∧ array.major = .array)
    (hprot : prot.WellFormed ∧ prot.major = .bstr) (hmap : map.WellFormed ∧ map.val = 0) :
  WithoutHpkeEntry flags tag (tagToken.bytes ++ (array.bytes ++ (prot.bytes ++ (map.bytes ++ rest))))
  := by
  rintro _ _ data head es rest' hinput ⟨tagBytes, array', rfl, htagBytes, harray', hmajor, -⟩
    ⟨prot', hprot', -, rfl⟩ hhead - -
  simp only [mapBytes, List.append_assoc] at hinput
  obtain rfl | ⟨tag', htag', -, rfl⟩ := htagBytes
  · rw [List.nil_append] at hinput
    obtain ⟨rfl, -⟩ := Token.bytes_append_cancel htag.1 harray'.wellFormed hinput
    rw [htag.2] at hmajor
    cases hmajor
  · obtain ⟨rfl, h₁⟩ := Token.bytes_append_cancel htag.1 htag'.wellFormed hinput
    obtain ⟨rfl, h₂⟩ := Token.bytes_append_cancel harray.1 harray'.wellFormed h₁
    obtain ⟨rfl, h₃⟩ := Token.bytes_append_cancel hprot.1 hprot'.wellFormed h₂
    obtain ⟨rfl, -⟩ := Token.bytes_append_cancel hmap.1 hhead.accepted.wellFormed h₃
    have hnil : es.length = 0 := hhead.val.symm.trans hmap.2
    rw [List.eq_nil_of_length_eq_zero hnil]
    rintro ⟨⟩

attribute [local instance] sign1Crypt defaultMacSettings

/-- No MAC is known here. -/
@[reducible]
def noHmacCrypt : MacCrypt := hmacTableCrypt []

attribute [local instance] noHmacCrypt

theorem tolerant_conservative_ed25519 :
  sign1VerifyEx ed25519Args ⟨some .zero, some none, some 0⟩ allowNonpreferredFlag
    = (.ok (), .verified ⟨-19, none, none, none, 0, 0⟩ (some [0x68, 0x69]))
  := (tolerant_conservative (by decide)).2.2.2.1 _ _ _ rfl

/-- The tokens of a signed message, with heads of these widths. -/
def ed25519Tokens (tag array prot map payload signature : Width) : List Token :=
  [⟨tag, .tag, tagSign1, []⟩, ⟨array, .array, 4, []⟩, ⟨prot, .bstr, 3, [0xA1, 0x01, 0x32]⟩, ⟨map, .map, 0, []⟩,
    ⟨payload, .bstr, 2, [0x68, 0x69]⟩, ⟨signature, .bstr, 64, sign1Answer.sig⟩]

theorem tolerant_rewidth_ed25519 :
  sign1VerifyEx { ed25519Args with input := some (.ofBytes ([0xD8, 0x12, 0x98, 0x04, 0x58, 0x03, 0xA1, 0x01, 0x32,
      0xB9, 0x00, 0x00, 0x58, 0x02, 0x68, 0x69, 0x59, 0x00, 0x40] ++ sign1Answer.sig)) }
      ⟨some .zero, some none, some 0⟩ allowNonpreferredFlag
    = (.ok (), .verified ⟨-19, none, none, none, 0, 0⟩ (some [0x68, 0x69]))
  := by
  have hflags : decodeFlagsValid allowNonpreferredFlag = true := by decide
  have htol : allowsNonpreferred allowNonpreferredFlag = true := by decide
  let tokens := ed25519Tokens .imm .imm .imm .imm .imm .one
  let tokens' := ed25519Tokens .one .one .one .two .one .two
  have hsame : List.Forall₂ Token.SameArgument tokens tokens' := by decide
  have hrewidth : Rewidth (Buffer.ofBytes (tokens.flatMap Token.bytes)).bytes
      (Buffer.ofBytes (tokens'.flatMap Token.bytes)).bytes := Rewidth.of_tokens hsame
  have hek : haveHpke0 = true → WithoutHpkeEntry allowNonpreferredFlag tagSign1 (tokens.flatMap Token.bytes)
      ∧ WithoutHpkeEntry allowNonpreferredFlag tagSign1 (tokens'.flatMap Token.bytes) := by
    intro _
    constructor
    all_goals apply withoutHpkeEntry_of_tokens
    all_goals decide
  apply ((tolerant_rewidth hflags htol hrewidth (by decide) ed25519Args ⟨some .zero, some none, some 0⟩
    (.verified ⟨-19, none, none, none, 0, 0⟩ (some [0x68, 0x69]))).1 hek).mp
  have hbytes : tokens.flatMap Token.bytes = sign1Message := by decide
  rw [hbytes]
  rfl

/-- The encapsulated key of HPKE is decoded strictly: its head has no other form, whereas the one of a kid has. -/
example :
    (decodeBuffer (decodeUnprotectedHdrEx .zero .init allowNonpreferredFlag) (.ofBytes [0xA1, 0x23, 0x41, 0x01])).isOk
        = true
      ∧ (decodeBuffer (decodeUnprotectedHdrEx .zero .init allowNonpreferredFlag)
        (.ofBytes [0xA1, 0x23, 0x58, 0x01, 0x01])).isOk = false
      ∧ (decodeBuffer (decodeUnprotectedHdrEx .zero .init allowNonpreferredFlag)
        (.ofBytes [0xA1, 0x04, 0x58, 0x01, 0x01])).isOk = true := by
  decide

end Instances

end WolfCose
