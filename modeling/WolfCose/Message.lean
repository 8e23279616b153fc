import WolfCose.Hdr.Merge
import WolfCose.Alg
import WolfCose.Fault

/-!
# The body of a message

The messages of COSE start alike: an optional tag, an array of a fixed size, the two buckets
of the header, and a payload that may be detached.  Every verification function decodes these
steps itself; here they are once, with what they read.
-/

namespace WolfCose

open Program Cbor Settings

variable [Settings]

/-! ### Decoding -/

/-- The first steps of a verification function: an optional tag, which has to be that of the
message, and the start of an array of `count` elements. -/
def decodeStart (expected count : Nat) (flags : UInt32) : Dec Unit := do
  let ctx ← get
  onlyIf (ctx.peekType = some .tag) do
    let tag ← decodeTagEx flags
    failIf (tag ≠ expected) .coseBadTag
  let arrayCount ← decodeArrayStartEx flags
  failIf (arrayCount ≠ count) .cborMalformed

/-- The header of a message or of one of its signers or recipients, with the content of the
protected bucket, and whether this bucket has an algorithm. -/
structure Headers where
  protectedData : Bytes
  hdr : Hdr
  algProtected : Bool

/-- The steps that decode both buckets of a header. -/
def decodeHeaders (flags : UInt32) : Dec Headers := do
  let protectedData ← decodeBstrEx flags
  let (hdr, hdrState) ← MonadExcept.ofExcept (decodeProtectedHdrEx (.mem protectedData) .zero flags)
  let algProtected := hdrState.contains hdrAlg
  let (hdr, _) ← decodeUnprotectedHdrEx hdr hdrState flags
  return ⟨protectedData, hdr, algProtected⟩

/-- The steps that decode a payload, which is null when it is detached; it then has to be
given.  The result is the header with the flag of a detached payload, and the payload in the
message. -/
def decodePayload (detached : Pointer) (hdr : Hdr) (flags : UInt32) : Dec (Hdr × Option Bytes) := do
  let ctx ← get
  if ctx.rest.head? = some cborNull then do
    set (ctx.advance 1)
    failIf (detached.isNull = true) .detachedPayload
    return ({ hdr with flags := hdr.flags ||| hdrFlagDetached }, none)
  else do
    let payloadData ← decodeBstrEx flags
    return (hdr, some payloadData)

/-- The step that rejects bytes after the message. -/
def decodeEnd : Dec Unit := do
  let ctx ← get
  failIf (ctx.idx ≠ ctx.bufSz) .cborMalformed

/-- The steps that decode a message of four fields: the header, the payload, and a byte string
that authenticates them. -/
def decodeSingle {α : Type} (tag : Nat) (make : Headers → Hdr → Option Bytes → Bytes → α) (detached : Pointer)
    (flags : UInt32) : Dec α := do
  decodeStart tag 4 flags
  let headers ← decodeHeaders flags
  let (hdr, payload) ← decodePayload detached headers.hdr flags
  let data ← decodeBstrEx flags
  decodeEnd
  return make headers hdr payload data

/-- The payload that is authenticated: the one in the message, or the detached one. -/
def verifyPayload (detached : Pointer) (payload : Option Bytes) : Pointer :=
  match payload with
  | some bs => .mem bs
  | none => detached

/-! ### What is read -/

/-- An optional tag and the head of an array. -/
def StartValue (flags : UInt32) (tag count : Nat) (bs : Bytes) : Prop :=
  ∃ tagBytes head, bs = tagBytes ++ head.bytes
    ∧ (tagBytes = [] ∨ TokenValue flags (fun t => t.major = .tag ∧ t.val = tag) tagBytes)
    ∧ Accepted flags head ∧ head.major = .array ∧ head.val = count

theorem runs_decodeStart {tag count : Nat} {flags : UInt32} (hf : decodeFlagsValid flags = true)
    (ctx : DecCtx) (u : Unit) (ctx' : DecCtx) :
  Runs (decodeStart tag count flags) ctx u ctx'
    ↔ ∃ bs, StartValue flags tag count bs ∧ ctx.Consumes bs ctx' ∧ count ≤ ctx'.rest.length
  := by
  have room {head : Token} (hm : head.major = .array) (hv : head.val = count) :
      head.children = count := by
    rw [Token.children, hm, ← hv]
  simp only [decodeStart, runs_bind, runs_get, runs_onlyIf, runs_failIf, runs_decodeTagEx,
    runs_decodeArrayStartEx, ne_eq, Decidable.not_not]
  constructor
  · rintro ⟨_, _, ⟨rfl, rfl⟩, _, ctx₁, htag, n, _, ⟨-, head, hh, hc, hm, hv, hroom⟩, rfl, rfl⟩
    rw [room hm hv] at hroom
    rcases htag with ⟨-, v, _, ⟨-, t, ht, hct, htm, htv⟩, rfl, rfl⟩ | ⟨-, rfl⟩
    · exact ⟨_, ⟨t.bytes, head, rfl, .inr ⟨t, ht, ⟨htm, htv⟩, rfl⟩, hh, hm, hv⟩, hct.trans hc, hroom⟩
    · exact ⟨_, ⟨[], head, rfl, .inl rfl, hh, hm, hv⟩, hc, hroom⟩
  · rintro ⟨_, ⟨tagBytes, head, rfl, htag, hh, hm, hv⟩, hc, hroom⟩
    obtain ⟨ctx₁, hct, hch⟩ := hc.split
    rw [← room hm hv] at hroom
    refine ⟨ctx, ctx, ⟨rfl, rfl⟩, (), ctx₁, ?_, count, ctx', ⟨hf, head, hh, hch, hm, hv, hroom⟩, rfl, rfl⟩
    rcases htag with rfl | ⟨t, ht, ⟨htm, htv⟩, rfl⟩
    · right
      rw [List.nil_append, ← List.append_nil head.bytes] at hc
      rw [DecCtx.peekType_eq hh.wellFormed hc, hm]
      exact ⟨(by rintro ⟨⟩), ctx.consumes_nil.unique hct⟩
    · left
      rw [DecCtx.peekType_eq ht.wellFormed hc, htm]
      exact ⟨rfl, tag, ctx₁, ⟨hf, t, ht, hct, htm, htv⟩, rfl, rfl⟩

/-- A protected bucket in a byte string, and an unprotected map. -/
def HeadersValue (flags : UInt32) (bs : Bytes) (headers : Headers) : Prop :=
  ∃ prot r₁ head es ek, bs = prot ++ mapBytes head es ∧ BstrValue flags prot headers.protectedData
    ∧ decodeProtectedHdrEx (.mem headers.protectedData) .zero flags = .ok r₁
    ∧ headers.algProtected = r₁.2.contains hdrAlg
    ∧ UnprotectedMap flags false r₁.2 0 r₁.1 ⟨headers.hdr, ek⟩ head es

/-- Where an unprotected map lies does not matter. -/
theorem UnprotectedMap.move {flags : UInt32} {wantEk : Bool} {hdrState : HdrState} {idx : Nat}
    {hdr : Hdr} {vars' : UnprotectedVars} {head : Token} {es : List Entry}
    (h : UnprotectedMap flags wantEk hdrState idx hdr vars' head es) (idx' : Nat) :
  UnprotectedMap flags wantEk hdrState idx' hdr vars' head es
  where
  map := h.map
  scans := h.scans.map (W := fun label => UnprotectedValue flags wantEk label 0) id
    (fun _ _ _ _ _ hv => hv) (idx' + head.bytes.length)
  ivs := h.ivs

theorem reads_decodeHeaders {flags : UInt32} (hf : decodeFlagsValid flags = true) :
  Reads (decodeHeaders flags) (HeadersValue flags)
  := by
  intro ctx headers ctx'
  simp only [decodeHeaders, runs_bind, runs_pure, runs_ofExcept, reads_decodeBstrEx hf _ _ _,
    runs_decodeUnprotectedHdrEx]
  constructor
  · rintro ⟨protectedData, ctx₁, ⟨prot, hprot, hc⟩, r₁, _, ⟨hdec, rfl⟩, ⟨hdr, st⟩, _,
      ⟨-, head, es, ek, hmap, hc', -⟩, rfl, rfl⟩
    exact ⟨_, ⟨prot, r₁, head, es, ek, rfl, hprot, hdec, rfl, hmap.move 0⟩, hc.trans hc'⟩
  · rintro ⟨_, ⟨prot, r₁, head, es, ek, rfl, hprot, hdec, halg, hmap⟩, hc⟩
    obtain ⟨ctx₁, hc₁, hc₂⟩ := hc.split
    refine ⟨headers.protectedData, ctx₁, ⟨prot, hprot, hc₁⟩, r₁, ctx₁, ⟨hdec, rfl⟩, (headers.hdr, _), ctx',
      ⟨hf, head, es, ek, hmap.move _, hc₂, rfl⟩, ?_, rfl⟩
    rw [← halg]

/-- A payload: null when it is detached, or a byte string. -/
def PayloadValue (flags : UInt32) (detached : Pointer) (hdr : Hdr) (bs : Bytes)
    (r : Hdr × Option Bytes) : Prop :=
  (bs = [cborNull] ∧ detached.isNull = false
      ∧ r = ({ hdr with flags := hdr.flags ||| hdrFlagDetached }, none))
    ∨ ∃ payload, BstrValue flags bs payload ∧ r = (hdr, some payload)

theorem BstrValue.head?_ne_null {flags : UInt32} {bs data r : Bytes} (h : BstrValue flags bs data) :
  (bs ++ r).head? ≠ some cborNull
  := by
  obtain ⟨t, ht, ⟨hm, -⟩, rfl⟩ := h
  rw [Token.bytes, headBytes, hm]
  simp only [List.cons_append, List.head?_cons, ne_eq, Option.some.injEq]
  intro he
  have hty := congrArg MajorType.ofByte he
  rw [ofByte_initialByte .bstr (Nat.lt_trans (Width.ai_lt ht.wellFormed.val_lt) (by decide))] at hty
  revert hty
  decide

/-- Null is a token that is accepted. -/
theorem accepted_null :
  Accepted 0 ⟨.imm, .simple, 22, []⟩
  := ⟨⟨by decide, rfl⟩, by rintro _ ⟨⟩, fun _ h => absurd rfl h, by rintro ⟨⟩⟩

/-- Null is one byte. -/
theorem consumes_null {ctx : DecCtx} (h : ctx.rest.head? = some cborNull) :
  ctx.Consumes [cborNull] (ctx.advance 1)
  := by
  cases hr : ctx.rest with
  | nil =>
      rw [hr] at h
      cases h
  | cons b bs =>
      rw [hr] at h
      cases h
      exact DecCtx.consumes_of_rest hr

/-- An item that is read is null or does not start like null. -/
theorem runs_decodeHead_field {ctx ctx' : DecCtx} {item : Item} :
  Runs decodeHead ctx item ctx'
    ↔ (ctx.rest.head? = some cborNull ∧ ctx.Consumes [cborNull] ctx' ∧ item = ⟨.simple, 22, []⟩)
      ∨ (ctx.rest.head? ≠ some cborNull ∧ ∃ t, Accepted 0 t ∧ ctx.Consumes t.bytes ctx' ∧ item = tokenItem t)
  := by
  rw [decodeHead, runs_decodeHeadEx]
  constructor
  · rintro ⟨-, t, ht, hc, rfl⟩
    by_cases hnull : ctx.rest.head? = some cborNull
    · have hadv : ctx.Consumes (Token.bytes ⟨.imm, .simple, 22, []⟩) (ctx.advance 1) := consumes_null hnull
      obtain ⟨rfl, rfl⟩ := ht.consumes_unique accepted_null hc hadv
      exact .inl ⟨hnull, hadv, rfl⟩
    · exact .inr ⟨hnull, t, ht, hc, rfl⟩
  · rintro (⟨-, hc, rfl⟩ | ⟨-, t, ht, hc, rfl⟩)
    · exact ⟨decodeFlagsValid_zero, _, accepted_null, hc, rfl⟩
    · exact ⟨decodeFlagsValid_zero, t, ht, hc, rfl⟩

theorem reads_decodePayload {flags : UInt32} (hf : decodeFlagsValid flags = true) (detached : Pointer)
    (hdr : Hdr) :
  Reads (decodePayload detached hdr flags) (PayloadValue flags detached hdr)
  := by
  intro ctx r ctx'
  simp only [decodePayload, runs_bind, runs_get, runs_ite, runs_set, runs_failIf, runs_pure,
    reads_decodeBstrEx hf _ _ _, Bool.not_eq_true]
  constructor
  · rintro ⟨_, _, ⟨rfl, rfl⟩, ⟨hnull, _, _, rfl, _, _, ⟨hd, rfl⟩, rfl, rfl⟩ |
      ⟨-, payload, _, ⟨bs, hbs, hc⟩, rfl, rfl⟩⟩
    · exact ⟨_, .inl ⟨rfl, hd, rfl⟩, consumes_null hnull⟩
    · exact ⟨bs, .inr ⟨payload, hbs, rfl⟩, hc⟩
  · rintro ⟨bs, ⟨rfl, hd, rfl⟩ | ⟨payload, hbs, rfl⟩, hc⟩
    · have hr := hc.rest_eq
      refine ⟨ctx, ctx, ⟨rfl, rfl⟩, .inl ⟨?_, (), _, rfl, (), _, ⟨hd, rfl⟩, rfl, ?_⟩⟩
      · rw [hr]
        rfl
      · exact (DecCtx.consumes_of_rest hr).unique hc
    · refine ⟨ctx, ctx, ⟨rfl, rfl⟩, .inr ⟨?_, payload, ctx', ⟨bs, hbs, hc⟩, rfl, rfl⟩⟩
      rw [hc.rest_eq]
      exact hbs.head?_ne_null

theorem runs_decodeEnd (ctx : DecCtx) (u : Unit) (ctx' : DecCtx) :
  Runs decodeEnd ctx u ctx' ↔ ctx.idx = ctx.bufSz ∧ ctx = ctx'
  := by
  rw [and_comm]
  simp [decodeEnd]

theorem PayloadValue.ne_nil {flags : UInt32} {detached : Pointer} {hdr : Hdr} {bs : Bytes}
    {r : Hdr × Option Bytes} (h : PayloadValue flags detached hdr bs r) :
  bs ≠ []
  := by
  obtain ⟨rfl, -, -⟩ | ⟨_, h, -⟩ := h
  · rintro ⟨⟩
  · apply h.ne_nil

/-- The payload does not change the algorithm of the header. -/
theorem PayloadValue.alg {flags : UInt32} {detached : Pointer} {hdr : Hdr} {bs : Bytes}
    {r : Hdr × Option Bytes} (h : PayloadValue flags detached hdr bs r) :
  r.1.alg = hdr.alg
  := by
  obtain ⟨-, -, rfl⟩ | ⟨_, -, rfl⟩ := h
  · rfl
  · rfl

theorem HeadersValue.two_le_length {flags : UInt32} {bs : Bytes} {headers : Headers}
    (h : HeadersValue flags bs headers) :
  2 ≤ bs.length
  := by
  obtain ⟨prot, _, head, es, _, rfl, hprot, -⟩ := h
  have h₁ := List.length_pos_iff.mpr hprot.ne_nil
  have h₂ := head.one_le_length_bytes
  simp only [List.length_append]
  omega

/-- The bytes of a message of four fields and what they say. -/
def SingleEncoding (flags : UInt32) (tag : Nat) (detached : Pointer) (input : Bytes) (msgHeaders : Headers)
    (msgHdr : Hdr) (msgPayload : Option Bytes) (data : Bytes) : Prop :=
  ∃ start headers payload signature, input = start ++ (headers ++ (payload ++ signature))
    ∧ StartValue flags tag 4 start ∧ HeadersValue flags headers msgHeaders
    ∧ PayloadValue flags detached msgHeaders.hdr payload (msgHdr, msgPayload)
    ∧ BstrValue flags signature data

/-- A message is decoded exactly if it consists of its four fields, with nothing after them. -/
theorem decodeSingle_eq_ok {α : Type} {tag : Nat} {make : Headers → Hdr → Option Bytes → Bytes → α}
    {flags : UInt32} (hf : decodeFlagsValid flags = true) {detached : Pointer} {input : Buffer} {a : α} :
  decodeBuffer (decodeSingle tag make detached flags) input = .ok a
    ↔ ∃ headers hdr payload data, make headers hdr payload data = a
      ∧ SingleEncoding flags tag detached input.bytes headers hdr payload data
  := by
  simp only [decodeBuffer_eq_ok, decodeSingle, runs_bind, runs_pure, runs_decodeStart hf,
    reads_decodeHeaders hf _ _ _, reads_decodePayload hf _ _ _ _ _, reads_decodeBstrEx hf _ _ _,
    runs_decodeEnd]
  constructor
  · rintro ⟨_, _, c₁, ⟨start, hstart, h₁, -⟩, headers, c₂, ⟨bs₂, hheaders, h₂⟩, ⟨hdr, payload⟩, c₃,
      ⟨bs₃, hpayload, h₃⟩, data, c₄, ⟨bs₄, hsig, h₄⟩, _, _, ⟨hend, rfl⟩, rfl, rfl⟩
    refine ⟨headers, hdr, payload, data, rfl, start, bs₂, bs₃, bs₄, ?_, hstart, hheaders, hpayload, hsig⟩
    exact (h₁.trans (h₂.trans (h₃.trans h₄))).init_end hend
  · rintro ⟨headers, hdr, payload, data, rfl, start, bs₂, bs₃, bs₄, hinput, hstart, hheaders, hpayload, hsig⟩
    obtain ⟨last, hc, hfin⟩ := DecCtx.consumes_whole input
    rw [hinput] at hc
    obtain ⟨c₁, h₁, hc⟩ := hc.split
    have hroom : 4 ≤ c₁.rest.length := by
      have h₂ := hheaders.two_le_length
      have h₃ := List.length_pos_iff.mpr hpayload.ne_nil
      have h₄ := List.length_pos_iff.mpr hsig.ne_nil
      rw [hc.length_rest_eq]
      simp only [List.length_append]
      omega
    obtain ⟨c₂, h₂, hc⟩ := hc.split
    obtain ⟨c₃, h₃, h₄⟩ := hc.split
    exact ⟨_, (), c₁, ⟨start, hstart, h₁, hroom⟩, headers, c₂, ⟨bs₂, hheaders, h₂⟩,
      (hdr, payload), c₃, ⟨bs₃, hpayload, h₃⟩, data, _, ⟨bs₄, hsig, h₄⟩, (), _,
      ⟨hfin, rfl⟩, rfl, rfl⟩

/-! ### Results -/

/-- The memory a verification function writes its results to: the header, the pointer to the
payload and its length.  A part is missing if the caller passed a null pointer for it. -/
structure VerifyOut where
  hdr : Option Hdr
  payload : Option (Option Bytes)
  payloadLen : Option Nat
  deriving DecidableEq

namespace VerifyOut

/-- The results of a verification that succeeds. -/
def verified (hdr : Hdr) (payload : Option Bytes) : VerifyOut :=
  ⟨some hdr, some payload, some (payload.getD []).length⟩

/-- The last steps of a verification function: the results are stored, or cleared so that a
caller that skips the return code sees no stale ones. -/
def finish (out : VerifyOut) (ret : Checked (Hdr × Option Bytes)) : Checked Unit × VerifyOut :=
  match ret with
  | .ok (hdr, payload) => (.ok (), verified hdr payload)
  | .error fault =>
      let hdr := out.hdr.map fun _ => .zero
      if out.payload.isSome = true ∧ out.payloadLen.isSome = true then
        (.error fault, ⟨hdr, some none, some 0⟩)
      else
        (.error fault, { out with hdr })

/-- Whether the results are cleared: the header is all zero, and where both the pointer to the payload and
its length are asked for, the pointer is null and the length zero. -/
def Cleared (out : VerifyOut) : Prop :=
  (∀ hdr, out.hdr = some hdr → hdr = .zero)
    ∧ (out.payload.isSome = true → out.payloadLen.isSome = true →
      out.payload = some none ∧ out.payloadLen = some 0)

variable {out out' : VerifyOut} {ret : Checked (Hdr × Option Bytes)}

omit [Settings] in
theorem finish_ok (h : out.finish ret = (.ok (), out')) :
  ∃ hdr payload, ret = .ok (hdr, payload) ∧ out' = verified hdr payload
  := by
  unfold finish at h
  split at h
  · exact ⟨_, _, rfl, (Prod.mk.inj h).2.symm⟩
  · split at h <;> cases h

omit [Settings] in
/-- A verification that fails leaves nothing behind. -/
theorem finish_error {fault : Fault} (h : out.finish ret = (.error fault, out')) :
  out'.Cleared
  := by
  unfold finish at h
  split at h
  · cases h
  · have zero : ∀ hdr, out.hdr.map (fun _ => Hdr.zero) = some hdr → hdr = .zero := by
      intro hdr he
      obtain ⟨_, -, rfl⟩ := Option.map_eq_some_iff.mp he
      rfl
    split at h
    · cases h
      exact ⟨zero, fun _ _ => ⟨rfl, rfl⟩⟩
    · rename_i hn
      cases h
      exact ⟨zero, fun h₁ h₂ => absurd ⟨h₁, h₂⟩ hn⟩

end VerifyOut

/-! ### The algorithm of a header -/

/-- The protected bucket has an algorithm parameter with the integer `alg`. -/
def ProtectedAlg (flags : UInt32) (protectedData : Bytes) (alg : Int) : Prop :=
  ∃ prot e, BucketEntries flags protectedData prot ∧ e ∈ prot ∧ e.label = .int hdrAlg
    ∧ TokenValue flags (fun t => intOf t = some alg) e.value

/-- The header is merged from the entries of the two buckets, and the flag says whether the
protected one has an algorithm. -/
theorem HeadersValue.merged {flags : UInt32} {bs : Bytes} {headers : Headers}
    (h : HeadersValue flags bs headers) (hlen : headers.protectedData.length ≤ sizeMax) :
  ∃ prot unprot, BucketEntries flags headers.protectedData prot ∧ Merged flags prot unprot headers.hdr
    ∧ (headers.algProtected = true ↔ .int hdrAlg ∈ labelsOf prot)
  := by
  obtain ⟨_, r₁, head, es, ek, -, -, hdec, halg, hmap⟩ := h
  let data : Buffer := ⟨headers.protectedData, hlen⟩
  have hdata : decodeProtectedHdrEx (.mem data.bytes) .zero flags = .ok r₁ := hdec
  obtain ⟨prot, hp, hrep, -, hm⟩ := hmap.merged hdata
  refine ⟨prot, es, hp, hm, ?_⟩
  rw [halg, hrep.contains_iff]

/-- An algorithm that is set and protected is that of the protected bucket. -/
theorem HeadersValue.protectedAlg {flags : UInt32} {bs : Bytes} {headers : Headers}
    (h : HeadersValue flags bs headers) (hlen : headers.protectedData.length ≤ sizeMax)
    (hset : headers.hdr.alg ≠ 0) (hprot : headers.algProtected = true) :
  ProtectedAlg flags headers.protectedData headers.hdr.alg
  := by
  obtain ⟨prot, unprot, hp, hm, hiff⟩ := h.merged hlen
  obtain ⟨e, he, hl⟩ := List.mem_map.mp (hiff.mp hprot)
  have hreport := hm.alg
  -- the entry found for the label is the first one, and that is in the protected bucket
  have hfind : ∃ e', entryWith (.int hdrAlg) (prot ++ unprot) = some e' ∧ e' ∈ prot
      ∧ e'.label = .int hdrAlg := by
    unfold entryWith
    cases hf : prot.find? (fun x => x.label = .int hdrAlg) with
    | none =>
        rw [List.find?_eq_none] at hf
        exact absurd (hf e he) (by simp [hl])
    | some e' =>
        refine ⟨e', ?_, List.mem_of_find?_eq_some hf, by simpa using List.find?_some hf⟩
        rw [List.find?_append, hf]
        rfl
  obtain ⟨e', hfind, he', hl'⟩ := hfind
  unfold FieldReport at hreport
  rw [hfind] at hreport
  refine ⟨prot, e', hp, he', hl', ?_⟩
  rcases hreport with h | ⟨-, hz⟩
  · exact h
  · exact absurd hz hset

end WolfCose
