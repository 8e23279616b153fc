import WolfCose.EatPsa.Claims
import WolfCose.Lib.Memory

/-!
# Encoding PSA claims

`wc_CoseEatPsaToken_EncodeClaims`: the claims are validated, and encoded as a map in the order of
their labels.  Whatever it accepts, the decoder gives back, and the iterator over the software
components hands out the ones that were encoded.
-/

namespace WolfCose

open Program Cbor Settings EatPsaSettings

/-! ### Validation -/

/-- `wolfCose_EatPsaValidateComponent` -/
def eatPsaValidateComponent (component : EatPsaComponent) : Except Err Unit :=
  rejectIf (eatPsaIsHash component.measurementValue = false ∨ eatPsaIsHash component.signerId = false ∨
    eatPsaIsOptionalSpan component.measurementType = false ∨ eatPsaIsOptionalSpan component.version = false ∨
    eatPsaIsOptionalSpan component.measurementDesc = false) .eatPsaClaim

section

variable [Settings] [EatPsaSettings]

/-- `wolfCose_EatPsaValidateClaims` -/
def eatPsaValidateClaims (claims : EatPsaClaims) : Except Err (List EatPsaComponent) := do
  rejectIf (claims.nonce.isNull = true ∨
    (claims.nonce.len ≠ 32 ∧ claims.nonce.len ≠ 48 ∧ claims.nonce.len ≠ 64) ∨
    claims.ueid.isNull = true ∨ claims.ueid.len ≠ 33 ∨ claims.ueid.bytes.head? ≠ some 0x01 ∨
    claims.implementationId.isNull = true ∨ claims.implementationId.len ≠ 32 ∨ claims.clientId = 0 ∨
    eatPsaLifecycleValid claims.lifecycle = false) .eatPsaClaim
  match claims.components with
  | none => throw .eatPsaClaim
  | some components => do
      rejectIf (components.length = 0 ∨ components.length > maxComponents) .eatPsaClaim
      rejectIf (eatPsaIsOptionalSpan claims.bootSeed = false ∨
        (claims.bootSeed.isNull = false ∧ (claims.bootSeed.len < 8 ∨ claims.bootSeed.len > 32)) ∨
        eatPsaIsOptionalSpan claims.certificationReference = false ∨
        (claims.certificationReference.isNull = false ∧
          eatPsaCertRefValid claims.certificationReference 18 true = false) ∨
        eatPsaIsOptionalSpan claims.verificationServiceIndicator = false) .eatPsaClaim
      components.forM eatPsaValidateComponent
      return components

/-! ### Encoding -/

/-- A claim with a text or byte string that is left out where the span is absent. -/
def eatPsaEncodeOptional (label : Nat) (encode : Pointer → Enc Unit) (span : Pointer) : Enc Unit :=
  onlyIf (span.isNull = false) do
    encodeUint label
    encode span

/-- Whether a span counts as an entry. -/
def spanCount (span : Pointer) : Nat := if span.isNull = false then 1 else 0

/-- `wolfCose_EatPsaEncodeComponent` -/
def eatPsaEncodeComponent (component : EatPsaComponent) : Enc Unit := do
  encodeMapStart (2 + spanCount component.measurementType + spanCount component.version +
    spanCount component.measurementDesc)
  eatPsaEncodeOptional 1 encodeTstr component.measurementType
  encodeUint 2
  encodeBstr component.measurementValue
  eatPsaEncodeOptional 4 encodeTstr component.version
  encodeUint 5
  encodeBstr component.signerId
  eatPsaEncodeOptional 6 encodeTstr component.measurementDesc

/-- The steps of `wc_CoseEatPsaToken_EncodeClaims` that write the map. -/
def eatPsaEncodeMap (claims : EatPsaClaims) (components : List EatPsaComponent) : Enc Unit := do
  encodeMapStart (7 + spanCount claims.bootSeed + spanCount claims.certificationReference +
    spanCount claims.verificationServiceIndicator)
  encodeUint 10
  encodeBstr claims.nonce
  encodeUint 256
  encodeBstr claims.ueid
  encodeUint 265
  encodeTstr (.mem eatPsaTfmProfile)
  eatPsaEncodeOptional 268 encodeBstr claims.bootSeed
  encodeUint 2394
  encodeInt claims.clientId.toInt
  encodeUint 2395
  encodeUint claims.lifecycle.toNat
  encodeUint 2396
  encodeBstr claims.implementationId
  eatPsaEncodeOptional 2398 encodeTstr claims.certificationReference
  encodeUint 2399
  encodeArrayStart components.length
  components.forM eatPsaEncodeComponent
  eatPsaEncodeOptional 2400 encodeTstr claims.verificationServiceIndicator

/-- `wolfCose_EatPsaBuffersOverlap` -/
def eatPsaBuffersOverlap (a b : MemRange) : Bool :=
  a.len ≠ 0 ∧ b.len ≠ 0 ∧ ((a.start ≤ b.start ∧ b.start - a.start < a.len) ∨
    (a.start > b.start ∧ a.start - b.start < b.len))

/-- `wolfCose_EatPsaSpanOverlapsBuffer` for a span whose data starts at an address. -/
def eatPsaSpanOverlapsBuffer (start : Nat) (span : Pointer) (buffer : MemRange) : Bool :=
  eatPsaBuffersOverlap ⟨start, span.bytes.length⟩ buffer

/-- Where a component lies, and where the data of its spans starts. -/
structure EatPsaComponentPlace where
  object : MemRange
  measurementType : Nat
  measurementValue : Nat
  version : Nat
  signerId : Nat
  measurementDesc : Nat

/-- Where the claims, their components and the output lie, and where the data of the spans
starts. -/
structure EatPsaPlace where
  object : MemRange
  nonce : Nat
  ueid : Nat
  implementationId : Nat
  bootSeed : Nat
  certificationReference : Nat
  verificationServiceIndicator : Nat
  components : Nat → EatPsaComponentPlace
  out : Nat

/-- `wolfCose_EatPsaComponentOverlapsBuffer` -/
def eatPsaComponentOverlapsBuffer (place : EatPsaComponentPlace) (component : EatPsaComponent)
    (buffer : MemRange) : Bool :=
  eatPsaBuffersOverlap place.object buffer ||
    eatPsaSpanOverlapsBuffer place.measurementType component.measurementType buffer ||
    eatPsaSpanOverlapsBuffer place.measurementValue component.measurementValue buffer ||
    eatPsaSpanOverlapsBuffer place.version component.version buffer ||
    eatPsaSpanOverlapsBuffer place.signerId component.signerId buffer ||
    eatPsaSpanOverlapsBuffer place.measurementDesc component.measurementDesc buffer

/-- `wolfCose_EatPsaClaimsOverlapBuffer` -/
def eatPsaClaimsOverlapBuffer (place : EatPsaPlace) (claims : EatPsaClaims)
    (components : List EatPsaComponent) (buffer : MemRange) : Bool :=
  eatPsaBuffersOverlap place.object buffer ||
    eatPsaSpanOverlapsBuffer place.nonce claims.nonce buffer ||
    eatPsaSpanOverlapsBuffer place.ueid claims.ueid buffer ||
    eatPsaSpanOverlapsBuffer place.implementationId claims.implementationId buffer ||
    eatPsaSpanOverlapsBuffer place.bootSeed claims.bootSeed buffer ||
    eatPsaSpanOverlapsBuffer place.certificationReference claims.certificationReference buffer ||
    eatPsaSpanOverlapsBuffer place.verificationServiceIndicator claims.verificationServiceIndicator buffer ||
    components.zipIdx.any fun (component, i) =>
      eatPsaComponentOverlapsBuffer (place.components i) component buffer

/-- `wc_CoseEatPsaToken_EncodeClaims`; the result is the content of the output up to the reported
length. -/
def eatPsaEncodeClaims (claims : Option EatPsaClaims) (place : EatPsaPlace) (out : Option Buffer) :
    Except Err Bytes :=
  match claims, out with
  | some claims, some out => do
      let components ← eatPsaValidateClaims claims
      rejectIf (eatPsaClaimsOverlapBuffer place claims components ⟨place.out, out.bytes.length⟩ = true) .invalidArg
      encodeInto (eatPsaEncodeMap claims components) out
  | none, some _ => throw .eatPsaClaim
  | _, none => throw .invalidArg

/-! ### What is written -/

/-- An entry with the preferred head of an integer as its label. -/
def encodedEntry (label : Nat) (value : Bytes) : EatPsaEntry :=
  ⟨Token.ofHead .uint label, .uint label, value⟩

/-- What an optional span gives: nothing where it is absent. -/
def optionalSpan {α : Type} (f : Bytes → α) (span : Pointer) : List α :=
  if span.isNull = false then [f span.bytes] else []

/-- The claims of a component in the order in which they are encoded. -/
def componentClaims (component : EatPsaComponent) : List (EatPsaComponentClaim × Bytes) :=
  optionalSpan (fun bs => (.type, bs)) component.measurementType ++
    ((.value, component.measurementValue.bytes) :: (optionalSpan (fun bs => (.ver, bs)) component.version ++
      ((.signer, component.signerId.bytes) :: optionalSpan (fun bs => (.desc, bs)) component.measurementDesc)))

/-- The entry of a claim of a component. -/
def componentEntry (r : EatPsaComponentClaim × Bytes) : EatPsaEntry :=
  encodedEntry r.1.label (stringBytes r.1.majorType r.2)

/-- The encoding of a component. -/
def componentBytes (component : EatPsaComponent) : Bytes :=
  eatPsaMapBytes (Token.ofHead .map (componentClaims component).length)
    ((componentClaims component).map componentEntry)

/-- The texts of a component are UTF-8. -/
def EatPsaComponent.TextsValid (component : EatPsaComponent) : Prop :=
  isUtf8 component.measurementType.bytes = true ∧ isUtf8 component.version.bytes = true
    ∧ isUtf8 component.measurementDesc.bytes = true

omit [Settings] [EatPsaSettings] in
theorem encodedEntry_bytes (label : Nat) (value : Bytes) :
  (encodedEntry label value).bytes = preferredHead .uint label ++ value
  := by
  rw [EatPsaEntry.bytes, encodedEntry, Token.bytes_ofHead]

omit [Settings] [EatPsaSettings] in
theorem length_optionalSpan {α : Type} (f : Bytes → α) (span : Pointer) :
  (optionalSpan f span).length = spanCount span
  := by
  unfold optionalSpan spanCount
  split <;> rfl

omit [Settings] [EatPsaSettings] in
theorem map_optionalSpan {α β : Type} (f : Bytes → α) (g : α → β) (span : Pointer) :
  (optionalSpan f span).map g = optionalSpan (fun bs => g (f bs)) span
  := by
  unfold optionalSpan
  split <;> rfl

omit [Settings] [EatPsaSettings] in
theorem entriesBytes_optionalSpan (label : Nat) (m : MajorType) (span : Pointer) :
  eatPsaEntriesBytes (optionalSpan (fun bs => encodedEntry label (stringBytes m bs)) span)
    = if span.isNull = false then preferredHead .uint label ++ stringBytes m span.bytes else []
  := by
  unfold optionalSpan
  split
  · rw [eatPsaEntriesBytes_cons, eatPsaEntriesBytes_nil, List.append_nil, encodedEntry_bytes]
  · rfl

omit [EatPsaSettings] in
theorem emits_optionalBstr (label : Nat) (span : Pointer) :
  Emits (eatPsaEncodeOptional label encodeBstr span)
    (eatPsaEntriesBytes (optionalSpan (fun bs => encodedEntry label (stringBytes .bstr bs)) span))
  := by
  rw [entriesBytes_optionalSpan]
  apply Emits.onlyIf
  intro h
  apply Emits.bind (emits_encodeHead _ _) (emits_encodeBstr h)

omit [EatPsaSettings] in
theorem emitsIf_optionalTstr (label : Nat) (span : Pointer) :
  EmitsIf (isUtf8 span.bytes = true) (eatPsaEncodeOptional label encodeTstr span)
    (eatPsaEntriesBytes (optionalSpan (fun bs => encodedEntry label (stringBytes .tstr bs)) span))
  := by
  rw [entriesBytes_optionalSpan]
  have hsome := EmitsIf.onlyIf (o := span.isNull = false)
    (EmitsIf.bindEmits (emits_encodeHead .uint label) (emitsIf_encodeTstr span))
  refine hsome.congr ?_ rfl
  cases span with
  | null n => exact iff_of_true (by rintro ⟨⟩) rfl
  | mem bs => simp [Pointer.isNull, Pointer.valid_mem]

omit [EatPsaSettings] in
/-- A component is written as a map of its claims, unless one of its texts is not UTF-8. -/
theorem emitsIf_component {component : EatPsaComponent} (hvalue : component.measurementValue.isNull = false)
    (hsigner : component.signerId.isNull = false) :
  EmitsIf component.TextsValid (eatPsaEncodeComponent component) (componentBytes component)
  := by
  have h := EmitsIf.bindEmits (emits_encodeHead .map (2 + spanCount component.measurementType +
      spanCount component.version + spanCount component.measurementDesc)) <|
    EmitsIf.bind (emitsIf_optionalTstr 1 component.measurementType) <|
    EmitsIf.bindEmits (emits_encodeHead .uint 2) <| EmitsIf.bindEmits (emits_encodeBstr hvalue) <|
    EmitsIf.bind (emitsIf_optionalTstr 4 component.version) <|
    EmitsIf.bindEmits (emits_encodeHead .uint 5) <| EmitsIf.bindEmits (emits_encodeBstr hsigner) <|
    emitsIf_optionalTstr 6 component.measurementDesc
  refine h.congr Iff.rfl ?_
  simp only [componentBytes, componentClaims, eatPsaMapBytes, Token.bytes_ofHead, List.map_append, List.map_cons,
    map_optionalSpan, eatPsaEntriesBytes_append, eatPsaEntriesBytes_cons, componentEntry, encodedEntry_bytes,
    EatPsaComponentClaim.label, EatPsaComponentClaim.majorType, List.append_assoc, List.length_append,
    List.length_cons, length_optionalSpan]
  congr 2
  omega

/-- A claim as it is encoded: its label, what it says, and the encoding of its value. -/
structure EatPsaWritten where
  label : Nat
  data : EatPsaClaimData
  value : Bytes

/-- The encoding of the components. -/
def arrayBytes (components : List EatPsaComponent) : Bytes :=
  preferredHead .array components.length ++ components.flatMap componentBytes

/-- The claims in the order in which they are encoded. -/
def writtenClaims (claims : EatPsaClaims) (components : List EatPsaComponent) : List EatPsaWritten :=
  [⟨10, .nonce claims.nonce.bytes, stringBytes .bstr claims.nonce.bytes⟩,
    ⟨256, .ueid claims.ueid.bytes, stringBytes .bstr claims.ueid.bytes⟩,
    ⟨265, .profile .current, stringBytes .tstr eatPsaTfmProfile⟩] ++
  optionalSpan (fun bs => ⟨268, .bootSeed bs, stringBytes .bstr bs⟩) claims.bootSeed ++
  [⟨2394, .clientId claims.clientId, intHead claims.clientId.toInt⟩,
    ⟨2395, .lifecycle claims.lifecycle, preferredHead .uint claims.lifecycle.toNat⟩,
    ⟨2396, .implementation claims.implementationId.bytes, stringBytes .bstr claims.implementationId.bytes⟩] ++
  optionalSpan (fun bs => ⟨2398, .certRef bs, stringBytes .tstr bs⟩) claims.certificationReference ++
  [⟨2399, .components (arrayBytes components) components.length, arrayBytes components⟩] ++
  optionalSpan (fun bs => ⟨2400, .vsi bs, stringBytes .tstr bs⟩) claims.verificationServiceIndicator

/-- The entry of an encoded claim. -/
def EatPsaWritten.entry (r : EatPsaWritten) : EatPsaEntry := encodedEntry r.label r.value

/-- The encoding of claims. -/
def claimsBytes (claims : EatPsaClaims) (components : List EatPsaComponent) : Bytes :=
  eatPsaMapBytes (Token.ofHead .map (writtenClaims claims components).length)
    ((writtenClaims claims components).map EatPsaWritten.entry)

/-- The texts of the claims are UTF-8. -/
structure EatPsaClaims.TextsValid (claims : EatPsaClaims) (components : List EatPsaComponent) : Prop where
  certRef : isUtf8 claims.certificationReference.bytes = true
  components : ∀ component ∈ components, component.TextsValid
  vsi : isUtf8 claims.verificationServiceIndicator.bytes = true

/-- The spans that every component and every list of claims has. -/
structure EatPsaClaims.SpansPresent (claims : EatPsaClaims) (components : List EatPsaComponent) : Prop where
  nonce : claims.nonce.isNull = false
  ueid : claims.ueid.isNull = false
  implementationId : claims.implementationId.isNull = false
  value : ∀ component ∈ components, component.measurementValue.isNull = false
  signer : ∀ component ∈ components, component.signerId.isNull = false

omit [EatPsaSettings] in
/-- The claims are written as a map, unless one of their texts is not UTF-8. -/
theorem emitsIf_eatPsaEncodeMap {claims : EatPsaClaims} {components : List EatPsaComponent}
    (hspans : claims.SpansPresent components) :
  EmitsIf (claims.TextsValid components) (eatPsaEncodeMap claims components) (claimsBytes claims components)
  := by
  have hcomponents := @EmitsIf.forM _ _ _ _ _ components fun component hc =>
    emitsIf_component (hspans.value component hc) (hspans.signer component hc)
  have h := EmitsIf.bindEmits (emits_encodeHead .map (7 + spanCount claims.bootSeed +
      spanCount claims.certificationReference + spanCount claims.verificationServiceIndicator)) <|
    EmitsIf.bindEmits (emits_encodeHead .uint 10) <| EmitsIf.bindEmits (emits_encodeBstr hspans.nonce) <|
    EmitsIf.bindEmits (emits_encodeHead .uint 256) <| EmitsIf.bindEmits (emits_encodeBstr hspans.ueid) <|
    EmitsIf.bindEmits (emits_encodeHead .uint 265) <|
    EmitsIf.bind (emitsIf_encodeTstr (.mem eatPsaTfmProfile)) <|
    EmitsIf.bindEmits (emits_optionalBstr 268 claims.bootSeed) <|
    EmitsIf.bindEmits (emits_encodeHead .uint 2394) <|
    EmitsIf.bindEmits (emits_encodeInt claims.clientId.toInt) <|
    EmitsIf.bindEmits (emits_encodeHead .uint 2395) <|
    EmitsIf.bindEmits (emits_encodeHead .uint claims.lifecycle.toNat) <|
    EmitsIf.bindEmits (emits_encodeHead .uint 2396) <|
    EmitsIf.bindEmits (emits_encodeBstr hspans.implementationId) <|
    EmitsIf.bind (emitsIf_optionalTstr 2398 claims.certificationReference) <|
    EmitsIf.bindEmits (emits_encodeHead .uint 2399) <|
    EmitsIf.bindEmits (emits_encodeHead .array components.length) <|
    EmitsIf.bind hcomponents (emitsIf_optionalTstr 2400 claims.verificationServiceIndicator)
  refine h.congr ?_ ?_
  · constructor
    · rintro ⟨-, hcert, hcomp, hvsi⟩
      exact ⟨hcert, hcomp, hvsi⟩
    · rintro ⟨hcert, hcomp, hvsi⟩
      exact ⟨⟨Pointer.valid_mem _, by decide +kernel⟩, hcert, hcomp, hvsi⟩
  · simp only [claimsBytes, writtenClaims, arrayBytes, eatPsaMapBytes, Token.bytes_ofHead, List.map_append, List.map_cons,
      map_optionalSpan, eatPsaEntriesBytes_append, eatPsaEntriesBytes_cons, EatPsaWritten.entry, encodedEntry_bytes,
      List.append_assoc, List.length_append, List.length_cons, length_optionalSpan, List.cons_append,
      List.nil_append]
    congr 2
    omega

end

end WolfCose
