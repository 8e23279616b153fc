import WolfCose.EatPsa.Encode
import WolfCose.EatPsa.Iterate
import WolfCose.Codec.Tree

/-!
# Reading back encoded PSA claims

What the encoder of claims accepts is decoded to a token with the same claims, and the iterator
hands out the same software components.
-/

namespace WolfCose

open Program Cbor Settings EatPsaSettings

section

variable [Settings] [EatPsaSettings]

/-! ### Values -/

omit [Settings] [EatPsaSettings] in
theorem length_le_stringBytes (m : MajorType) (data : Bytes) :
  data.length ≤ (stringBytes m data).length
  := by
  rw [stringBytes, List.length_append]
  apply Nat.le_add_left

omit [EatPsaSettings] in
theorem eatPsaBytesValue_stringBytes {m : MajorType} {data : Bytes} (hm : m.isString = true)
    (hlen : (stringBytes m data).length < 2 ^ 64) (hutf8 : m = .tstr → isUtf8 data = true) :
  EatPsaBytesValue m (stringBytes m data) data
  := by
  have hdata := (length_le_stringBytes m data).trans_lt hlen
  exact ⟨.ofString m data, accepted_ofString hm hdata hutf8, ⟨rfl, rfl⟩, (Token.bytes_ofString m data).symm⟩

omit [EatPsaSettings] in
/-- A string is an item that is not nested. -/
theorem EatPsaBytesValue.items {m : MajorType} {bs data : Bytes} (h : EatPsaBytesValue m bs data)
    (hm : m.isString = true) (d : Nat) :
  Items (Accepted eatPsaDecodeFlags) d 1 bs
  := by
  obtain ⟨t, ht, ⟨rfl, -⟩, rfl⟩ := h
  rw [← List.append_nil t.bytes]
  refine .leaf ht ?_ (children_of_major rfl ?_ ?_) (.nil d) <;> intro h <;> rw [h] at hm <;> cases hm

omit [EatPsaSettings] in
theorem eatPsaUintValue_preferredHead {v : Nat} (hv : v < 2 ^ 64) :
  EatPsaUintValue (preferredHead .uint v) v
  := ⟨.ofHead .uint v, accepted_ofHead rfl (by rintro ⟨⟩) hv, ⟨rfl, rfl⟩, (Token.bytes_ofHead .uint v).symm⟩

omit [EatPsaSettings] in
theorem eatPsaIntValue_intHead {v : Int} (h₁ : -2 ^ 63 ≤ v) (h₂ : v < 2 ^ 63) :
  EatPsaIntValue (intHead v) v
  := ⟨intToken v, accepted_intToken h₁ h₂, intOf_intToken h₁ h₂, intHead_eq v⟩

omit [EatPsaSettings] in
theorem encodedEntry_labelled {label : Nat} (h : label < 2 ^ 64) (value : Bytes) :
  (encodedEntry label value).Labelled
  where
  accepted := accepted_ofHead rfl (by rintro ⟨⟩) h
  label_eq := rfl

omit [EatPsaSettings] in
theorem eatPsaMapHead_ofHead {n : Nat} (h : n < 2 ^ 64) :
  EatPsaMapHead (.ofHead .map n) n
  where
  accepted := accepted_ofHead rfl (by rintro ⟨⟩) h
  major := rfl
  val := rfl

omit [Settings] [EatPsaSettings] in
/-- The value of an entry is no longer than all entries. -/
theorem length_value_le {e : EatPsaEntry} {es : List EatPsaEntry} (h : e ∈ es) :
  e.value.length ≤ (eatPsaEntriesBytes es).length
  := by
  induction es with
  | nil => cases h
  | cons e' es ih =>
      rw [eatPsaEntriesBytes_cons, EatPsaEntry.bytes, List.length_append, List.length_append]
      rcases List.mem_cons.mp h with rfl | h
      · omega
      · have := ih h
        omega

/-! ### Software components -/

omit [Settings] [EatPsaSettings] in
/-- The claims of a component are some of all, in their order. -/
theorem componentClaims_sublist (component : EatPsaComponent) :
  ((componentClaims component).map Prod.fst).Sublist [.type, .value, .ver, .signer, .desc]
  := by
  simp only [componentClaims, List.map_append, List.map_cons, map_optionalSpan]
  unfold optionalSpan
  split <;> split <;> split <;> simp only [List.nil_append, List.cons_append] <;> decide

omit [Settings] [EatPsaSettings] in
theorem EatPsaComponentClaim.bit_disjoint {claim claim' : EatPsaComponentClaim} (h : claim ≠ claim') :
  claim.bit &&& claim'.bit = 0
  := by
  revert h
  cases claim <;> cases claim' <;> decide

/-- The variables of the decoder of components after a claim. -/
def EatPsaComponentVars.add (vars : EatPsaComponentVars) (r : EatPsaComponentClaim × Bytes) :
    EatPsaComponentVars :=
  ⟨vars.seen ||| r.1.bit, r.1.store vars.component (.mem r.2)⟩

/-- The claims still to come are new and have values that can be read. -/
structure ComponentClaimsAhead (rs : List (EatPsaComponentClaim × Bytes)) (vars : EatPsaComponentVars) :
    Prop where
  nodup : (rs.map Prod.fst).Nodup
  new : ∀ r ∈ rs, vars.seen &&& r.1.bit = 0
  value : ∀ r ∈ rs, EatPsaBytesValue r.1.majorType (stringBytes r.1.majorType r.2) r.2

omit [EatPsaSettings] in
theorem componentEntry_steps (r : EatPsaComponentClaim × Bytes) (rs : List (EatPsaComponentClaim × Bytes))
    (vars : EatPsaComponentVars) (h : ComponentClaimsAhead (r :: rs) vars) :
  EatPsaEntrySteps EatPsaComponentValue (componentEntry r) vars (vars.add r)
    ∧ ComponentClaimsAhead rs (vars.add r)
  := by
  obtain ⟨hnodup, hnew, hvalue⟩ := h
  rw [List.map_cons, List.nodup_cons] at hnodup
  rw [List.forall_mem_cons] at hnew hvalue
  refine ⟨⟨encodedEntry_labelled ?_ _, ?_⟩, hnodup.2, ?_, hvalue.2⟩
  · cases r.1 <;> decide
  · have hlabel : EatPsaLabel.toInt (.uint r.1.label) >>= EatPsaComponentClaim.ofLabel = some r.1 := by
      cases r.1 <;> decide
    have hlabel : (componentEntry r).label.toInt.bind EatPsaComponentClaim.ofLabel = some r.1 := hlabel
    rw [EatPsaComponentValue, hlabel]
    exact ⟨hnew.1, r.2, hvalue.1, rfl⟩
  · intro r' hr'
    have hne : r.1 ≠ r'.1 := fun h => hnodup.1 (h ▸ List.mem_map_of_mem hr')
    rw [EatPsaComponentVars.add, uint32_or_and_eq_zero]
    exact ⟨hnew.2 r' hr', EatPsaComponentClaim.bit_disjoint hne⟩

omit [Settings] [EatPsaSettings] in
theorem mem_optionalSpan {α : Type} {f : Bytes → α} {span : Pointer} {x : α} :
  x ∈ optionalSpan f span ↔ span.isNull = false ∧ x = f span.bytes
  := by
  unfold optionalSpan
  split <;> simp_all

omit [Settings] [EatPsaSettings] in
theorem EatPsaComponent.TextsValid.claims {component : EatPsaComponent} (h : component.TextsValid)
    {r : EatPsaComponentClaim × Bytes} (hr : r ∈ componentClaims component) (hm : r.1.majorType = .tstr) :
  isUtf8 r.2 = true
  := by
  obtain ⟨htype, hver, hdesc⟩ := h
  simp only [componentClaims, List.mem_append, List.mem_cons, mem_optionalSpan] at hr
  rcases hr with ⟨-, rfl⟩ | rfl | ⟨-, rfl⟩ | rfl | ⟨-, rfl⟩
  · exact htype
  · cases hm
  · exact hver
  · cases hm
  · exact hdesc

omit [Settings] [EatPsaSettings] in
theorem eatPsaIsOptionalSpan_iff {span : Pointer} :
  eatPsaIsOptionalSpan span = true ↔ span = .null 0 ∨ span.isNull = false
  := by
  cases span with
  | null n => simp [eatPsaIsOptionalSpan, Pointer.isNull, Pointer.len]
  | mem bs => simp [eatPsaIsOptionalSpan, Pointer.isNull]

omit [Settings] [EatPsaSettings] in
theorem Pointer.eq_mem {p : Pointer} (h : p.isNull = false) :
  p = .mem p.bytes
  := by
  cases p with
  | null n => cases h
  | mem bs => rfl

omit [Settings] [EatPsaSettings] in
theorem eatPsaValidateComponent_eq_ok {component : EatPsaComponent} :
  eatPsaValidateComponent component = .ok ()
    ↔ eatPsaIsHash component.measurementValue = true ∧ eatPsaIsHash component.signerId = true
      ∧ eatPsaIsOptionalSpan component.measurementType = true ∧ eatPsaIsOptionalSpan component.version = true
      ∧ eatPsaIsOptionalSpan component.measurementDesc = true
  := by
  simp only [eatPsaValidateComponent, rejectIf_eq_ok, not_or, Bool.not_eq_false]

omit [Settings] [EatPsaSettings] in
theorem eatPsaIsHash_notNull {span : Pointer} (h : eatPsaIsHash span = true) :
  span.isNull = false
  := by
  simp only [eatPsaIsHash, Bool.and_eq_true, Bool.not_eq_true'] at h
  exact h.1

omit [Settings] [EatPsaSettings] in
/-- Storing the claims of a component gives the component. -/
theorem foldl_componentClaims {component : EatPsaComponent} (h : eatPsaValidateComponent component = .ok ()) :
  ((componentClaims component).foldl EatPsaComponentVars.add ⟨0, .zero⟩).component = component
  := by
  obtain ⟨hvalue, hsigner, htype, hver, hdesc⟩ := eatPsaValidateComponent_eq_ok.mp h
  obtain ⟨type, value, ver, signer, desc⟩ := component
  dsimp only at hvalue hsigner htype hver hdesc
  rw [Pointer.eq_mem (eatPsaIsHash_notNull hvalue), Pointer.eq_mem (eatPsaIsHash_notNull hsigner)]
  have hcase {span : Pointer} (h : eatPsaIsOptionalSpan span = true) : span = .null 0 ∨ ∃ bs, span = .mem bs :=
    (eatPsaIsOptionalSpan_iff.mp h).imp_right fun h => ⟨_, Pointer.eq_mem h⟩
  rcases hcase htype with rfl | ⟨_, rfl⟩ <;> rcases hcase hver with rfl | ⟨_, rfl⟩ <;>
    rcases hcase hdesc with rfl | ⟨_, rfl⟩ <;> rfl

omit [EatPsaSettings] in
/-- The values of the claims of a component are read. -/
theorem componentClaims_value {component : EatPsaComponent} (htexts : component.TextsValid)
    (hlen : (componentBytes component).length < 2 ^ 64) :
  ∀ r ∈ componentClaims component, EatPsaBytesValue r.1.majorType (stringBytes r.1.majorType r.2) r.2
  := by
  intro r hr
  apply eatPsaBytesValue_stringBytes r.1.isString_majorType _ (htexts.claims hr)
  have hle := length_value_le (List.mem_map_of_mem hr (f := componentEntry))
  rw [componentBytes, eatPsaMapBytes, List.length_append] at hlen
  exact (hle.trans (Nat.le_add_left _ _)).trans_lt hlen

omit [Settings] [EatPsaSettings] in
theorem length_componentClaims_le (component : EatPsaComponent) :
  (componentClaims component).length ≤ 5
  := by
  rw [← List.length_map Prod.fst]
  exact (componentClaims_sublist component).length_le

omit [EatPsaSettings] in
/-- The encoding of a component is nested once. -/
theorem items_componentBytes {component : EatPsaComponent} (htexts : component.TextsValid)
    (hlen : (componentBytes component).length < 2 ^ 64) :
  Items (Accepted eatPsaDecodeFlags) 1 1 (componentBytes component)
  := by
  have hcount := length_componentClaims_le component
  have hhead : EatPsaMapHead (.ofHead .map (componentClaims component).length)
      ((componentClaims component).map componentEntry).length := by
    rw [List.length_map]
    apply eatPsaMapHead_ofHead
    omega
  have hitems := @items_eatPsaEntries _ ((componentClaims component).map componentEntry) 0 fun e he => by
    obtain ⟨r, hr, rfl⟩ := List.mem_map.mp he
    refine ⟨encodedEntry_labelled ?_ _, (componentClaims_value htexts hlen r hr).items r.1.isString_majorType 0⟩
    cases r.1 <;> decide
  rw [← hhead.children] at hitems
  exact items_container hhead.accepted (by rintro ⟨⟩) hitems

/-- The encoding of a component is read as the component. -/
theorem eatPsaComponentEncoding_componentBytes {component : EatPsaComponent}
    (h : eatPsaValidateComponent component = .ok ()) (htexts : component.TextsValid)
    (hlen : (componentBytes component).length < 2 ^ 64) :
  EatPsaComponentEncoding (componentBytes component) component
  := by
  have hnodup := (componentClaims_sublist component).nodup (by decide)
  have hcount := length_componentClaims_le component
  have hvalue := componentClaims_value htexts hlen
  have hsteps := @Steps.foldl _ _ _ (componentClaims component) ⟨0, .zero⟩ _ _ componentEntry_steps
    ⟨hnodup, fun r _ => UInt32.zero_and, hvalue⟩
  refine ⟨_, ⟨.ofHead .map (componentClaims component).length, (componentClaims component).map componentEntry, rfl,
    ?_, ?_, hsteps.map, eatPsaFresh_nil_iff.mpr ⟨?_, ?_⟩⟩, ?_, (foldl_componentClaims h).symm⟩
  · rw [List.length_map]
    apply eatPsaMapHead_ofHead
    omega
  · rw [List.length_map]
    exact hcount.trans five_le_maxComponentClaims
  · have hlabels : ((componentClaims component).map componentEntry).map EatPsaEntry.label
        = ((componentClaims component).map Prod.fst).map fun claim => .uint claim.label := by
      simp only [List.map_map]
      rfl
    rw [hlabels]
    apply hnodup.map
    intro a b
    cases a <;> cases b <;> decide
  · intro e he
    obtain ⟨r, hr, rfl⟩ := List.mem_map.mp (List.dropLast_subset _ he)
    exact (hvalue r hr).skipped r.1.isString_majorType
  · rw [foldl_componentClaims h]
    obtain ⟨hv, hs, -⟩ := eatPsaValidateComponent_eq_ok.mp h
    simp [hv, hs]

/-! ### Claims -/

/-- The token that is decoded from encoded claims. -/
def EatPsaToken.ofClaims (claims : EatPsaClaims) (components : List EatPsaComponent) : EatPsaToken where
  profile := .current
  protection := .none
  nonce := claims.nonce
  ueid := claims.ueid
  implementationId := claims.implementationId
  bootSeed := claims.bootSeed
  certificationReference := claims.certificationReference
  verificationServiceIndicator := claims.verificationServiceIndicator
  clientId := claims.clientId
  lifecycle := claims.lifecycle
  components := .mem (arrayBytes components)
  componentCount := components.length
  noSoftwareMeasurements := 0

omit [Settings] [EatPsaSettings] in
/-- The claims are some of those of the current profile, in the order of the table. -/
theorem writtenClaims_sublist (claims : EatPsaClaims) (components : List EatPsaComponent) :
  ((writtenClaims claims components).map fun r => ((r.label : Int), r.data.claim, false)).Sublist
    (eatPsaClaimTable.take 10)
  := by
  simp only [writtenClaims, List.map_append, List.map_cons, List.map_nil, map_optionalSpan, EatPsaClaimData.claim]
  unfold optionalSpan
  split <;> split <;> split <;> simp only [List.nil_append, List.cons_append, List.append_nil] <;> decide

variable [MacSettings]

/-- The claims still to come are new claims of the current profile and have values that can be
read. -/
structure ClaimsAhead (rs : List EatPsaWritten) (vars : EatPsaClaimVars) : Prop where
  table : ∀ r ∈ rs, ((r.label : Int), r.data.claim, false) ∈ eatPsaClaimTable.take 10
  nodup : (rs.map fun r => r.data.claim).Nodup
  enabled : eatPsaCurrent = true
  unmixed : vars.oldLabels = false
  new : ∀ r ∈ rs, vars.seen &&& r.data.claim.bit = 0
  value : ∀ r ∈ rs, EatPsaClaimEncoding false r.data.claim r.value r.data

/-- The variables of the decoder of claims after an encoded claim. -/
def EatPsaClaimVars.addWritten (vars : EatPsaClaimVars) (r : EatPsaWritten) : EatPsaClaimVars :=
  vars.add r.data.claim false r.data

theorem writtenEntry_steps (r : EatPsaWritten) (rs : List EatPsaWritten) (vars : EatPsaClaimVars)
    (h : ClaimsAhead (r :: rs) vars) :
  EatPsaEntrySteps EatPsaClaimValue r.entry vars (vars.addWritten r) ∧ ClaimsAhead rs (vars.addWritten r)
  := by
  obtain ⟨htable, hnodup, henabled, hunmixed, hnew, hvalue⟩ := h
  rw [List.map_cons, List.nodup_cons] at hnodup
  rw [List.forall_mem_cons] at htable hnew hvalue
  have hall : ∀ q ∈ eatPsaClaimTable.take 10, 0 ≤ q.1 ∧ q.1 < 2 ^ 63 ∧ eatPsaClaimType q.1 = some q.2 := by
    decide
  obtain ⟨-, hlt, htype⟩ := hall _ htable.1
  have hlabel : r.entry.label.toInt.bind eatPsaClaimType = some (r.data.claim, false) := by
    have hint : EatPsaLabel.toInt (.uint r.label) = some (r.label : Int) := if_pos (by omega)
    show (EatPsaLabel.toInt (.uint r.label)).bind eatPsaClaimType = _
    rw [hint]
    exact htype
  refine ⟨⟨encodedEntry_labelled (by omega) _, ?_⟩, htable.2, hnodup.2, henabled, ?_, ?_, hvalue.2⟩
  · rw [EatPsaClaimValue, hlabel]
    exact ⟨⟨henabled, hunmixed, hnew.1⟩, r.data, hvalue.1, rfl⟩
  · simp only [EatPsaClaimVars.addWritten, EatPsaClaimVars.add, hunmixed, Bool.or_self]
  · intro r' hr'
    have hne : r.data.claim ≠ r'.data.claim := fun h =>
      hnodup.1 (h ▸ List.mem_map_of_mem (f := fun r => r.data.claim) hr')
    rw [EatPsaClaimVars.addWritten, EatPsaClaimVars.add, uint32_or_and_eq_zero]
    exact ⟨hnew.2 r' hr', EatPsaClaim.bit_disjoint hne⟩

/-- The claims and components that the encoder accepts. -/
structure EatPsaClaims.Valid (claims : EatPsaClaims) (components : List EatPsaComponent) : Prop where
  nonce : claims.nonce.isNull = false ∧ (claims.nonce.len = 32 ∨ claims.nonce.len = 48 ∨ claims.nonce.len = 64)
  ueid : claims.ueid.isNull = false ∧ claims.ueid.len = 33 ∧ claims.ueid.bytes.head? = some 0x01
  implementationId : claims.implementationId.isNull = false ∧ claims.implementationId.len = 32
  clientId : claims.clientId ≠ 0
  lifecycle : eatPsaLifecycleValid claims.lifecycle = true
  components_eq : claims.components = some components
  count : components.length ≠ 0 ∧ components.length ≤ maxComponents
  bootSeed : eatPsaIsOptionalSpan claims.bootSeed = true
    ∧ (claims.bootSeed.isNull = false → 8 ≤ claims.bootSeed.len ∧ claims.bootSeed.len ≤ 32)
  certRef : eatPsaIsOptionalSpan claims.certificationReference = true
    ∧ (claims.certificationReference.isNull = false →
      eatPsaCertRefValid claims.certificationReference 18 true = true)
  vsi : eatPsaIsOptionalSpan claims.verificationServiceIndicator = true
  component : ∀ component ∈ components, eatPsaValidateComponent component = .ok ()

omit [MacSettings] in
theorem eatPsaValidateClaims_valid {claims : EatPsaClaims} {components : List EatPsaComponent}
    (h : eatPsaValidateClaims claims = .ok components) :
  claims.Valid components
  := by
  simp only [eatPsaValidateClaims, bind_eq_ok, rejectIf_eq_ok] at h
  obtain ⟨_, hfixed, h⟩ := h
  split at h
  · cases h
  · rename_i components' hcomponents
    simp only [bind_eq_ok, rejectIf_eq_ok, forM_eq_ok] at h
    obtain ⟨_, hcount, _, hopt, _, hcomp, hret⟩ := h
    obtain rfl : components' = components := Except.ok.inj hret
    simp only [not_or, not_and, Bool.not_eq_true, Bool.not_eq_false, ne_eq, Decidable.not_not, not_lt, gt_iff_lt]
      at hfixed hcount hopt
    obtain ⟨hnonce, hnonceLen, hueid, hueidLen, hueidHead, himpl, himplLen, hclient, hlife⟩ := hfixed
    obtain ⟨hboot, hbootLen, hcert, hcertValid, hvsi⟩ := hopt
    refine ⟨⟨hnonce, ?_⟩, ⟨hueid, hueidLen, hueidHead⟩, ⟨himpl, himplLen⟩, hclient, hlife, hcomponents, hcount,
      ⟨hboot, hbootLen⟩, ⟨hcert, hcertValid⟩, hvsi, hcomp⟩
    by_cases h32 : claims.nonce.len = 32
    · exact .inl h32
    by_cases h48 : claims.nonce.len = 48
    · exact .inr (.inl h48)
    · exact .inr (.inr (hnonceLen h32 h48))

omit [MacSettings] in
theorem EatPsaClaims.Valid.spans {claims : EatPsaClaims} {components : List EatPsaComponent}
    (h : claims.Valid components) :
  claims.SpansPresent components
  where
  nonce := h.nonce.1
  ueid := h.ueid.1
  implementationId := h.implementationId.1
  value c hc := eatPsaIsHash_notNull (eatPsaValidateComponent_eq_ok.mp (h.component c hc)).1
  signer c hc := eatPsaIsHash_notNull (eatPsaValidateComponent_eq_ok.mp (h.component c hc)).2.1

omit [Settings] [EatPsaSettings] [MacSettings] in
/-- What belongs to a list of components is no longer than their encoding. -/
theorem length_componentBytes_le {component : EatPsaComponent} {components : List EatPsaComponent}
    (h : component ∈ components) :
  (componentBytes component).length ≤ (arrayBytes components).length
  := by
  obtain ⟨a, b, rfl⟩ := List.append_of_mem h
  simp only [arrayBytes, List.flatMap_append, List.flatMap_cons, List.length_append]
  omega

omit [Settings] [EatPsaSettings] [MacSettings] in
theorem arrayBytes_eq (components : List EatPsaComponent) :
  arrayBytes components
    = (Token.ofHead .array components.length).bytes ++ (components.map componentBytes).flatten
  := by
  rw [arrayBytes, Token.bytes_ofHead, List.flatMap_def]

omit [Settings] [EatPsaSettings] [MacSettings] in
theorem length_le_arrayBytes (components : List EatPsaComponent) :
  components.length ≤ (arrayBytes components).length
  := by
  have hne : ∀ x ∈ components.map componentBytes, x ≠ [] := by
    intro x hx
    obtain ⟨component, -, rfl⟩ := List.mem_map.mp hx
    apply List.append_ne_nil_of_left_ne_nil
    exact List.ne_nil_of_length_pos (Token.one_le_length_bytes _)
  have hle := Bytes.length_le_flatten hne
  rw [arrayBytes_eq, List.length_append]
  rw [List.length_map] at hle
  exact hle.trans (Nat.le_add_left _ _)

omit [MacSettings] in
/-- The encodings of the components are read as the components. -/
theorem forall₂_componentBytes {claims : EatPsaClaims} {components : List EatPsaComponent}
    (h : claims.Valid components) (htexts : claims.TextsValid components)
    (hlen : (arrayBytes components).length < 2 ^ 64) :
  List.Forall₂ EatPsaComponentEncoding (components.map componentBytes) components
  := by
  rw [List.forall₂_map_left_iff, List.forall₂_same]
  intro component hc
  apply eatPsaComponentEncoding_componentBytes (h.component component hc) (htexts.components component hc)
  exact (length_componentBytes_le hc).trans_lt hlen

omit [MacSettings] in
/-- The encoding of the components is read back. -/
theorem eatPsaComponentsEncoding_arrayBytes {claims : EatPsaClaims} {components : List EatPsaComponent}
    (h : claims.Valid components) (htexts : claims.TextsValid components)
    (hlen : (arrayBytes components).length < 2 ^ 64) :
  EatPsaComponentsEncoding (arrayBytes components) (arrayBytes components, components.length)
  := by
  have hcount := (length_le_arrayBytes components).trans_lt hlen
  refine ⟨.ofHead .array components.length, components.map componentBytes, arrayBytes_eq components,
    accepted_ofHead rfl (by rintro ⟨⟩) hcount, rfl, (List.length_map componentBytes).symm, ?_, ?_, ?_⟩
  · rw [List.length_map, not_or, gt_iff_lt, not_lt]
    exact h.count
  · intro x hx
    obtain ⟨component, hc, rfl⟩ := List.mem_map.mp hx
    refine ⟨component, eatPsaComponentEncoding_componentBytes (h.component component hc)
      (htexts.components component hc) ?_⟩
    exact (length_componentBytes_le hc).trans_lt hlen
  · rw [List.length_map]

omit [MacSettings] [EatPsaSettings] in
/-- The generic walker accepts the encoding of the components, which is nested twice. -/
theorem skippedValue_arrayBytes {claims : EatPsaClaims} {components : List EatPsaComponent}
    (htexts : claims.TextsValid components) (hlen : (arrayBytes components).length < 2 ^ 64) :
  SkippedValue eatPsaDecodeFlags (arrayBytes components)
  := by
  have hcount := (length_le_arrayBytes components).trans_lt hlen
  have hitems := @items_flatten _ (components.map componentBytes) 1 fun x hx => by
    obtain ⟨component, hc, rfl⟩ := List.mem_map.mp hx
    exact items_componentBytes (htexts.components component hc) ((length_componentBytes_le hc).trans_lt hlen)
  rw [List.length_map] at hitems
  have harray : Items (Accepted eatPsaDecodeFlags) 2 1 (arrayBytes components) := by
    rw [arrayBytes_eq]
    exact items_container (accepted_ofHead rfl (by rintro ⟨⟩) hcount) (by rintro ⟨⟩) hitems
  exact harray.mono ((by decide : 2 ≤ 4).trans four_le_maxDepth)

theorem eatPsaCurrent_of_full (hfull : eatPsaTfmFull = true) :
  eatPsaCurrent = true
  := by
  simp only [eatPsaTfmFull, Bool.and_eq_true, and_assoc] at hfull
  exact hfull.1

theorem eatPsaSetProfile_tfm (hfull : eatPsaTfmFull = true) :
  eatPsaSetProfile eatPsaTfmProfile false = .ok .current
  := by
  simp only [eatPsaSetProfile, bind_eq_ok, rejectIf_eq_ok, Bool.false_eq_true, if_false, hfull, Bool.true_eq_false,
    not_false_eq_true, true_and, exists_const]
  refine ⟨not_or.mpr ⟨fun h => h rfl, fun h => h ?_⟩, rfl⟩
  exact (eatPsaConstantCompare_eq_zero rfl).mpr rfl

omit [Settings] [EatPsaSettings] [MacSettings] in
theorem length_written_le {claims : EatPsaClaims} {components : List EatPsaComponent} {r : EatPsaWritten}
    (hr : r ∈ writtenClaims claims components) :
  r.value.length ≤ (claimsBytes claims components).length
  := by
  have hle := length_value_le (List.mem_map_of_mem hr (f := EatPsaWritten.entry))
  rw [claimsBytes, eatPsaMapBytes, List.length_append]
  exact hle.trans (Nat.le_add_left _ _)

/-- The values of the encoded claims are read back. -/
theorem writtenClaims_value (hfull : eatPsaTfmFull = true) {claims : EatPsaClaims} {components : List EatPsaComponent}
    (h : claims.Valid components) (htexts : claims.TextsValid components)
    (hlen : (claimsBytes claims components).length < 2 ^ 64) :
  ∀ r ∈ writtenClaims claims components, EatPsaClaimEncoding false r.data.claim r.value r.data
  := by
  intro r hr
  have hle := (length_written_le hr).trans_lt hlen
  simp only [writtenClaims, List.mem_append, List.mem_cons, mem_optionalSpan, List.not_mem_nil, or_false,
    or_assoc] at hr
  rcases hr with rfl | rfl | rfl | ⟨-, rfl⟩ | rfl | rfl | rfl | ⟨-, rfl⟩ | rfl | ⟨-, rfl⟩
  · exact ⟨_, eatPsaBytesValue_stringBytes rfl hle (by rintro ⟨⟩), rfl⟩
  · exact ⟨_, eatPsaBytesValue_stringBytes rfl hle (by rintro ⟨⟩), rfl⟩
  · exact ⟨_, _, eatPsaBytesValue_stringBytes rfl hle fun _ => by decide +kernel, eatPsaSetProfile_tfm hfull, rfl⟩
  · exact ⟨_, eatPsaBytesValue_stringBytes rfl hle (by rintro ⟨⟩), rfl⟩
  · have hrange := claims.clientId.toInt_lt
    have hrange' := claims.clientId.le_toInt
    refine ⟨_, eatPsaIntValue_intHead (by omega) (by omega), ?_, ?_⟩
    · have hzero : claims.clientId.toInt ≠ 0 := fun h0 => h.clientId (Int32.toInt_inj.mp h0)
      omega
    · rw [Int32.ofInt_toInt]
  · have hrange := claims.lifecycle.toNat_lt
    refine ⟨_, eatPsaUintValue_preferredHead (by omega), ?_, ?_⟩
    · rw [UInt16.ofNat_toNat, h.lifecycle, not_or, Bool.not_eq_false, and_iff_left rfl]
      omega
    · rw [UInt16.ofNat_toNat]
  · exact ⟨_, eatPsaBytesValue_stringBytes rfl hle (by rintro ⟨⟩), rfl⟩
  · exact ⟨_, eatPsaBytesValue_stringBytes rfl hle fun _ => htexts.certRef, rfl⟩
  · exact ⟨_, eatPsaComponentsEncoding_arrayBytes h htexts hle, rfl⟩
  · exact ⟨_, eatPsaBytesValue_stringBytes rfl hle fun _ => htexts.vsi, rfl⟩

omit [Settings] [EatPsaSettings] [MacSettings] in
theorem writtenClaims_components {claims : EatPsaClaims} {components : List EatPsaComponent} {r : EatPsaWritten}
    (hr : r ∈ writtenClaims claims components) (hcomp : r.data.claim = .components) :
  r.value = arrayBytes components
  := by
  simp only [writtenClaims, List.mem_append, List.mem_cons, mem_optionalSpan, List.not_mem_nil, or_false,
    or_assoc] at hr
  rcases hr with rfl | rfl | rfl | ⟨-, rfl⟩ | rfl | rfl | rfl | ⟨-, rfl⟩ | rfl | ⟨-, rfl⟩
  all_goals first | rfl | cases hcomp

/-- The generic walker accepts the values of the encoded claims. -/
theorem writtenClaims_skipped (hfull : eatPsaTfmFull = true) {claims : EatPsaClaims}
    {components : List EatPsaComponent} (h : claims.Valid components) (htexts : claims.TextsValid components)
    (hlen : (claimsBytes claims components).length < 2 ^ 64) :
  ∀ r ∈ writtenClaims claims components, SkippedValue eatPsaDecodeFlags r.value
  := by
  intro r hr
  by_cases hcomp : r.data.claim = .components
  · have hvalue := writtenClaims_components hr hcomp
    have hle := (length_written_le hr).trans_lt hlen
    rw [hvalue] at hle ⊢
    exact skippedValue_arrayBytes htexts hle
  · exact (writtenClaims_value hfull h htexts hlen r hr).skipped hcomp

omit [Settings] [EatPsaSettings] [MacSettings] in
theorem seen_foldl_addWritten (rs : List EatPsaWritten) (vars : EatPsaClaimVars) :
  (rs.foldl EatPsaClaimVars.addWritten vars).seen
    = (rs.map fun r => r.data.claim).foldl (fun seen claim => seen ||| claim.bit) vars.seen
  := by
  induction rs generalizing vars with
  | nil => rfl
  | cons r rs ih => exact ih (vars.addWritten r)

omit [Settings] [EatPsaSettings] [MacSettings] in
/-- The encoded claims are all that the current profile requires. -/
theorem seen_writtenClaims (claims : EatPsaClaims) (components : List EatPsaComponent) :
  ((writtenClaims claims components).foldl EatPsaClaimVars.addWritten .init).seen &&& eatPsaCurrentRequired
    = eatPsaCurrentRequired
  := by
  rw [seen_foldl_addWritten]
  simp only [writtenClaims, List.map_append, List.map_cons, List.map_nil, map_optionalSpan, EatPsaClaimData.claim]
  unfold optionalSpan
  split <;> split <;> split <;> simp only [List.nil_append, List.cons_append, List.append_nil] <;> decide

omit [Settings] [EatPsaSettings] [MacSettings] in
/-- Storing the encoded claims gives the token. -/
theorem foldl_writtenClaims {claims : EatPsaClaims} {components : List EatPsaComponent}
    (hnonce : claims.nonce.isNull = false) (hueid : claims.ueid.isNull = false)
    (himpl : claims.implementationId.isNull = false) (hboot : eatPsaIsOptionalSpan claims.bootSeed = true)
    (hcert : eatPsaIsOptionalSpan claims.certificationReference = true)
    (hvsi : eatPsaIsOptionalSpan claims.verificationServiceIndicator = true) :
  ∃ seen, (writtenClaims claims components).foldl EatPsaClaimVars.addWritten .init
    = ⟨seen, true, false, .ofClaims claims components⟩
  := by
  obtain ⟨nonce, ueid, impl, boot, cert, vsi, clientId, lifecycle, comps⟩ := claims
  dsimp only at hnonce hueid himpl hboot hcert hvsi
  rw [Pointer.eq_mem hnonce, Pointer.eq_mem hueid, Pointer.eq_mem himpl]
  have hcase {span : Pointer} (h : eatPsaIsOptionalSpan span = true) : span = .null 0 ∨ ∃ bs, span = .mem bs :=
    (eatPsaIsOptionalSpan_iff.mp h).imp_right fun h => ⟨_, Pointer.eq_mem h⟩
  rcases hcase hboot with rfl | ⟨_, rfl⟩ <;> rcases hcase hcert with rfl | ⟨_, rfl⟩ <;>
    rcases hcase hvsi with rfl | ⟨_, rfl⟩ <;> exact ⟨_, rfl⟩

/-- The checks after the loop accept the token of encoded claims. -/
theorem eatPsaCheckClaims_ofClaims (hfull : eatPsaTfmFull = true) {claims : EatPsaClaims}
    {components : List EatPsaComponent} (h : claims.Valid components) {seen : UInt32}
    (hseen : seen &&& eatPsaCurrentRequired = eatPsaCurrentRequired) :
  eatPsaCheckClaims ⟨seen, true, false, .ofClaims claims components⟩ = .ok (.ofClaims claims components)
  := by
  have hcurrent : eatPsaCheckCurrent ⟨seen, true, false, .ofClaims claims components⟩ = .ok () := by
    simp only [eatPsaCheckCurrent, bind_eq_ok, rejectIf_eq_ok]
    exact ⟨(), fun hne => hne hseen, fun hne => hne rfl⟩
  have htoken : eatPsaCheckToken (.ofClaims claims components) = .ok () := by
    simp only [eatPsaCheckToken, bind_eq_ok, rejectIf_eq_ok]
    refine ⟨(), ?_, (), ?_, (), ?_, (), ?_, (), ?_, ?_⟩
    · rcases h.nonce.2 with hl | hl | hl <;> simp [EatPsaToken.ofClaims, hl]
    · simp [EatPsaToken.ofClaims, h.ueid.2, h.implementationId.2]
    · rintro ⟨-, -, hsome, hlen⟩
      have hrange := h.bootSeed.2 hsome
      exact hlen.elim (Nat.not_lt.mpr hrange.1) (Nat.not_lt.mpr hrange.2)
    · rintro ⟨-, ⟨⟩, -⟩
    · rintro ⟨-, hsome, -, hbad⟩
      exact Bool.false_ne_true (hbad.symm.trans (h.certRef.2 hsome))
    · rintro ⟨-, -, ⟨⟩, -⟩
  have hsome : eatPsaCurrent = true := eatPsaCurrent_of_full hfull
  simp only [eatPsaCheckClaims, hsome, Bool.true_eq_false, Bool.false_eq_true, and_self, and_false, if_true, if_false]
  rw [hcurrent]
  simp only [bind_eq_ok, rejectIf_eq_ok]
  exact ⟨(), not_false, (), trivial, _, rfl, (), htoken, rfl⟩

omit [Settings] [EatPsaSettings] [MacSettings] in
theorem length_writtenClaims_le (claims : EatPsaClaims) (components : List EatPsaComponent) :
  (writtenClaims claims components).length ≤ 10
  := by
  rw [← List.length_map fun r : EatPsaWritten => ((r.label : Int), r.data.claim, false)]
  exact (writtenClaims_sublist claims components).length_le

omit [Settings] [EatPsaSettings] [MacSettings] in
/-- The labels of the encoded claims are different. -/
theorem labels_writtenClaims_nodup (claims : EatPsaClaims) (components : List EatPsaComponent) :
  (((writtenClaims claims components).map EatPsaWritten.entry).map EatPsaEntry.label).Nodup
  := by
  have hsub := ((writtenClaims_sublist claims components).map Prod.fst).nodup (by decide)
  simp only [List.Nodup, List.pairwise_map] at hsub ⊢
  apply hsub.imp
  intro r r' hne heq
  exact hne (congrArg Nat.cast (EatPsaLabel.uint.inj heq))

/-- Encoded claims are decoded to a token with the same claims. -/
theorem eatPsaDecodeClaims_claimsBytes (hfull : eatPsaTfmFull = true) {claims : EatPsaClaims}
    {components : List EatPsaComponent} (h : claims.Valid components) (htexts : claims.TextsValid components)
    {payload : Buffer} (hpayload : payload.bytes = claimsBytes claims components) :
  eatPsaDecodeClaims (some payload) = .ok (.ofClaims claims components)
  := by
  have hlen : (claimsBytes claims components).length < 2 ^ 64 := by
    rw [← hpayload]
    exact payload.length_le.trans_lt sizeMax_lt
  have hvalue := writtenClaims_value hfull h htexts hlen
  have hclaims := ((writtenClaims_sublist claims components).map fun q : Int × EatPsaClaim × Bool => q.2.1).nodup
    (by decide)
  have hsteps := @Steps.foldl _ _ _ (writtenClaims claims components) .init _ _ writtenEntry_steps
    { table := fun r hr => (writtenClaims_sublist claims components).subset (List.mem_map_of_mem hr)
      nodup := by
        rw [List.map_map] at hclaims
        exact hclaims
      enabled := eatPsaCurrent_of_full hfull
      unmixed := rfl
      new := fun _ _ => UInt32.zero_and
      value := hvalue }
  obtain ⟨seen, hfold⟩ := @foldl_writtenClaims _ components h.nonce.1 h.ueid.1 h.implementationId.1
    h.bootSeed.1 h.certRef.1 h.vsi
  have hseen := seen_writtenClaims claims components
  rw [hfold] at hsteps hseen
  apply eatPsaDecodeClaims_eq_ok.mpr
  refine ⟨.ofHead .map (writtenClaims claims components).length,
    (writtenClaims claims components).map EatPsaWritten.entry, hpayload, ?_, ?_,
    ⟨_, hsteps.map, eatPsaCheckClaims_ofClaims hfull h hseen⟩, labels_writtenClaims_nodup claims components, ?_⟩
  · rw [List.length_map]
    apply eatPsaMapHead_ofHead
    have := length_writtenClaims_le claims components
    omega
  · rw [List.length_map]
    exact (length_writtenClaims_le claims components).trans ten_le_maxClaims
  · intro e he
    obtain ⟨r, hr, rfl⟩ := List.mem_map.mp (List.dropLast_subset _ he)
    apply writtenClaims_skipped hfull h htexts hlen r hr

/-- A token carries the claims: every field is that of the claims, a claim that is absent there is
absent here, and there are as many components. -/
structure EatPsaToken.Carries (token : EatPsaToken) (claims : EatPsaClaims) (components : List EatPsaComponent) :
    Prop where
  profile : token.profile = .current
  nonce : token.nonce = claims.nonce
  ueid : token.ueid = claims.ueid
  implementationId : token.implementationId = claims.implementationId
  bootSeed : token.bootSeed = claims.bootSeed
  certificationReference : token.certificationReference = claims.certificationReference
  verificationServiceIndicator : token.verificationServiceIndicator = claims.verificationServiceIndicator
  clientId : token.clientId = claims.clientId
  lifecycle : token.lifecycle = claims.lifecycle
  componentCount : token.componentCount = components.length
  noSoftwareMeasurements : token.noSoftwareMeasurements = 0

omit [Settings] [EatPsaSettings] [MacSettings] in
theorem EatPsaToken.carries_ofClaims (claims : EatPsaClaims) (components : List EatPsaComponent) :
  (EatPsaToken.ofClaims claims components).Carries claims components
  := ⟨rfl, rfl, rfl, rfl, rfl, rfl, rfl, rfl, rfl, rfl, rfl⟩

omit [MacSettings] in
theorem eatPsaEncodeClaims_eq_ok {claims : EatPsaClaims} {place : EatPsaPlace} {out : Option Buffer} {payload : Bytes}
    (h : eatPsaEncodeClaims (some claims) place out = .ok payload) :
  ∃ components, claims.Valid components ∧ claims.TextsValid components ∧ payload = claimsBytes claims components
  := by
  cases out with
  | none => cases h
  | some out =>
      simp only [eatPsaEncodeClaims, bind_eq_ok] at h
      obtain ⟨components, hvalid, _, -, h⟩ := h
      have hvalid := eatPsaValidateClaims_valid hvalid
      have hne : claimsBytes claims components ≠ [] := by
        apply List.append_ne_nil_of_left_ne_nil
        exact List.ne_nil_of_length_pos (Token.one_le_length_bytes _)
      obtain ⟨htexts, -, hpayload⟩ := ((emitsIf_eatPsaEncodeMap hvalid.spans).encodeInto_iff hne).mp h
      exact ⟨components, hvalid, htexts, hpayload⟩

/-- Encoded claims are decoded to a token that carries them, and the iterator over its components
calls the callback with the components of the claims, in order. -/
theorem eatPsaDecodeClaims_encodeClaims (hfull : eatPsaTfmFull = true) {claims : EatPsaClaims} {place : EatPsaPlace}
    {out : Option Buffer} {payload : Buffer} (h : eatPsaEncodeClaims (some claims) place out = .ok payload.bytes) :
  ∃ components token, claims.components = some components ∧ eatPsaDecodeClaims (some payload) = .ok token
    ∧ token.Carries claims components
    ∧ ∀ (ε σ : Type) (cb : EatPsaComponentCb ε σ),
      eatPsaForEachComponent (some token) (some cb) = components.forM (callComponentCb cb)
  := by
  obtain ⟨components, hvalid, htexts, hpayload⟩ := eatPsaEncodeClaims_eq_ok h
  refine ⟨components, .ofClaims claims components, hvalid.components_eq,
    eatPsaDecodeClaims_claimsBytes hfull hvalid htexts hpayload, EatPsaToken.carries_ofClaims claims components, ?_⟩
  intro ε σ cb
  have hle : (arrayBytes components).length ≤ sizeMax := by
    have hmem : ⟨2399, .components (arrayBytes components) components.length, arrayBytes components⟩
        ∈ writtenClaims claims components := by
      simp [writtenClaims]
    apply (length_written_le hmem).trans
    rw [← hpayload]
    exact payload.length_le
  have hiter := @eatPsaForEachSpan_eq _ _ _ _ cb (.ofBytes (arrayBytes components)) _ _ _
    ((Buffer.bytes_ofBytes hle).trans (arrayBytes_eq components))
    (accepted_ofHead rfl (by rintro ⟨⟩) (((length_le_arrayBytes components).trans hle).trans_lt sizeMax_lt)) rfl
    (List.length_map componentBytes).symm
    (forall₂_componentBytes hvalid htexts (hle.trans_lt sizeMax_lt))
  rw [List.length_map] at hiter
  exact hiter

end

section Instances

attribute [local instance] defaultSettings
attribute [local instance] defaultMacSettings
attribute [local instance] defaultEatPsaSettings

/-- Claims with a boot seed and two components, one of them with a version. -/
def sampleClaims : EatPsaClaims where
  nonce := .mem (List.replicate 32 0x11)
  ueid := .mem (0x01 :: List.replicate 32 0x22)
  implementationId := .mem (List.replicate 32 0x33)
  bootSeed := .mem (List.replicate 8 0x44)
  certificationReference := .null 0
  verificationServiceIndicator := .null 0
  clientId := -1
  lifecycle := 0x3000
  components := some
    [⟨.null 0, .mem (List.replicate 32 0x55), .mem [0x31], .mem (List.replicate 48 0x66), .null 0⟩,
      ⟨.mem [0x42, 0x4C], .mem (List.replicate 32 0x77), .null 0, .mem (List.replicate 32 0x66), .null 0⟩]

/-- Every object lies below the output. -/
def samplePlace : EatPsaPlace where
  object := ⟨0, 128⟩
  nonce := 128
  ueid := 160
  implementationId := 193
  bootSeed := 225
  certificationReference := 0
  verificationServiceIndicator := 0
  components := fun _ => ⟨⟨256, 80⟩, 512, 512, 512, 512, 512⟩
  out := 1024

/-- What is encoded of the claims. -/
def samplePayload : Buffer where
  bytes := claimsBytes sampleClaims (sampleClaims.components.getD [])
  length_le := by decide +kernel

theorem eatPsaDecodeClaims_encodeClaims_instance :
  ∃ components token, sampleClaims.components = some components
    ∧ eatPsaDecodeClaims (some samplePayload) = .ok token ∧ token.Carries sampleClaims components
    ∧ ∀ (ε σ : Type) (cb : EatPsaComponentCb ε σ),
      eatPsaForEachComponent (some token) (some cb) = components.forM (callComponentCb cb)
  := by
  apply @eatPsaDecodeClaims_encodeClaims _ _ _ rfl sampleClaims samplePlace
    (some ⟨List.replicate 512 0, by decide +kernel⟩) samplePayload
  decide +kernel

end Instances

end WolfCose
