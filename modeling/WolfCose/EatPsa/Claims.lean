import WolfCose.EatPsa.Map
import WolfCose.Hdr.Merge

/-!
# What the decoder of PSA claims accepts

The values of single claims, software components, and whole claims maps.
-/

namespace WolfCose

open Program Cbor Settings EatPsaSettings

/-- A bit is new beside two sets of bits if it is in neither. -/
theorem uint32_or_and_eq_zero (a b c : UInt32) :
  (a ||| b) &&& c = 0 ↔ a &&& c = 0 ∧ b &&& c = 0
  := by
  rw [← not_iff_not, not_and_or]
  apply uint32_or_and_ne_zero

theorem EatPsaClaim.bit_ne_zero (claim : EatPsaClaim) :
  claim.bit ≠ 0
  := by
  cases claim <;> decide

theorem EatPsaClaim.bit_disjoint {claim claim' : EatPsaClaim} (h : claim ≠ claim') :
  claim.bit &&& claim'.bit = 0
  := by
  revert h
  cases claim <;> cases claim' <;> decide

variable [Settings] [EatPsaSettings]

/-! ### Values -/

/-- A byte or text string. -/
def EatPsaBytesValue (m : MajorType) (bs data : Bytes) : Prop :=
  TokenValue eatPsaDecodeFlags (fun t => t.major = m ∧ t.data = data) bs

theorem reads_eatPsaBytes (m : MajorType) :
  Reads (decodeBytesEx m eatPsaDecodeFlags) (EatPsaBytesValue m)
  := by
  intro ctx data ctx'
  rw [runs_decodeBytesEx]
  constructor
  · rintro ⟨-, t, ht, hc, hm, hd⟩
    exact ⟨_, ⟨t, ht, ⟨hm, hd⟩, rfl⟩, hc⟩
  · rintro ⟨_, ⟨t, ht, ⟨hm, hd⟩, rfl⟩, hc⟩
    exact ⟨decodeFlagsValid_eatPsa, t, ht, hc, hm, hd⟩

/-- An unsigned integer. -/
def EatPsaUintValue (bs : Bytes) (v : Nat) : Prop :=
  TokenValue eatPsaDecodeFlags (fun t => t.major = .uint ∧ t.val = v) bs

theorem reads_eatPsaUint :
  Reads (decodeUintEx eatPsaDecodeFlags) EatPsaUintValue
  := by
  intro ctx v ctx'
  rw [runs_decodeUintEx]
  constructor
  · rintro ⟨-, t, ht, hc, hm, hv⟩
    exact ⟨_, ⟨t, ht, ⟨hm, hv⟩, rfl⟩, hc⟩
  · rintro ⟨_, ⟨t, ht, ⟨hm, hv⟩, rfl⟩, hc⟩
    exact ⟨decodeFlagsValid_eatPsa, t, ht, hc, hm, hv⟩

/-- An integer. -/
def EatPsaIntValue (bs : Bytes) (v : Int) : Prop :=
  TokenValue eatPsaDecodeFlags (fun t => intOf t = some v) bs

theorem reads_eatPsaInt :
  Reads (decodeIntEx eatPsaDecodeFlags) EatPsaIntValue
  := by
  intro ctx v ctx'
  rw [runs_decodeIntEx]
  constructor
  · rintro ⟨-, t, ht, hc, hv⟩
    exact ⟨_, ⟨t, ht, hv, rfl⟩, hc⟩
  · rintro ⟨_, ⟨t, ht, hv, rfl⟩, hc⟩
    exact ⟨decodeFlagsValid_eatPsa, t, ht, hc, hv⟩

omit [Settings] [EatPsaSettings] in
theorem children_of_major {t : Token} {m : MajorType} (h : t.major = m) (ha : m ≠ .array) (hm : m ≠ .map) :
  t.children = 0
  := by
  subst h
  unfold Token.children
  split <;> simp_all

omit [EatPsaSettings] in
theorem EatPsaBytesValue.skipped {m : MajorType} (hm : m.isString = true) {bs data : Bytes}
    (h : EatPsaBytesValue m bs data) :
  SkippedValue eatPsaDecodeFlags bs
  := by
  apply TokenValue.skipped h
  rintro t ⟨ht, -⟩
  rw [ht]
  refine ⟨?_, children_of_major ht ?_ ?_⟩ <;> rintro rfl <;> cases hm

omit [EatPsaSettings] in
theorem EatPsaUintValue.skipped {bs : Bytes} {v : Nat} (h : EatPsaUintValue bs v) :
  SkippedValue eatPsaDecodeFlags bs
  := by
  apply TokenValue.skipped h
  rintro t ⟨ht, -⟩
  rw [ht]
  refine ⟨?_, children_of_major ht ?_ ?_⟩ <;> rintro ⟨⟩

omit [EatPsaSettings] in
theorem EatPsaIntValue.skipped {bs : Bytes} {v : Int} (h : EatPsaIntValue bs v) :
  SkippedValue eatPsaDecodeFlags bs
  := by
  apply TokenValue.skipped h
  intro t ht
  rcases intOf_major ht with hm | hm <;> rw [hm] <;>
    refine ⟨?_, children_of_major hm ?_ ?_⟩ <;> rintro ⟨⟩

omit [EatPsaSettings] in
theorem SkippedValue.item {bs : Bytes} (h : SkippedValue eatPsaDecodeFlags bs) :
  EatPsaItem bs
  := ⟨_, h⟩

/-! ### Nested items -/

omit [EatPsaSettings] in
/-- Items one after the other. -/
theorem items_flatten {xs : List Bytes} {d : Nat} (h : ∀ x ∈ xs, Items (Accepted eatPsaDecodeFlags) d 1 x) :
  Items (Accepted eatPsaDecodeFlags) d xs.length xs.flatten
  := by
  induction xs with
  | nil => exact .nil d
  | cons x xs ih =>
      obtain ⟨hx, hxs⟩ := List.forall_mem_cons.mp h
      rw [List.flatten_cons, List.length_cons, Nat.add_comm]
      exact hx.append (ih hxs)

omit [EatPsaSettings] in
/-- A head with its children is an item, nested one level deeper. -/
theorem items_container {head : Token} (hhead : Accepted eatPsaDecodeFlags head) (hm : head.major ≠ .tag)
    {bs : Bytes} {d : Nat} (h : Items (Accepted eatPsaDecodeFlags) d head.children bs) :
  Items (Accepted eatPsaDecodeFlags) (d + 1) 1 (head.bytes ++ bs)
  := by
  by_cases hc : head.children = 0
  · rw [hc] at h
    rw [h.eq_nil]
    exact .leaf hhead hm hc (.nil _)
  · rw [← List.append_nil bs]
    exact .container hhead hc h (.nil _)

omit [EatPsaSettings] in
theorem EatPsaEntry.Labelled.token_items {e : EatPsaEntry} (h : e.Labelled) (d : Nat) :
  Items (Accepted eatPsaDecodeFlags) d 1 e.token.bytes
  := by
  have hmajor : e.token.major ≠ .tag ∧ e.token.children = 0 := by
    have hl := h.label_eq
    unfold eatPsaLabelOf at hl
    unfold Token.children
    split at hl <;> simp_all
  rw [← List.append_nil e.token.bytes]
  exact .leaf h.accepted hmajor.1 hmajor.2 (.nil d)

omit [EatPsaSettings] in
/-- Entries with items as values are items, two an entry. -/
theorem items_eatPsaEntries {es : List EatPsaEntry} {d : Nat}
    (h : ∀ e ∈ es, e.Labelled ∧ Items (Accepted eatPsaDecodeFlags) d 1 e.value) :
  Items (Accepted eatPsaDecodeFlags) d (2 * es.length) (eatPsaEntriesBytes es)
  := by
  induction es with
  | nil => exact .nil d
  | cons e es ih =>
      obtain ⟨⟨hl, hv⟩, hes⟩ := List.forall_mem_cons.mp h
      rw [eatPsaEntriesBytes_cons, EatPsaEntry.bytes, List.length_cons, Nat.mul_add, Nat.add_comm]
      exact ((hl.token_items d).append hv).append (ih hes)

omit [EatPsaSettings] in
theorem EatPsaMapValue.item {σ : Type} {V : EatPsaLabel → Bytes → σ → σ → Prop} {limit : Nat} {s s' : σ}
    {bs : Bytes} (hitem : ∀ label bs s s', V label bs s s' → EatPsaItem bs)
    (h : EatPsaMapValue limit V s bs s') :
  EatPsaItem bs
  := by
  obtain ⟨head, es, rfl, hhead, -, hsteps, -⟩ := h
  have hes : ∀ x ∈ es.map EatPsaEntry.value, EatPsaItem x := by
    intro x hx
    obtain ⟨e, he, rfl⟩ := List.mem_map.mp hx
    obtain ⟨_, _, -, hv⟩ := hsteps.forall_mem e he
    exact hitem _ _ _ _ hv
  obtain ⟨d, hd⟩ := Items.exists_depth hes
  have hitems := @items_eatPsaEntries _ es d fun e he => by
    obtain ⟨_, _, hl, -⟩ := hsteps.forall_mem e he
    exact ⟨hl, hd _ (List.mem_map_of_mem he)⟩
  rw [← hhead.children] at hitems
  refine ⟨d + 1, items_container hhead.accepted ?_ hitems⟩
  rw [hhead.major]
  rintro ⟨⟩

/-! ### Software components -/

/-- What the value of an entry of a component does. -/
def EatPsaComponentValue (label : EatPsaLabel) (bs : Bytes) (vars vars' : EatPsaComponentVars) : Prop :=
  match label.toInt.bind EatPsaComponentClaim.ofLabel with
  | none => SkippedValue eatPsaDecodeFlags bs ∧ vars' = vars
  | some claim => vars.seen &&& claim.bit = 0 ∧ ∃ data, EatPsaBytesValue claim.majorType bs data
      ∧ vars' = ⟨vars.seen ||| claim.bit, claim.store vars.component (.mem data)⟩

theorem readsValue_eatPsaComponent :
  EatPsaReadsValue eatPsaDecodeComponentValue EatPsaComponentValue
  := by
  intro label vars ctx vars' ctx'
  unfold eatPsaDecodeComponentValue EatPsaComponentValue
  cases label.toInt.bind EatPsaComponentClaim.ofLabel with
  | none => exact (reads_skipEx decodeFlagsValid_eatPsa).andReturn vars ctx vars' ctx'
  | some claim =>
      simp only [runs_bind, runs_failIf, runs_pure, reads_eatPsaBytes _ _ _ _, ne_eq, Decidable.not_not]
      constructor
      · rintro ⟨_, _, ⟨hseen, rfl⟩, data, _, ⟨bs, hbs, hc⟩, rfl, rfl⟩
        exact ⟨bs, ⟨hseen, data, hbs, rfl⟩, hc⟩
      · rintro ⟨bs, ⟨hseen, data, hbs, rfl⟩, hc⟩
        exact ⟨(), ctx, ⟨hseen, rfl⟩, data, ctx', ⟨bs, hbs, hc⟩, rfl, rfl⟩

omit [Settings] [EatPsaSettings] in
theorem EatPsaComponentClaim.isString_majorType (claim : EatPsaComponentClaim) :
  claim.majorType.isString = true
  := by
  cases claim <;> rfl

omit [EatPsaSettings] in
theorem EatPsaComponentValue.skipped {label : EatPsaLabel} {bs : Bytes} {vars vars' : EatPsaComponentVars}
    (h : EatPsaComponentValue label bs vars vars') :
  SkippedValue eatPsaDecodeFlags bs
  := by
  unfold EatPsaComponentValue at h
  split at h
  · exact h.1
  · obtain ⟨-, data, hdata, -⟩ := h
    exact hdata.skipped (EatPsaComponentClaim.isString_majorType _)

omit [EatPsaSettings] in
theorem EatPsaComponentValue.item (label : EatPsaLabel) (bs : Bytes) (vars vars' : EatPsaComponentVars)
    (h : EatPsaComponentValue label bs vars vars') :
  EatPsaItem bs
  := h.skipped.item

/-- The encoding of a software component and what it says. -/
def EatPsaComponentEncoding (bs : Bytes) (component : EatPsaComponent) : Prop :=
  ∃ vars, EatPsaMapValue maxComponentClaims EatPsaComponentValue ⟨0, .zero⟩ bs vars
    ∧ ¬ (eatPsaIsHash vars.component.measurementValue = false ∨ eatPsaIsHash vars.component.signerId = false)
    ∧ component = vars.component

theorem reads_eatPsaDecodeComponent :
  Reads eatPsaDecodeComponent EatPsaComponentEncoding
  := (reads_eatPsaDecodeMap readsValue_eatPsaComponent EatPsaComponentValue.item _ _).check _

/-- The encoding of a list of software components. -/
def EatPsaComponentsEncoding (bs : Bytes) (r : Bytes × Nat) : Prop :=
  ∃ (head : Token) (xs : List Bytes), bs = head.bytes ++ xs.flatten ∧ Accepted eatPsaDecodeFlags head ∧ head.major = .array
    ∧ head.val = xs.length ∧ ¬ (xs.length = 0 ∨ xs.length > maxComponents)
    ∧ (∀ x ∈ xs, ∃ component, EatPsaComponentEncoding x component) ∧ r = (bs, xs.length)

theorem EatPsaComponentEncoding.item {bs : Bytes} {component : EatPsaComponent}
    (h : EatPsaComponentEncoding bs component) :
  EatPsaItem bs
  := by
  obtain ⟨_, hmap, -⟩ := h
  apply hmap.item EatPsaComponentValue.item

theorem EatPsaComponentsEncoding.item {bs : Bytes} {r : Bytes × Nat} (h : EatPsaComponentsEncoding bs r) :
  EatPsaItem bs
  := by
  obtain ⟨head, xs, rfl, hhead, hm, hv, -, hxs, -⟩ := h
  obtain ⟨d, hd⟩ := Items.exists_depth fun x hx => (hxs x hx).choose_spec.item
  have hitems := items_flatten hd
  have hchildren : head.children = xs.length := by rw [Token.children, hm, ← hv]
  rw [← hchildren] at hitems
  refine ⟨d + 1, items_container hhead ?_ hitems⟩
  rw [hm]
  rintro ⟨⟩

theorem reads_eatPsaDecodeComponents :
  Reads eatPsaDecodeComponents EatPsaComponentsEncoding
  := by
  intro ctx r ctx'
  have hone : Reads eatPsaCheckComponent (fun bs _ => ∃ component, EatPsaComponentEncoding bs component) := by
    intro ctx u ctx'
    rw [eatPsaCheckComponent, (reads_eatPsaDecodeComponent.map fun _ => ()) ctx u ctx']
    simp
  have room {head : Token} {n : Nat} (hm : head.major = .array) (hv : head.val = n) : head.children = n := by
    rw [Token.children, hm, ← hv]
  simp only [eatPsaDecodeComponents, runs_bind, runs_get, runs_failIf, runs_pure, runs_decodeArrayStartEx,
    decodeFlagsValid_eatPsa, true_and, hone.repeat]
  constructor
  · rintro ⟨_, _, ⟨rfl, rfl⟩, _, _, ⟨-, rfl⟩, n, ctx₁, ⟨head, ht, hc, hm, hv, -⟩, _, _, ⟨hn, rfl⟩, _, ctx₂,
      ⟨xs, rfl, hxs, hc'⟩, _, _, ⟨rfl, rfl⟩, rfl, rfl⟩
    have hcons := hc.trans hc'
    refine ⟨head.bytes ++ xs.flatten, ⟨head, xs, rfl, ht, hm, hv, hn, hxs, ?_⟩, hcons⟩
    rw [hcons.idx_eq, Nat.add_sub_cancel_left, hcons.rest_eq, List.take_left]
  · rintro ⟨_, ⟨head, xs, rfl, ht, hm, hv, hn, hxs, rfl⟩, hc⟩
    obtain ⟨ctx₁, hc₁, hc₂⟩ := hc.split
    refine ⟨ctx, ctx, ⟨rfl, rfl⟩, (), ctx, ⟨?_, rfl⟩, xs.length, ctx₁, ⟨head, ht, hc₁, hm, hv, ?_⟩, (), ctx₁,
      ⟨hn, rfl⟩, (), ctx', ⟨xs, rfl, hxs, hc₂⟩, ctx', ctx', ⟨rfl, rfl⟩, ?_, rfl⟩
    · have hlen := hc.length_rest_eq
      have hpos := head.one_le_length_bytes
      rw [DecCtx.length_rest, List.length_append] at hlen
      omega
    · rw [room hm hv, hc₂.length_rest_eq]
      apply (Bytes.length_le_flatten fun x hx => _).trans (Nat.le_add_right _ _)
      intro x hx
      obtain ⟨_, hcomp⟩ := hxs x hx
      obtain ⟨_, hitem⟩ := hcomp.item
      apply hitem.ne_nil
    · rw [hc.idx_eq, Nat.add_sub_cancel_left, hc.rest_eq, List.take_left]

/-! ### Claims -/

/-- The claim that some data belongs to. -/
def EatPsaClaimData.claim : EatPsaClaimData → EatPsaClaim
  | .nonce _ => .nonce
  | .ueid _ => .ueid
  | .profile _ => .profile
  | .bootSeed _ => .bootSeed
  | .clientId _ => .clientId
  | .lifecycle _ => .lifecycle
  | .implementation _ => .implementation
  | .certRef _ => .certRef
  | .components _ _ => .components
  | .noMeasurements => .noMeasurements
  | .vsi _ => .vsi

variable [MacSettings]

/-- The encoding of the value of a claim and what it says. -/
def EatPsaClaimEncoding (legacy : Bool) (claim : EatPsaClaim) (bs : Bytes) (data : EatPsaClaimData) : Prop :=
  match claim with
  | .nonce => ∃ span, EatPsaBytesValue .bstr bs span ∧ data = .nonce span
  | .ueid => ∃ span, EatPsaBytesValue .bstr bs span ∧ data = .ueid span
  | .profile => ∃ text profile, EatPsaBytesValue .tstr bs text ∧ eatPsaSetProfile text legacy = .ok profile
      ∧ data = .profile profile
  | .bootSeed => ∃ span, EatPsaBytesValue .bstr bs span ∧ data = .bootSeed span
  | .clientId => ∃ v, EatPsaIntValue bs v ∧ ¬ (v < -2147483647 - 1 ∨ v > 2147483647 ∨ v = 0)
      ∧ data = .clientId (Int32.ofInt v)
  | .lifecycle => ∃ v, EatPsaUintValue bs v ∧ ¬ (v > 0xFFFF ∨ eatPsaLifecycleValid (UInt16.ofNat v) = false)
      ∧ data = .lifecycle (UInt16.ofNat v)
  | .implementation => ∃ span, EatPsaBytesValue .bstr bs span ∧ data = .implementation span
  | .certRef => ∃ span, EatPsaBytesValue .tstr bs span ∧ data = .certRef span
  | .components => ∃ r, EatPsaComponentsEncoding bs r ∧ data = .components r.1 r.2
  | .noMeasurements => ∃ v, EatPsaUintValue bs v ∧ ¬ v ≠ 1 ∧ data = .noMeasurements
  | .vsi => ∃ span, EatPsaBytesValue .tstr bs span ∧ data = .vsi span

theorem reads_eatPsaDecodeClaimData (legacy : Bool) (claim : EatPsaClaim) :
  Reads (eatPsaDecodeClaimData legacy claim) (EatPsaClaimEncoding legacy claim)
  := by
  cases claim with
  | nonce => exact (reads_eatPsaBytes .bstr).map _
  | ueid => exact (reads_eatPsaBytes .bstr).map _
  | profile =>
      intro ctx data ctx'
      simp only [eatPsaDecodeClaimData, EatPsaClaimEncoding, decodeTstrEx, runs_bind, runs_ofExcept, runs_pure,
        reads_eatPsaBytes _ _ _ _]
      constructor
      · rintro ⟨text, _, ⟨bs, hbs, hc⟩, profile, _, ⟨hset, rfl⟩, rfl, rfl⟩
        exact ⟨bs, ⟨text, profile, hbs, hset, rfl⟩, hc⟩
      · rintro ⟨bs, ⟨text, profile, hbs, hset, rfl⟩, hc⟩
        exact ⟨text, ctx', ⟨bs, hbs, hc⟩, profile, ctx', ⟨hset, rfl⟩, rfl, rfl⟩
  | bootSeed => exact (reads_eatPsaBytes .bstr).map _
  | clientId => exact reads_eatPsaInt.check _
  | lifecycle => exact reads_eatPsaUint.check _
  | implementation => exact (reads_eatPsaBytes .bstr).map _
  | certRef => exact (reads_eatPsaBytes .tstr).map _
  | components => exact reads_eatPsaDecodeComponents.map _
  | noMeasurements => exact reads_eatPsaUint.check _
  | vsi => exact (reads_eatPsaBytes .tstr).map _

theorem EatPsaClaimEncoding.claim_eq {legacy : Bool} {claim : EatPsaClaim} {bs : Bytes} {data : EatPsaClaimData}
    (h : EatPsaClaimEncoding legacy claim bs data) :
  data.claim = claim
  := by
  cases claim <;> simp only [EatPsaClaimEncoding] at h
  case profile =>
    obtain ⟨_, _, -, -, rfl⟩ := h
    rfl
  case clientId | lifecycle | noMeasurements =>
    obtain ⟨_, -, -, rfl⟩ := h
    rfl
  all_goals
    obtain ⟨_, -, rfl⟩ := h
    rfl

/-- The generic walker accepts the value of every claim but the software components. -/
theorem EatPsaClaimEncoding.skipped {legacy : Bool} {claim : EatPsaClaim} {bs : Bytes} {data : EatPsaClaimData}
    (h : EatPsaClaimEncoding legacy claim bs data) (hne : claim ≠ .components) :
  SkippedValue eatPsaDecodeFlags bs
  := by
  cases claim <;> simp only [EatPsaClaimEncoding] at h
  case components => exact absurd rfl hne
  case profile =>
    obtain ⟨_, _, hv, -, -⟩ := h
    exact hv.skipped rfl
  case clientId =>
    obtain ⟨_, hv, -, -⟩ := h
    exact hv.skipped
  case lifecycle | noMeasurements =>
    obtain ⟨_, hv, -, -⟩ := h
    exact hv.skipped
  all_goals
    obtain ⟨_, hv, -⟩ := h
    exact hv.skipped rfl

theorem EatPsaClaimEncoding.item {legacy : Bool} {claim : EatPsaClaim} {bs : Bytes} {data : EatPsaClaimData}
    (h : EatPsaClaimEncoding legacy claim bs data) :
  EatPsaItem bs
  := by
  by_cases hne : claim = .components
  · subst hne
    obtain ⟨_, hr, -⟩ := h
    exact hr.item
  · exact (h.skipped hne).item

/-- The variables after a claim. -/
def EatPsaClaimVars.add (vars : EatPsaClaimVars) (claim : EatPsaClaim) (legacy : Bool) (data : EatPsaClaimData) :
    EatPsaClaimVars :=
  ⟨vars.seen ||| claim.bit, vars.currentLabels || !legacy, vars.oldLabels || legacy, vars.token.store data⟩

/-- A claim may follow those before it: its profile is enabled, no label of the other profile has
been seen, and it is new. -/
structure EatPsaClaimVars.Admits (vars : EatPsaClaimVars) (claim : EatPsaClaim) (legacy : Bool) : Prop where
  enabled : (if legacy then eatPsaLegacy else eatPsaCurrent) = true
  unmixed : (if legacy then vars.currentLabels else vars.oldLabels) = false
  new : vars.seen &&& claim.bit = 0

/-- What the value of an entry of a claims map does. -/
def EatPsaClaimValue (label : EatPsaLabel) (bs : Bytes) (vars vars' : EatPsaClaimVars) : Prop :=
  match label.toInt.bind eatPsaClaimType with
  | none => SkippedValue eatPsaDecodeFlags bs ∧ vars' = vars
  | some (claim, legacy) => vars.Admits claim legacy
      ∧ ∃ data, EatPsaClaimEncoding legacy claim bs data ∧ vars' = vars.add claim legacy data

theorem readsValue_eatPsaClaim :
  EatPsaReadsValue eatPsaDecodeClaimValue EatPsaClaimValue
  := by
  intro label vars ctx vars' ctx'
  unfold eatPsaDecodeClaimValue EatPsaClaimValue
  cases label.toInt.bind eatPsaClaimType with
  | none => exact (reads_skipEx decodeFlagsValid_eatPsa).andReturn vars ctx vars' ctx'
  | some r =>
      obtain ⟨claim, legacy⟩ := r
      simp only [runs_bind, runs_failIf, runs_pure, reads_eatPsaDecodeClaimData _ _ _ _ _, ne_eq, Decidable.not_not,
        Bool.not_eq_false, Bool.not_eq_true]
      constructor
      · rintro ⟨_, _, ⟨hen, rfl⟩, _, _, ⟨hmix, rfl⟩, _, _, ⟨hnew, rfl⟩, data, _, ⟨bs, hbs, hc⟩, rfl, rfl⟩
        exact ⟨bs, ⟨⟨hen, hmix, hnew⟩, data, hbs, rfl⟩, hc⟩
      · rintro ⟨bs, ⟨⟨hen, hmix, hnew⟩, data, hbs, rfl⟩, hc⟩
        exact ⟨(), ctx, ⟨hen, rfl⟩, (), ctx, ⟨hmix, rfl⟩, (), ctx, ⟨hnew, rfl⟩, data, ctx', ⟨bs, hbs, hc⟩, rfl, rfl⟩

theorem EatPsaClaimValue.item (label : EatPsaLabel) (bs : Bytes) (vars vars' : EatPsaClaimVars)
    (h : EatPsaClaimValue label bs vars vars') :
  EatPsaItem bs
  := by
  unfold EatPsaClaimValue at h
  split at h
  · exact h.1.item
  · obtain ⟨-, _, hdata, -⟩ := h
    exact hdata.item

/-- The entry of the software components. -/
def EatPsaEntry.IsComponents (e : EatPsaEntry) : Prop :=
  ∃ legacy, e.label.toInt.bind eatPsaClaimType = some (.components, legacy)

/-- The claims of a payload, in order: each may follow those before it, and together they are a
token. -/
def EatPsaClaimsToken (es : List EatPsaEntry) (token : EatPsaToken) : Prop :=
  ∃ vars, Steps (EatPsaEntrySteps EatPsaClaimValue) es .init vars ∧ eatPsaCheckClaims vars = .ok token

/-- A payload is decoded exactly if it is a map of claims with different labels, all of which but
the last the generic walker can read again. -/
theorem eatPsaDecodeClaims_eq_ok {payload : Buffer} {token : EatPsaToken} :
  eatPsaDecodeClaims (some payload) = .ok token
    ↔ ∃ head es, payload.bytes = eatPsaMapBytes head es ∧ EatPsaMapHead head es.length ∧ es.length ≤ maxClaims
      ∧ EatPsaClaimsToken es token ∧ (es.map EatPsaEntry.label).Nodup
      ∧ ∀ e ∈ es.dropLast, SkippedValue eatPsaDecodeFlags e.value
  := by
  have hmap := reads_eatPsaDecodeMap readsValue_eatPsaClaim EatPsaClaimValue.item maxClaims .init
  have hruns : eatPsaDecodeClaims (some payload) = .ok token
      ↔ ∃ ctx', Runs eatPsaDecodeClaimsMap (.init payload) token ctx' := by
    unfold eatPsaDecodeClaims Runs
    cases h : eatPsaDecodeClaimsMap (.init payload) <;> simp [h]
  rw [hruns]
  simp only [eatPsaDecodeClaimsMap, runs_bind, runs_get, runs_failIf, runs_ofExcept, hmap _ _ _, ne_eq,
    Decidable.not_not]
  constructor
  · rintro ⟨_, vars, ctx₁, ⟨_, ⟨head, es, rfl, hhead, hlimit, hsteps, hfresh⟩, hc⟩, _, _, ⟨rfl, rfl⟩, _, _, ⟨hend, rfl⟩,
      hcheck, rfl⟩
    obtain ⟨hnodup, hread⟩ := eatPsaFresh_nil_iff.mp hfresh
    refine ⟨head, es, ?_, hhead, hlimit, ⟨vars, hsteps, hcheck⟩, hnodup, hread⟩
    have hrest := hc.rest_eq
    have hnil : ctx₁.rest = [] := by rw [DecCtx.rest, hend]; exact List.drop_length
    rw [DecCtx.rest_init, hnil, List.append_nil] at hrest
    exact hrest
  · rintro ⟨head, es, hbytes, hhead, hlimit, ⟨vars, hsteps, hcheck⟩, hnodup, hread⟩
    have hc : (DecCtx.init payload).Consumes (eatPsaMapBytes head es)
        ((DecCtx.init payload).advance (eatPsaMapBytes head es).length) := by
      apply DecCtx.consumes_of_rest (r := [])
      rw [DecCtx.rest_init, hbytes, List.append_nil]
    refine ⟨_, vars, _, ⟨_, ⟨head, es, rfl, hhead, hlimit, hsteps, eatPsaFresh_nil_iff.mpr ⟨hnodup, hread⟩⟩, hc⟩, _, _,
      ⟨rfl, rfl⟩, (), _, ⟨?_, rfl⟩, hcheck, rfl⟩
    rw [DecCtx.idx_advance, DecCtx.bufSz_advance, ← hbytes]
    exact Nat.zero_add _

end WolfCose
