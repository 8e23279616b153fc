import WolfCose.EatPsa.Iterate

/-!
# What a decoded token says

A token that the decoder of the claims returns has a nonce, and it either has the encoding of its
software components or says that there are none.  Its components can be iterated over.
-/

namespace WolfCose

open Program Cbor Settings EatPsaSettings

/-! ### Storing a claim -/

theorem EatPsaToken.store_nonce_valid {token : EatPsaToken} (h : token.nonce.Valid) (data : EatPsaClaimData) :
  (token.store data).nonce.Valid
  := by
  cases data <;> first | exact h | exact Pointer.valid_mem _

theorem EatPsaToken.store_components {token : EatPsaToken} {data : EatPsaClaimData} (h : data.claim ≠ .components) :
  (token.store data).components = token.components ∧ (token.store data).componentCount = token.componentCount
  := by
  cases data <;> first | exact ⟨rfl, rfl⟩ | exact absurd rfl h

theorem EatPsaToken.store_noSoftwareMeasurements {token : EatPsaToken} {data : EatPsaClaimData}
    (h : data.claim ≠ .noMeasurements) :
  (token.store data).noSoftwareMeasurements = token.noSoftwareMeasurements
  := by
  cases data <;> first | rfl | exact absurd rfl h

/-- The assertion that there are no measurements is a claim of the legacy profile only. -/
theorem eatPsaClaimType_noMeasurements {label : Int} {legacy : Bool}
    (h : eatPsaClaimType label = some (.noMeasurements, legacy)) :
  legacy = true
  := by
  have hall : ∀ q ∈ eatPsaClaimTable, q.2.1 = .noMeasurements → q.2.2 = true := by decide
  obtain ⟨before, after, htable, -⟩ := List.lookup_eq_some_iff.mp h
  apply hall (label, .noMeasurements, legacy) _ rfl
  rw [htable]
  simp

section

variable [Settings] [EatPsaSettings] [MacSettings]

/-- What the variables of the decoder say comes from the entries of the map. -/
structure EatPsaClaimVars.From (es : List EatPsaEntry) (vars : EatPsaClaimVars) : Prop where
  nonce : vars.token.nonce.Valid
  components : vars.seen &&& EatPsaClaim.components.bit ≠ 0 →
    ∃ e ∈ es, e.Labelled ∧ e.IsComponents ∧ vars.token.components = .mem e.value
      ∧ EatPsaComponentsEncoding e.value (e.value, vars.token.componentCount)
  absent : vars.seen &&& EatPsaClaim.components.bit = 0 → vars.token.componentCount = 0
  noMeasurements : vars.seen &&& EatPsaClaim.noMeasurements.bit ≠ 0 ↔ vars.token.noSoftwareMeasurements ≠ 0
  legacy : vars.seen &&& EatPsaClaim.noMeasurements.bit ≠ 0 → vars.oldLabels = true
  current_enabled : vars.currentLabels = true → eatPsaCurrent = true
  old_enabled : vars.oldLabels = true → eatPsaLegacy = true

omit [MacSettings] in
theorem EatPsaClaimVars.from_init (es : List EatPsaEntry) :
  EatPsaClaimVars.init.From es
  where
  nonce := fun _ => rfl
  components h := absurd UInt32.zero_and h
  absent _ := rfl
  noMeasurements := by decide
  legacy h := absurd UInt32.zero_and h
  current_enabled := by rintro ⟨⟩
  old_enabled := by rintro ⟨⟩

/-- A claim keeps what the variables say. -/
theorem EatPsaClaimVars.From.step {es : List EatPsaEntry} {e : EatPsaEntry} (he : e ∈ es)
    {vars vars' : EatPsaClaimVars} (hstep : EatPsaEntrySteps EatPsaClaimValue e vars vars') (h : vars.From es) :
  vars'.From es
  := by
  obtain ⟨hlabelled, hstep⟩ := hstep
  unfold EatPsaClaimValue at hstep
  split at hstep
  · obtain ⟨-, rfl⟩ := hstep
    exact h
  · rename_i claim legacy htype
    obtain ⟨hadm, data, hdata, rfl⟩ := hstep
    have hclaim := hdata.claim_eq
    -- a bit that was not seen before is that of the claim
    have hseen {c : EatPsaClaim} (hne : claim ≠ c) :
        (vars.seen ||| claim.bit) &&& c.bit ≠ 0 ↔ vars.seen &&& c.bit ≠ 0 := by
      rw [uint32_or_and_ne_zero, or_iff_left_iff_imp]
      intro hbit
      exact absurd (EatPsaClaim.bit_disjoint hne) hbit
    have hself : (vars.seen ||| claim.bit) &&& claim.bit ≠ 0 := by
      rw [uint32_or_and_ne_zero, UInt32.and_self]
      exact .inr claim.bit_ne_zero
    simp only [EatPsaClaimVars.add]
    constructor <;> dsimp only
    · exact EatPsaToken.store_nonce_valid h.nonce data
    · by_cases hc : claim = .components
      · subst hc
        obtain ⟨r, hr, rfl⟩ := hdata
        have hr' := hr
        obtain ⟨_, xs, -, -, -, -, -, -, rfl⟩ := hr
        exact fun _ => ⟨e, he, hlabelled, ⟨legacy, htype⟩, rfl, hr'⟩
      · rw [hseen hc, (EatPsaToken.store_components (hclaim.trans_ne hc)).1,
          (EatPsaToken.store_components (hclaim.trans_ne hc)).2]
        exact h.components
    · by_cases hc : claim = .components
      · subst hc
        exact fun hbit => absurd hbit hself
      · rw [(EatPsaToken.store_components (hclaim.trans_ne hc)).2]
        intro hbit
        apply h.absent
        by_contra hne
        exact (hseen hc).mpr hne hbit
    · by_cases hc : claim = .noMeasurements
      · subst hc
        obtain ⟨_, -, -, rfl⟩ := hdata
        exact iff_of_true hself (by decide : (1 : UInt8) ≠ 0)
      · rw [hseen hc, EatPsaToken.store_noSoftwareMeasurements (hclaim.trans_ne hc)]
        exact h.noMeasurements
    · by_cases hc : claim = .noMeasurements
      · subst hc
        obtain ⟨label, -, hlookup⟩ := Option.bind_eq_some_iff.mp htype
        intro _
        rw [eatPsaClaimType_noMeasurements hlookup, Bool.or_true]
      · rw [hseen hc]
        intro hbit
        rw [h.legacy hbit, Bool.true_or]
    · have henabled := hadm.enabled
      cases legacy with
      | false => exact fun _ => henabled
      | true => simpa using h.current_enabled
    · have henabled := hadm.enabled
      cases legacy with
      | false => simpa using h.old_enabled
      | true => exact fun _ => henabled

/-- The token has a nonce, and it has its software components or says that there are none. -/
structure EatPsaToken.From (es : List EatPsaEntry) (token : EatPsaToken) : Prop where
  nonce : ∃ nonce, token.nonce = .mem nonce
  components : token.noSoftwareMeasurements = 0 →
    ∃ e ∈ es, e.Labelled ∧ e.IsComponents ∧ token.components = .mem e.value
      ∧ EatPsaComponentsEncoding e.value (e.value, token.componentCount)
  absent : token.noSoftwareMeasurements ≠ 0 → token.componentCount = 0

omit [Settings] [EatPsaSettings] [MacSettings] in
theorem seen_of_required {seen required c : UInt32} (h : seen &&& required = required) (hc : required &&& c ≠ 0) :
  seen &&& c ≠ 0
  := by
  intro hzero
  apply hc
  rw [← h, UInt32.and_assoc, UInt32.and_comm required c, ← UInt32.and_assoc, hzero, UInt32.zero_and]

omit [Settings] [EatPsaSettings] [MacSettings] in
/-- A claims map of the legacy profile has software components or says that there are none. -/
theorem eatPsaCheckOld_ok {vars : EatPsaClaimVars} {token : EatPsaToken} (h : eatPsaCheckOld vars = .ok token) :
  (∃ profile, token = { vars.token with profile := profile })
    ∧ ¬ (vars.seen &&& EatPsaClaim.components.bit ≠ 0 ↔ vars.seen &&& EatPsaClaim.noMeasurements.bit ≠ 0)
  := by
  simp only [eatPsaCheckOld, bind_eq_ok, rejectIf_eq_ok] at h
  obtain ⟨_, -, _, hone, h⟩ := h
  refine ⟨?_, hone⟩
  split at h
  · exact ⟨.old, (Except.ok.inj h).symm⟩
  · simp only [bind_eq_ok, rejectIf_eq_ok] at h
    obtain ⟨_, -, h⟩ := h
    exact ⟨vars.token.profile, (Except.ok.inj h).symm⟩

omit [MacSettings] in
theorem eatPsaCheckToken_nonce {token : EatPsaToken} (hvalid : token.nonce.Valid)
    (h : eatPsaCheckToken token = .ok ()) :
  ∃ nonce, token.nonce = .mem nonce
  := by
  simp only [eatPsaCheckToken, bind_eq_ok, rejectIf_eq_ok] at h
  obtain ⟨_, hlen, -⟩ := h
  cases hn : token.nonce with
  | mem bs => exact ⟨bs, rfl⟩
  | null n =>
      rw [hn] at hvalid hlen
      obtain rfl : n = 0 := hvalid rfl
      exact absurd ⟨by decide, by decide, by decide⟩ hlen

omit [MacSettings] in
/-- The token of the checks is that of the loop, but for its profile. -/
theorem eatPsaCheckClaims_from {es : List EatPsaEntry} {vars : EatPsaClaimVars} {token : EatPsaToken}
    (hfrom : vars.From es) (h : eatPsaCheckClaims vars = .ok token) :
  token.From es
  := by
  obtain ⟨seen, currentLabels, oldLabels, stored⟩ := vars
  obtain ⟨hnonce, hcomponents, habsent, hnone, hlegacy, hcurrent, hold⟩ := hfrom
  dsimp only at hnonce hcomponents habsent hnone hlegacy hcurrent hold
  simp only [eatPsaCheckClaims, bind_eq_ok, rejectIf_eq_ok] at h
  obtain ⟨_, hone, h⟩ := h
  cases currentLabels with
  | true =>
      obtain rfl : oldLabels = false := Bool.eq_false_iff.mpr fun he => hone he.symm
      simp only [hcurrent rfl, Bool.false_eq_true, and_self, and_false, if_true, if_false] at h
      simp only [bind_eq_ok, pure_eq_ok, eatPsaCheckCurrent, rejectIf_eq_ok] at h
      obtain ⟨_, ⟨_, hrequired, -⟩, _, rfl, _, hcheck, rfl⟩ := h
      have hseen := seen_of_required (c := EatPsaClaim.components.bit) (Decidable.not_not.mp hrequired) (by decide)
      refine ⟨eatPsaCheckToken_nonce hnonce hcheck, fun _ => hcomponents hseen, fun hne => ?_⟩
      cases hlegacy (hnone.mpr hne)
  | false =>
      obtain rfl : oldLabels = true := Bool.ne_false_iff.mp fun he => hone he.symm
      simp only [hold rfl, Bool.false_eq_true, and_self, and_false, if_true, if_false] at h
      simp only [bind_eq_ok, pure_eq_ok] at h
      obtain ⟨token', hcheckOld, _, hcheck, rfl⟩ := h
      obtain ⟨⟨profile, rfl⟩, hxor⟩ := eatPsaCheckOld_ok hcheckOld
      refine ⟨eatPsaCheckToken_nonce hnonce hcheck, fun hzero => hcomponents fun hbit => ?_, fun hne => habsent ?_⟩
      · exact hxor (iff_of_false (fun hne => hne hbit) fun hne => hnone.mp hne hzero)
      · by_contra hbit
        exact hxor (iff_of_true hbit (hnone.mpr hne))

/-- A token that is decoded comes from the entries of its payload. -/
theorem EatPsaClaimsToken.from {es : List EatPsaEntry} {token : EatPsaToken} (h : EatPsaClaimsToken es token) :
  token.From es
  := by
  obtain ⟨vars, hsteps, hcheck⟩ := h
  apply eatPsaCheckClaims_from _ hcheck
  apply hsteps.invariant _ (EatPsaClaimVars.from_init es)
  intro e he vars vars' hstep hfrom
  apply hfrom.step he hstep

end

end WolfCose
