import WolfCose.EatPsa.Verify

/-!
# Iterating over verified components

The components that `wc_CoseEatPsaToken_ForEachComponent` hands to its callback are those that
`wc_CoseEatPsaToken_Verify` has decoded within the payload, one after the other.
-/

namespace WolfCose

open Program Cbor Settings MacSettings EatPsaSettings

section

variable [Settings] [MacSettings] [EatPsaSettings]

/-! ### The components of a payload -/

omit [MacSettings] in
/-- The decoder of components reads one after the other. -/
theorem steps_eatPsaDecodeComponent {xs : List Bytes} {components : List EatPsaComponent}
    (h : List.Forall₂ EatPsaComponentEncoding xs components) {ctx ctx' : DecCtx} (hc : ctx.Consumes xs.flatten ctx') :
  Steps (fun component ctx ctx' => Runs eatPsaDecodeComponent ctx component ctx') components ctx ctx'
  := by
  induction h generalizing ctx with
  | nil =>
      obtain rfl := ctx.consumes_nil.unique hc
      apply Steps.nil
  | cons hx _ ih =>
      rw [List.flatten_cons] at hc
      obtain ⟨ctx₁, hc₁, hc₂⟩ := hc.split
      exact .cons ((reads_eatPsaDecodeComponent _ _ _).mpr ⟨_, hx, hc₁⟩) (ih hc₂)

/-- The components that the decoder of the claims decodes in a payload: after some entries it has
read the label of the components, and from there `wolfCose_EatPsaDecodeComponents` decodes them one
after the other. -/
def EatPsaDecodesComponents (payload : Buffer) (span : Bytes) (components : List EatPsaComponent) : Prop :=
  ∃ i label legacy before after start last,
    EatPsaReaches maxClaims eatPsaDecodeClaimValue .init (.init payload) i label before after
    ∧ label.toInt.bind eatPsaClaimType = some (.components, legacy)
    ∧ Runs eatPsaDecodeComponents after (span, components.length) last
    ∧ Runs (decodeArrayStartEx eatPsaDecodeFlags) after components.length start
    ∧ Steps (fun component ctx ctx' => Runs eatPsaDecodeComponent ctx component ctx') components start last

omit [EatPsaSettings] [MacSettings] in
/-- The first entries of a map have new labels if all its entries have. -/
theorem EatPsaFresh.of_append {es es' : List EatPsaEntry} (h : EatPsaFresh [] (es ++ es')) :
  EatPsaFresh [] es
  := by
  rw [eatPsaFresh_nil_iff] at h ⊢
  obtain ⟨hnodup, hread⟩ := h
  rw [List.map_append] at hnodup
  refine ⟨(List.nodup_append.mp hnodup).1, ?_⟩
  intro e he
  apply hread
  obtain _ | ⟨e', es'⟩ := es'
  · rwa [List.append_nil]
  · rw [List.dropLast_append_cons]
    exact List.mem_append_left _ ((List.dropLast_sublist _).subset he)

omit [MacSettings] in
/-- The decoder of a map comes to each of the entries that it reads. -/
theorem eatPsaReaches_of_steps {σ : Type} {value : EatPsaLabel → σ → Dec σ} {V : EatPsaLabel → Bytes → σ → σ → Prop}
    (hvalue : EatPsaReadsValue value V) (hitem : ∀ label bs s s', V label bs s s' → EatPsaItem bs) {limit : Nat}
    {s s' : σ} {ctx : DecCtx} {head : Token} {before after : List EatPsaEntry} {e : EatPsaEntry}
    (hctx : ctx.rest = eatPsaMapBytes head (before ++ e :: after))
    (hhead : EatPsaMapHead head (before ++ e :: after).length) (hlimit : (before ++ e :: after).length ≤ limit)
    (hsteps : Steps (EatPsaEntrySteps V) (before ++ e :: after) s s') (hfresh : EatPsaFresh [] (before ++ e :: after)) :
  ∃ labelCtx valueCtx, EatPsaReaches limit value s ctx before.length e.label labelCtx valueCtx
    ∧ valueCtx.rest = e.value ++ eatPsaEntriesBytes after
  := by
  have hne : ∀ e' ∈ before ++ e :: after, e'.value ≠ [] := by
    intro e' he'
    obtain ⟨_, _, -, hv⟩ := hsteps.forall_mem e' he'
    obtain ⟨_, hi⟩ := hitem _ _ _ _ hv
    apply hi.ne_nil
  have hroom := two_mul_length_le hne
  obtain ⟨s₁, hbefore, hafter⟩ := Steps.append_iff.mp hsteps
  obtain ⟨_, ⟨hlabelled, -⟩, -⟩ := Steps.cons_iff.mp hafter
  rw [eatPsaMapBytes] at hctx
  obtain ⟨start, hc⟩ : ∃ start, ctx.Consumes head.bytes start := ⟨_, DecCtx.consumes_of_rest hctx⟩
  have hrest := hc.rest_eq
  rw [hctx, List.append_cancel_left_eq] at hrest
  rw [hrest] at hroom
  rw [eatPsaEntriesBytes_append, eatPsaEntriesBytes_cons, EatPsaEntry.bytes, List.append_assoc] at hrest
  obtain ⟨labelCtx, hcBefore⟩ : ∃ labelCtx, start.Consumes (eatPsaEntriesBytes before) labelCtx :=
    ⟨_, DecCtx.consumes_of_rest hrest.symm⟩
  have hrest' := hcBefore.rest_eq
  rw [← hrest, List.append_cancel_left_eq] at hrest'
  obtain ⟨valueCtx, hcLabel⟩ : ∃ valueCtx, labelCtx.Consumes e.token.bytes valueCtx :=
    ⟨_, DecCtx.consumes_of_rest hrest'.symm⟩
  have hrest'' := hcLabel.rest_eq
  rw [← hrest', List.append_cancel_left_eq] at hrest''
  refine ⟨labelCtx, valueCtx, ⟨⟨_, start, s₁, (runs_decodeMapStartEx _ _ _ _).mpr ⟨decodeFlagsValid_eatPsa, head, hhead.accepted, hc,
    hhead.major, hhead.val, by rw [hhead.children]; exact hroom⟩, Nat.not_lt.mpr hlimit, ?_, ?_⟩, ?_⟩, hrest''.symm⟩
  · rw [List.length_append, List.length_cons]
    omega
  · exact (runs_eatPsaDecodePrefix hvalue hitem hhead hc hroom (by rw [List.length_append]; apply Nat.le_add_right)
      _ _ _).mpr ⟨before, rfl, hbefore, hfresh.of_append, hcBefore⟩
  · exact (runs_eatPsaDecodeLabel _ _ _).mpr ⟨e.token, hlabelled.accepted, hcLabel, hlabelled.label_eq⟩

/-- The components of a token that has been decoded from a payload. -/
theorem eatPsaDecodesComponents_of_claims {payload : Buffer} {token : EatPsaToken}
    (h : eatPsaDecodeClaims (some payload) = .ok token) (hmeasured : token.noSoftwareMeasurements = 0) :
  ∃ (head : Token) (xs : List Bytes) (components : List EatPsaComponent),
    token.components = .mem (head.bytes ++ xs.flatten) ∧ xs.length = token.componentCount
    ∧ (Accepted eatPsaDecodeFlags head ∧ head.major = .array ∧ head.val = xs.length)
    ∧ List.Forall₂ EatPsaComponentEncoding xs components ∧ (head.bytes ++ xs.flatten).length ≤ sizeMax
    ∧ EatPsaDecodesComponents payload (head.bytes ++ xs.flatten) components
  := by
  obtain ⟨mapHead, es, hbytes, hmapHead, hlimit, hes, hnodup, hread⟩ := eatPsaDecodeClaims_eq_ok.mp h
  obtain ⟨e, hmem, -, ⟨legacy, hlegacy⟩, hspan, hencoding⟩ := hes.from.components hmeasured
  obtain ⟨before, after, rfl⟩ := List.append_of_mem hmem
  obtain ⟨vars, hsteps, -⟩ := hes
  obtain ⟨labelCtx, valueCtx, hreaches, hrest⟩ := eatPsaReaches_of_steps readsValue_eatPsaClaim EatPsaClaimValue.item
    ((DecCtx.rest_init payload).trans hbytes) hmapHead hlimit hsteps (eatPsaFresh_nil_iff.mpr ⟨hnodup, hread⟩)
  have hc := DecCtx.consumes_of_rest hrest
  have hrun := (reads_eatPsaDecodeComponents valueCtx _ _).mpr ⟨_, hencoding, hc⟩
  -- every element of the array is the encoding of a component
  obtain ⟨head, xs, hvalue, hhead, hm, hv, -, hxs, hcount⟩ := hencoding
  obtain ⟨-, hcount⟩ := Prod.mk.inj hcount
  obtain ⟨components, hcomponents⟩ : ∃ components, List.Forall₂ EatPsaComponentEncoding xs components := by
    have : Nonempty EatPsaComponent := ⟨.zero⟩
    choose! f hf using hxs
    exact ⟨xs.map f, List.forall₂_map_right_iff.mpr (List.forall₂_same.mpr hf)⟩
  have hlen := hcomponents.length_eq
  have hfits : e.value.length ≤ sizeMax := by
    have hlen := payload.length_le
    rw [hbytes, eatPsaMapBytes, eatPsaEntriesBytes_append, eatPsaEntriesBytes_cons, EatPsaEntry.bytes] at hlen
    simp only [List.length_append] at hlen
    omega
  rw [hvalue] at hspan hc hfits hrun
  obtain ⟨start, harray, hcxs⟩ := runs_componentsStart hc hhead hm hv hcomponents
  rw [hcount, hlen] at hrun
  rw [hlen] at harray
  exact ⟨head, xs, components, hspan, hcount.symm, ⟨hhead, hm, hv⟩, hcomponents, hfits, before.length, e.label,
    legacy, labelCtx, valueCtx, start, _, hreaches, hlegacy, hrun, harray,
    steps_eatPsaDecodeComponent hcomponents hcxs⟩

/-! ### Replaying them -/

variable [WolfCrypt] [MacCrypt]

/-- The payload that `wc_CoseEatPsaToken_Verify` decodes: what the verification function for the tag
of the token returns. -/
def EatPsaVerifiedPayload (key : Option Key) (args : EatPsaVerifyArgs) (payload : Buffer) : Prop :=
  ∃ key' input scratch envelope out bs, key = some key' ∧ args.input = some input ∧ args.scratch = some scratch
    ∧ decodeBuffer eatPsaGetEnvelope input = .ok envelope
    ∧ eatPsaVerifyMessage key' input scratch envelope = .ok out ∧ out.payload = some (some bs)
    ∧ payload = .ofBytes bs

/-- A token that is returned has been decoded from the payload. -/
theorem eatPsaTokenVerify_decodes {key : Option Key} {args : EatPsaVerifyArgs} {token : EatPsaToken}
    (h : eatPsaTokenVerify key args = (.ok (), some token)) :
  ∃ payload claims, EatPsaVerifiedPayload key args payload ∧ eatPsaDecodeClaims (some payload) = .ok claims
    ∧ token = { claims with protection := token.protection }
  := by
  obtain ⟨token', hret, htoken⟩ := eatPsaFinish_ok h
  obtain rfl := Option.some.inj htoken
  split at hret
  · rename_i key' input scratch _ hinput hscratch _
    simp only [eatPsaVerifyToken, bind_eq_ok, failWhen_eq_ok, lift_eq_ok, pure_eq_ok] at hret
    obtain ⟨_, -, envelope, henv, _, -, out, hout, _, -, claims, hclaims, _, -, rfl⟩ := hret
    cases hpayload : out.payload.join with
    | none =>
        rw [hpayload] at hclaims
        cases hclaims
    | some bs =>
        rw [hpayload] at hclaims
        rw [Option.join_eq_some_iff] at hpayload
        exact ⟨.ofBytes bs, claims,
          ⟨_, input, scratch, envelope, out, bs, rfl, hinput, hscratch, henv, hout, hpayload, rfl⟩, hclaims, rfl⟩
  · cases hret

/-- An iteration calls the callback for one component after the other, as long as it succeeds, and
ends with its first error. -/
structure EatPsaReplays (token : EatPsaToken) (components : List EatPsaComponent) : Prop where
  success : ∀ (ε σ : Type) (cb : EatPsaComponentCb ε σ), (∀ component s, ∃ s', cb component s = .ok () s') →
    ∀ s, ∃ s', eatPsaForEachComponent (some token) (some cb) s = .ok () s'
      ∧ Steps (fun component s s' => cb component s = .ok () s') components s s'
  error : ∀ (ε σ : Type) (cb : EatPsaComponentCb ε σ) before component after s s₁ s₂ e,
    components = before ++ component :: after →
    Steps (fun component s s' => cb component s = .ok () s') before s s₁ → cb component s₁ = .error e s₂ →
    eatPsaForEachComponent (some token) (some cb) s = .error (.inr e) s₂

omit [Settings] [MacSettings] [EatPsaSettings] [WolfCrypt] [MacCrypt] in
/-- Calls of a callback that succeed are steps from one state of it to the next. -/
theorem forM_callComponentCb_append {ε σ : Type} {cb : EatPsaComponentCb ε σ} {before : List EatPsaComponent} {s s₁ : σ}
    (h : Steps (fun component s s' => cb component s = .ok () s') before s s₁) (after : List EatPsaComponent) :
  (before ++ after).forM (callComponentCb cb) s = after.forM (callComponentCb cb) s₁
  := by
  induction h with
  | nil s => rfl
  | cons hx _ ih =>
      rw [← ih, List.cons_append]
      change EStateM.bind _ _ _ = _
      rw [EStateM.bind, callComponentCb, EStateM.adaptExcept, hx]

omit [Settings] [MacSettings] [EatPsaSettings] [WolfCrypt] [MacCrypt] in
/-- A callback that always succeeds takes any state through all components. -/
theorem exists_steps_of_success {ε σ : Type} {cb : EatPsaComponentCb ε σ}
    (hcb : ∀ component s, ∃ s', cb component s = .ok () s') (components : List EatPsaComponent) (s : σ) :
  ∃ s', Steps (fun component s s' => cb component s = .ok () s') components s s'
  := by
  induction components generalizing s with
  | nil => exact ⟨s, .nil s⟩
  | cons component components ih =>
      obtain ⟨s₁, hs₁⟩ := hcb component s
      obtain ⟨s', hs'⟩ := ih s₁
      exact ⟨s', .cons hs₁ hs'⟩

omit [MacSettings] [WolfCrypt] [MacCrypt] in
/-- An iteration that hands out components replays them. -/
theorem replays_of_forM {token : EatPsaToken} {components : List EatPsaComponent}
    (h : ∀ (ε σ : Type) (cb : EatPsaComponentCb ε σ),
      eatPsaForEachComponent (some token) (some cb) = components.forM (callComponentCb cb)) :
  EatPsaReplays token components
  where
  success ε σ cb hcb s := by
    obtain ⟨s', hs'⟩ := exists_steps_of_success hcb components s
    refine ⟨s', ?_, hs'⟩
    rw [h, ← List.append_nil components, forM_callComponentCb_append hs']
    rfl
  error ε σ cb before component after s s₁ s₂ e hsplit hbefore herror := by
    rw [h, hsplit, forM_callComponentCb_append hbefore]
    change EStateM.bind _ _ _ = _
    rw [EStateM.bind, callComponentCb, EStateM.adaptExcept, herror]

/-- The iteration over the components of a token that `wc_CoseEatPsaToken_Verify` returns replays
those that it has decoded in the payload, and none where the token has no software measurements. -/
theorem eatPsaForEach_replays_verify {key : Option Key} {args : EatPsaVerifyArgs} {token : EatPsaToken}
    (h : eatPsaTokenVerify key args = (.ok (), some token)) :
  ∃ payload components, EatPsaVerifiedPayload key args payload ∧ components.length = token.componentCount
    ∧ (token.noSoftwareMeasurements ≠ 0 → components = [])
    ∧ (token.noSoftwareMeasurements = 0 →
      ∃ span, token.components = .mem span ∧ EatPsaDecodesComponents payload span components)
    ∧ EatPsaReplays token components
  := by
  obtain ⟨payload, claims, hpayload, hclaims, htoken⟩ := eatPsaTokenVerify_decodes h
  have hnone : token.noSoftwareMeasurements = claims.noSoftwareMeasurements := by rw [htoken]
  have hcount : token.componentCount = claims.componentCount := by rw [htoken]
  have hcomponents : token.components = claims.components := by rw [htoken]
  rw [hnone, hcount, hcomponents]
  by_cases hmeasured : claims.noSoftwareMeasurements = 0
  · obtain ⟨head, xs, components, hspan, hlen, ⟨hhead, hm, hv⟩, hxs, hfits, hdecodes⟩ :=
      eatPsaDecodesComponents_of_claims hclaims hmeasured
    refine ⟨payload, components, hpayload, hxs.length_eq.symm.trans hlen, fun h => absurd hmeasured h,
      fun _ => ⟨_, hspan, hdecodes⟩, replays_of_forM ?_⟩
    intro ε σ cb
    rw [← hnone] at hmeasured
    simp only [eatPsaForEachComponent, hmeasured, hcomponents, hspan, hcount, ← hlen, ne_eq, not_true_eq_false, if_false]
    exact eatPsaForEachSpan_eq cb (Buffer.bytes_ofBytes hfits) hhead hm hv hxs
  · obtain ⟨_, es, -, -, -, hes, -⟩ := eatPsaDecodeClaims_eq_ok.mp hclaims
    refine ⟨payload, [], hpayload, (hes.from.absent hmeasured).symm, fun _ => rfl, fun h => absurd h hmeasured,
      replays_of_forM ?_⟩
    intro ε σ cb
    rw [← hnone] at hmeasured
    simp only [eatPsaForEachComponent, ne_eq, hmeasured, not_false_eq_true, if_true]
    rfl

end

section Instances

attribute [local instance] defaultSettings defaultMacSettings defaultEatPsaSettings failingCrypt sampleTokenCrypt

theorem eatPsaForEach_replays_verify_instance :
  ∃ token payload components, eatPsaTokenVerify (some hmacKey) sampleTokenArgs = (.ok (), some token)
    ∧ EatPsaVerifiedPayload (some hmacKey) sampleTokenArgs payload ∧ components.length = token.componentCount
    ∧ token.componentCount = 2 ∧ EatPsaReplays token components
  := by
  have hcount : (eatPsaTokenVerify (some hmacKey) sampleTokenArgs).2.map EatPsaToken.componentCount = some 2 := by
    decide +kernel
  obtain ⟨token, htoken, hcount⟩ := Option.map_eq_some_iff.mp hcount
  have h : eatPsaTokenVerify (some hmacKey) sampleTokenArgs = (.ok (), some token) := by
    rw [← htoken]
    exact sampleToken_verifies
  obtain ⟨payload, components, hpayload, hlen, -, -, hreplays⟩ := eatPsaForEach_replays_verify h
  exact ⟨token, payload, components, h, hpayload, hlen, hcount, hreplays⟩

end Instances

end WolfCose
