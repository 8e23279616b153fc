import WolfCose.Encrypt.Decrypt

/-!
# The selected recipient

What `wc_CoseEncrypt_Decrypt` accepts as the recipient that the caller selects, as a relation between
the bytes of the recipient and what is found in them.
-/

namespace WolfCose

open Program Cbor Settings

section

variable [Settings] [RecipientSettings]

/-! ### Ephemeral keys -/

/-- The labels of an ephemeral key are integers. -/
def HdrState.admitInteger (state : HdrState) (label : Label) (_encodedLabel : Bytes) : Except Err HdrState :=
  match label with
  | .int val => state.checkAndAdd val
  | .text _ => .error .cborMalformed

omit [RecipientSettings] in
theorem admits_admitInteger :
  Admits HdrState.admitInteger (fun label => ∃ val, label = .int val)
  := by
  intro state labels label encoded state' hrep hlen henc
  cases label with
  | int val =>
      rw [HdrState.admitInteger, ← HdrState.checkAndAddLabel, hrep.checkAndAddLabel_eq_ok hlen henc]
      simp
  | text text => simp [HdrState.admitInteger]

/-- The value of an entry of an ephemeral key. -/
def EphemeralValue (label : Label) (_idx : Nat) (bs : Bytes) (vars vars' : EphemeralVars) : Prop :=
  if label = .int 1 then TokenValue 0 (fun t => intOf t = some ktyEc2) bs ∧ vars' = { vars with haveKty := true }
  else if label = .int (-1) then
    ∃ crv, TokenValue 0 (fun t => intOf t = some crv) bs ∧ inInt32Range crv = true
      ∧ vars' = { vars with crv := some crv }
  else if label = .int (-2) then
    ∃ x, BstrValue 0 bs x ∧ x.length ≤ ephemPubSz ∧ vars' = { vars with x := some x }
  else if label = .int (-3) then
    ∃ y, BstrValue 0 bs y ∧ y.length ≤ ephemPubSz ∧ vars' = { vars with y := some y }
  else SkippedValue 0 bs ∧ vars' = vars

omit [RecipientSettings] in
theorem EphemeralValue.ne_nil {label : Label} {idx : Nat} {bs : Bytes} {vars vars' : EphemeralVars}
    (h : EphemeralValue label idx bs vars vars') :
  bs ≠ []
  := by
  unfold EphemeralValue at h
  split at h
  · exact h.1.ne_nil
  split at h
  · obtain ⟨_, hv, -⟩ := h
    exact hv.ne_nil
  split at h
  · obtain ⟨_, hv, -⟩ := h
    exact TokenValue.ne_nil hv
  split at h
  · obtain ⟨_, hv, -⟩ := h
    exact TokenValue.ne_nil hv
  · exact h.1.ne_nil

/-- The branches of `wolfCose_DecodeEphemeralKey` for the values of the entries. -/
def decodeEphemeralValue (label : Label) (vars : EphemeralVars) : Dec EphemeralVars :=
  if label = .int 1 then do
    let intVal ← decodeInt
    failIf (intVal ≠ ktyEc2) .coseKeyType
    return { vars with haveKty := true }
  else if label = .int (-1) then do
    let intVal ← decodeInt
    failIf (inInt32Range intVal = false) .coseBadHdr
    return { vars with crv := some intVal }
  else if label = .int (-2) then do
    let x ← decodeCoordinate
    return { vars with x := some x }
  else if label = .int (-3) then do
    let y ← decodeCoordinate
    return { vars with y := some y }
  else do
    skip
    return vars

omit [RecipientSettings] in
theorem reads_decodeCoordinate :
  Reads decodeCoordinate (fun bs x => BstrValue 0 bs x ∧ x.length ≤ ephemPubSz)
  := by
  intro ctx x ctx'
  simp only [decodeCoordinate, decodeBstr, runs_bind, runs_failIf, runs_pure,
    reads_decodeBstrEx decodeFlagsValid_zero _ _ _, Nat.not_lt, gt_iff_lt]
  constructor
  · rintro ⟨_, _, ⟨bs, hbs, hc⟩, _, _, ⟨hlen, rfl⟩, rfl, rfl⟩
    exact ⟨bs, ⟨hbs, hlen⟩, hc⟩
  · rintro ⟨bs, ⟨hbs, hlen⟩, hc⟩
    exact ⟨x, ctx', ⟨bs, hbs, hc⟩, (), ctx', ⟨hlen, rfl⟩, rfl, rfl⟩

omit [RecipientSettings] in
/-- The value of an integer. -/
theorem runs_decodeInt (ctx : DecCtx) (v : Int) (ctx' : DecCtx) :
  Runs decodeInt ctx v ctx' ↔ ∃ bs, TokenValue 0 (fun t => intOf t = some v) bs ∧ ctx.Consumes bs ctx'
  := by
  rw [decodeInt, runs_decodeIntEx]
  constructor
  · rintro ⟨-, t, ht, hc, hv⟩
    exact ⟨_, ⟨t, ht, hv, rfl⟩, hc⟩
  · rintro ⟨_, ⟨t, ht, hv, rfl⟩, hc⟩
    exact ⟨decodeFlagsValid_zero, t, ht, hc, hv⟩

omit [RecipientSettings] in
theorem readsValue_ephemeral :
  ReadsValue decodeEphemeralValue EphemeralValue
  := by
  intro label vars ctx vars' ctx'
  unfold decodeEphemeralValue EphemeralValue
  split
  · simp only [runs_bind, runs_failIf, runs_pure, runs_decodeInt, ne_eq, Decidable.not_not]
    constructor
    · rintro ⟨_, _, ⟨bs, hbs, hc⟩, _, _, ⟨rfl, rfl⟩, rfl, rfl⟩
      exact ⟨bs, ⟨hbs, rfl⟩, hc⟩
    · rintro ⟨bs, ⟨hbs, rfl⟩, hc⟩
      exact ⟨_, ctx', ⟨bs, hbs, hc⟩, (), ctx', ⟨rfl, rfl⟩, rfl, rfl⟩
  split
  · simp only [runs_bind, runs_failIf, runs_pure, runs_decodeInt, Bool.not_eq_false]
    constructor
    · rintro ⟨crv, _, ⟨bs, hbs, hc⟩, _, _, ⟨hrange, rfl⟩, rfl, rfl⟩
      exact ⟨bs, ⟨crv, hbs, hrange, rfl⟩, hc⟩
    · rintro ⟨bs, ⟨crv, hbs, hrange, rfl⟩, hc⟩
      exact ⟨crv, ctx', ⟨bs, hbs, hc⟩, (), ctx', ⟨hrange, rfl⟩, rfl, rfl⟩
  split
  · simp only [runs_bind, runs_pure, reads_decodeCoordinate _ _ _]
    constructor
    · rintro ⟨x, _, ⟨bs, ⟨hbs, hlen⟩, hc⟩, rfl, rfl⟩
      exact ⟨bs, ⟨x, hbs, hlen, rfl⟩, hc⟩
    · rintro ⟨bs, ⟨x, hbs, hlen, rfl⟩, hc⟩
      exact ⟨x, ctx', ⟨bs, ⟨hbs, hlen⟩, hc⟩, rfl, rfl⟩
  split
  · simp only [runs_bind, runs_pure, reads_decodeCoordinate _ _ _]
    constructor
    · rintro ⟨y, _, ⟨bs, ⟨hbs, hlen⟩, hc⟩, rfl, rfl⟩
      exact ⟨bs, ⟨y, hbs, hlen, rfl⟩, hc⟩
    · rintro ⟨bs, ⟨y, hbs, hlen, rfl⟩, hc⟩
      exact ⟨y, ctx', ⟨bs, ⟨hbs, hlen⟩, hc⟩, rfl, rfl⟩
  · exact (reads_skipEx decodeFlagsValid_zero).andReturn vars ctx vars' ctx'

/-- The labels and the fields that the loop over an ephemeral key has so far, as its variables. -/
def ephemeralVarsOf (scan : Scan EphemeralVars) : EphemeralVars := { scan.vars with state := scan.state }

omit [RecipientSettings] in
/-- A value that is an integer is not a text. -/
theorem peekType_of_intOf {t : Token} {v : Int} (ht : t.WellFormed) (hv : intOf t = some v) {ctx ctx' : DecCtx}
    (hc : ctx.Consumes t.bytes ctx') :
  ¬ (ctx.idx ≥ ctx.bufSz ∨ ctx.peekType = some .tstr)
  := by
  rintro (hge | htext)
  · have hlen := hc.length_rest_eq
    have hpos := t.one_le_length_bytes
    rw [ctx.length_rest] at hlen
    omega
  · rw [← List.append_nil t.bytes] at hc
    rw [DecCtx.peekType_eq ht hc, Option.some.injEq] at htext
    rcases intOf_major hv with h | h
    · rw [h] at htext
      cases htext
    · rw [h] at htext
      cases htext

omit [Settings] [RecipientSettings] in
theorem labelOf_eq_int {t : Token} {v : Int} :
  labelOf t = some (.int v) ↔ intOf t = some v
  := by
  unfold labelOf
  split
  · rename_i hm
    simp [intOf, hm]
  · simp

omit [RecipientSettings] in
/-- A turn of the loop over an ephemeral key is one over the entries of a map. -/
theorem runs_decodeEphemeralEntry (scan : Scan EphemeralVars) (ctx : DecCtx) (vars' : EphemeralVars)
    (ctx' : DecCtx) :
  Runs (decodeEphemeralEntry (ephemeralVarsOf scan)) ctx vars' ctx'
    ↔ ∃ scan', Runs (decodeEntry 0 HdrState.admitInteger decodeEphemeralValue scan) ctx scan' ctx'
      ∧ ephemeralVarsOf scan' = vars'
  := by
  have hentry : decodeEphemeralEntry (ephemeralVarsOf scan) = (do
      let ctx ← get
      failIf (ctx.idx ≥ ctx.bufSz ∨ ctx.peekType = some .tstr) .cborMalformed
      let label ← decodeInt
      let state ← MonadExcept.ofExcept (scan.state.checkAndAdd label)
      let vars ← decodeEphemeralValue (.int label) scan.vars
      return ephemeralVarsOf ⟨state, vars⟩) := by
    unfold decodeEphemeralEntry decodeEphemeralValue
    congr
    funext ctx
    congr
    funext _
    congr
    funext label
    congr
    funext state
    simp only [Label.int.injEq]
    split
    · simp only [bind_assoc, pure_bind]
      rfl
    split
    · simp only [bind_assoc, pure_bind]
      rfl
    split
    · simp only [bind_assoc, pure_bind]
      rfl
    split
    · simp only [bind_assoc, pure_bind]
      rfl
    · simp only [bind_assoc, pure_bind]
      rfl
  rw [hentry]
  simp only [decodeEntry, runs_bind, runs_get, runs_failIf, runs_ofExcept, runs_pure, runs_decodeLabelEx,
    decodeInt, runs_decodeIntEx]
  constructor
  · rintro ⟨_, _, ⟨rfl, rfl⟩, _, _, ⟨-, rfl⟩, label, ctx₁, ⟨hf, t, ht, hc, hv⟩, state, _, ⟨hst, rfl⟩, vars, ctx₂,
      hvars, rfl, rfl⟩
    exact ⟨⟨state, vars⟩, ⟨ctx, ctx, ⟨rfl, rfl⟩, .int label, ctx₁, ⟨hf, t, ht, hc, labelOf_eq_int.mpr hv⟩, state, ctx₁,
      ⟨hst, rfl⟩, vars, ctx₂, hvars, rfl, rfl⟩, rfl⟩
  · rintro ⟨scan', ⟨_, _, ⟨rfl, rfl⟩, label, ctx₁, ⟨hf, t, ht, hc, hl⟩, state, _, ⟨hst, rfl⟩, vars, ctx₂, hvars, rfl,
      rfl⟩, rfl⟩
    cases label with
    | int label =>
        have hv := labelOf_eq_int.mp hl
        exact ⟨ctx, ctx, ⟨rfl, rfl⟩, (), ctx, ⟨peekType_of_intOf ht.wellFormed hv hc, rfl⟩, label, ctx₁,
          ⟨hf, t, ht, hc, hv⟩, state, ctx₁, ⟨hst, rfl⟩, vars, ctx₂, hvars, rfl, rfl⟩
    | text label => cases hst

/-- The variables of the loop over an ephemeral key before its first turn. -/
def EphemeralVars.init : EphemeralVars := ⟨.init, false, none, none, none⟩

/-- An ephemeral key: a map whose labels are integers. -/
def EphemeralKeyValue (bs : Bytes) (key : EphemeralKey) : Prop :=
  ∃ head es vars, bs = mapBytes head es ∧ HeaderMap 0 (fun label => ∃ val, label = .int val) head es
    ∧ Scans EphemeralValue 0 es .init vars ∧ ephemeralKey vars = .ok key

omit [RecipientSettings] in
theorem scans_ephemeral_move {idx : Nat} {es : List Entry} {vars vars' : EphemeralVars}
    (h : Scans EphemeralValue idx es vars vars') (idx' : Nat) :
  Scans EphemeralValue idx' es vars vars'
  := h.map (W := fun label => EphemeralValue label 0) id (fun _ _ _ _ _ hv => hv) idx'

omit [RecipientSettings] in
theorem reads_decodeEphemeralKey :
  Reads decodeEphemeralKey EphemeralKeyValue
  := by
  intro ctx key ctx'
  have hloop := runs_decodeEntries decodeFlagsValid_zero admits_admitInteger readsValue_ephemeral
    (fun _ _ _ _ _ => EphemeralValue.ne_nil) EphemeralVars.init
  have hkey : Runs decodeEphemeralKey ctx key ctx'
      ↔ ∃ scan, Runs (decodeEntries 0 HdrState.admitInteger decodeEphemeralValue .init) ctx scan ctx'
        ∧ ephemeralKey scan.vars = .ok key := by
    have himage := fun n (ctx₁ : DecCtx) (vars : EphemeralVars) (ctx₂ : DecCtx) =>
      runs_repeatM_image runs_decodeEphemeralEntry n ⟨.init, .init⟩ ctx₁ vars ctx₂
    have hinit : (⟨.init, false, none, none, none⟩ : EphemeralVars) = ephemeralVarsOf ⟨.init, .init⟩ := rfl
    simp only [decodeEphemeralKey, decodeEntries, decodeMapStart, runs_bind, runs_failIf, runs_ofExcept, hinit, himage]
    constructor
    · rintro ⟨n, c₁, hn, _, _, ⟨hle, rfl⟩, _, _, ⟨scan, hscan, rfl⟩, hk, rfl⟩
      exact ⟨scan, ⟨n, c₁, hn, (), c₁, ⟨hle, rfl⟩, hscan⟩, hk⟩
    · rintro ⟨scan, ⟨n, c₁, hn, _, _, ⟨hle, rfl⟩, hscan⟩, hk⟩
      exact ⟨n, c₁, hn, (), c₁, ⟨hle, rfl⟩, _, ctx', ⟨scan, hscan, rfl⟩, hk, rfl⟩
  rw [hkey]
  constructor
  · rintro ⟨scan, hscan, hk⟩
    obtain ⟨head, es, hmap, hc, hs, -⟩ := (hloop _ _ _).mp hscan
    exact ⟨_, ⟨head, es, scan.vars, rfl, hmap, scans_ephemeral_move hs 0, hk⟩, hc⟩
  · rintro ⟨_, ⟨head, es, vars, rfl, hmap, hs, hk⟩, hc⟩
    exact ⟨⟨_, vars⟩, (hloop _ _ _).mpr ⟨head, es, hmap, hc, scans_ephemeral_move hs _, rfl⟩, hk⟩

/-! ### Agreement -/

omit [RecipientSettings] in
theorem admits_admitAgreement (hdrState : HdrState) :
  Admits hdrState.admitAgreement (fun label => hdrState.containsLabel label = false)
  := by
  intro state labels label encoded state' hrep hlen henc
  have hc := hrep.containsLabel_iff label
  unfold HdrState.admitAgreement
  by_cases hm : label ∈ labels
  · rw [if_pos (.inl (hc.mpr hm))]
    simp [hm]
  by_cases hh : hdrState.containsLabel label = true
  · rw [if_pos (.inr hh)]
    simp [hh]
  · rw [if_neg (fun h => h.elim (fun h => hm (hc.mp h)) hh), hrep.addLabel_eq_ok hlen henc]
    simp [hm, hh]

/-- The value of an entry of the unprotected bucket of a recipient with an ephemeral key. -/
def AgreementValue (label : Label) (_idx : Nat) (bs : Bytes) (ephem ephem' : Option EphemeralKey) : Prop :=
  if label = .int hdrEphemeralKey then ephem = none ∧ ∃ key, EphemeralKeyValue bs key ∧ ephem' = some key
  else SkippedValue 0 bs ∧ ephem' = ephem

omit [RecipientSettings] in
theorem readsValue_agreement :
  ReadsValue decodeAgreementValue AgreementValue
  := by
  intro label ephem ctx ephem' ctx'
  unfold decodeAgreementValue AgreementValue
  split
  · simp only [runs_bind, runs_failIf, runs_pure, reads_decodeEphemeralKey _ _ _, Bool.not_eq_true,
      Option.isSome_eq_false_iff, Option.isNone_iff_eq_none]
    constructor
    · rintro ⟨_, _, ⟨hnone, rfl⟩, key, _, ⟨bs, hbs, hc⟩, rfl, rfl⟩
      exact ⟨bs, ⟨hnone, key, hbs, rfl⟩, hc⟩
    · rintro ⟨bs, ⟨hnone, key, hbs, rfl⟩, hc⟩
      exact ⟨(), ctx, ⟨hnone, rfl⟩, key, ctx', ⟨bs, hbs, hc⟩, rfl, rfl⟩
  · exact (reads_skipEx decodeFlagsValid_zero).andReturn ephem ctx ephem' ctx'

omit [RecipientSettings] in
theorem AgreementValue.ne_nil {label : Label} {idx : Nat} {bs : Bytes} {ephem ephem' : Option EphemeralKey}
    (h : AgreementValue label idx bs ephem ephem') :
  bs ≠ []
  := by
  unfold AgreementValue at h
  split at h
  · obtain ⟨-, key, ⟨head, es, vars, rfl, -⟩, -⟩ := h
    exact List.append_ne_nil_of_left_ne_nil (List.ne_nil_of_length_pos head.one_le_length_bytes) _
  · exact h.1.ne_nil

/-- The unprotected bucket of a recipient with an ephemeral key. -/
def AgreementMap (hdrState : HdrState) (head : Token) (es : List Entry) (ephem : EphemeralKey) : Prop :=
  HeaderMap 0 (fun label => hdrState.containsLabel label = false) head es
    ∧ Scans AgreementValue 0 es none (some ephem)

omit [RecipientSettings] in
theorem scans_agreement_move {idx : Nat} {es : List Entry} {ephem ephem' : Option EphemeralKey}
    (h : Scans AgreementValue idx es ephem ephem') (idx' : Nat) :
  Scans AgreementValue idx' es ephem ephem'
  := h.map (W := fun label => AgreementValue label 0) id (fun _ _ _ _ _ hv => hv) idx'

end

section

variable [Settings] [RecipientSettings] [WolfCrypt]

omit [RecipientSettings] in
theorem reads_decodeAgreementHdr (key : Option Key) (hdrState : HdrState) :
  Reads (decodeAgreementHdr key hdrState) (fun bs ephem => ∃ head es, bs = mapBytes head es
    ∧ AgreementMap hdrState head es ephem ∧ ∀ k, key = some k → ephem.crv = k.crv)
  := by
  intro ctx ephem ctx'
  have hloop := runs_decodeEntries decodeFlagsValid_zero (admits_admitAgreement hdrState) readsValue_agreement
    (fun _ _ _ _ _ => AgreementValue.ne_nil) none
  have hcrv : ∀ ephem : EphemeralKey, ¬ key.any (fun k => ephem.crv ≠ k.crv) = true
      ↔ ∀ k, key = some k → ephem.crv = k.crv := by
    intro ephem
    cases key <;> simp
  unfold decodeAgreementHdr
  rw [runs_bind]
  constructor
  · rintro ⟨⟨state, ephem'⟩, ctx₁, hscan, h⟩
    obtain ⟨head, es, hmap, hc, hs, -⟩ := (hloop _ _ _).mp hscan
    cases ephem' with
    | none => simp at h
    | some ephem' =>
        simp only [runs_bind, runs_failIf, runs_pure, hcrv] at h
        obtain ⟨_, _, ⟨hk, rfl⟩, rfl, rfl⟩ := h
        exact ⟨_, ⟨head, es, rfl, ⟨hmap, scans_agreement_move hs 0⟩, hk⟩, hc⟩
  · rintro ⟨_, ⟨head, es, rfl, ⟨hmap, hs⟩, hk⟩, hc⟩
    refine ⟨⟨_, some ephem⟩, ctx', (hloop _ _ _).mpr ⟨head, es, hmap, hc, scans_agreement_move hs _, rfl⟩, ?_⟩
    simp only [runs_bind, runs_failIf, runs_pure, hcrv]
    exact ⟨(), ctx', ⟨hk, rfl⟩, trivial, rfl⟩

/-! ### The fields of the selected recipient -/

/-- The protected bucket of a recipient. -/
def RecipientProtectedValue (bs : Bytes) (prot : RecipientProtected) : Prop :=
  BstrValue 0 bs prot.data ∧ decodeProtectedHdr (.mem prot.data) .zero = .ok (prot.hdr, prot.state)

omit [RecipientSettings] [WolfCrypt] in
/-- An empty protected bucket needs no decoder. -/
theorem decodeProtectedHdr_nil (hdr : Hdr) :
  decodeProtectedHdr (.mem []) hdr = .ok (hdr, .init)
  := (decodeProtectedHdrEx_eq_ok (Nat.zero_le _)).mpr ⟨decodeFlagsValid_zero, .inl ⟨rfl, rfl⟩⟩

omit [RecipientSettings] [WolfCrypt] in
theorem reads_decodeRecipientProtected :
  Reads decodeRecipientProtected RecipientProtectedValue
  := by
  intro ctx prot ctx'
  have hbstr := reads_decodeBstrEx decodeFlagsValid_zero
  unfold decodeRecipientProtected RecipientProtectedValue
  simp only [decodeBstr, runs_bind, runs_ite, runs_ofExcept, runs_pure, hbstr _ _ _]
  constructor
  · rintro ⟨data, c₁, ⟨bs, hbs, hc⟩, ⟨-, ⟨hdr, state⟩, _, ⟨hdec, rfl⟩, rfl, rfl⟩ | ⟨hlen, rfl, rfl⟩⟩
    · exact ⟨bs, ⟨hbs, hdec⟩, hc⟩
    · obtain rfl := List.eq_nil_of_length_eq_zero (Nat.eq_zero_of_not_pos hlen)
      exact ⟨bs, ⟨hbs, decodeProtectedHdr_nil _⟩, hc⟩
  · rintro ⟨bs, ⟨hbs, hdec⟩, hc⟩
    refine ⟨prot.data, ctx', ⟨bs, hbs, hc⟩, ?_⟩
    by_cases hlen : prot.data.length > 0
    · exact .inl ⟨hlen, (prot.hdr, prot.state), ctx', ⟨hdec, rfl⟩, rfl, rfl⟩
    · have hnil := List.eq_nil_of_length_eq_zero (Nat.eq_zero_of_not_pos hlen)
      rw [hnil, decodeProtectedHdr_nil] at hdec
      refine .inr ⟨hlen, ?_, rfl⟩
      obtain ⟨data, hdr, state⟩ := prot
      cases hnil
      cases hdec
      rfl

/-- The unprotected bucket of a recipient. -/
def RecipientUnprotectedValue (key : Option Key) (prot : RecipientProtected) (isHpke : Bool) (bs : Bytes)
    (unprot : RecipientUnprotected) : Prop :=
  if isEcdhEsDirectAlg prot.hdr.alg then
    ∃ ephem, (∃ head es, bs = mapBytes head es ∧ AgreementMap prot.state head es ephem
      ∧ ∀ k, key = some k → ephem.crv = k.crv) ∧ unprot = ⟨prot.hdr, some ephem, none⟩
  else
    ∃ head es vars, bs = mapBytes head es ∧ UnprotectedMap 0 isHpke prot.state 0 prot.hdr vars head es
      ∧ (isHpke = true → ¬ hpkeHeaderBad (prot.state.contains hdrAlg) vars.hdr
        { prot.state with labelBits := prot.state.labelBits ||| labelsBits (labelsOf es) } vars.hpkeEk)
      ∧ unprot = ⟨vars.hdr, none, if isHpke = true then vars.hpkeEk else none⟩

theorem reads_decodeRecipientUnprotected (key : Option Key) (prot : RecipientProtected) (isHpke : Bool) :
  Reads (decodeRecipientUnprotected key prot isHpke) (RecipientUnprotectedValue key prot isHpke)
  := by
  intro ctx unprot ctx'
  unfold decodeRecipientUnprotected RecipientUnprotectedValue
  split
  · simp only [runs_bind, runs_pure, reads_decodeAgreementHdr key prot.state _ _ _]
    constructor
    · rintro ⟨ephem, _, ⟨bs, hbs, hc⟩, rfl, rfl⟩
      exact ⟨bs, ⟨ephem, hbs, rfl⟩, hc⟩
    · rintro ⟨bs, ⟨ephem, hbs, rfl⟩, hc⟩
      exact ⟨ephem, ctx', ⟨bs, hbs, hc⟩, rfl, rfl⟩
  split
  · rename_i hhpke
    subst hhpke
    simp only [decodeUnprotectedHdrHpke, runs_bind, runs_failIf, runs_pure, runs_decodeUnprotectedHdrInternal,
      forall_const]
    constructor
    · rintro ⟨⟨hdr, state, ek⟩, _, ⟨-, head, es, hmap, hc, hst⟩, _, _, ⟨hbad, rfl⟩, rfl, rfl⟩
      cases hst
      exact ⟨_, ⟨head, es, ⟨hdr, ek⟩, rfl, hmap.move 0, hbad, rfl⟩, hc⟩
    · rintro ⟨_, ⟨head, es, ⟨hdr, ek⟩, rfl, hmap, hbad, rfl⟩, hc⟩
      exact ⟨(hdr, _, ek), ctx', ⟨decodeFlagsValid_zero, head, es, hmap.move _, hc, rfl⟩, (), ctx', ⟨hbad, rfl⟩, rfl,
        rfl⟩
  · rename_i hhpke
    obtain rfl := Bool.eq_false_of_not_eq_true hhpke
    simp only [decodeUnprotectedHdr, runs_bind, runs_pure, runs_decodeUnprotectedHdrEx]
    constructor
    · rintro ⟨⟨hdr, state⟩, _, ⟨-, head, es, ek, hmap, hc, -⟩, rfl, rfl⟩
      exact ⟨_, ⟨head, es, ⟨hdr, ek⟩, rfl, hmap.move 0, fun h => Bool.noConfusion h, rfl⟩, hc⟩
    · rintro ⟨_, ⟨head, es, ⟨hdr, ek⟩, rfl, hmap, -, rfl⟩, hc⟩
      exact ⟨(hdr, _), ctx', ⟨decodeFlagsValid_zero, head, es, ek, hmap.move _, hc, rfl⟩, rfl, rfl⟩

/-- The third field of a recipient without a wrapped key: an empty byte string, or null if the recipient is not
a direct one. -/
def EmptyField (alg : Int) (bs : Bytes) : Prop :=
  BstrValue 0 bs [] ∨ (bs = [cborNull] ∧ alg ≠ algDirect)

/-- The third field of a recipient. -/
def CekSourceValue (alg : Int) (unprot : RecipientUnprotected) (bs : Bytes) (source : CekSource) : Prop :=
  if hpke0KeDecrypt = true ∧ alg = algHpke0Ke then
    ∃ wrapped, BstrValue 0 bs wrapped ∧ hpke0TagSz ≤ wrapped.length ∧ source = .hpke unprot.ek wrapped
  else if isKeyWrapAlg alg then
    ∃ wrapped, BstrValue 0 bs wrapped ∧ 24 ≤ wrapped.length ∧ source = .keyWrap wrapped
  else EmptyField alg bs ∧ source = unprot.ephem.elim .direct .ecdhEs

omit [WolfCrypt] in
theorem reads_decodeCekSource (alg : Int) (unprot : RecipientUnprotected) :
  Reads (decodeCekSource alg unprot) (CekSourceValue alg unprot)
  := by
  intro ctx source ctx'
  have hbstr := reads_decodeBstrEx decodeFlagsValid_zero
  unfold decodeCekSource CekSourceValue
  split
  · simp only [decodeBstr, runs_bind, runs_failIf, runs_pure, hbstr _ _ _, Nat.not_lt]
    constructor
    · rintro ⟨wrapped, _, ⟨bs, hbs, hc⟩, _, _, ⟨hlen, rfl⟩, rfl, rfl⟩
      exact ⟨bs, ⟨wrapped, hbs, hlen, rfl⟩, hc⟩
    · rintro ⟨bs, ⟨wrapped, hbs, hlen, rfl⟩, hc⟩
      exact ⟨wrapped, ctx', ⟨bs, hbs, hc⟩, (), ctx', ⟨hlen, rfl⟩, rfl, rfl⟩
  split
  · simp only [decodeBstr, runs_bind, runs_failIf, runs_pure, hbstr _ _ _, Nat.not_lt]
    constructor
    · rintro ⟨wrapped, _, ⟨bs, hbs, hc⟩, _, _, ⟨hlen, rfl⟩, rfl, rfl⟩
      exact ⟨bs, ⟨wrapped, hbs, hlen, rfl⟩, hc⟩
    · rintro ⟨bs, ⟨wrapped, hbs, hlen, rfl⟩, hc⟩
      exact ⟨wrapped, ctx', ⟨bs, hbs, hc⟩, (), ctx', ⟨hlen, rfl⟩, rfl, rfl⟩
  · simp only [runs_bind, runs_get, runs_failIf, runs_pure, runs_decodeHead_field]
    constructor
    · rintro ⟨_, _, ⟨rfl, rfl⟩, item, _, hitem, _, _, ⟨hdirect, rfl⟩, _, _, ⟨htype, rfl⟩, _, _, ⟨hlen, rfl⟩, rfl, rfl⟩
      rcases hitem with ⟨-, hc, rfl⟩ | ⟨hnull, t, ht, hc, rfl⟩
      · refine ⟨_, ⟨.inr ⟨rfl, fun hdir => hdirect ⟨hdir, .inl (by rintro ⟨⟩)⟩⟩, rfl⟩, hc⟩
      · have hm : t.major = .bstr := by
          by_contra hne
          exact htype ⟨hnull, hne⟩
        have hd : t.data = [] := by
          by_contra hne
          exact hlen ⟨hnull, fun h0 => hne (List.length_eq_zero_iff.mp h0)⟩
        exact ⟨_, ⟨.inl ⟨t, ht, ⟨hm, hd⟩, rfl⟩, rfl⟩, hc⟩
    · rintro ⟨bs, ⟨hbs | ⟨rfl, hdir⟩, rfl⟩, hc⟩
      · have hnull : ctx.rest.head? ≠ some cborNull := by
          rw [hc.rest_eq]
          apply hbs.head?_ne_null
        obtain ⟨t, ht, ⟨hm, hd⟩, rfl⟩ := hbs
        refine ⟨ctx, ctx, ⟨rfl, rfl⟩, tokenItem t, ctx', .inr ⟨hnull, t, ht, hc, rfl⟩, (), ctx', ⟨?_, rfl⟩, (), ctx',
          ⟨?_, rfl⟩, (), ctx', ⟨?_, rfl⟩, rfl, rfl⟩
        · rintro ⟨-, hne | hne⟩
          · exact hne hm
          · exact hne (congrArg List.length hd)
        · exact fun h => h.2 hm
        · exact fun h => h.2 (congrArg List.length hd)
      · have hnull : ctx.rest.head? = some cborNull := by
          rw [hc.rest_eq]
          rfl
        exact ⟨ctx, ctx, ⟨rfl, rfl⟩, _, ctx', .inl ⟨hnull, hc, rfl⟩, (), ctx', ⟨fun h => hdir h.1, rfl⟩, (), ctx',
          ⟨fun h => h.1 hnull, rfl⟩, (), ctx', ⟨fun h => h.1 hnull, rfl⟩, rfl, rfl⟩

/-! ### The algorithm of the selected recipient -/

/-- The algorithm that a key of a recipient may be restricted to. -/
def keyAlgFor (recipientAlgId contentAlgId : Int) : Int :=
  if recipientAlgId = algUnset ∨ recipientAlgId = algDirect then contentAlgId else recipientAlgId

omit [Settings] [RecipientSettings] in
/-- A key is valid for a recipient if it is not restricted to another algorithm. -/
theorem validateRecipientKeyAlg_eq_ok {key : Option Key} {recipientAlgId contentAlgId : Int} {u : Unit} :
  validateRecipientKeyAlg key recipientAlgId contentAlgId = .ok u
    ↔ ∀ k, key = some k → k.alg ≠ algUnset → k.alg = keyAlgFor recipientAlgId contentAlgId
  := by
  cases key with
  | none => simp [validateRecipientKeyAlg]
  | some key => simp [validateRecipientKeyAlg, keyAlgFor]

/-- What the checks of `wc_CoseEncrypt_Decrypt` admit as the algorithm of the selected recipient. -/
structure RecipientAdmitted (recipient : Recipient) (protectedData : Bytes) (recipientAlgId contentAlgId : Int)
    (bodyAlgProtected hasEphem onlyRecipient : Bool) : Prop where
  key : ∀ k, recipient.key = some k → k.alg ≠ algUnset → k.alg = keyAlgFor recipientAlgId contentAlgId
  supported : recipientAlgSupported recipientAlgId
  expected : recipient.algId ≠ algUnset → recipient.algId = recipientAlgId
  bound : bodyAlgProtected = true ∨ (hpke0KeDecrypt = true ∧ recipientAlgId = algHpke0Ke)
    ∨ (recipientAlgId = algDirect ∧ ∃ k, recipient.key = some k ∧ k.alg = contentAlgId)
  direct : recipientAlgId = algDirect → protectedData = []
  keyWrap : isKeyWrapAlg recipientAlgId → protectedData = []
  agreement : isEcdhEsDirectAlg recipientAlgId → hasEphem = true ∧ onlyRecipient = true

/-- The checks of the algorithm of the recipient, which also add it to the mode of those before it. -/
theorem checkRecipientAlg_eq_ok {recipient : Recipient} {protectedData : Bytes} {recipientAlgId contentAlgId : Int}
    {bodyAlgProtected hasEphem onlyRecipient : Bool} {mode mode' : Option RecipientMode} :
  checkRecipientAlg recipient protectedData recipientAlgId contentAlgId bodyAlgProtected hasEphem onlyRecipient mode
      = .ok mode'
    ↔ RecipientAdmitted recipient protectedData recipientAlgId contentAlgId bodyAlgProtected hasEphem onlyRecipient
      ∧ updateRecipientMode recipientAlgId mode = .ok mode'
  := by
  have hbound : ¬ (bodyAlgProtected = false ∧ ¬ (hpke0KeDecrypt = true ∧ recipientAlgId = algHpke0Ke) ∧
      (recipientAlgId ≠ algDirect ∨ recipient.key.all (fun key => key.alg ≠ contentAlgId) = true))
      ↔ bodyAlgProtected = true ∨ (hpke0KeDecrypt = true ∧ recipientAlgId = algHpke0Ke)
        ∨ (recipientAlgId = algDirect ∧ ∃ k, recipient.key = some k ∧ k.alg = contentAlgId) := by
    cases recipient.key <;> grind
  simp only [checkRecipientAlg, bind_eq_ok, rejectIf_eq_ok, pure_eq_ok, hbound, validateRecipientKeyAlg_eq_ok]
  constructor
  · rintro ⟨_, hkey, mode'', hmode, _, hdirect, _, hsupported, _, hkw, _, hephem, _, hexpected, _, hbd, _, honly, rfl⟩
    refine ⟨⟨hkey, Decidable.not_not.mp hsupported, ?_, hbd, ?_, ?_, ?_⟩, hmode⟩
    · intro hset
      by_contra hne
      apply hexpected
      exact ⟨hset, hne⟩
    · intro hdir
      by_contra hne
      apply hdirect
      exact ⟨hdir, fun hlen => hne (List.length_eq_zero_iff.mp hlen)⟩
    · intro hwrap
      by_contra hne
      apply hkw
      exact ⟨hwrap, fun hlen => hne (List.length_eq_zero_iff.mp hlen)⟩
    · intro hagree
      constructor
      · by_contra hne
        apply hephem
        exact ⟨hagree, Bool.not_eq_true _ ▸ hne⟩
      · by_contra hne
        apply honly
        exact ⟨hagree, Bool.not_eq_true _ ▸ hne⟩
  · rintro ⟨h, hmode⟩
    refine ⟨(), h.key, mode', hmode, (), ?_, (), not_not_intro h.supported, (), ?_, (), ?_, (), ?_, (), h.bound, (), ?_,
      rfl⟩
    · rintro ⟨hdir, hne⟩
      rw [h.direct hdir] at hne
      exact hne rfl
    · rintro ⟨hwrap, hne⟩
      rw [h.keyWrap hwrap] at hne
      exact hne rfl
    · rintro ⟨hagree, hne⟩
      rw [(h.agreement hagree).1] at hne
      cases hne
    · rintro ⟨hset, hne⟩
      exact hne (h.expected hset)
    · rintro ⟨hagree, hne⟩
      rw [(h.agreement hagree).2] at hne
      cases hne

/-! ### The selected recipient -/

/-- The fields of a recipient that is accepted when it is selected, and what is found in them. -/
structure SelectedFields (recipient : Recipient) (contentAlgId : Int) (bodyAlgProtected onlyRecipient : Bool)
    (protBytes unprotBytes value : Bytes) (prot : RecipientProtected) (isHpke : Bool) (unprot : RecipientUnprotected)
    (source : CekSource) : Prop where
  protectedValue : RecipientProtectedValue protBytes prot
  isHpke_eq : isHpke = decide (isHpkeRecipient prot recipient.algId)
  hpkeLabels : isHpke = true → prot.state.contains hdrHpkeEk = false ∧ prot.state.contains hpke0PskIdLabel = false
  protectedAlg : checkProtectedAlg recipient (if isHpke = true then algHpke0Ke else prot.hdr.alg) contentAlgId
    onlyRecipient = .ok ()
  unprotectedValue : RecipientUnprotectedValue recipient.key prot isHpke unprotBytes unprot
  admitted : RecipientAdmitted recipient prot.data (recipientAlg isHpke unprot) contentAlgId bodyAlgProtected
    unprot.ephem.isSome onlyRecipient
  source : CekSourceValue (recipientAlg isHpke unprot) unprot value source

/-- A recipient that is accepted when it is selected. -/
def SelectedValue (recipient : Recipient) (contentAlgId : Int) (bodyAlgProtected onlyRecipient : Bool) (bs : Bytes)
    (selected : SelectedRecipient) : Prop :=
  ∃ head protBytes unprotBytes value prot isHpke unprot source,
    bs = Token.bytes head ++ (protBytes ++ (unprotBytes ++ value)) ∧ Accepted 0 head ∧ head.major = .array
      ∧ head.val = 3
      ∧ SelectedFields recipient contentAlgId bodyAlgProtected onlyRecipient protBytes unprotBytes value prot isHpke
        unprot source
      ∧ selected = ⟨prot.data, recipientAlg isHpke unprot, source⟩

omit [WolfCrypt] in
theorem CekSourceValue.ne_nil {alg : Int} {unprot : RecipientUnprotected} {bs : Bytes} {source : CekSource}
    (h : CekSourceValue alg unprot bs source) :
  bs ≠ []
  := by
  unfold CekSourceValue at h
  split at h
  · obtain ⟨_, hbs, -⟩ := h
    exact TokenValue.ne_nil hbs
  split at h
  · obtain ⟨_, hbs, -⟩ := h
    exact TokenValue.ne_nil hbs
  · obtain ⟨hbs | ⟨rfl, -⟩, -⟩ := h
    · exact TokenValue.ne_nil hbs
    · exact List.cons_ne_nil _ _

/-- The unprotected bucket is a map. -/
theorem RecipientUnprotectedValue.map {key : Option Key} {prot : RecipientProtected} {isHpke : Bool} {bs : Bytes}
    {unprot : RecipientUnprotected} (h : RecipientUnprotectedValue key prot isHpke bs unprot) :
  ∃ head es, bs = mapBytes head es
  := by
  unfold RecipientUnprotectedValue at h
  split at h
  · obtain ⟨_, ⟨head, es, rfl, -⟩, -⟩ := h
    exact ⟨head, es, rfl⟩
  · obtain ⟨head, es, _, rfl, -⟩ := h
    exact ⟨head, es, rfl⟩

/-- The three fields have at least a byte each. -/
theorem SelectedFields.three_le_length {recipient : Recipient} {contentAlgId : Int}
    {bodyAlgProtected onlyRecipient : Bool} {protBytes unprotBytes value : Bytes} {prot : RecipientProtected}
    {isHpke : Bool} {unprot : RecipientUnprotected} {source : CekSource}
    (h : SelectedFields recipient contentAlgId bodyAlgProtected onlyRecipient protBytes unprotBytes value prot isHpke
      unprot source) :
  3 ≤ (protBytes ++ (unprotBytes ++ value)).length
  := by
  have h₁ := List.length_pos_iff.mpr (TokenValue.ne_nil h.protectedValue.1)
  have h₂ : 0 < unprotBytes.length := by
    obtain ⟨head, es, rfl⟩ := h.unprotectedValue.map
    have := head.one_le_length_bytes
    rw [mapBytes, List.length_append]
    omega
  have h₃ := List.length_pos_iff.mpr h.source.ne_nil
  rw [List.length_append, List.length_append]
  omega

theorem runs_decodeEncryptRecipient (recipient : Recipient) (contentAlgId : Int)
    (bodyAlgProtected onlyRecipient : Bool) (mode : Option RecipientMode) (ctx : DecCtx)
    (r : SelectedRecipient × Option RecipientMode) (ctx' : DecCtx) :
  Runs (decodeEncryptRecipient recipient contentAlgId bodyAlgProtected onlyRecipient mode) ctx r ctx'
    ↔ ∃ bs, SelectedValue recipient contentAlgId bodyAlgProtected onlyRecipient bs r.1 ∧ ctx.Consumes bs ctx'
      ∧ updateRecipientMode r.1.alg mode = .ok r.2
  := by
  simp only [decodeEncryptRecipient, decodeArrayStart, runs_bind, runs_failIf, runs_pure, runs_ofExcept,
    runs_decodeArrayStartEx, reads_decodeRecipientProtected _ _ _, reads_decodeRecipientUnprotected _ _ _ _ _ _,
    reads_decodeCekSource _ _ _ _ _, checkRecipientAlg_eq_ok]
  constructor
  · rintro ⟨n, c₁, ⟨-, head, hhead, hc₀, hm, hv, -⟩, _, _, ⟨hn, rfl⟩, prot, c₂, ⟨protBytes, hprot, hc₁⟩, _, _,
      ⟨hlabels, rfl⟩, _, _, ⟨hprotAlg, rfl⟩, unprot, c₃, ⟨unprotBytes, hunprot, hc₂⟩, mode', _,
      ⟨⟨hadmitted, hmode⟩, rfl⟩, source, c₄, ⟨value, hsource, hc₃⟩, rfl, rfl⟩
    refine ⟨_, ⟨head, protBytes, unprotBytes, value, prot, _, unprot, source, rfl, hhead, hm, ?_,
      ⟨hprot, rfl, ?_, hprotAlg, hunprot, hadmitted, hsource⟩, rfl⟩, hc₀.trans (hc₁.trans (hc₂.trans hc₃)), hmode⟩
    · rw [hv]
      exact Decidable.not_not.mp hn
    · intro hhpke
      constructor
      · by_contra hne
        exact hlabels ⟨hhpke, .inl (Bool.not_eq_false _ ▸ hne)⟩
      · by_contra hne
        exact hlabels ⟨hhpke, .inr (Bool.not_eq_false _ ▸ hne)⟩
  · rintro ⟨_, ⟨head, protBytes, unprotBytes, value, prot, isHpke, unprot, source, rfl, hhead, hm, hv, hfields, hr⟩, hc,
      hmode⟩
    have hlen := hfields.three_le_length
    obtain ⟨hprot, rfl, hlabels, hprotAlg, hunprot, hadmitted, hsource⟩ := hfields
    obtain ⟨c₁, hc₀, hc⟩ := hc.split
    have hroom : 3 ≤ c₁.rest.length := by
      rw [hc.length_rest_eq]
      omega
    obtain ⟨c₂, hc₁, hc⟩ := hc.split
    obtain ⟨c₃, hc₂, hc₃⟩ := hc.split
    obtain ⟨selected, mode'⟩ := r
    cases hr
    refine ⟨3, c₁, ⟨decodeFlagsValid_zero, head, hhead, hc₀, hm, hv, ?_⟩, (), c₁, ⟨fun h => h rfl, rfl⟩, prot, c₂,
      ⟨protBytes, hprot, hc₁⟩, (), c₂, ⟨?_, rfl⟩, (), c₂, ⟨hprotAlg, rfl⟩, unprot, c₃, ⟨unprotBytes, hunprot, hc₂⟩,
      mode', c₃, ⟨⟨hadmitted, hmode⟩, rfl⟩, source, ctx', ⟨value, hsource, hc₃⟩, rfl, rfl⟩
    · rw [Token.children, hm, hv]
      exact hroom
    · rintro ⟨hhpke, hek | hpsk⟩
      · rw [(hlabels hhpke).1] at hek
        cases hek
      · rw [(hlabels hhpke).2] at hpsk
        cases hpsk

end

end WolfCose
