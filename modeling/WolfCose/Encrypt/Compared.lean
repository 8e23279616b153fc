import WolfCose.Encrypt.Selected
import WolfCose.Recipient.Buckets

/-!
# Selecting and skipping a recipient of COSE_Encrypt

`wc_CoseEncrypt_Decrypt` has a parser of its own for the recipient that is selected.  It finds the algorithm
that skipping the recipient reports, and it accepts a recipient that is not skipped only if the ephemeral key is
nested too deeply.
-/

namespace WolfCose

open Program Cbor Settings

section

variable [Settings] [RecipientSettings] [WolfCrypt]

/-! ### Ephemeral keys -/

omit [RecipientSettings] [WolfCrypt] in
theorem EphemeralValue.skipped {label : Label} {idx : Nat} {bs : Bytes} {vars vars' : EphemeralVars}
    (h : EphemeralValue label idx bs vars vars') :
  SkippedValue 0 bs
  := by
  unfold EphemeralValue at h
  split at h
  · exact h.1.skipped fun _ ht => leaf_of_intOf ht
  split at h
  · obtain ⟨_, h, -⟩ := h
    exact h.skipped fun _ ht => leaf_of_intOf ht
  split at h
  · obtain ⟨_, h, -⟩ := h
    exact h.skipped
  split at h
  · obtain ⟨_, h, -⟩ := h
    exact h.skipped
  · exact h.1

omit [RecipientSettings] [WolfCrypt] in
/-- An ephemeral key is a map of items. -/
theorem EphemeralKeyValue.items {bs : Bytes} {key : EphemeralKey} (h : EphemeralKeyValue bs key) :
  ∃ es, MapEntries 0 bs es
  := by
  obtain ⟨head, es, vars, rfl, hmap, hs, -⟩ := h
  have hitem := hs.forall (fun _ _ _ _ _ hv => EphemeralValue.skipped hv)
  exact ⟨es, head, hmap.head, rfl, fun e he => ⟨hmap.labelled e he, hitem e he⟩⟩

omit [RecipientSettings] [WolfCrypt] in
theorem AgreementValue.dataItem {label : Label} {idx : Nat} {bs : Bytes} {ephem ephem' : Option EphemeralKey}
    (h : AgreementValue label idx bs ephem ephem') :
  DataItem bs ∧ (SkippedValue 0 bs ∨ label = .int hdrEphemeralKey)
  := by
  unfold AgreementValue at h
  split at h
  next hl =>
    obtain ⟨-, key, hkey, -⟩ := h
    obtain ⟨es, hes⟩ := hkey.items
    exact ⟨hes.items.dataItem, .inr hl⟩
  next => exact ⟨h.1.dataItem, .inl h.1⟩

/-! ### The buckets of the selected recipient -/

/-- The entries of the two buckets of a recipient that is selected, and the algorithms that they give. -/
structure SelectedEntries (prot : RecipientProtected) (unprotBytes : Bytes) (unprot : RecipientUnprotected)
    (pes ues : List Entry) : Prop where
  bucket : BucketEntries 0 prot.data pes
  items : MapItems unprotBytes ues
  nodup : (labelsOf (pes ++ ues)).Nodup
  represents : prot.state.Represents (labelsOf pes)
  protectedSkippable : ∀ e ∈ pes, e.Skippable
  readable : ∀ e ∈ ues, e.label = .int hdrAlg → AlgReadable e.value
  skippable : ∀ e ∈ ues, SkippedValue 0 e.value
    ∨ (isEcdhEsDirectAlg prot.hdr.alg ∧ e.label = .int hdrEphemeralKey)
  protectedAlg : FieldReport (.int hdrAlg) (AlgField 0) pes algUnset prot.hdr.alg
  alg : FieldReport (.int hdrAlg) (AlgField 0) (pes ++ ues) algUnset unprot.hdr.alg

omit [Settings] [RecipientSettings] [WolfCrypt] in
/-- Entries that do not have its label change nothing of a field. -/
theorem FieldReport.append_of_not_mem {β : Type} {l : Label} {R : Bytes → β → β → Prop} {es es' : List Entry}
    {x x' : β} (h : FieldReport l R es x x') (hl : l ∉ labelsOf es') :
  FieldReport l R (es ++ es') x x'
  := by
  unfold FieldReport entryWith at h ⊢
  have hnone := entryWith_eq_none.mpr hl
  unfold entryWith at hnone
  rw [List.find?_append, hnone, Option.or_none]
  exact h

theorem exists_selectedEntries {key : Option Key} {protBytes unprotBytes : Bytes} {prot : RecipientProtected}
    {isHpke : Bool} {unprot : RecipientUnprotected} (hdata : prot.data.length ≤ sizeMax)
    (hprot : RecipientProtectedValue protBytes prot)
    (hunprot : RecipientUnprotectedValue key prot isHpke unprotBytes unprot) :
  ∃ pes ues, SelectedEntries prot unprotBytes unprot pes ues
  := by
  obtain ⟨-, hdec⟩ := hprot
  have hdec' : decodeProtectedHdrEx (.mem (Buffer.ofBytes prot.data).bytes) .zero 0 = .ok (prot.hdr, prot.state) := by
    rw [Buffer.bytes_ofBytes hdata]
    exact hdec
  unfold RecipientUnprotectedValue at hunprot
  split at hunprot
  next hecdh =>
    obtain ⟨ephem, ⟨head, es, rfl, ⟨hmap, hs⟩, -⟩, rfl⟩ := hunprot
    obtain ⟨pes, hpes, hnd, hrep, hps, -⟩ := protected_entries hdec'
    rw [Buffer.bytes_ofBytes hdata] at hpes
    have hvalues := hs.forall_value (Q := fun label bs => DataItem bs ∧ (SkippedValue 0 bs ∨ label = .int hdrEphemeralKey))
      (fun _ _ _ _ _ hv => hv.dataItem)
    have hdisj : ∀ l ∈ labelsOf pes, l ∉ labelsOf es := by
      intro l hl hl'
      obtain ⟨e, he, rfl⟩ := List.mem_map.mp hl'
      have hnew := hmap.labels.ok e he
      rw [(hrep.containsLabel_iff e.label).mpr hl] at hnew
      cases hnew
    have hreport := hps.fieldReport (f := Hdr.alg) (fun _ _ _ _ _ h => h.alg) hnd
    -- the algorithm makes it a recipient of direct agreement, so there is one, and it is protected
    have halg : .int hdrAlg ∈ labelsOf pes := by
      by_contra hl
      have hzero := hreport.of_not_mem hl
      rcases hecdh.2 with h | h <;> rw [h] at hzero <;> revert hzero <;> decide
    refine ⟨pes, es, hpes, ⟨head, hmap.head, rfl, fun e he => ⟨hmap.labelled e he, (hvalues e he).1⟩⟩, ?_, hrep,
      hpes.skippable hdata hdec, ?_, fun e he => (hvalues e he).2.imp id fun h => ⟨hecdh, h⟩, hreport,
      hreport.append_of_not_mem (hdisj _ halg)⟩
    · rw [labelsOf, List.map_append]
      refine List.nodup_append.mpr ⟨hnd, hmap.labels.nodup, ?_⟩
      rintro l hl _ hl' rfl
      exact hdisj l hl hl'
    · intro e he hl
      apply absurd (List.mem_map_of_mem he) (hdisj _ _)
      rw [hl]
      exact halg
  next hecdh =>
    obtain ⟨head, es, vars, rfl, hmap, -, rfl⟩ := hunprot
    obtain ⟨pes, hpes, hrep, hues, hmerged⟩ := UnprotectedMap.merged hdec' hmap
    rw [Buffer.bytes_ofBytes hdata] at hpes
    obtain ⟨pes', hpes', hnd, -, hps, -⟩ := protected_entries hdec'
    rw [Buffer.bytes_ofBytes hdata] at hpes'
    obtain rfl := hpes.unique hpes'
    refine ⟨pes, es, hpes, hues.items, hmerged.nodup, hrep, hpes.skippable hdata hdec, ?_, ?_, ?_, hmerged.alg⟩
    · exact fun e he => (hmap.skippable e he).alg
    · exact fun e he => .inl (hmap.skippable e he).value
    · exact hps.fieldReport (f := Hdr.alg) (fun _ _ _ _ _ h => h.alg) hnd

omit [Settings] [RecipientSettings] [WolfCrypt] in
/-- The labels of a second bucket are recorded by their bits. -/
theorem HdrState.contains_of_labelsBits {state : HdrState} {labels : List Label} {label : Int}
    (hbit : labelBit label ≠ 0) (h : .int label ∈ labels) :
  ({ state with labelBits := state.labelBits ||| labelsBits labels } : HdrState).contains label = true
  := by
  unfold contains
  dsimp only
  rw [if_pos]
  exact ⟨hbit, (uint32_or_and_ne_zero _ _ _).mpr (.inr ((labelsBits_and_labelBit _ _).mpr ⟨hbit, h⟩))⟩

/-- The algorithm of the selected recipient, as the two parsers find it.  They differ only where a recipient of
HPKE has no algorithm and the caller does not name HPKE. -/
theorem SelectedEntries.recipientAlg_cases {expected : Int} {key : Option Key} {unprotBytes : Bytes}
    {prot : RecipientProtected} {isHpke : Bool} {unprot : RecipientUnprotected} {pes ues : List Entry}
    {vars : SkippedAlg} (hsel : SelectedEntries prot unprotBytes unprot pes ues)
    (hisHpke : isHpke = decide (isHpkeRecipient prot expected))
    (hunprot : RecipientUnprotectedValue key prot isHpke unprotBytes unprot) (hreport : SkippedReport pes ues vars) :
  recipientAlg isHpke unprot = vars.reported
    ∨ (recipientAlg isHpke unprot = algUnset ∧ vars.reported = algHpke0Ke ∧ hpke0KeDecrypt = true
      ∧ expected ≠ algHpke0Ke ∧ .int hdrAlg ∉ labelsOf (pes ++ ues))
  := by
  have hcontains := hsel.represents.contains_iff hdrAlg
  cases hpke : isHpke with
  | false =>
      have hnot : ¬ isHpkeRecipient prot expected := of_decide_eq_false (hisHpke.symm.trans hpke)
      rw [recipientAlg, if_neg Bool.false_ne_true]
      rcases hreport.reported_cases hsel.alg with h | ⟨hunset, hrep, hon, hl⟩
      · exact .inl h
      · refine .inr ⟨hunset, hrep, hon, fun hexpected => hnot ⟨hon, .inr ⟨?_, hexpected⟩⟩, hl⟩
        rw [← Bool.not_eq_true, hcontains]
        intro hl'
        apply hl
        rw [labelsOf, List.map_append]
        exact List.mem_append_left _ hl'
  | true =>
      have his : isHpkeRecipient prot expected := of_decide_eq_true (hisHpke.symm.trans hpke)
      rw [recipientAlg, if_pos rfl]
      left
      rcases his.2 with ⟨hl, halg⟩ | ⟨hl, -⟩
      · -- the protected algorithm says so, and it is the only one
        rw [hcontains] at hl
        obtain ⟨e, he, hfield⟩ := hsel.protectedAlg.of_mem hl
        have hmem : .int hdrAlg ∈ labelsOf (pes ++ ues) := by
          rw [labelsOf, List.map_append]
          exact List.mem_append_left _ hl
        obtain ⟨e', he', -, hfound, hfield'⟩ := hreport.alg.of_mem hmem
        obtain rfl : e = e' := by
          unfold entryWith at he he'
          rw [List.find?_append, he] at he'
          exact Option.some.inj he'
        dsimp only at hfound hfield'
        rw [SkippedAlg.reported, if_neg (by rw [hfound]; rintro ⟨-, ⟨⟩, -⟩), ← halg]
        exact hfield.unique hfield'
      · -- there is no algorithm, but an encapsulated key
        have hecdh : ¬ isEcdhEsDirectAlg prot.hdr.alg := by
          intro h
          have hnot : .int hdrAlg ∉ labelsOf pes := by
            rw [← hcontains, hl]
            exact Bool.false_ne_true
          have hzero := hsel.protectedAlg.of_not_mem hnot
          rcases h.2 with h | h <;> rw [h] at hzero <;> revert hzero <;> decide
        unfold RecipientUnprotectedValue at hunprot
        rw [if_neg hecdh] at hunprot
        obtain ⟨head, es, vars', rfl, hmap, hbad, rfl⟩ := hunprot
        obtain rfl := hsel.items.unique hmap.entries.1.items
        have hgood := hbad hpke
        have hek : vars'.hpkeEk.isSome = true := by
          rw [← Bool.not_eq_false]
          exact fun h => hgood (.inr (.inr (.inr (.inl h))))
        have hfound : vars.hpkeEkFound = true := hreport.ek.mpr ⟨his.1, hmap.ek_mem hek⟩
        have hnone : vars.algFound = false := by
          rw [← Bool.not_eq_true]
          intro hf
          have hmem : .int hdrAlg ∈ labelsOf (pes ++ ues) := by
            by_contra hnot
            have := congrArg Prod.snd (hreport.alg.of_not_mem hnot)
            exact Bool.false_ne_true (this.symm.trans hf)
          rw [labelsOf, List.map_append] at hmem
          rcases List.mem_append.mp hmem with h | h
          · rw [hcontains.mpr h] at hl
            cases hl
          · -- it would be among the labels that both buckets are checked for
            exact hgood (.inl ⟨hl, HdrState.contains_of_labelsBits (by decide) h⟩)
        rw [SkippedAlg.reported, if_pos ⟨his.1, hnone, hfound⟩]

/-! ### Recipients that are accepted -/

omit [WolfCrypt] in
theorem CekSourceValue.skippedField {alg : Int} {unprot : RecipientUnprotected} {bs : Bytes} {source : CekSource}
    (h : CekSourceValue alg unprot bs source) (hkw : isKeyWrapAlg alg → alg ≠ algDirect) :
  SkippedField alg bs
  := by
  unfold CekSourceValue at h
  unfold SkippedField
  split at h
  next hpke =>
    obtain ⟨wrapped, hw, -⟩ := h
    rw [if_neg (by rw [hpke.2]; decide)]
    exact .inr ⟨wrapped, hw⟩
  split at h
  next hwrap =>
    obtain ⟨wrapped, hw, -⟩ := h
    rw [if_neg (hkw hwrap)]
    exact .inr ⟨wrapped, hw⟩
  next =>
    rcases h.1 with hw | ⟨rfl, hne⟩
    · split
      · exact hw
      · exact .inr ⟨[], hw⟩
    · rw [if_neg hne]
      exact .inl rfl

omit [Settings] [WolfCrypt] in
theorem keyWrap_ne_direct {alg : Int} (h : isKeyWrapAlg alg) :
  alg ≠ algDirect
  := by
  rcases h.2 with h | h | h <;> rw [h] <;> decide

omit [WolfCrypt] in
/-- An algorithm that a build supports is not unset. -/
theorem recipientAlgSupported.ne_unset {alg : Int} (h : recipientAlgSupported alg) :
  alg ≠ algUnset
  := by
  rcases h with rfl | ⟨-, rfl⟩ | ⟨-, rfl | rfl⟩ | ⟨-, rfl | rfl | rfl⟩ <;> decide

/-- Every ephemeral key in the unprotected map of the recipient is nested at most `d` deep. -/
def EphemeralNested (d : Nat) (bs : Bytes) : Prop :=
  ∀ head prot data unprot value es, bs = Token.bytes head ++ (prot ++ (unprot ++ value)) → Accepted 0 head →
    BstrValue 0 prot data → MapItems unprot es →
    ∀ e ∈ es, e.label = .int hdrEphemeralKey → Items (Accepted 0) d 1 e.value

/-- A recipient that is accepted when it is selected is skipped exactly if its ephemeral key is not nested as
deeply as a value inside of it may be. -/
theorem SelectedValue.skipped_iff {recipient : Recipient} {contentAlgId : Int} {bodyAlgProtected onlyRecipient : Bool}
    {bs : Bytes} {selected : SelectedRecipient} (hlen : bs.length ≤ sizeMax)
    (h : SelectedValue recipient contentAlgId bodyAlgProtected onlyRecipient bs selected) :
  RecipientTree maxDepth selected.alg bs ↔ EphemeralNested maxDepth bs
  := by
  obtain ⟨head, protBytes, unprotBytes, value, prot, isHpke, unprot, source, rfl, hhead, hm, hv, hf, rfl⟩ := h
  have hdata : prot.data.length ≤ sizeMax := by
    have h₁ := hf.protectedValue.1.length_le
    rw [List.length_append, List.length_append] at hlen
    omega
  obtain ⟨pes, ues, hsel⟩ := exists_selectedEntries hdata hf.protectedValue hf.unprotectedValue
  have hprot := hf.protectedValue.1
  have hunprot := hsel.items.dataItem
  rw [recipientTree_three hhead hm hv hprot hunprot]
  constructor
  · rintro ⟨vars, hskip, -⟩ head' prot' data' unprot' value' es e hhead' hprot' hes x hx -
    obtain ⟨rfl, e₁⟩ := Token.bytes_append_cancel hhead.wellFormed hhead'.wellFormed e
    obtain ⟨rfl, e₂⟩ := DataItem.append_cancel ⟨0, hprot.items 0⟩ ⟨0, hprot'.items 0⟩ e₁
    obtain ⟨rfl, -⟩ := DataItem.append_cancel hunprot hes.dataItem e₂
    obtain ⟨-, _, -, -, hvalues⟩ := hskip.report hsel.bucket hes
    exact (hvalues x hx).2
  · intro hnested
    have hvalues : ∀ e ∈ ues, SkippedValue 0 e.value := by
      intro e he
      rcases hsel.skippable e he with h | ⟨-, hl⟩
      · exact h
      · exact hnested head protBytes prot.data unprotBytes value ues rfl hhead hprot hsel.items e he hl
    have hues := hsel.items.entries hvalues
    obtain ⟨_, -, -, hlabelled⟩ := hues
    apply exists_skippedFields hprot hsel.bucket (hsel.items.entries hvalues) hsel.nodup hsel.protectedSkippable
      _ _ hf.admitted.direct (hf.source.skippedField keyWrap_ne_direct)
    · exact fun e he => ⟨(hlabelled e he).1, hvalues e he, hsel.readable e he⟩
    · intro vars hreport
      rcases hsel.recipientAlg_cases hf.isHpke_eq hf.unprotectedValue hreport with h | ⟨h, -⟩
      · exact h
      · exact absurd h hf.admitted.supported.ne_unset

end

end WolfCose
