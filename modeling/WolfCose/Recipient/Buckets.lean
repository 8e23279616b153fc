import WolfCose.Recipient.Report

/-!
# The buckets of a recipient that is decoded

The entries of two buckets that the header decoders accept can be skipped, and give the algorithm that skipping
them reports.
-/

namespace WolfCose

open Program Cbor Settings

variable [Settings]

/-! ### Maps of items -/

/-- The byte string is a map of the entries, however deep their values are nested. -/
def MapItems (bs : Bytes) (es : List Entry) : Prop :=
  ∃ head, MapHead 0 es head ∧ bs = mapBytes head es ∧ ∀ e ∈ es, e.Labelled 0 ∧ DataItem e.value

theorem MapEntries.items {bs : Bytes} {es : List Entry} (h : MapEntries 0 bs es) :
  MapItems bs es
  := by
  obtain ⟨head, hhead, rfl, hes⟩ := h
  exact ⟨head, hhead, rfl, fun e he => ⟨(hes e he).1, (hes e he).2.dataItem⟩⟩

theorem MapItems.dataItem {bs : Bytes} {es : List Entry} (h : MapItems bs es) :
  DataItem bs
  := by
  obtain ⟨head, hhead, rfl, hes⟩ := h
  apply dataItem_map hhead hes

/-- A byte string is a map of items in one way only. -/
theorem MapItems.unique {bs : Bytes} {es es' : List Entry} (h : MapItems bs es) (h' : MapItems bs es') :
  es = es'
  := by
  obtain ⟨head, hh, rfl, hes⟩ := h
  obtain ⟨head', hh', e, hes'⟩ := h'
  obtain ⟨hhead, hbytes⟩ := Token.bytes_append_cancel hh.accepted.wellFormed hh'.accepted.wellFormed e
  have hlen : es.length = es'.length := by
    rw [← hh.val, ← hh'.val, hhead]
  have anyForm : ∀ x : Entry, x.Labelled 0 ∧ DataItem x.value →
      x.token.WellFormed ∧ labelOf x.token = some x.label ∧ ∃ d, Items Token.WellFormed d 1 x.value := by
    rintro x ⟨hx, d, hd⟩
    exact ⟨hx.1.wellFormed, hx.2, d, hd.imp Accepted.wf⟩
  rw [← List.append_nil (entriesBytes es), ← List.append_nil (entriesBytes es')] at hbytes
  exact (entriesBytes_cancel (fun x hx => anyForm x (hes x hx)) (fun x hx => anyForm x (hes' x hx)) hlen hbytes).1

theorem MapItems.entries {bs : Bytes} {es : List Entry} (h : MapItems bs es)
    (hes : ∀ e ∈ es, SkippedValue 0 e.value) :
  MapEntries 0 bs es
  := by
  obtain ⟨head, hhead, rfl, hitems⟩ := h
  exact ⟨head, hhead, rfl, fun e he => ⟨(hitems e he).1, hes e he⟩⟩

theorem BucketEntries.unique {data : Bytes} {es es' : List Entry} (h : BucketEntries 0 data es)
    (h' : BucketEntries 0 data es') :
  es = es'
  := by
  have ne_nil : ∀ {es : List Entry}, MapEntries 0 [] es → False := by
    rintro es ⟨head, -, e, -⟩
    exact head.bytes_ne_nil (List.append_eq_nil_iff.mp e.symm).1
  rcases h with ⟨rfl, rfl⟩ | h
  · rcases h' with ⟨-, rfl⟩ | h'
    · rfl
    · exact (ne_nil h').elim
  · rcases h' with ⟨rfl, rfl⟩ | h'
    · exact (ne_nil h).elim
    · exact h.unique h'

omit [Settings] in
/-- What each value of a scan satisfies. -/
theorem Scans.forall_value {σ : Type} {V : Label → Nat → Bytes → σ → σ → Prop} {Q : Label → Bytes → Prop}
    (step : ∀ label i bs s s', V label i bs s s' → Q label bs) {idx : Nat} {es : List Entry} {s s' : σ}
    (h : Scans V idx es s s') :
  ∀ e ∈ es, Q e.label e.value
  := by
  induction h with
  | nil => exact List.forall_mem_nil _
  | cons hv _ ih => exact List.forall_mem_cons.mpr ⟨step _ _ _ _ _ hv, ih⟩

theorem AlgValue.readable {hdr hdr' : Hdr} {bs : Bytes} (h : AlgValue 0 hdr bs hdr') :
  AlgReadable bs
  := by
  obtain ⟨t, ht, ⟨hm, -⟩ | ⟨v, hv, hr, -⟩, rfl⟩ := h
  · exact ⟨t, ht, .inl hm, rfl⟩
  · exact ⟨t, ht, .inr ⟨v, hv, hr⟩, rfl⟩

theorem ProtectedValue.readable {idx : Nat} {bs : Bytes} {vars vars' : ProtectedVars}
    (h : ProtectedValue 0 (.int hdrAlg) idx bs vars vars') :
  AlgReadable bs
  := by
  unfold ProtectedValue at h
  rw [if_pos rfl] at h
  obtain ⟨hdr, hv, -⟩ := h
  exact hv.readable

theorem UnprotectedValue.readable {wantEk : Bool} {idx : Nat} {bs : Bytes} {vars vars' : UnprotectedVars}
    (h : UnprotectedValue 0 wantEk (.int hdrAlg) idx bs vars vars') :
  AlgReadable bs
  := by
  have hek : ¬ (haveHpke0 = true ∧ Label.int hdrAlg = .int hdrHpkeEk) := by
    rintro ⟨-, h⟩
    revert h
    decide
  unfold UnprotectedValue at h
  rw [if_neg (by decide), if_neg (by decide), if_neg (by decide), if_neg hek, if_pos rfl] at h
  obtain ⟨hdr, hv, -⟩ := h
  exact hv.readable

/-- The entries of a protected bucket that is decoded can be skipped. -/
theorem BucketEntries.skippable {data : Bytes} (hdata : data.length ≤ sizeMax) {hdr : Hdr} {r : Hdr × HdrState}
    (h : decodeProtectedHdrEx (.mem data) hdr 0 = .ok r) {es : List Entry} (hes : BucketEntries 0 data es) :
  ∀ e ∈ es, e.Skippable
  := by
  obtain ⟨-, ⟨rfl, -⟩ | ⟨head, es', rfl, hmap, -⟩⟩ := (decodeProtectedHdrEx_eq_ok hdata).mp h
  · obtain rfl := hes.unique (.inl ⟨rfl, rfl⟩)
    exact List.forall_mem_nil _
  · obtain ⟨_, _, hs, -, -⟩ := hmap.scans
    have hitem := hs.forall (fun _ _ _ _ _ hv => hv.hdrStep.item)
    have hread := hs.forall_value (Q := fun label bs => label = .int hdrAlg → AlgReadable bs) (by
      rintro _ _ _ _ _ hv rfl
      exact hv.readable)
    obtain rfl := hes.unique (.inr ⟨head, hmap.map.head, rfl, fun e he => ⟨hmap.map.labelled e he, hitem e he⟩⟩)
    exact fun e he => ⟨hmap.map.labelled e he, hitem e he, hread e he⟩

/-- The entries of an unprotected bucket that is decoded can be skipped. -/
theorem UnprotectedMap.skippable {wantEk : Bool} {hdrState : HdrState} {idx : Nat} {hdr : Hdr}
    {vars' : UnprotectedVars} {head : Token} {es : List Entry}
    (h : UnprotectedMap 0 wantEk hdrState idx hdr vars' head es) :
  ∀ e ∈ es, e.Skippable
  := by
  have hitem := h.scans.forall (fun _ _ _ _ _ hv => hv.hdrStep.item)
  have hread := h.scans.forall_value (Q := fun label bs => label = .int hdrAlg → AlgReadable bs) (by
    rintro _ _ _ _ _ hv rfl
    exact hv.readable)
  exact fun e he => ⟨h.map.labelled e he, hitem e he, hread e he⟩

/-- An encapsulated key is found under its label. -/
theorem UnprotectedMap.ek_mem {wantEk : Bool} {hdrState : HdrState} {idx : Nat} {hdr : Hdr}
    {vars' : UnprotectedVars} {head : Token} {es : List Entry}
    (h : UnprotectedMap 0 wantEk hdrState idx hdr vars' head es) (hek : vars'.hpkeEk.isSome = true) :
  .int hdrHpkeEk ∈ labelsOf es
  := by
  by_contra hl
  have hnone : FieldReport (.int hdrHpkeEk) (fun _ _ _ => True) es none vars'.hpkeEk := by
    apply h.scans.fieldReport (f := UnprotectedVars.hpkeEk) _ h.map.labels.nodup
    intro label i bs s s' hv
    unfold FieldStep
    split
    · trivial
    next hne =>
      have hek : ¬ (haveHpke0 = true ∧ label = .int hdrHpkeEk) := fun h => hne h.2
      unfold UnprotectedValue at hv
      rw [if_neg hek] at hv
      split at hv
      · obtain ⟨_, -, rfl⟩ := hv
        rfl
      split at hv
      · obtain ⟨_, -, rfl⟩ := hv
        rfl
      split at hv
      · obtain ⟨_, -, rfl⟩ := hv
        rfl
      split at hv
      · obtain ⟨_, -, rfl⟩ := hv
        rfl
      split at hv
      · obtain ⟨_, -, rfl⟩ := hv
        rfl
      split at hv
      all_goals
        rw [hv.2]
  rw [hnone.of_not_mem hl] at hek
  cases hek

/-! ### Recipients whose buckets are known -/

/-- Two buckets are skipped as the entries that they have. -/
theorem SkippedFields.report {prot unprot value data : Bytes} {vars : SkippedAlg} {pes ues : List Entry}
    (h : SkippedFields prot unprot value data vars) (hpes : BucketEntries 0 data pes) (hues : MapItems unprot ues) :
  SkippedReport pes ues vars ∧ MapEntries 0 unprot ues
  := by
  obtain ⟨vars₀, hprot, hunprot⟩ := h.buckets
  obtain ⟨pes', ues', hpes', hues', hreport⟩ := skippedReport_of_buckets hprot hunprot
  obtain rfl := hpes.unique hpes'
  obtain rfl := hues.unique hues'.items
  exact ⟨hreport, hues'⟩

/-- The fields of a recipient are skipped if the entries of its buckets can be, and if the third field suits the
algorithm. -/
theorem exists_skippedFields {prot data unprot value : Bytes} {pes ues : List Entry} {alg : Int}
    (hprot : BstrValue 0 prot data) (hpes : BucketEntries 0 data pes) (hues : MapEntries 0 unprot ues)
    (hnd : (labelsOf (pes ++ ues)).Nodup) (hp : ∀ e ∈ pes, e.Skippable) (hu : ∀ e ∈ ues, e.Skippable)
    (halg : ∀ vars, SkippedReport pes ues vars → alg = vars.reported) (hdirect : alg = algDirect → data = [])
    (hfield : SkippedField alg value) :
  ∃ vars, SkippedFields prot unprot value data vars ∧ alg = vars.reported
  := by
  obtain ⟨vars₀, vars, hskip₀, hskip⟩ := exists_skipped_buckets hprot hpes hues hnd hp hu
  obtain ⟨pes', ues', hpes', hues', hreport⟩ := skippedReport_of_buckets hskip₀ hskip
  obtain rfl := hpes.unique hpes'
  obtain rfl := hues.unique hues'
  have hreported := halg vars hreport
  have hiff := hreport.reported_direct
  rw [← hreported] at hiff
  refine ⟨vars, ⟨⟨vars₀, hskip₀, hskip⟩, fun hd => hdirect (hiff.mpr hd), ?_⟩, hreported⟩
  unfold SkippedField at hfield ⊢
  by_cases hd : alg = algDirect
  · rw [if_pos hd] at hfield
    rw [if_pos (hiff.mp hd)]
    exact hfield
  · rw [if_neg hd] at hfield
    rw [if_neg fun h => hd (hiff.mpr h)]
    exact hfield

/-- The two buckets of a header and their entries. -/
structure HeaderBuckets (headers : Headers) (prot unprot : Bytes) (pes ues : List Entry) : Prop where
  protectedBytes : BstrValue 0 prot headers.protectedData
  bucket : BucketEntries 0 headers.protectedData pes
  entries : MapEntries 0 unprot ues
  nodup : (labelsOf (pes ++ ues)).Nodup
  protectedSkippable : ∀ e ∈ pes, e.Skippable
  skippable : ∀ e ∈ ues, e.Skippable
  alg : FieldReport (.int hdrAlg) (AlgField 0) (pes ++ ues) algUnset headers.hdr.alg

theorem HeadersValue.buckets {bs : Bytes} {headers : Headers} (h : HeadersValue 0 bs headers)
    (hlen : bs.length ≤ sizeMax) :
  ∃ prot unprot pes ues, bs = prot ++ unprot ∧ HeaderBuckets headers prot unprot pes ues
  := by
  obtain ⟨prot, r₁, head, es, ek, rfl, hprot, hdec, -, hmap⟩ := h
  have hdata : headers.protectedData.length ≤ sizeMax := by
    have h₁ := hprot.length_le
    rw [List.length_append] at hlen
    omega
  have hdec' : decodeProtectedHdrEx (.mem (Buffer.ofBytes headers.protectedData).bytes) .zero 0 = .ok r₁ := by
    rw [Buffer.bytes_ofBytes hdata]
    exact hdec
  obtain ⟨pes, hpes, -, hues, hmerged⟩ := UnprotectedMap.merged hdec' hmap
  rw [Buffer.bytes_ofBytes hdata] at hpes
  exact ⟨prot, _, pes, es, rfl, hprot, hpes, hues, hmerged.nodup, hpes.skippable hdata hdec, hmap.skippable,
    hmerged.alg⟩

end WolfCose
