import WolfCose.Hdr.Merge
import WolfCose.Lib.Rewidth

/-!
# Headers that are decoded tolerantly

What the strict decoders accept is accepted by the tolerant ones, with the same result.  A tolerant decoder does
not depend on the widths of the heads, except in the entry of HPKE, which is always decoded strictly.
-/

namespace WolfCose

open Program Cbor Settings

variable [Settings] {flags : UInt32}

/-! ### From strict to tolerant -/

/-- What is accepted strictly is accepted with any flags. -/
theorem Accepted.tolerated {t : Token} (h : Accepted 0 t) :
  Accepted flags t
  := by
  have hstrict : allowsNonpreferred 0 = false := by
    rw [allowsNonpreferred, UInt32.zero_and]
    exact Bool.and_false _
  exact ⟨h.wellFormed, h.simple, fun _ => h.preferred hstrict, h.utf8⟩

theorem SkippedValue.tolerated {bs : Bytes} (h : SkippedValue 0 bs) :
  SkippedValue flags bs
  := Items.imp h fun _ => Accepted.tolerated

theorem TokenValue.tolerated {R : Token → Prop} {bs : Bytes} (h : TokenValue 0 R bs) :
  TokenValue flags R bs
  := by
  obtain ⟨t, ht, hR, hbs⟩ := h
  exact ⟨t, ht.tolerated, hR, hbs⟩

theorem CritValue.tolerated {bs : Bytes} {crit crit' : UInt32} (h : CritValue 0 crit bs crit') :
  CritValue flags crit bs crit'
  := by
  obtain ⟨head, ts, hhead, hmajor, hval, hpos, hle, hts, hbs, hcrit⟩ := h
  exact ⟨head, ts, hhead.tolerated, hmajor, hval, hpos, hle, fun t ht => ⟨(hts t ht).1.tolerated, (hts t ht).2⟩, hbs,
    hcrit⟩

theorem ProtectedValue.tolerated {label : Label} {i : Nat} {bs : Bytes} {vars vars' : ProtectedVars}
    (h : ProtectedValue 0 label i bs vars vars') :
  ProtectedValue flags label i bs vars vars'
  := by
  unfold ProtectedValue at h ⊢
  split_ifs at h ⊢
  · obtain ⟨hdr, halg, hvars⟩ := h
    exact ⟨hdr, halg.tolerated, hvars⟩
  · obtain ⟨crit, hcrit, hvars⟩ := h
    exact ⟨crit, hcrit.tolerated, hvars⟩
  · obtain ⟨r, htype, hvars⟩ := h
    exact ⟨r, htype.tolerated, hvars⟩
  · obtain ⟨kid, hkid, hvars⟩ := h
    exact ⟨kid, hkid.tolerated, hvars⟩
  · obtain ⟨iv, hiv, hvars⟩ := h
    exact ⟨iv, hiv.tolerated, hvars⟩
  · obtain ⟨partialIv, hpartial, hvars⟩ := h
    exact ⟨partialIv, hpartial.tolerated, hvars⟩
  · exact ⟨h.1.tolerated, h.2⟩
  · exact ⟨h.1.tolerated, h.2⟩

theorem UnprotectedValue.tolerated {wantEk : Bool} {label : Label} {i : Nat} {bs : Bytes} {vars vars' : UnprotectedVars}
    (h : UnprotectedValue 0 wantEk label i bs vars vars') :
  UnprotectedValue flags wantEk label i bs vars vars'
  := by
  unfold UnprotectedValue at h ⊢
  split_ifs at h ⊢
  · obtain ⟨kid, hkid, hvars⟩ := h
    exact ⟨kid, hkid.tolerated, hvars⟩
  · obtain ⟨iv, hiv, hvars⟩ := h
    exact ⟨iv, hiv.tolerated, hvars⟩
  · obtain ⟨partialIv, hpartial, hvars⟩ := h
    exact ⟨partialIv, hpartial.tolerated, hvars⟩
  · exact h
  · exact h
  · obtain ⟨hdr, halg, hvars⟩ := h
    exact ⟨hdr, halg.tolerated, hvars⟩
  · obtain ⟨r, htype, hvars⟩ := h
    exact ⟨r, htype.tolerated, hvars⟩
  · exact ⟨h.1.tolerated, h.2⟩
  · exact ⟨h.1.tolerated, h.2⟩

theorem HeaderMap.tolerated {ok : Label → Prop} {head : Token} {es : List Entry} (h : HeaderMap 0 ok head es) :
  HeaderMap flags ok head es
  where
  head := ⟨h.head.accepted.tolerated, h.head.major, h.head.val⟩
  labelled e he := ⟨(h.labelled e he).1.tolerated, (h.labelled e he).2⟩
  labels := h.labels
  length_le := h.length_le

theorem ProtectedMap.tolerated {hdr hdr' : Hdr} {head : Token} {es : List Entry}
    (h : ProtectedMap 0 hdr hdr' head es) :
  ProtectedMap flags hdr hdr' head es
  where
  map := h.map.tolerated
  placed := h.placed
  scans := by
    obtain ⟨crit, understood, hscans, hcrit⟩ := h.scans
    refine ⟨crit, understood, ?_, hcrit⟩
    exact hscans.map (W := fun label => ProtectedValue flags label 0) id (fun _ _ _ _ _ hv => hv.tolerated) _
  ivs := h.ivs

theorem UnprotectedMap.tolerated {wantEk : Bool} {hdrState : HdrState} {i : Nat} {hdr : Hdr} {vars' : UnprotectedVars}
    {head : Token} {es : List Entry} (h : UnprotectedMap 0 wantEk hdrState i hdr vars' head es) :
  UnprotectedMap flags wantEk hdrState i hdr vars' head es
  where
  map := h.map.tolerated
  scans := h.scans.map (W := fun label => UnprotectedValue flags wantEk label 0) id
    (fun _ _ _ _ _ hv => hv.tolerated) _
  ivs := h.ivs

theorem decodeProtectedHdrEx_tolerated (hf : decodeFlagsValid flags = true) {data : Bytes}
    (hdata : data.length ≤ sizeMax) {hdr : Hdr} {r : Hdr × HdrState}
    (h : decodeProtectedHdrEx (.mem data) hdr 0 = .ok r) :
  decodeProtectedHdrEx (.mem data) hdr flags = .ok r
  := by
  rw [decodeProtectedHdrEx_eq_ok hdata] at h ⊢
  refine ⟨hf, h.2.imp id ?_⟩
  rintro ⟨head, es, hbytes, hmap, hstate⟩
  exact ⟨head, es, hbytes, hmap.tolerated, hstate⟩

theorem decodeUnprotectedHdrEx_tolerated (hf : decodeFlagsValid flags = true) {hdr : Hdr} {hdrState : HdrState}
    {ctx ctx' : DecCtx} {r : Hdr × HdrState} (h : Runs (decodeUnprotectedHdrEx hdr hdrState 0) ctx r ctx') :
  Runs (decodeUnprotectedHdrEx hdr hdrState flags) ctx r ctx'
  := by
  rw [runs_decodeUnprotectedHdrEx] at h ⊢
  obtain ⟨-, head, es, ek, hmap, hrest⟩ := h
  exact ⟨hf, head, es, ek, hmap.tolerated, hrest⟩

theorem skipEx_tolerated (hf : decodeFlagsValid flags = true) {ctx ctx' : DecCtx} {u : Unit}
    (h : Runs (skipEx 0) ctx u ctx') :
  Runs (skipEx flags) ctx u ctx'
  := by
  rw [reads_skipEx decodeFlagsValid_zero] at h
  rw [reads_skipEx hf]
  obtain ⟨bs, hskip, hc⟩ := h
  exact ⟨bs, hskip.tolerated, hc⟩

/-! ### Other widths -/

/-- Tolerant decoding accepts every width. -/
theorem Accepted.sameArgument (htol : allowsNonpreferred flags = true) {t t' : Token} (hsame : t.SameArgument t')
    (h : Accepted flags t) :
  Accepted flags t'
  where
  wellFormed := hsame.wellFormed'
  simple hs hone := by
    rw [hsame.major] at hs
    rw [hsame.simple hs] at hone
    rw [hsame.val]
    exact h.simple hs hone
  preferred hstrict := by
    rw [htol] at hstrict
    cases hstrict
  utf8 ht := by
    rw [hsame.major] at ht
    rw [hsame.data]
    exact h.utf8 ht

omit [Settings] in
theorem intOf_sameArgument {t t' : Token} (h : t.SameArgument t') :
  intOf t' = intOf t
  := by rw [intOf, intOf, h.major, h.val]

omit [Settings] in
theorem labelOf_sameArgument {t t' : Token} (h : t.SameArgument t') :
  labelOf t' = labelOf t
  := by rw [labelOf, labelOf, intOf_sameArgument h, h.major, h.data]

/-- What is asked of the labels of a map does not depend on the values. -/
theorem LabelsOk.of_labelsOf_eq {ok : Label → Prop} {labels : List Label} {es es' : List Entry}
    (h : LabelsOk ok labels es) (heq : labelsOf es' = labelsOf es) :
  LabelsOk ok labels es'
  := by
  have hlabel : ∀ e ∈ es', ∃ e' ∈ es, e'.label = e.label := by
    intro e he
    apply List.mem_map.mp
    change e.label ∈ labelsOf es
    rw [← heq]
    exact List.mem_map_of_mem he
  constructor
  · rw [heq]
    exact h.nodup
  · intro e he
    obtain ⟨e', he', hl⟩ := hlabel e he
    rw [← hl]
    exact h.fresh e' he'
  · intro e he
    obtain ⟨e', he', hl⟩ := hlabel e he
    rw [← hl]
    exact h.ok e' he'
  · intro e he
    obtain ⟨e', he', hl⟩ := hlabel e he
    rw [← hl]
    exact h.enabled e' he'

section

variable (htol : allowsNonpreferred flags = true)

include htol

theorem survives_skipped :
  Survives (SkippedValue flags)
  := Survives.items Accepted.wf (fun _ _ hsame ht => ht.sameArgument htol hsame) _ _

theorem survives_token {R : Token → Prop} (hR : ∀ t t', t.SameArgument t' → R t → R t') :
  Survives (TokenValue flags R)
  := by
  have h := Survives.token (Q := fun t => Accepted flags t ∧ R t) (fun t ht => ht.1.wellFormed)
    fun t t' hsame ht => ⟨ht.1.sameArgument htol hsame, hR t t' hsame ht.2⟩
  intro a r b ha hab
  obtain ⟨t, ht, hRt, hbytes⟩ := ha
  obtain ⟨a', r', hb, ⟨t', ⟨ht', hRt'⟩, hbytes'⟩, hrest⟩ := h ⟨t, ⟨ht, hRt⟩, hbytes⟩ hab
  exact ⟨a', r', hb, ⟨t', ht', hRt', hbytes'⟩, hrest⟩

theorem survives_bstr (data : Bytes) :
  Survives (fun bs => BstrValue flags bs data)
  := by
  apply survives_token htol
  intro t t' hsame h
  exact ⟨hsame.major.trans h.1, hsame.data.trans h.2⟩

theorem survives_alg (hdr hdr' : Hdr) :
  Survives (fun bs => AlgValue flags hdr bs hdr')
  := by
  apply survives_token htol
  intro t t' hsame h
  rw [hsame.major, intOf_sameArgument hsame]
  exact h

theorem survives_contentType (hdr : Hdr) (r : Hdr × Bool) :
  Survives (fun bs => ContentTypeValue flags hdr bs r)
  := by
  apply survives_token htol
  intro t t' hsame h
  rw [hsame.major, hsame.val]
  exact h

/-- The value of an entry, unless it is that of HPKE. -/
theorem survives_unprotectedValue {wantEk : Bool} {label : Label} (hek : ¬ (haveHpke0 = true ∧ label = .int hdrHpkeEk))
    (i : Nat) (vars vars' : UnprotectedVars) :
  Survives (fun bs => UnprotectedValue flags wantEk label i bs vars vars')
  := by
  unfold UnprotectedValue
  simp only [if_neg hek]
  split_ifs
  · exact .witnessed fun kid => (survives_bstr htol kid).and _
  · exact .witnessed fun iv => (survives_bstr htol iv).and _
  · exact .witnessed fun partialIv => (survives_bstr htol partialIv).and _
  · exact .witnessed fun hdr => (survives_alg htol _ hdr).and _
  · exact .witnessed fun r => (survives_contentType htol _ r).and _
  · exact (survives_skipped htol).and _
  · exact (survives_skipped htol).and _

/-- The entries of a map with other widths have the same labels and values with the same meaning. -/
theorem entries_rewidth {σ : Type} {V : Label → Bytes → σ → σ → Prop} {es : List Entry}
    (hV : ∀ e ∈ es, ∀ s s', Survives (fun bs => V e.label bs s s')) (hes : ∀ e ∈ es, e.Labelled flags) {i : Nat}
    {s s' : σ} (hscans : Scans (fun label _ => V label) i es s s') (i' : Nat) {r b : Bytes}
    (h : Rewidth (entriesBytes es ++ r) b) :
  ∃ es' r', b = entriesBytes es' ++ r' ∧ labelsOf es' = labelsOf es ∧ (∀ e ∈ es', e.Labelled flags)
    ∧ Scans (fun label _ => V label) i' es' s s' ∧ Rewidth r r'
  := by
  induction es generalizing i s i' b with
  | nil =>
      cases hscans
      exact ⟨[], b, rfl, rfl, by rintro _ ⟨⟩, .nil _ _, h⟩
  | cons e es ih =>
      cases hscans with
      | cons hvalue hscans =>
          obtain ⟨haccepted, hlabel⟩ := hes e List.mem_cons_self
          rw [entriesBytes_cons, Entry.bytes, List.append_assoc, List.append_assoc] at h
          obtain ⟨t', c, rfl, hsame, h⟩ := h.split haccepted.wellFormed
          obtain ⟨value', c', rfl, hvalue', -, h⟩ := hV e List.mem_cons_self _ _ hvalue h
          obtain ⟨es', r', rfl, hlabels, hes', hscans', hr⟩ := ih (fun e he => hV e (List.mem_cons_of_mem _ he))
            (fun e he => hes e (List.mem_cons_of_mem _ he)) hscans
            (i' + (Entry.bytes ⟨t', e.label, value'⟩).length) h
          refine ⟨⟨t', e.label, value'⟩ :: es', r', ?_, ?_, ?_, .cons hvalue' hscans', hr⟩
          · rw [entriesBytes_cons, Entry.bytes]
            simp only [List.append_assoc]
          · exact congrArg (e.label :: ·) hlabels
          · intro e' he'
            obtain rfl | he' := List.mem_cons.mp he'
            · exact ⟨haccepted.sameArgument htol hsame, (labelOf_sameArgument hsame).trans hlabel⟩
            · exact hes' e' he'

/-- A map with other widths has the same meaning, if it has no entry of HPKE. -/
theorem UnprotectedMap.rewidth {wantEk : Bool} {hdrState : HdrState} {i : Nat} {hdr : Hdr} {vars' : UnprotectedVars}
    {head : Token} {es : List Entry} (hmap : UnprotectedMap flags wantEk hdrState i hdr vars' head es)
    (hek : haveHpke0 = true → .int hdrHpkeEk ∉ labelsOf es) {r b : Bytes} (h : Rewidth (mapBytes head es ++ r) b) :
  ∃ head' es' r', b = mapBytes head' es' ++ r' ∧ labelsOf es' = labelsOf es
    ∧ UnprotectedMap flags wantEk hdrState i hdr vars' head' es' ∧ Rewidth r r'
  := by
  rw [mapBytes, List.append_assoc] at h
  obtain ⟨head', c, rfl, hsame, h⟩ := h.split hmap.map.head.accepted.wellFormed
  have hscans := hmap.scans.map (W := fun label => UnprotectedValue flags wantEk label 0) id
    (fun _ _ _ _ _ hv => hv) 0
  have hvalues : ∀ e ∈ es, ∀ s s', Survives (fun bs => UnprotectedValue flags wantEk e.label 0 bs s s') := by
    intro e he
    apply survives_unprotectedValue htol
    rintro ⟨hhpke, hlabel⟩
    apply hek hhpke
    rw [← hlabel]
    exact List.mem_map_of_mem he
  obtain ⟨es', r', rfl, hlabels, hes', hscans', hr⟩ := entries_rewidth htol hvalues hmap.map.labelled hscans
    (i + head'.bytes.length) h
  have hlength : es'.length = es.length := by
    rw [← List.length_map (f := Entry.label), ← List.length_map (f := Entry.label)]
    exact congrArg List.length hlabels
  refine ⟨head', es', r', (List.append_assoc _ _ _).symm, hlabels, ?_, hr⟩
  constructor
  · constructor
    · constructor
      · exact hmap.map.head.accepted.sameArgument htol hsame
      · exact hsame.major.trans hmap.map.head.major
      · rw [hsame.val, hmap.map.head.val, hlength]
    · exact hes'
    · exact hmap.map.labels.of_labelsOf_eq hlabels
    · rw [hlength]
      exact hmap.map.length_le
  · exact hscans'
  · exact hmap.ivs

end

end WolfCose
