import WolfCose.EatPsa.Order

/-!
# Duplicate labels

The decoders of claims and of software components find out whether a label has occurred before by
reading the entries before it again.  This finds exactly the duplicates: the labels of an accepted
map are different as CBOR values, whatever the width of their heads, and no label of a map whose
labels are different is taken for a duplicate.
-/

namespace WolfCose

open Program Cbor Settings EatPsaSettings

/-! ### Labels of maps -/

/-- The bytes encode a label, with a head of any width. -/
def EatPsaLabelBytes (bs : Bytes) (label : EatPsaLabel) : Prop :=
  ∃ t : Token, t.WellFormed ∧ bs = t.bytes ∧ eatPsaLabelOf t = some label

/-- A map: a head of any width and entries, each of them two data items. -/
structure IsMapOf (bs : Bytes) (entries : List (Bytes × Bytes)) : Prop where
  frame : ∃ head : Token, head.WellFormed ∧ head.major = .map ∧ head.val = entries.length
    ∧ bs = head.bytes ++ pairsBytes entries
  items : ∀ p ∈ entries, DataItems 1 p.1 ∧ DataItems 1 p.2

/-- No two entries have the same label. -/
def LabelsDiffer (entries : List (Bytes × Bytes)) : Prop :=
  entries.Pairwise fun p q => ∀ label, EatPsaLabelBytes p.1 label → ¬ EatPsaLabelBytes q.1 label

theorem EatPsaLabelBytes.unique {bs : Bytes} {label label' : EatPsaLabel} (h : EatPsaLabelBytes bs label)
    (h' : EatPsaLabelBytes bs label') :
  label = label'
  := by
  obtain ⟨t, ht, rfl, hl⟩ := h
  obtain ⟨t', ht', heq, hl'⟩ := h'
  obtain ⟨rfl, -⟩ := Token.bytes_append_cancel ht ht' (congrArg (· ++ []) heq)
  exact Option.some.inj (hl.symm.trans hl')

section

variable [Settings]

theorem EatPsaEntry.Labelled.labelBytes {e : EatPsaEntry} (h : e.Labelled) :
  EatPsaLabelBytes e.pair.1 e.label
  := ⟨e.token, h.accepted.wellFormed, rfl, h.label_eq⟩

/-- Entries whose labels are different are entries of a map whose labels differ. -/
theorem labelsDiffer_pairs {es : List EatPsaEntry} (h : ∀ e ∈ es, e.Labelled)
    (hnodup : (es.map EatPsaEntry.label).Nodup) :
  LabelsDiffer (es.map EatPsaEntry.pair)
  := by
  rw [List.Nodup, List.pairwise_map] at hnodup
  rw [LabelsDiffer, List.pairwise_map]
  apply hnodup.imp_of_mem
  intro e e' he he' hne label hl hl'
  apply hne
  rw [(h e he).labelBytes.unique hl, (h e' he').labelBytes.unique hl']

theorem EatPsaEntry.Labelled.pair_items {e : EatPsaEntry} (h : e.Labelled) (hvalue : EatPsaItem e.value) :
  DataItems 1 e.pair.1 ∧ DataItems 1 e.pair.2
  := ⟨EatPsaItem.dataItem ⟨0, h.token_items 0⟩, hvalue.dataItem⟩

variable [EatPsaSettings]

omit [EatPsaSettings] in
/-- What the decoder of a map reads is a map whose labels differ. -/
theorem EatPsaMapValue.distinct {σ : Type} {V : EatPsaLabel → Bytes → σ → σ → Prop}
    (hitem : ∀ label bs s s', V label bs s s' → EatPsaItem bs) {limit : Nat} {s s' : σ} {bs : Bytes}
    (h : EatPsaMapValue limit V s bs s') :
  ∃ entries, IsMapOf bs entries ∧ LabelsDiffer entries ∧ ∀ p ∈ entries, ∃ label, EatPsaLabelBytes p.1 label
  := by
  obtain ⟨head, es, rfl, hhead, -, hsteps, hfresh⟩ := h
  have hes : ∀ e ∈ es, e.Labelled ∧ EatPsaItem e.value := by
    intro e he
    obtain ⟨_, _, hl, hv⟩ := hsteps.forall_mem e he
    exact ⟨hl, hitem _ _ _ _ hv⟩
  refine ⟨es.map EatPsaEntry.pair, ⟨⟨head, hhead.accepted.wellFormed, hhead.major, ?_, ?_⟩, ?_⟩,
    labelsDiffer_pairs (fun e he => (hes e he).1) (eatPsaFresh_nil_iff.mp hfresh).1, ?_⟩
  · rw [List.length_map]
    exact hhead.val
  · rw [eatPsaMapBytes, eatPsaEntriesBytes_eq]
  all_goals
    simp only [List.forall_mem_map]
    intro e he
    obtain ⟨hl, hv⟩ := hes e he
  · exact hl.pair_items hv
  · exact ⟨e.label, hl.labelBytes⟩

/-- The decoder of a map reports a duplicate: after some entries it has read a label, and the scan
over these entries finds the label. -/
def EatPsaReports {σ : Type} (limit : Nat) (value : EatPsaLabel → σ → Dec σ) (s : σ) (ctx : DecCtx) : Prop :=
  ∃ i label before after after', EatPsaReaches limit value s ctx i label before after
    ∧ Runs (eatPsaMapHasPriorLabel (ctx.cbuf.bytes.drop ctx.idx) (before.idx - ctx.idx) label) after true after'

omit [EatPsaSettings] in
/-- The entries that have been read are the first entries of the map, and the label that comes next
is that of the next entry. -/
theorem entries_of_prefix {es : List EatPsaEntry} (hes : ∀ e ∈ es, e.Labelled ∧ EatPsaItem e.value)
    {entries : List (Bytes × Bytes)} (hitems : ∀ p ∈ entries, DataItems 1 p.1 ∧ DataItems 1 p.2)
    (hlt : es.length < entries.length) {t : Token} (ht : t.WellFormed) (htoken : DataItems 1 t.bytes)
    {label : EatPsaLabel} (hl : eatPsaLabelOf t = some label) {r rest : Bytes}
    (hbytes : eatPsaEntriesBytes es ++ (t.bytes ++ r) = pairsBytes entries ++ rest) :
  ∃ q qs, entries = es.map EatPsaEntry.pair ++ q :: qs ∧ EatPsaLabelBytes q.1 label
  := by
  obtain ⟨q, qs, hdrop⟩ : ∃ q qs, entries.drop es.length = q :: qs := by
    rw [← List.length_pos_iff_exists_cons, List.length_drop]
    omega
  have hsplit : entries = entries.take es.length ++ q :: qs := by
    rw [← hdrop, List.take_append_drop]
  have hall : ∀ e ∈ es.map EatPsaEntry.pair, DataItems 1 e.1 ∧ DataItems 1 e.2 := by
    rw [List.forall_mem_map]
    intro e he
    apply (hes e he).1.pair_items (hes e he).2
  have hlen : (es.map EatPsaEntry.pair).length = (entries.take es.length).length := by
    rw [List.length_map, List.length_take, Nat.min_eq_left (Nat.le_of_lt hlt)]
  rw [hsplit, eatPsaEntriesBytes_eq] at hbytes
  have hq : q ∈ entries := by
    rw [hsplit]
    simp
  obtain ⟨htake, hnext⟩ := @pairs_cancel _ _ hall (fun p hp => hitems p (List.mem_of_mem_take hp)) hlen _
    (q.1 ++ (q.2 ++ (pairsBytes qs ++ rest))) (by simpa [pairsBytes] using hbytes)
  obtain ⟨hfst, -⟩ := htoken.append_cancel (hitems q hq).1 hnext
  exact ⟨q, qs, by rw [htake]; exact hsplit, t, ht, hfst.symm, hl⟩

/-- A label that is reported is that of an entry before it. -/
theorem not_reports {σ : Type} {value : EatPsaLabel → σ → Dec σ} {V : EatPsaLabel → Bytes → σ → σ → Prop}
    (hvalue : EatPsaReadsValue value V) (hitem : ∀ label bs s s', V label bs s s' → EatPsaItem bs) {limit : Nat}
    {s : σ} {ctx : DecCtx} {bs rest : Bytes} {entries : List (Bytes × Bytes)} (hctx : ctx.rest = bs ++ rest)
    (hmap : IsMapOf bs entries) (hdiffer : LabelsDiffer entries) :
  ¬ EatPsaReports limit value s ctx
  := by
  rintro ⟨i, label, before, after, after', ⟨⟨count, start, s', hstart, -, hi, hrun⟩, hlabel⟩, hreport⟩
  obtain ⟨⟨head, hwf, hm, hv, rfl⟩, hitems⟩ := hmap
  obtain ⟨-, head', hhead', hc, hm', hv', hroom⟩ := (runs_decodeMapStartEx _ _ _ _).mp hstart
  have hmapHead : EatPsaMapHead head' count := ⟨hhead', hm', hv'⟩
  rw [hmapHead.children] at hroom
  obtain ⟨es, rfl, hsteps, -, hc'⟩ :=
    (runs_eatPsaDecodePrefix hvalue hitem hmapHead hc hroom (Nat.le_of_lt hi) _ _ _).mp hrun
  obtain ⟨t, ht, hct, hl⟩ := (runs_eatPsaDecodeLabel _ _ _).mp hlabel
  have hes : ∀ e ∈ es, e.Labelled ∧ EatPsaItem e.value := by
    intro e he
    obtain ⟨_, _, hlabelled, hvalue⟩ := hsteps.forall_mem e he
    exact ⟨hlabelled, hitem _ _ _ _ hvalue⟩
  -- the scan finds the label among the entries that have been read
  have hafter : ctx.cbuf.bytes.drop ctx.idx = eatPsaMapBytes head' es ++ before.rest := by
    rw [eatPsaMapBytes, List.append_assoc, ← hc'.rest_eq]
    exact hc.rest_eq
  have hoffset : before.idx - ctx.idx = (eatPsaMapBytes head' es).length := by
    rw [(hc.trans hc').idx_eq, eatPsaMapBytes, Nat.add_sub_cancel_left]
  have hfits : (ctx.cbuf.bytes.drop ctx.idx).length ≤ sizeMax := by
    rw [List.length_drop]
    exact (Nat.sub_le _ _).trans ctx.cbuf.length_le
  rw [hc'.rest_eq] at hroom
  rw [hoffset] at hreport
  obtain ⟨d, hd, rfl⟩ :=
    (runs_eatPsaMapHasPriorLabel hmapHead hes (Nat.le_of_lt hi) hafter hfits hroom _ _).2 hreport
  -- so it occurs twice among the entries of the map
  obtain ⟨rfl, hrest⟩ := Token.bytes_append_cancel hwf hhead'.wellFormed
    ((List.append_assoc _ _ _).symm.trans (hctx.symm.trans hc.rest_eq))
  rw [hv] at hv'
  rw [hc'.rest_eq, hct.rest_eq] at hrest
  have htoken : DataItems 1 t.bytes :=
    EatPsaItem.dataItem ⟨0, @EatPsaEntry.Labelled.token_items _ ⟨t, _, []⟩ ⟨ht, hl⟩ 0⟩
  obtain ⟨q, qs, rfl, hq⟩ := entries_of_prefix hes hitems (by rw [hv']; exact hi) ht.wellFormed htoken hl hrest.symm
  rw [LabelsDiffer, List.pairwise_append] at hdiffer
  exact hdiffer.2.2 d.pair (List.mem_map_of_mem hd) q List.mem_cons_self _ (hes d hd).1.labelBytes hq

variable [MacSettings]

/-- The detection of duplicates is exact.  The labels of claims that are accepted are different, and
so are those of a software component.  Where the labels of a map are different, none is reported. -/
theorem eatPsa_duplicates_exact :
  (∀ payload token, eatPsaDecodeClaims (some payload) = .ok token →
    ∃ entries, IsMapOf payload.bytes entries ∧ LabelsDiffer entries
      ∧ ∀ p ∈ entries, ∃ label, EatPsaLabelBytes p.1 label)
  ∧ (∀ ctx component ctx', Runs eatPsaDecodeComponent ctx component ctx' →
    ∃ bs entries, ctx.Consumes bs ctx' ∧ IsMapOf bs entries ∧ LabelsDiffer entries
      ∧ ∀ p ∈ entries, ∃ label, EatPsaLabelBytes p.1 label)
  ∧ (∀ (payload : Buffer) bs rest entries, payload.bytes = bs ++ rest → IsMapOf bs entries → LabelsDiffer entries →
    ¬ EatPsaReports maxClaims eatPsaDecodeClaimValue .init (.init payload))
  ∧ (∀ (ctx : DecCtx) bs rest entries, ctx.rest = bs ++ rest → IsMapOf bs entries → LabelsDiffer entries →
    ¬ EatPsaReports maxComponentClaims eatPsaDecodeComponentValue ⟨0, .zero⟩ ctx)
  := by
  refine ⟨?_, ?_, ?_, ?_⟩
  · intro payload token h
    obtain ⟨head, es, hbytes, hhead, hlimit, ⟨vars, hsteps, -⟩, hnodup, hread⟩ := eatPsaDecodeClaims_eq_ok.mp h
    exact EatPsaMapValue.distinct EatPsaClaimValue.item
      ⟨head, es, hbytes, hhead, hlimit, hsteps, eatPsaFresh_nil_iff.mpr ⟨hnodup, hread⟩⟩
  · intro ctx component ctx' h
    obtain ⟨bs, ⟨vars, hmap, -⟩, hc⟩ := (reads_eatPsaDecodeComponent _ _ _).mp h
    obtain ⟨entries, hentries⟩ := hmap.distinct EatPsaComponentValue.item
    exact ⟨bs, entries, hc, hentries⟩
  · intro payload bs rest entries hbytes
    apply not_reports readsValue_eatPsaClaim EatPsaClaimValue.item
    rw [DecCtx.rest_init]
    exact hbytes
  · intro ctx bs rest entries hctx
    exact not_reports readsValue_eatPsaComponent EatPsaComponentValue.item hctx

end

section Instances

attribute [local instance] defaultSettings defaultMacSettings defaultEatPsaSettings

theorem eatPsa_duplicates_exact_instance :
  ∃ entries, IsMapOf (nestedClaims.reorder nestedClaims_perm).payload.bytes entries ∧ LabelsDiffer entries
    ∧ ∀ p ∈ entries, ∃ label, EatPsaLabelBytes p.1 label
  := by
  have hok : (eatPsaDecodeClaims (some (nestedClaims.reorder nestedClaims_perm).payload)).isOk = true := by
    decide +kernel
  cases h : eatPsaDecodeClaims (some (nestedClaims.reorder nestedClaims_perm).payload) with
  | ok token => exact eatPsa_duplicates_exact.1 _ _ h
  | error e =>
      rw [h] at hok
      cases hok

end Instances

end WolfCose
