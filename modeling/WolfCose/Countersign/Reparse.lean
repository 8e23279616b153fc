import WolfCose.Countersign.Planned
import WolfCose.Recipient.Buckets

/-!
# Messages with an added countersignature

What `wc_Cose_AddCounterSignature` and `wc_Cose_AddCounterSignature0` write can be parsed again, by the functions that
verify countersignatures and by those that add more of them.  Only one kind of request can break this: a single
countersignature that becomes the first item of a list lies one array deeper than before, and may then exceed the
nesting that is skipped.
-/

namespace WolfCose

open Program Cbor Settings WolfCrypt

section

variable [Settings]

/-! ### Reading the places again -/

/-- The value of an entry is skipped, and starts as the loop of `wolfCose_ParseCounterMap` demands for its label. -/
def CounterShape (label : Label) (bs : Bytes) : Prop :=
  SkippedValue 0 bs
    ∧ (label = .int hdrCountersignatureV2 ∨ label = .int hdrCountersignatureLegacy → StartsWith .array bs)
    ∧ (label = .int hdrCountersignature0V2 ∨ label = .int hdrCountersignature0Legacy → StartsWith .bstr bs)

theorem CounterValue.shape {label : Label} {idx : Nat} {bs : Bytes} {spans spans' : CounterSpans}
    (h : CounterValue label idx bs spans spans') :
  CounterShape label bs
  := by
  obtain ⟨hskip, h⟩ := h
  refine ⟨hskip, ?_, ?_⟩
  · rintro (rfl | rfl)
    · rw [if_pos rfl] at h
      exact h.2.1
    · rw [if_neg (by decide), if_neg (by decide), if_pos rfl] at h
      exact h.2.1
  · rintro (rfl | rfl)
    · rw [if_neg (by decide), if_pos rfl] at h
      exact h.2.1
    · rw [if_neg (by decide), if_neg (by decide), if_neg (by decide), if_pos rfl] at h
      exact h.2.1

/-- A value of the right shape is noted where no place of its label is noted yet. -/
theorem CounterShape.noted {label : Label} {bs : Bytes} (h : CounterShape label bs) {spans : CounterSpans}
    (hnone : spans.spanAt label = none) (idx : Nat) :
  ∃ spans', CounterValue label idx bs spans spans'
  := by
  obtain ⟨hskip, harray, hbstr⟩ := h
  unfold CounterSpans.spanAt at hnone
  unfold CounterValue
  split_ifs at hnone ⊢ with h₁ h₂ h₃ h₄
  · exact ⟨_, hskip, hnone, harray (.inl h₁), rfl⟩
  · exact ⟨_, hskip, hnone, hbstr (.inl h₂), rfl⟩
  · exact ⟨_, hskip, hnone, harray (.inr h₃), rfl⟩
  · exact ⟨_, hskip, hnone, hbstr (.inr h₄), rfl⟩
  · exact ⟨_, hskip, rfl⟩

/-- The loop accepts every map of values of the right shape. -/
theorem scans_of_shapes {es : List Entry} (h : ∀ e ∈ es, CounterShape e.label e.value) (hnd : (labelsOf es).Nodup)
    {spans : CounterSpans} (hnone : ∀ l ∈ labelsOf es, spans.spanAt l = none) (idx : Nat) :
  ∃ spans', Scans CounterValue idx es spans spans'
  := by
  induction es generalizing idx spans with
  | nil => exact ⟨spans, .nil idx spans⟩
  | cons e es ih =>
      obtain ⟨he, hes⟩ := List.forall_mem_cons.mp h
      obtain ⟨hfresh, hnd⟩ := List.nodup_cons.mp hnd
      obtain ⟨spans₁, hv⟩ := he.noted (hnone e.label List.mem_cons_self) (idx + e.token.bytes.length)
      have hnone₁ : ∀ l ∈ labelsOf es, spans₁.spanAt l = none := by
        intro l hl
        rw [hv.spanAt_ne]
        · exact hnone l (List.mem_cons_of_mem _ hl)
        · rintro rfl
          exact hfresh hl
      obtain ⟨spans', hs⟩ := ih hes hnd hnone₁ (idx + e.bytes.length)
      exact ⟨spans', .cons hv hs⟩

/-! ### The values that are written -/

theorem items_ofString {data : Bytes} (h : data.length < 2 ^ 64) (d : Nat) :
  Items (Accepted 0) d 1 (stringBytes .bstr data)
  := by
  have htoken : ∀ t ∈ [Token.ofString .bstr data], Accepted 0 t ∧ t.major ≠ .tag ∧ t.children = 0 := by
    intro t ht
    rw [List.mem_singleton.mp ht]
    exact ⟨accepted_ofString rfl h (by rintro ⟨⟩), by rintro ⟨⟩, rfl⟩
  have hitems := @Items.tokens _ d _ htoken
  rw [List.flatMap_cons, List.flatMap_nil, List.append_nil, Token.bytes_ofString] at hitems
  exact hitems

namespace NewCounter

variable {counter : NewCounter}

/-- All strings of a countersignature fit a head. -/
def Sized (counter : NewCounter) : Prop :=
  counter.sig.length < 2 ^ 64 ∧ (counter.abbreviated = false → counter.protectedHdr.length < 2 ^ 64
    ∧ (hasKid counter.kid → counter.kid.bytes.length < 2 ^ 64))

omit [Settings] in
/-- The strings are sized where they are written. -/
theorem sized_of_value (h : counter.value.length < 2 ^ 64) :
  counter.Sized
  := by
  unfold value at h
  constructor
  · split_ifs at h
    · rw [stringBytes, List.length_append] at h
      omega
    · simp only [fullBytes, stringBytes, List.length_append] at h
      omega
  · intro hfull
    rw [hfull, if_neg Bool.false_ne_true] at h
    simp only [fullBytes, stringBytes, List.length_append] at h
    refine ⟨by omega, ?_⟩
    intro hkid
    simp only [kidBytes, stringBytes, if_pos hkid, List.length_append] at h
    omega

/-- A full countersignature nests two levels. -/
theorem items_fullBytes (h : counter.Sized) (hfull : counter.abbreviated = false) {d : Nat} (hd : 2 ≤ d) :
  Items (Accepted 0) d 1 counter.fullBytes
  := by
  obtain ⟨d, rfl⟩ := Nat.exists_eq_add_of_le' hd
  have hkid : Items (Accepted 0) (d + 1) 1 (kidBytes counter.kid) := by
    have hmap (n : Nat) (hn : n < 2 ^ 64) : Accepted 0 (Token.ofHead .map n) :=
      accepted_ofHead rfl (by rintro ⟨⟩) hn
    have hlabel : Accepted 0 (Token.ofHead .uint hdrKid.toNat) := accepted_ofHead rfl (by rintro ⟨⟩) (by decide)
    unfold kidBytes
    simp only [← Token.bytes_ofHead]
    split_ifs with hk
    · have hentry := Items.leaf hlabel (by rintro ⟨⟩) rfl (items_ofString ((h.2 hfull).2 hk) d)
      have hitems := Items.container (hmap 1 (by decide)) (by decide) hentry (.nil _)
      rw [List.append_nil] at hitems
      exact hitems
    · apply Items.leaf (hmap 0 (by decide)) (by rintro ⟨⟩) rfl (.nil _)
  have hfields := (items_ofString (h.2 hfull).1 (d + 1)).append (hkid.append (items_ofString h.1 (d + 1)))
  have hhead : Accepted 0 (Token.ofHead .array 3) := accepted_ofHead rfl (by rintro ⟨⟩) (by decide)
  have hitems := Items.container hhead (by decide) hfields (.nil _)
  rw [List.append_nil, Token.bytes_ofHead] at hitems
  exact hitems

theorem items_value (counter : NewCounter) (h : counter.Sized) {d : Nat} (hd : 2 ≤ d) :
  Items (Accepted 0) d 1 counter.value
  := by
  unfold value
  split_ifs with habbr
  · exact items_ofString h.1 d
  · exact items_fullBytes h (Bool.not_eq_true _ ▸ habbr) hd

end NewCounter

theorem CounterList.length_lt {value : Bytes} {items : List Bytes} (h : CounterList value items)
    (hlen : value.length ≤ sizeMax) :
  items.length + 1 < 2 ^ 64
  := by
  have hle := Bytes.length_le_flatten fun x hx => (h.items x hx).1.ne_nil
  have hpos := List.length_pos_iff.mpr (preferredHead_ne_nil .array items.length)
  have hsize := congrArg List.length h.value_eq
  have hmax := sizeMax_lt
  rw [List.length_append] at hsize
  omega

/-- A value under the label of full countersignatures that is extended is skipped again, unless a single
countersignature already nests as deep as is skipped. -/
theorem items_extendedValue {value new : Bytes} {info : CounterListInfo} {d : Nat}
    (hinfo : counterListInfo value = .ok info) (hlen : value.length ≤ sizeMax)
    (hvalue : Items (Accepted 0) (if info.isList = true then d + 1 else d) 1 value) (hnew : Items (Accepted 0) d 1 new) :
  Items (Accepted 0) (d + 1) 1 (extendedValue info value new)
  := by
  unfold extendedValue
  obtain ⟨rfl, -⟩ | ⟨items, hlist, rfl⟩ := (counterListInfo_eq_ok hlen).mp hinfo
  · have hhead : Accepted 0 (Token.ofHead .array 2) := accepted_ofHead rfl (by rintro ⟨⟩) (by decide)
    have hitems := Items.container hhead (by decide) (hvalue.append hnew) (.nil _)
    rw [List.append_nil, Token.bytes_ofHead] at hitems
    exact hitems
  · have hcount := hlist.length_lt hlen
    have hold : Accepted 0 (Token.ofHead .array items.length) :=
      accepted_ofHead rfl (by rintro ⟨⟩) (Nat.lt_of_succ_lt hcount)
    have hhead : Accepted 0 (Token.ofHead .array (items.length + 1)) := accepted_ofHead rfl (by rintro ⟨⟩) hcount
    rw [if_pos rfl, hlist.value_eq, ← Token.bytes_ofHead,
      Items.container_iff (fun _ ht => ht.wellFormed) hold (Nat.pos_iff_ne_zero.mp hlist.pos)] at hvalue
    obtain ⟨e, cs, bs, hd, heq, hcs, hbs⟩ := hvalue
    obtain rfl := Nat.succ.inj hd
    obtain rfl := hbs.eq_nil
    rw [List.append_nil] at heq
    subst heq
    have hitems := Items.container hhead (Nat.succ_ne_zero _) (hcs.append hnew) (.nil _)
    rw [List.append_nil, Token.bytes_ofHead] at hitems
    rw [hlist.value_eq, List.drop_left]
    exact hitems

/-- The value that is extended was skipped one level less deep, if it was not a list. -/
theorem items_of_extendedValue {value new : Bytes} {info : CounterListInfo}
    (hinfo : counterListInfo value = .ok info) (hlen : value.length ≤ sizeMax) (hsingle : info.isList = false)
    (hvalue : SkippedValue 0 value) (h : SkippedValue 0 (extendedValue info value new)) :
  Items (Accepted 0) (maxDepth - 1) 1 value
  := by
  obtain ⟨rfl, -⟩ | ⟨items, -, rfl⟩ := (counterListInfo_eq_ok hlen).mp hinfo
  · have hhead : Accepted 0 (Token.ofHead .array 2) := accepted_ofHead rfl (by rintro ⟨⟩) (by decide)
    have hwf : ∀ t, Accepted 0 t → t.WellFormed := fun _ ht => ht.wellFormed
    have hitems : Items (Accepted 0) maxDepth 1 ((Token.ofHead .array 2).bytes ++ (value ++ new)) := by
      rw [Token.bytes_ofHead]
      exact h
    obtain ⟨e, cs, bs, hd, heq, hcs, hbs⟩ := (Items.container_iff hwf hhead (by decide)).mp hitems
    obtain rfl := hbs.eq_nil
    obtain ⟨a, b, rfl, ha, -⟩ := @Items.split _ _ 1 1 _ hcs
    rw [List.append_nil] at heq
    obtain ⟨rfl, -⟩ := Items.append_cancel hwf ha hvalue heq.symm
    rw [hd, Nat.add_sub_cancel]
    exact ha
  · cases hsingle

/-! ### The unprotected map again -/

/-- The value of a countersignature is skipped by the header decoder. -/
theorem unprotectedValue_counter {label : Label} (hl : CounterLabel label) {idx : Nat} {bs : Bytes}
    {vars vars' : UnprotectedVars} :
  UnprotectedValue 0 false label idx bs vars vars' ↔ SkippedValue 0 bs ∧ vars' = vars
  := by
  obtain rfl | rfl | rfl | rfl := hl
  all_goals
    simp [UnprotectedValue, hdrKid, hdrIv, hdrPartialIv, hdrHpkeEk, hdrAlg, hdrContentType, hdrX5chain,
      hdrCountersignatureV2, hdrCountersignature0V2, hdrCountersignatureLegacy, hdrCountersignature0Legacy]

omit [Settings] in
theorem NewCounter.counterLabel (counter : NewCounter) :
  CounterLabel (.int counter.label)
  := by
  unfold label
  split_ifs
  · exact .inr (.inl rfl)
  · exact .inl rfl

theorem NewCounter.labelled_entry (counter : NewCounter) :
  counter.entry.Labelled 0
  := by
  have haccepted (v : Int) (hmin : -2 ^ 63 ≤ v) (hmax : v < 2 ^ 63) : Accepted 0 (intToken v) :=
    accepted_intToken hmin hmax
  unfold entry label
  split_ifs
  · exact ⟨haccepted hdrCountersignature0V2 (by decide) (by decide), rfl⟩
  · exact ⟨haccepted hdrCountersignatureV2 (by decide) (by decide), rfl⟩

/-- Countersignatures may stand in the unprotected bucket, if none is protected. -/
theorem unprotectedLabelOk_counter {state : HdrState} (h : state.containsCountersignature = false) {label : Label}
    (hl : CounterLabel label) :
  UnprotectedLabelOk state label
  := by
  simp only [HdrState.containsCountersignature, Bool.or_eq_false_iff, and_assoc] at h
  obtain ⟨h₁, h₂, h₃, h₄⟩ := h
  obtain rfl | rfl | rfl | rfl := hl
  · exact ⟨by decide, h₁⟩
  · exact ⟨by decide, h₂⟩
  · exact ⟨by decide, h₃⟩
  · exact ⟨by decide, h₄⟩

/-- Only the labels matter to the checks of labels. -/
theorem LabelsOk.of_labels {ok : Label → Prop} {labels : List Label} {es es' : List Entry} (h : LabelsOk ok labels es)
    (heq : labelsOf es' = labelsOf es) :
  LabelsOk ok labels es'
  := by
  have hmem {Q : Label → Prop} (hq : ∀ e ∈ es, Q e.label) : ∀ e ∈ es', Q e.label := by
    intro e he
    have hl : e.label ∈ labelsOf es := heq ▸ List.mem_map_of_mem he
    obtain ⟨e₀, he₀, hlabel⟩ := List.mem_map.mp hl
    rw [← hlabel]
    exact hq e₀ he₀
  constructor
  · rw [heq]
    exact h.nodup
  · exact @hmem (fun l => l ∉ labels) h.fresh
  · exact @hmem ok h.ok
  · exact @hmem LabelEnabled h.enabled

omit [Settings] in
/-- In a scan that does not depend on the places the value of an entry may be replaced. -/
theorem Scans.replace {τ : Type} {W : Label → Bytes → τ → τ → Prop} {idx idx' : Nat} {es₁ es₂ : List Entry} {e : Entry}
    {bs : Bytes} {s s' : τ} (hv : ∀ t t', W e.label e.value t t' → W e.label bs t t')
    (h : Scans (fun label _ => W label) idx (es₁ ++ e :: es₂) s s') :
  Scans (fun label _ => W label) idx' (es₁ ++ { e with value := bs } :: es₂) s s'
  := by
  induction es₁ generalizing idx idx' s with
  | nil =>
      cases h with
      | cons he hes => exact .cons (hv _ _ he) (Scans.map (W := W) id (fun _ _ _ _ _ hv => hv) hes _)
  | cons e₁ es₁ ih =>
      cases h with
      | cons he hes => exact .cons he (ih hes)

/-- The entries that are written are a header map, with the same headers, if their values are skipped. -/
theorem UnprotectedMap.planned {state : HdrState} {idx : Nat} {hdr : Hdr} {vars : UnprotectedVars} {head : Token}
    {es es' : List Entry} {spans : CounterSpans} {counter : NewCounter}
    (h : UnprotectedMap 0 false state idx hdr vars head es) (hplaced : state.containsCountersignature = false)
    (hplanned : Planned counter spans es es') (hfresh : counter.Fresh spans → .int counter.label ∉ labelsOf es)
    (hlt : es'.length < 2 ^ 64) (hskip : ∀ e ∈ es', SkippedValue 0 e.value) :
  UnprotectedMap 0 false state idx hdr vars (.ofHead .map es'.length) es'
  := by
  have hhead : MapHead 0 es' (.ofHead .map es'.length) := ⟨accepted_ofHead rfl (by rintro ⟨⟩) hlt, rfl, rfl⟩
  obtain ⟨hmap, hscans, hivs⟩ := h
  cases hplanned with
  | entry hf hcount =>
      constructor
      · constructor
        · exact hhead
        · exact List.forall_mem_append.mpr ⟨hmap.labelled, List.forall_mem_singleton.mpr counter.labelled_entry⟩
        · constructor
          · have hnot := hfresh hf
            rw [labelsOf, List.map_append, List.map_singleton, List.nodup_append]
            refine ⟨hmap.labels.nodup, List.pairwise_singleton _ _, ?_⟩
            rintro l hl _ hl' rfl
            rw [List.mem_singleton.mp hl'] at hl
            exact hnot hl
          · exact fun _ _ => List.not_mem_nil
          · apply List.forall_mem_append.mpr ⟨hmap.labels.ok, List.forall_mem_singleton.mpr _⟩
            exact unprotectedLabelOk_counter hplaced counter.counterLabel
          · apply List.forall_mem_append.mpr ⟨hmap.labels.enabled, List.forall_mem_singleton.mpr _⟩
            rintro _ ⟨⟩
        · rw [List.length_append, List.length_singleton]
          exact hcount
      · have hlast : Scans (UnprotectedValue 0 false) 0 [counter.entry] vars vars := by
          apply Scans.cons _ (.nil _ _)
          apply (unprotectedValue_counter counter.counterLabel).mpr ⟨_, rfl⟩
          exact hskip _ (List.mem_append_right _ List.mem_cons_self)
        have hmoved := hscans.map (W := fun label => UnprotectedValue 0 false label 0) id (fun _ _ _ _ _ hv => hv)
        exact @Scans.append _ (fun label => UnprotectedValue 0 false label 0) _ _ _ _ _ _ _ (hmoved _) hlast
      · exact hivs
  | @extended es₁ es₂ e info hfull hlegacy heq hlabel hinfo hcount =>
      subst heq
      constructor
      · constructor
        · exact hhead
        · have hall := hmap.labelled
          simp only [List.forall_mem_append, List.forall_mem_cons] at hall ⊢
          exact hall
        · apply hmap.labels.of_labels
          simp only [labelsOf, List.map_append, List.map_cons]
        · have hle := hmap.length_le
          simp only [List.length_append, List.length_cons] at hle ⊢
          exact hle
      · have hl : CounterLabel e.label := .inl hlabel
        apply @Scans.replace _ (fun label => UnprotectedValue 0 false label 0) _ _ _ _ _ _ _ _ _ hscans
        intro t t' ht
        obtain ⟨-, rfl⟩ := (unprotectedValue_counter hl).mp ht
        apply (unprotectedValue_counter hl).mpr ⟨_, rfl⟩
        exact hskip { e with value := extendedValue info e.value counter.value }
          (List.mem_append_right _ List.mem_cons_self)
      · exact hivs

/-! ### The message again -/

theorem startsWith_preferredHead {m : MajorType} {n : Nat} (hm : m.isString = false) (hs : m ≠ .simple)
    (hn : n < 2 ^ 64) (r : Bytes) :
  StartsWith m (preferredHead m n ++ r)
  := by
  refine ⟨.ofHead m n, r, accepted_ofHead hm hs hn, rfl, ?_⟩
  rw [Token.bytes_ofHead]

theorem CounterListInfo.newCount_lt {value : Bytes} {info : CounterListInfo} (hlen : value.length ≤ sizeMax)
    (h : counterListInfo value = .ok info) :
  info.newCount < 2 ^ 64
  := by
  obtain ⟨rfl, -⟩ | ⟨items, hitems, rfl⟩ := (counterListInfo_eq_ok hlen).mp h
  · exact Nat.lt_of_sub_eq_succ rfl
  · exact hitems.length_lt hlen

theorem Planned.length_le {counter : NewCounter} {spans : CounterSpans} {es es' : List Entry}
    (h : Planned counter spans es es') :
  es'.length ≤ es.length + 1
  := by
  cases h with
  | entry => rw [List.length_append, List.length_singleton]
  | extended _ _ heq =>
      rw [heq]
      simp only [List.length_append, List.length_cons]
      omega

/-- The entries that are written have the right shape, if their values are skipped. -/
theorem Planned.shapes {counter : NewCounter} {spans : CounterSpans} {es es' : List Entry}
    (h : Planned counter spans es es') (hsized : counter.Sized) (hes : ∀ e ∈ es, CounterShape e.label e.value)
    (hlen : ∀ e ∈ es, e.value.length ≤ sizeMax) (hskip : ∀ e ∈ es', SkippedValue 0 e.value) :
  ∀ e ∈ es', CounterShape e.label e.value
  := by
  cases h with
  | entry hfresh hcount =>
      apply List.forall_mem_append.mpr ⟨hes, List.forall_mem_singleton.mpr _⟩
      refine ⟨hskip _ (List.mem_append_right _ List.mem_cons_self), ?_, ?_⟩
      · unfold NewCounter.entry NewCounter.label NewCounter.value
        split_ifs
        · rintro (⟨⟨⟩⟩ | ⟨⟨⟩⟩)
        · rintro -
          exact startsWith_preferredHead rfl (by rintro ⟨⟩) (by decide) _
      · unfold NewCounter.entry NewCounter.label NewCounter.value
        split_ifs
        · rintro -
          refine ⟨.ofString .bstr counter.sig, [], accepted_ofString rfl hsized.1 (by rintro ⟨⟩), rfl, ?_⟩
          rw [Token.bytes_ofString, List.append_nil]
        · rintro (⟨⟨⟩⟩ | ⟨⟨⟩⟩)
  | @extended es₁ es₂ e info hfull hlegacy heq hlabel hinfo hcount =>
      subst heq
      rw [List.forall_mem_append, List.forall_mem_cons] at hes hlen ⊢
      refine ⟨hes.1, ⟨?_, ?_, ?_⟩, hes.2.2⟩
      · exact hskip { e with value := extendedValue info e.value counter.value }
          (List.mem_append_right _ List.mem_cons_self)
      · rintro -
        exact startsWith_preferredHead rfl (by rintro ⟨⟩) (CounterListInfo.newCount_lt hlen.2.1 hinfo) _
      · dsimp only
        rw [hlabel]
        rintro (⟨⟨⟩⟩ | ⟨⟨⟩⟩)

/-- The children are read at the end of every longer buffer that ends with them. -/
theorem runs_parseCounterChildren_end {tag : Nat} {input output : Buffer} {pre pre' children : Bytes}
    (h : Runs (parseCounterChildren tag) ⟨input, input.bytes.length - children.length⟩ () ⟨input, input.bytes.length⟩)
    (hin : input.bytes = pre ++ children) (hout : output.bytes = pre' ++ children)
    (hle : input.bytes.length ≤ output.bytes.length) :
  Runs (parseCounterChildren tag) ⟨output, output.bytes.length - children.length⟩ () ⟨output, output.bytes.length⟩
  := by
  have hrest {b : Buffer} {pre : Bytes} (hb : b.bytes = pre ++ children) :
      DecCtx.rest ⟨b, b.bytes.length - children.length⟩ = children := by
    unfold DecCtx.rest
    dsimp only
    rw [hb, List.length_append, Nat.add_sub_cancel, List.drop_left]
  obtain ⟨bs, ctx, hc, hc', hruns⟩ := portable_parseCounterChildren tag _ ⟨output, output.bytes.length - children.length⟩
    ⟨(hrest hout).trans (hrest hin).symm, hle⟩ _ _ h
  have hidx := hc.idx_eq
  have hlen := congrArg List.length hin
  have hlen' := congrArg List.length hout
  rw [List.length_append] at hlen hlen'
  obtain ⟨-, rfl⟩ := hc'
  have hend : output.bytes.length - children.length + bs.length = output.bytes.length := by
    dsimp only at hidx
    omega
  rw [DecCtx.advance, hend] at hruns
  exact hruns

/-- The target of a message in which a countersignature has been attached. -/
def CounterTarget.withEntries (target : CounterTarget) (p : CounterParts) (es : List Entry) (spans : CounterSpans) :
    CounterTarget :=
  { target with
    mapContentStart := p.start.length + (Token.ofHead .map es.length).bytes.length
    mapEnd := p.start.length + (mapBytes (.ofHead .map es.length) es).length
    mapCount := es.length
    spans }

namespace CounterMessage

variable {detached : Pointer} {input output : Buffer} {p : CounterParts} {target : CounterTarget} {es : List Entry}
  {counter : NewCounter}

/-- The entries of a message have the right shape. -/
theorem shapes (h : CounterMessage detached input p target) :
  ∀ e ∈ p.entries, CounterShape e.label e.value
  := h.spans.forall_value fun _ _ _ _ _ hv => hv.shape

theorem length_value_le (h : CounterMessage detached input p target) :
  ∀ e ∈ p.entries, e.value.length ≤ sizeMax
  := by
  intro e he
  obtain ⟨es₁, es₂, hes⟩ := List.append_of_mem he
  have hlen := congrArg List.length h.bytes_eq
  have hmax := input.length_le
  rw [hes, entriesBytes_append, entriesBytes_cons, Entry.bytes] at hlen
  simp only [List.length_append] at hlen
  omega

/-- The message that is written is a message with the new entries, and its target differs only in the map. -/
theorem planned (h : CounterMessage detached input p target) (hplanned : Planned counter target.spans p.entries es)
    (hsized : counter.Sized) (hout : output.bytes = (p.withEntries es).bytes)
    (hle : input.bytes.length ≤ output.bytes.length) (hskip : ∀ e ∈ es, SkippedValue 0 e.value) :
  ∃ spans, CounterMessage detached output (p.withEntries es) (target.withEntries p es spans)
  := by
  have hlt : es.length < 2 ^ 64 := Nat.lt_of_le_of_lt hplanned.length_le h.length_entries_lt
  obtain ⟨data, r, vars, hprot, hdata, hr, hplaced, hmap⟩ := h.buckets
  have hmap' := hmap.planned hplaced hplanned (fun hfresh => hfresh.label_not_mem h) hlt hskip
  obtain ⟨spans, hspans⟩ := scans_of_shapes (hplanned.shapes hsized h.shapes h.length_value_le hskip)
    hmap'.map.labels.nodup (fun l _ => CounterSpans.spanAt_none l) (p.start.length + (Token.ofHead .map es.length).bytes.length)
  have hend {b : Buffer} (q : CounterParts) (hb : b.bytes = q.bytes) :
      b.bytes = q.start ++ (mapBytes q.head q.entries ++ (q.payload ++ q.other)) ++ q.children := by
    rw [hb, CounterParts.bytes, CounterParts.tail]
    simp only [List.append_assoc]
  use spans
  constructor
  · exact hout
  · exact h.tag
  · exact h.count
  · exact ⟨data, r, vars, hprot, hdata, hr, hplaced, hmap'⟩
  · exact h.mapStart
  · rfl
  · rfl
  · rfl
  · exact hspans
  · exact h.payload
  · exact h.other
  · apply runs_parseCounterChildren_end h.children (hend p h.input_eq) (hend (p.withEntries es) hout) hle

/-- However deep the values nest, the entries that are written can be told apart. -/
theorem items_planned (h : CounterMessage detached input p target)
    (hplanned : Planned counter target.spans p.entries es) (hsized : counter.Sized) :
  ∀ e ∈ es, e.token.WellFormed ∧ labelOf e.token = some e.label ∧ ∃ d, Items Token.WellFormed d 1 e.value
  := by
  obtain ⟨_, _, _, -, -, -, -, hmap⟩ := h.buckets
  have hwf {d : Nat} {bs : Bytes} (hi : Items (Accepted 0) d 1 bs) : ∃ d, Items Token.WellFormed d 1 bs :=
    ⟨d, hi.imp fun _ ht => ht.wellFormed⟩
  have hold : ∀ e ∈ p.entries, e.token.WellFormed ∧ labelOf e.token = some e.label
      ∧ ∃ d, Items Token.WellFormed d 1 e.value := by
    intro e he
    obtain ⟨htoken, hlabel⟩ := hmap.map.labelled e he
    exact ⟨htoken.wellFormed, hlabel, hwf (h.shapes e he).1⟩
  have hdepth := four_le_maxDepth
  cases hplanned with
  | entry hfresh hcount =>
      apply List.forall_mem_append.mpr ⟨hold, List.forall_mem_singleton.mpr _⟩
      obtain ⟨htoken, hlabel⟩ := counter.labelled_entry
      exact ⟨htoken.wellFormed, hlabel, hwf (counter.items_value hsized (Nat.le_refl 2))⟩
  | @extended es₁ es₂ e info hfull hlegacy heq hlabel hinfo hcount =>
      have hmem : e ∈ p.entries := heq ▸ List.mem_append_right _ List.mem_cons_self
      have hvalue := (h.shapes e hmem).1
      have hitems := @items_extendedValue _ e.value counter.value info maxDepth hinfo (h.length_value_le e hmem)
        (hvalue.mono (by split_ifs <;> omega)) (counter.items_value hsized (by omega))
      rw [heq, List.forall_mem_append, List.forall_mem_cons] at hold
      rw [List.forall_mem_append, List.forall_mem_cons]
      exact ⟨hold.1, ⟨hold.2.1.1, hold.2.1.2.1, hwf hitems⟩, hold.2.2⟩

/-- The entries of a message are determined by its bytes, also where some of them are too deep to be parsed. -/
theorem entries_of_bytes (h : CounterMessage detached input p target)
    (hplanned : Planned counter target.spans p.entries es) (hsized : counter.Sized)
    (hout : output.bytes = (p.withEntries es).bytes) {q : CounterParts} {target' : CounterTarget}
    (hq : CounterMessage detached output q target') :
  q.entries = es
  := by
  obtain ⟨_, _, _, ⟨t, ht, -, hprot⟩, -⟩ := h.buckets
  obtain ⟨_, _, _, ⟨t', ht', -, hprot'⟩, -, -, -, hmap'⟩ := hq.buckets
  have hbytes := hq.bytes_eq.symm.trans (hout.trans (p.bytes_withEntries es))
  simp only [CounterParts.start, List.append_assoc] at hbytes
  obtain ⟨-, hbytes⟩ := Token.bytes_append_cancel hq.tag.1.wellFormed h.tag.1.wellFormed hbytes
  obtain ⟨-, hbytes⟩ := Token.bytes_append_cancel hq.count.1.wellFormed h.count.1.wellFormed hbytes
  rw [hprot, hprot'] at hbytes
  obtain ⟨-, hbytes⟩ := Token.bytes_append_cancel ht'.wellFormed ht.wellFormed hbytes
  obtain ⟨hcount, hbytes⟩ := preferredHead_cancel rfl (Nat.lt_of_succ_lt hq.length_entries_lt)
    (Nat.lt_of_le_of_lt hplanned.length_le h.length_entries_lt) hbytes
  have hitems : ∀ e ∈ q.entries, e.token.WellFormed ∧ labelOf e.token = some e.label
      ∧ ∃ d, Items Token.WellFormed d 1 e.value := by
    intro e he
    obtain ⟨htoken, hlabel⟩ := hmap'.map.labelled e he
    exact ⟨htoken.wellFormed, hlabel, maxDepth, (hq.shapes e he).1.imp fun _ ht => ht.wellFormed⟩
  exact (entriesBytes_cancel hitems (h.items_planned hplanned hsized) hcount hbytes).1

/-- The values that are written are skipped, unless a single countersignature becomes the item of a list that already
nests as deep as is skipped. -/
theorem skipped_planned_iff (h : CounterMessage detached input p target)
    (hplanned : Planned counter target.spans p.entries es) (hsized : counter.Sized) :
  (∀ e ∈ es, SkippedValue 0 e.value)
    ↔ (counter.abbreviated = false → ∀ e ∈ p.entries, e.label = .int hdrCountersignatureV2 →
        counterListInfo e.value = .ok ⟨1, 0, false⟩ → Items (Accepted 0) (maxDepth - 1) 1 e.value)
  := by
  have hold : ∀ e ∈ p.entries, SkippedValue 0 e.value := fun e he => (h.shapes e he).1
  have hdepth := four_le_maxDepth
  cases hplanned with
  | entry hfresh hcount =>
      have hnot := hfresh.label_not_mem h
      constructor
      · rintro - hfull e he hl
        apply absurd _ hnot
        unfold NewCounter.label
        rw [hfull, if_neg Bool.false_ne_true, ← hl]
        exact List.mem_map_of_mem he
      · rintro -
        apply List.forall_mem_append.mpr ⟨hold, List.forall_mem_singleton.mpr _⟩
        exact counter.items_value hsized (by omega)
  | @extended es₁ es₂ e info hfull hlegacy heq hlabel hinfo hcount =>
      have hmem : e ∈ p.entries := heq ▸ List.mem_append_right _ List.mem_cons_self
      have hlen := h.length_value_le e hmem
      constructor
      · intro hskip _ e' he' hlabel' hinfo'
        obtain ⟨es₁', es₂', heq'⟩ := List.append_of_mem he'
        have hnd := h.nodup
        rw [heq'] at hnd heq
        obtain ⟨-, rfl, -⟩ := split_eq_of_label hnd heq (hlabel'.trans hlabel.symm)
        obtain rfl := Except.ok.inj (hinfo.symm.trans hinfo')
        apply items_of_extendedValue hinfo hlen rfl (hold e' hmem)
        exact hskip { e' with value := extendedValue ⟨1, 0, false⟩ e'.value counter.value }
          (List.mem_append_right _ List.mem_cons_self)
      · intro hshallow
        have hvalue : Items (Accepted 0) (if info.isList = true then maxDepth - 1 + 1 else maxDepth - 1) 1 e.value := by
          split_ifs with hlist
          · exact (hold e hmem).mono (by omega)
          · apply hshallow hfull e hmem hlabel
            obtain ⟨rfl, -⟩ | ⟨items, -, rfl⟩ := (counterListInfo_eq_ok hlen).mp hinfo
            · exact hinfo
            · exact absurd rfl hlist
        have hnew := items_extendedValue hinfo hlen hvalue (counter.items_value hsized (by omega))
        rw [Nat.sub_add_cancel (by omega)] at hnew
        rw [heq, List.forall_mem_append, List.forall_mem_cons] at hold
        rw [List.forall_mem_append, List.forall_mem_cons]
        exact ⟨hold.1, hnew, hold.2.2⟩

end CounterMessage

end

end WolfCose
