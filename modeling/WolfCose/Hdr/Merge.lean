import WolfCose.Hdr.DecodeSpec

/-!
# Merging the two header buckets

The protected bucket is decoded first and the unprotected one after it, into the same
header.  No label occurs twice in the two together, so each field of the header comes from
the one entry with its label, and no unprotected value takes the place of a protected one.
-/

namespace WolfCose

open Program Cbor Settings

/-- The entry with a label, if there is one. -/
def entryWith (label : Label) (es : List Entry) : Option Entry :=
  es.find? (fun e => e.label = label)

/-- The entries of a map are determined by their bytes, whatever follows them. -/
theorem entriesBytes_cancel {es es' : List Entry} {r r' : Bytes}
    (h : ∀ e ∈ es, e.token.WellFormed ∧ labelOf e.token = some e.label
      ∧ ∃ d, Items Token.WellFormed d 1 e.value)
    (h' : ∀ e ∈ es', e.token.WellFormed ∧ labelOf e.token = some e.label
      ∧ ∃ d, Items Token.WellFormed d 1 e.value)
    (hlen : es.length = es'.length) (e : entriesBytes es ++ r = entriesBytes es' ++ r') :
  es = es' ∧ r = r'
  := by
  induction es generalizing es' with
  | nil =>
      obtain rfl := List.eq_nil_of_length_eq_zero hlen.symm
      exact ⟨rfl, e⟩
  | cons x es ih =>
      obtain _ | ⟨y, es'⟩ := es'
      · exact absurd hlen (Nat.succ_ne_zero _)
      obtain ⟨⟨hx, hxl, _, hxv⟩, hes⟩ := List.forall_mem_cons.mp h
      obtain ⟨⟨hy, hyl, _, hyv⟩, hes'⟩ := List.forall_mem_cons.mp h'
      simp only [entriesBytes_cons, Entry.bytes, List.append_assoc] at e
      obtain ⟨ht, e⟩ := Token.bytes_append_cancel hx hy e
      obtain ⟨hv, e⟩ := Items.append_cancel (fun _ => id) hxv hyv e
      obtain ⟨rfl, rfl⟩ := ih hes hes' (Nat.succ.inj hlen) e
      have hl : x.label = y.label := by
        rw [ht, hyl] at hxl
        exact (Option.some.inj hxl).symm
      obtain ⟨_, _, _⟩ := x
      obtain ⟨_, _, _⟩ := y
      simp only at ht hl hv
      rw [ht, hl, hv]
      exact ⟨rfl, rfl⟩

section Merge

variable [Settings]

/-! ### The entries of a bucket -/

/-- The byte string is a map of the entries, each of them a label and one data item. -/
def MapEntries (flags : UInt32) (bs : Bytes) (es : List Entry) : Prop :=
  ∃ head, MapHead flags es head ∧ bs = mapBytes head es
    ∧ ∀ e ∈ es, e.Labelled flags ∧ SkippedValue flags e.value

/-- The content of a protected bucket has the entries; the empty byte string stands for the
empty map. -/
def BucketEntries (flags : UInt32) (bs : Bytes) (es : List Entry) : Prop :=
  (bs = [] ∧ es = []) ∨ MapEntries flags bs es

theorem entriesBytes_injective {flags : UInt32} {es es' : List Entry} {r r' : Bytes}
    (h : ∀ e ∈ es, e.Labelled flags ∧ SkippedValue flags e.value)
    (h' : ∀ e ∈ es', e.Labelled flags ∧ SkippedValue flags e.value) (hlen : es.length = es'.length)
    (e : entriesBytes es ++ r = entriesBytes es' ++ r') :
  es = es' ∧ r = r'
  := by
  have anyForm : ∀ e : Entry, e.Labelled flags ∧ SkippedValue flags e.value →
      e.token.WellFormed ∧ labelOf e.token = some e.label ∧ ∃ d, Items Token.WellFormed d 1 e.value :=
    fun e he => ⟨he.1.1.wellFormed, he.1.2, maxDepth, Items.imp he.2 Accepted.wf⟩
  apply entriesBytes_cancel _ _ hlen e
  · exact fun x hx => anyForm x (h x hx)
  · exact fun x hx => anyForm x (h' x hx)

/-- A byte string is a map of entries in one way only. -/
theorem MapEntries.unique {flags : UInt32} {bs : Bytes} {es es' : List Entry}
    (h : MapEntries flags bs es) (h' : MapEntries flags bs es') :
  es = es'
  := by
  obtain ⟨head, hh, rfl, hes⟩ := h
  obtain ⟨head', hh', e, hes'⟩ := h'
  obtain ⟨hhead, hbytes⟩ :=
    Token.bytes_append_cancel hh.accepted.wellFormed hh'.accepted.wellFormed e
  have hlen : es.length = es'.length := by
    rw [← hh.val, ← hh'.val, hhead]
  rw [← List.append_nil (entriesBytes es), ← List.append_nil (entriesBytes es')] at hbytes
  exact (entriesBytes_injective hes hes' hlen hbytes).1

/-! ### Fields -/

/-- A byte string field takes the value of its entry. -/
def BytesField (flags : UInt32) (bs : Bytes) (_old new : Option Bytes) : Prop :=
  ∃ data, BstrValue flags bs data ∧ new = some data

/-- A text value. -/
def TextValue (flags : UInt32) (bs : Bytes) : Prop :=
  TokenValue flags (fun t => t.major = .tstr) bs

/-- The algorithm takes an integer value, and stays with a text value. -/
def AlgField (flags : UInt32) (bs : Bytes) (old new : Int) : Prop :=
  TokenValue flags (fun t => intOf t = some new) bs ∨ (TextValue flags bs ∧ new = old)

/-- The content type takes an unsigned integer value. -/
def ContentTypeInteger (flags : UInt32) (bs : Bytes) (new : Int) : Prop :=
  TokenValue flags (fun t => t.major = .uint ∧ new = t.val) bs

/-- The content type takes an unsigned integer value, and stays with a text value. -/
def ContentTypeField (flags : UInt32) (bs : Bytes) (old new : Int) : Prop :=
  ContentTypeInteger flags bs new ∨ (TextValue flags bs ∧ new = old)

/-- An entry with the label `l` does `R` to a field, any other entry nothing. -/
def FieldStep {β : Type} (l : Label) (R : Bytes → β → β → Prop) (label : Label) (bs : Bytes)
    (x x' : β) : Prop :=
  if label = l then R bs x x' else x' = x

/-- What a map of entries does to a field. -/
def FieldReport {β : Type} (l : Label) (R : Bytes → β → β → Prop) (es : List Entry) (x x' : β) :
    Prop :=
  match entryWith l es with
  | none => x' = x
  | some e => R e.value x x'

omit [Settings] in
/-- A field comes from the one entry with its label, whatever happens to other labels. -/
theorem Scans.fieldReport_of_count {β σ : Type} {l : Label} {R : Bytes → β → β → Prop}
    {V : Label → Nat → Bytes → σ → σ → Prop} {f : σ → β}
    (step : ∀ label i bs s s', V label i bs s s' → FieldStep l R label bs (f s) (f s'))
    {idx : Nat} {es : List Entry} {s s' : σ} (h : Scans V idx es s s') (hcount : (labelsOf es).count l ≤ 1) :
  FieldReport l R es (f s) (f s')
  := by
  induction h with
  | nil idx s => rfl
  | @cons idx e es s s₁ s' hv hs ih =>
      have hstep := step _ _ _ _ _ hv
      unfold FieldStep at hstep
      unfold FieldReport entryWith at ih ⊢
      by_cases hl : e.label = l
      · rw [labelsOf, List.map_cons, hl, List.count_cons_self] at hcount
        have hzero : (labelsOf es).count l = 0 := Nat.le_zero.mp (Nat.le_of_succ_le_succ hcount)
        have hnone : es.find? (fun e => e.label = l) = none := by
          rw [List.find?_eq_none]
          intro x hx hxl
          apply List.count_eq_zero.mp hzero
          rw [← of_decide_eq_true hxl]
          exact List.mem_map_of_mem hx
        have hrest := ih (by rw [hzero]; exact Nat.zero_le 1)
        rw [if_pos hl] at hstep
        rw [hnone] at hrest
        rw [List.find?_cons_of_pos (by simpa using hl)]
        dsimp only at hrest ⊢
        rw [hrest]
        exact hstep
      · rw [labelsOf, List.map_cons, List.count_cons_of_ne hl] at hcount
        rw [if_neg hl] at hstep
        rw [List.find?_cons_of_neg (by simpa using hl), ← hstep]
        exact ih hcount

omit [Settings] in
/-- A field comes from the one entry with its label. -/
theorem Scans.fieldReport {β σ : Type} {l : Label} {R : Bytes → β → β → Prop}
    {V : Label → Nat → Bytes → σ → σ → Prop} {f : σ → β}
    (step : ∀ label i bs s s', V label i bs s s' → FieldStep l R label bs (f s) (f s'))
    {idx : Nat} {es : List Entry} {s s' : σ} (h : Scans V idx es s s') (hnd : (labelsOf es).Nodup) :
  FieldReport l R es (f s) (f s')
  := h.fieldReport_of_count step (List.nodup_iff_count.mp hnd l)

/-- What an entry does to the fields of a header. -/
structure HdrStep [Settings] (flags : UInt32) (label : Label) (bs : Bytes) (hdr hdr' : Hdr) : Prop where
  item : SkippedValue flags bs
  alg : FieldStep (.int hdrAlg) (AlgField flags) label bs hdr.alg hdr'.alg
  kid : FieldStep (.int hdrKid) (BytesField flags) label bs hdr.kid hdr'.kid
  iv : FieldStep (.int hdrIv) (BytesField flags) label bs hdr.iv hdr'.iv
  partialIv : FieldStep (.int hdrPartialIv) (BytesField flags) label bs hdr.partialIv hdr'.partialIv
  contentType : FieldStep (.int hdrContentType) (ContentTypeField flags) label bs
    hdr.contentType hdr'.contentType

theorem TokenValue.skipped {flags : UInt32} {R : Token → Prop} {bs : Bytes}
    (h : TokenValue flags R bs) (hR : ∀ t, R t → t.major ≠ .tag ∧ t.children = 0) :
  SkippedValue flags bs
  := by
  obtain ⟨t, ht, hr, rfl⟩ := h
  have := (skippedValue_token ht (hR t hr).1 (hR t hr).2 (r := [])).mpr rfl
  rwa [List.append_nil] at this

omit [Settings] in
theorem leaf_of_major {t : Token} {m : MajorType} (h : t.major = m)
    (hm : m ≠ .tag ∧ m ≠ .array ∧ m ≠ .map) :
  t.major ≠ .tag ∧ t.children = 0
  := by
  refine ⟨h ▸ hm.1, ?_⟩
  rw [Token.children, h]
  cases m <;> simp_all

omit [Settings] in
theorem leaf_of_intOf {t : Token} {v : Int} (h : intOf t = some v) :
  t.major ≠ .tag ∧ t.children = 0
  := by
  rcases intOf_major h with hm | hm
  · exact leaf_of_major hm (by decide)
  · exact leaf_of_major hm (by decide)

theorem BstrValue.skipped {flags : UInt32} {bs data : Bytes} (h : BstrValue flags bs data) :
  SkippedValue flags bs
  := TokenValue.skipped h fun _ ht => leaf_of_major ht.1 (by decide)

theorem AlgValue.skipped {flags : UInt32} {hdr hdr' : Hdr} {bs : Bytes}
    (h : AlgValue flags hdr bs hdr') :
  SkippedValue flags bs
  := by
  apply TokenValue.skipped h
  rintro t (⟨hm, -⟩ | ⟨v, hv, -, -⟩)
  · exact leaf_of_major hm (by decide)
  · exact leaf_of_intOf hv

theorem ContentTypeValue.skipped {flags : UInt32} {hdr : Hdr} {r : Hdr × Bool} {bs : Bytes}
    (h : ContentTypeValue flags hdr bs r) :
  SkippedValue flags bs
  := by
  apply TokenValue.skipped h
  rintro t (⟨hm, -⟩ | ⟨hm, -, -⟩)
  · exact leaf_of_major hm (by decide)
  · exact leaf_of_major hm (by decide)

theorem CritValue.skipped {flags : UInt32} {crit crit' : UInt32} {bs : Bytes}
    (h : CritValue flags crit bs crit') :
  SkippedValue flags bs
  := by
  obtain ⟨head, ts, hh, hm, hv, hpos, -, hts, rfl, -⟩ := h
  have hc : head.children = ts.length := by
    rw [Token.children, hm]
    exact hv
  obtain ⟨d, hd⟩ : ∃ d, maxDepth = d + 1 := ⟨maxDepth - 1, by have := four_le_maxDepth; omega⟩
  have hitems : Items (Accepted flags) d head.children (ts.flatMap Token.bytes) := by
    rw [hc]
    apply Items.tokens
    intro t ht
    obtain ⟨hacc, v, hv, -⟩ := hts t ht
    exact ⟨hacc, leaf_of_intOf hv⟩
  rw [SkippedValue, hd]
  have := Items.container hh (by omega) hitems (.nil (d + 1))
  rwa [List.append_nil] at this

theorem SkippedValue.of_zero {flags : UInt32} {bs : Bytes} (h : SkippedValue 0 bs) :
  SkippedValue flags bs
  := by
  apply Items.imp h
  rintro t ⟨hwf, hsimple, hpref, hutf8⟩
  exact ⟨hwf, hsimple, fun _ => hpref allowsNonpreferred_zero, hutf8⟩

theorem AlgValue.field {flags : UInt32} {hdr hdr' : Hdr} {bs : Bytes}
    (h : AlgValue flags hdr bs hdr') :
  AlgField flags bs hdr.alg hdr'.alg ∧ hdr' = { hdr with alg := hdr'.alg }
  := by
  obtain ⟨t, ht, ⟨hm, rfl⟩ | ⟨v, hv, -, rfl⟩, rfl⟩ := h
  · exact ⟨.inr ⟨⟨t, ht, hm, rfl⟩, rfl⟩, rfl⟩
  · exact ⟨.inl ⟨t, ht, hv, rfl⟩, rfl⟩

theorem ContentTypeValue.field {flags : UInt32} {hdr : Hdr} {r : Hdr × Bool} {bs : Bytes}
    (h : ContentTypeValue flags hdr bs r) :
  ContentTypeField flags bs hdr.contentType r.1.contentType
    ∧ r.1 = { hdr with contentType := r.1.contentType }
  := by
  obtain ⟨t, ht, ⟨hm, rfl⟩ | ⟨hm, -, rfl⟩, rfl⟩ := h
  · exact ⟨.inr ⟨⟨t, ht, hm, rfl⟩, rfl⟩, rfl⟩
  · exact ⟨.inl ⟨t, ht, ⟨hm, rfl⟩, rfl⟩, rfl⟩

namespace HdrStep

variable {flags : UInt32} {bs data : Bytes} {hdr hdr' : Hdr} {label : Label}

theorem of_kid (h : BstrValue flags bs data) :
  HdrStep flags (.int hdrKid) bs hdr { hdr with kid := some data }
  := by
  constructor <;> try exact rfl
  · exact h.skipped
  · exact ⟨data, h, rfl⟩

theorem of_iv (h : BstrValue flags bs data) :
  HdrStep flags (.int hdrIv) bs hdr { hdr with iv := some data }
  := by
  constructor <;> try exact rfl
  · exact h.skipped
  · exact ⟨data, h, rfl⟩

theorem of_partialIv (h : BstrValue flags bs data) :
  HdrStep flags (.int hdrPartialIv) bs hdr { hdr with partialIv := some data }
  := by
  constructor <;> try exact rfl
  · exact h.skipped
  · exact ⟨data, h, rfl⟩

theorem of_alg (h : AlgValue flags hdr bs hdr') :
  HdrStep flags (.int hdrAlg) bs hdr hdr'
  := by
  obtain ⟨hfield, heq⟩ := h.field
  rw [heq]
  constructor <;> try exact rfl
  · exact h.skipped
  · exact hfield

theorem of_contentType {r : Hdr × Bool} (h : ContentTypeValue flags hdr bs r) :
  HdrStep flags (.int hdrContentType) bs hdr r.1
  := by
  obtain ⟨hfield, heq⟩ := h.field
  rw [heq]
  constructor <;> try exact rfl
  · exact h.skipped
  · exact hfield

/-- An entry with another label leaves the fields of the five labels alone. -/
theorem of_other (item : SkippedValue flags bs) (halg : label ≠ .int hdrAlg)
    (hkid : label ≠ .int hdrKid) (hiv : label ≠ .int hdrIv) (hpiv : label ≠ .int hdrPartialIv)
    (hct : label ≠ .int hdrContentType) (heq : hdr' = { hdr with flags := hdr'.flags }) :
  HdrStep flags label bs hdr hdr'
  := by
  rw [heq]
  exact {
    item
    alg := by rw [FieldStep, if_neg halg]
    kid := by rw [FieldStep, if_neg hkid]
    iv := by rw [FieldStep, if_neg hiv]
    partialIv := by rw [FieldStep, if_neg hpiv]
    contentType := by rw [FieldStep, if_neg hct] }

/-- The flags of a header are none of the five fields. -/
theorem flags_left {f : UInt8} (h : HdrStep flags label bs { hdr with flags := f } hdr') :
  HdrStep flags label bs hdr hdr'
  := ⟨h.item, h.alg, h.kid, h.iv, h.partialIv, h.contentType⟩

end HdrStep

theorem ProtectedValue.hdrStep {flags : UInt32} {label : Label} {idx : Nat} {bs : Bytes}
    {vars vars' : ProtectedVars} (h : ProtectedValue flags label idx bs vars vars') :
  HdrStep flags label bs vars.hdr vars'.hdr
  := by
  unfold ProtectedValue at h
  split at h
  · rename_i hl
    obtain ⟨hdr, hv, rfl⟩ := h
    exact hl ▸ .of_alg hv
  rename_i halg
  split at h
  · rename_i hl
    obtain ⟨crit, hv, rfl⟩ := h
    subst hl
    exact .of_other hv.skipped (by rintro ⟨⟩) (by rintro ⟨⟩) (by rintro ⟨⟩) (by rintro ⟨⟩) (by rintro ⟨⟩) rfl
  split at h
  · rename_i hl
    obtain ⟨r, hv, rfl⟩ := h
    exact hl ▸ .of_contentType hv
  rename_i hct
  split at h
  · rename_i hl
    obtain ⟨d, hv, rfl⟩ := h
    exact hl ▸ .of_kid hv
  rename_i hkid
  split at h
  · rename_i hl
    obtain ⟨d, hv, rfl⟩ := h
    exact hl ▸ .of_iv hv
  rename_i hiv
  split at h
  · rename_i hl
    obtain ⟨d, hv, rfl⟩ := h
    exact hl ▸ .of_partialIv hv
  rename_i hpiv
  split at h
  all_goals
    obtain ⟨hv, rfl⟩ := h
    exact .of_other hv halg hkid hiv hpiv hct rfl

theorem UnprotectedValue.hdrStep {flags : UInt32} {wantEk : Bool} {label : Label} {idx : Nat}
    {bs : Bytes} {vars vars' : UnprotectedVars}
    (h : UnprotectedValue flags wantEk label idx bs vars vars') :
  HdrStep flags label bs vars.hdr vars'.hdr
  := by
  unfold UnprotectedValue at h
  split at h
  · rename_i hl
    obtain ⟨d, hv, rfl⟩ := h
    exact hl ▸ .of_kid hv
  rename_i hkid
  split at h
  · rename_i hl
    obtain ⟨d, hv, rfl⟩ := h
    exact hl ▸ .of_iv hv
  rename_i hiv
  split at h
  · rename_i hl
    obtain ⟨d, hv, rfl⟩ := h
    exact hl ▸ .of_partialIv hv
  rename_i hpiv
  split at h
  · rename_i hl
    obtain ⟨-, rfl⟩ := hl
    split at h
    · obtain ⟨hv, rfl⟩ := h
      exact .of_other hv.of_zero (by rintro ⟨⟩) (by rintro ⟨⟩) (by rintro ⟨⟩) (by rintro ⟨⟩) (by rintro ⟨⟩) rfl
    · obtain ⟨d, hv, rfl⟩ := h
      exact .of_other hv.skipped.of_zero (by rintro ⟨⟩) (by rintro ⟨⟩) (by rintro ⟨⟩) (by rintro ⟨⟩) (by rintro ⟨⟩) rfl
  split at h
  · rename_i hl
    obtain ⟨hdr, hv, rfl⟩ := h
    exact hl ▸ .of_alg hv
  rename_i halg
  split at h
  · rename_i hl
    obtain ⟨r, hv, rfl⟩ := h
    exact hl ▸ .flags_left (.of_contentType hv)
  rename_i hct
  split at h
  all_goals
    obtain ⟨hv, rfl⟩ := h
    exact .of_other hv halg hkid hiv hpiv hct rfl

/-! ### Both buckets -/

section Runs

omit [Settings]

variable {σ τ : Type} {V : Label → Nat → Bytes → σ → σ → Prop}

theorem Scans.map {W : Label → Bytes → τ → τ → Prop} (f : σ → τ)
    (step : ∀ label i bs s s', V label i bs s s' → W label bs (f s) (f s'))
    {idx : Nat} {es : List Entry} {s s' : σ} (h : Scans V idx es s s') (idx' : Nat) :
  Scans (fun label _ => W label) idx' es (f s) (f s')
  := by
  induction h generalizing idx' with
  | nil idx s => exact .nil idx' (f s)
  | cons hv _ ih => exact .cons (step _ _ _ _ _ hv) (ih _)

theorem Scans.append {W : Label → Bytes → τ → τ → Prop} {idx idx' : Nat} {es es' : List Entry}
    {s s₁ s' : τ} (h : Scans (fun label _ => W label) idx es s s₁)
    (h' : Scans (fun label _ => W label) idx' es' s₁ s') :
  Scans (fun label _ => W label) idx (es ++ es') s s'
  := by
  induction h with
  | nil idx s => exact Scans.map (W := W) id (fun _ _ _ _ _ hv => hv) h' idx
  | cons hv _ ih => exact .cons hv (ih h')

theorem Scans.forall {Q : Bytes → Prop} (step : ∀ label i bs s s', V label i bs s s' → Q bs)
    {idx : Nat} {es : List Entry} {s s' : σ} (h : Scans V idx es s s') :
  ∀ e ∈ es, Q e.value
  := by
  induction h with
  | nil => exact List.forall_mem_nil _
  | cons hv _ ih => exact List.forall_mem_cons.mpr ⟨step _ _ _ _ _ hv, ih⟩

end Runs

/-- The header of two buckets: no label occurs twice, every field comes from the one entry
with its label in either bucket, crit is protected, countersignatures are unprotected, and
there is no partial IV beside an IV. -/
structure Merged [Settings] (flags : UInt32) (prot unprot : List Entry) (hdr : Hdr) : Prop where
  nodup : (labelsOf (prot ++ unprot)).Nodup
  alg : FieldReport (.int hdrAlg) (AlgField flags) (prot ++ unprot) 0 hdr.alg
  kid : FieldReport (.int hdrKid) (BytesField flags) (prot ++ unprot) none hdr.kid
  iv : FieldReport (.int hdrIv) (BytesField flags) (prot ++ unprot) none hdr.iv
  partialIv : FieldReport (.int hdrPartialIv) (BytesField flags) (prot ++ unprot) none hdr.partialIv
  contentType : FieldReport (.int hdrContentType) (ContentTypeField flags) (prot ++ unprot) 0
    hdr.contentType
  crit : .int hdrCrit ∉ labelsOf unprot
  countersignatures : ∀ l ∈ labelsOf prot, l ≠ .int hdrCountersignatureV2
    ∧ l ≠ .int hdrCountersignature0V2 ∧ l ≠ .int hdrCountersignatureLegacy
    ∧ l ≠ .int hdrCountersignature0Legacy
  ivs : ¬ (.int hdrIv ∈ labelsOf (prot ++ unprot) ∧ .int hdrPartialIv ∈ labelsOf (prot ++ unprot))

/-- A byte string field whose label is present is set. -/
theorem FieldReport.isSome {flags : UInt32} {l : Label} {es : List Entry} {x x' : Option Bytes}
    (h : FieldReport l (BytesField flags) es x x') (hl : l ∈ labelsOf es) :
  x'.isSome = true
  := by
  obtain ⟨e, he, rfl⟩ := List.mem_map.mp hl
  unfold FieldReport entryWith at h
  cases hfind : es.find? (fun x => x.label = e.label) with
  | none =>
      rw [List.find?_eq_none] at hfind
      exact absurd (hfind e he) (by simp)
  | some e' =>
      rw [hfind] at h
      obtain ⟨d, -, rfl⟩ := h
      rfl

/-- The protected bucket as entries, and what they did to the header. -/
theorem protected_entries {flags : UInt32} {data : Buffer} {hdr : Hdr} {r : Hdr × HdrState}
    (h : decodeProtectedHdrEx (.mem data.bytes) hdr flags = .ok r) :
  ∃ prot, BucketEntries flags data.bytes prot ∧ (labelsOf prot).Nodup
    ∧ r.2.Represents (labelsOf prot)
    ∧ Scans (fun label _ => HdrStep flags label) 0 prot hdr r.1
    ∧ ∀ l ∈ labelsOf prot, l ≠ .int hdrCountersignatureV2 ∧ l ≠ .int hdrCountersignature0V2
      ∧ l ≠ .int hdrCountersignatureLegacy ∧ l ≠ .int hdrCountersignature0Legacy
  := by
  obtain ⟨-, ⟨hnil, rfl⟩ | ⟨head, es, hd, hmap, hst⟩⟩ := (decodeProtectedHdrEx_eq_ok data.length_le).mp h
  · exact ⟨[], .inl ⟨hnil, rfl⟩, List.nodup_nil, HdrState.represents_init, .nil _ _, List.forall_mem_nil _⟩
  · have hlen : (entriesBytes es).length ≤ sizeMax := by
      have := data.length_le
      rw [hd, List.length_append] at this
      omega
    obtain ⟨crit, understood, hs, -, -⟩ := hmap.scans
    refine ⟨es, .inr ⟨head, hmap.map.head, hd, ?_⟩, hmap.map.labels.nodup, ?_, ?_, hmap.placed⟩
    · exact fun e he => ⟨hmap.map.labelled e he,
        hs.forall (fun _ _ _ _ _ hv => hv.hdrStep.item) e he⟩
    · rw [hst]
      exact hmap.represents hlen
    · exact hs.map ProtectedVars.hdr (fun _ _ _ _ _ hv => hv.hdrStep) 0

/-- The unprotected bucket as entries, and what they did to the header. -/
theorem UnprotectedMap.entries {flags : UInt32} {wantEk : Bool} {hdrState : HdrState} {idx : Nat}
    {hdr : Hdr} {vars' : UnprotectedVars} {head : Token} {es : List Entry}
    (h : UnprotectedMap flags wantEk hdrState idx hdr vars' head es) :
  MapEntries flags (mapBytes head es) es ∧ (labelsOf es).Nodup
    ∧ (∀ l ∈ labelsOf es, UnprotectedLabelOk hdrState l)
    ∧ Scans (fun label _ => HdrStep flags label) 0 es hdr vars'.hdr
  := by
  refine ⟨⟨head, h.map.head, rfl, ?_⟩, h.map.labels.nodup, ?_, ?_⟩
  · intro e he
    exact ⟨h.map.labelled e he, h.scans.forall (fun _ _ _ _ _ hv => hv.hdrStep.item) e he⟩
  · intro l hl
    obtain ⟨e, he, rfl⟩ := List.mem_map.mp hl
    exact h.map.labels.ok e he
  · exact h.scans.map UnprotectedVars.hdr (fun _ _ _ _ _ hv => hv.hdrStep) 0

/-- A protected bucket and an unprotected one that are accepted are merged; the state after
the protected bucket represents its labels. -/
theorem UnprotectedMap.merged {flags : UInt32} {wantEk : Bool} {data : Buffer} {r₁ : Hdr × HdrState}
    {idx : Nat} {vars' : UnprotectedVars} {head : Token} {es : List Entry}
    (hprot : decodeProtectedHdrEx (.mem data.bytes) .zero flags = .ok r₁)
    (hunprot : UnprotectedMap flags wantEk r₁.2 idx r₁.1 vars' head es) :
  ∃ prot, BucketEntries flags data.bytes prot ∧ r₁.2.Represents (labelsOf prot)
    ∧ MapEntries flags (mapBytes head es) es ∧ Merged flags prot es vars'.hdr
  := by
  obtain ⟨prot, hp, hpn, hrep, hps, hplace⟩ := protected_entries hprot
  obtain ⟨hu, hun, huok, hus⟩ := hunprot.entries
  have hs := hps.append hus
  have hnd : (labelsOf (prot ++ es)).Nodup := by
    rw [labelsOf, List.map_append]
    refine List.nodup_append.mpr ⟨hpn, hun, ?_⟩
    rintro l hl _ hl' rfl
    have hcontains := (hrep.containsLabel_iff l).mpr hl
    rw [(huok l hl').2] at hcontains
    exact Bool.false_ne_true hcontains
  refine ⟨prot, hp, hrep, hu, ?_⟩
  have hiv := hs.fieldReport (f := Hdr.iv) (fun _ _ _ _ _ h => h.iv) hnd
  have hpiv := hs.fieldReport (f := Hdr.partialIv) (fun _ _ _ _ _ h => h.partialIv) hnd
  exact {
    nodup := hnd
    alg := hs.fieldReport (f := Hdr.alg) (fun _ _ _ _ _ h => h.alg) hnd
    kid := hs.fieldReport (f := Hdr.kid) (fun _ _ _ _ _ h => h.kid) hnd
    iv := hiv
    partialIv := hpiv
    contentType := hs.fieldReport (f := Hdr.contentType) (fun _ _ _ _ _ h => h.contentType) hnd
    crit := fun hm => (huok _ hm).1 rfl
    countersignatures := hplace
    ivs := fun h => hunprot.ivs ⟨hiv.isSome h.1, hpiv.isSome h.2⟩ }

/-- When both decoders accept, the two buckets are merged as a disjoint union. -/
theorem headers_merged {flags : UInt32} {data : Buffer} {ctx ctx' : DecCtx} {r₁ r : Hdr × HdrState}
    (hprot : decodeProtectedHdrEx (.mem data.bytes) .zero flags = .ok r₁)
    (hunprot : Runs (decodeUnprotectedHdrEx r₁.1 r₁.2 flags) ctx r ctx') :
  ∃ prot bs unprot, BucketEntries flags data.bytes prot ∧ ctx.Consumes bs ctx'
    ∧ MapEntries flags bs unprot ∧ Merged flags prot unprot r.1
  := by
  obtain ⟨-, head, unprot, ek, hmap, hc, -⟩ := runs_decodeUnprotectedHdrEx.mp hunprot
  obtain ⟨prot, hp, -, hu, hm⟩ := hmap.merged hprot
  exact ⟨prot, mapBytes head unprot, unprot, hp, hc, hu, hm⟩

end Merge

section Instances

attribute [local instance] defaultSettings

/-- The buckets `{1: -7, 4: h'6b'}` and `{5: h'07'}` are merged. -/
theorem headers_merged_instance :
  ∃ prot bs unprot, BucketEntries 0 [0xA2, 0x01, 0x26, 0x04, 0x41, 0x6B] prot
    ∧ (DecCtx.init ⟨[0xA1, 0x05, 0x41, 0x07], by decide⟩).Consumes bs
      ⟨⟨[0xA1, 0x05, 0x41, 0x07], by decide⟩, 4⟩
    ∧ MapEntries 0 bs unprot
    ∧ Merged 0 prot unprot ⟨-7, some [0x6B], some [0x07], none, 0, 0⟩
  := by
  refine @headers_merged _ 0 ⟨[0xA2, 0x01, 0x26, 0x04, 0x41, 0x6B], by decide⟩ _ _
    ⟨⟨-7, some [0x6B], none, none, 0, 0⟩, ⟨9, [], []⟩⟩ ⟨_, ⟨25, [], []⟩⟩ ?_ ?_
  · rfl
  · rfl

/-- A text content type `{3: "a"}` in the protected bucket is accepted, but the header does
not report it. -/
theorem headers_merged_text_contentType :
  ¬ ∀ (flags : UInt32) (data : Buffer) (ctx ctx' : DecCtx) (r₁ r : Hdr × HdrState),
    decodeProtectedHdrEx (.mem data.bytes) .zero flags = .ok r₁ →
    Runs (decodeUnprotectedHdrEx r₁.1 r₁.2 flags) ctx r ctx' →
    ∀ prot bs unprot, BucketEntries flags data.bytes prot → ctx.Consumes bs ctx' →
    MapEntries flags bs unprot →
    FieldReport (.int hdrContentType) (fun v _ new => ContentTypeInteger flags v new)
      (prot ++ unprot) 0 r.1.contentType
  := by
  intro h
  let entry : Entry := ⟨⟨.imm, .uint, 3, []⟩, .int hdrContentType, [0x61, 0x61]⟩
  have htoken : Accepted 0 ⟨.imm, .uint, 3, []⟩ :=
    ⟨⟨by decide, by decide⟩, (by rintro ⟨⟩), fun _ _ => by decide, (by rintro ⟨⟩)⟩
  have htext : Accepted 0 ⟨.imm, .tstr, 1, [0x61]⟩ :=
    ⟨⟨by decide, by decide⟩, (by rintro ⟨⟩), fun _ _ => by decide, fun _ => by decide⟩
  have hmap (n : Nat) (hn : n ≤ 23) : Accepted 0 ⟨.imm, .map, n, []⟩ :=
    ⟨⟨by simpa [Width.bound] using Nat.lt_succ_of_le hn, rfl⟩, (by rintro ⟨⟩),
      fun _ _ => by simp [Width.preferred, hn], (by rintro ⟨⟩)⟩
  have hvalue : SkippedValue 0 entry.value :=
    (skippedValue_token htext (by rintro ⟨⟩) (by decide) (r := [])).mpr rfl
  have hprot : BucketEntries 0 [0xA1, 0x03, 0x61, 0x61] [entry] := by
    refine .inr ⟨⟨.imm, .map, 1, []⟩, ⟨hmap 1 (by decide), rfl, rfl⟩, rfl, ?_⟩
    exact List.forall_mem_singleton.mpr ⟨⟨htoken, rfl⟩, hvalue⟩
  have hunprot : MapEntries 0 [0xA0] [] :=
    ⟨⟨.imm, .map, 0, []⟩, ⟨hmap 0 (by decide), rfl, rfl⟩, rfl, List.forall_mem_nil _⟩
  obtain ⟨t, ht, ⟨hm, -⟩, hb⟩ := h 0 ⟨[0xA1, 0x03, 0x61, 0x61], by decide⟩ (.init ⟨[0xA0], by decide⟩)
    ⟨⟨[0xA0], by decide⟩, 1⟩ ⟨.zero, ⟨4, [], []⟩⟩ ⟨.zero, ⟨4, [], []⟩⟩ rfl rfl [entry] [0xA0] [] hprot
    ⟨List.prefix_refl _, rfl⟩ hunprot
  -- the value starts with the head of a text string, not of an unsigned integer
  have hb' : Token.bytes ⟨.imm, .tstr, 1, [0x61]⟩ ++ [] = t.bytes ++ [] := by
    rw [List.append_nil, List.append_nil]
    exact hb
  obtain ⟨rfl, -⟩ := Token.bytes_append_cancel htext.wellFormed ht.wellFormed hb'
  exact absurd hm (by decide)

end Instances

end WolfCose
