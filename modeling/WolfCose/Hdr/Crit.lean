import WolfCose.Hdr.Merge

/-!
# Critical headers

The crit parameter of a protected bucket lists the labels that a receiver has to understand.  This
file says what it takes to honour it, in terms of the entries of the bucket alone, and when
`wolfCose_DecodeProtectedHdr_ex` does.  It checks that every listed label is present, and of a
listed content type that it was not a text string; a listed algorithm that is a text string is
skipped like one that is not listed.
-/

namespace WolfCose

open Program Cbor Settings

/-! ### Maps of entries in any form -/

/-- The byte string is a map of the entries, each of them a label and one data item, with heads in
any form and values nested at any depth. -/
def IsMap (bs : Bytes) (es : List Entry) : Prop :=
  ∃ head : Token, head.WellFormed ∧ head.major = .map ∧ head.val = es.length ∧ bs = mapBytes head es
    ∧ ∀ e ∈ es, e.token.WellFormed ∧ labelOf e.token = some e.label
      ∧ ∃ d, Items Token.WellFormed d 1 e.value

/-- The content of a protected bucket in any form; the empty byte string stands for the empty
map. -/
def IsBucket (bs : Bytes) (es : List Entry) : Prop :=
  (bs = [] ∧ es = []) ∨ IsMap bs es

/-- The entry with a label is unique when no label occurs twice. -/
theorem eq_of_label {es : List Entry} (hnd : (labelsOf es).Nodup) {a b : Entry} (ha : a ∈ es)
    (hb : b ∈ es) (h : a.label = b.label) :
  a = b
  := by
  induction es with
  | nil => cases ha
  | cons e es ih =>
      obtain ⟨hnew, hnd⟩ := List.nodup_cons.mp hnd
      rcases List.mem_cons.mp ha with rfl | ha' <;> rcases List.mem_cons.mp hb with rfl | hb'
      · rfl
      · exact absurd (h ▸ List.mem_map_of_mem hb') hnew
      · exact absurd (h ▸ List.mem_map_of_mem ha') hnew
      · exact ih hnd ha' hb'

/-- A byte string starts with a map of entries in one way only. -/
theorem IsMap.cancel {bs bs' r r' : Bytes} {es es' : List Entry} (h : IsMap bs es)
    (h' : IsMap bs' es') (e : bs ++ r = bs' ++ r') :
  es = es'
  := by
  obtain ⟨head, hwf, -, hval, rfl, hes⟩ := h
  obtain ⟨head', hwf', -, hval', rfl, hes'⟩ := h'
  rw [mapBytes, mapBytes, List.append_assoc, List.append_assoc] at e
  obtain ⟨rfl, e'⟩ := Token.bytes_append_cancel hwf hwf' e
  exact (entriesBytes_cancel hes hes' (hval.symm.trans hval') e').1

theorem IsMap.ne_nil {es : List Entry} (h : IsMap [] es) :
  False
  := by
  obtain ⟨head, -, -, -, e, -⟩ := h
  exact head.bytes_ne_nil (List.append_eq_nil_iff.mp e.symm).1

theorem IsBucket.unique {bs : Bytes} {es es' : List Entry} (h : IsBucket bs es)
    (h' : IsBucket bs es') :
  es = es'
  := by
  rcases h with ⟨rfl, rfl⟩ | h <;> rcases h' with ⟨hb, rfl⟩ | h'
  · rfl
  · exact h'.ne_nil.elim
  · rw [hb] at h
    exact h.ne_nil.elim
  · have e : bs ++ [] = bs ++ [] := rfl
    exact h.cancel h' e

/-! ### Values -/

/-- The byte string is one token with a property. -/
def IsToken (R : Token → Prop) (bs : Bytes) : Prop :=
  ∃ t : Token, t.WellFormed ∧ R t ∧ bs = t.bytes

/-- A text string. -/
def IsText (bs : Bytes) : Prop := IsToken (fun t => t.major = .tstr) bs

/-- An integer of the range of `int64_t`. -/
def IsInt (bs : Bytes) (v : Int) : Prop := IsToken (fun t => intOf t = some v) bs

/-- An unsigned integer. -/
def IsUint (bs : Bytes) (v : Int) : Prop := IsToken (fun t => t.major = .uint ∧ v = t.val) bs

/-- A byte string with the content `data`. -/
def IsBstr (bs data : Bytes) : Prop := IsToken (fun t => t.major = .bstr ∧ t.data = data) bs

/-- An array of the integers `ls`. -/
def IsIntArray (bs : Bytes) (ls : List Int) : Prop :=
  ∃ (head : Token) (ts : List Token), head.WellFormed ∧ head.major = .array ∧ head.val = ts.length
    ∧ (∀ t ∈ ts, t.WellFormed) ∧ ts.map intOf = ls.map some ∧ bs = head.bytes ++ ts.flatMap Token.bytes

/-- A byte string is one token in one way only. -/
theorem IsToken.elim {R S : Token → Prop} {bs : Bytes} (h : IsToken R bs) (h' : IsToken S bs) :
  ∃ t, R t ∧ S t
  := by
  obtain ⟨t, ht, hR, rfl⟩ := h
  obtain ⟨t', ht', hS, e⟩ := h'
  have e' : t.bytes ++ [] = t'.bytes ++ [] := by rw [e]
  obtain ⟨rfl, -⟩ := Token.bytes_append_cancel ht ht' e'
  exact ⟨t, hR, hS⟩

theorem IsText.not_int {bs : Bytes} {v : Int} (h : IsText bs) :
  ¬ IsInt bs v
  := by
  intro h'
  obtain ⟨t, hm, hv⟩ := IsToken.elim h h'
  rcases intOf_major hv with hm' | hm'
  · rw [hm] at hm'
    cases hm'
  · rw [hm] at hm'
    cases hm'

/-- A byte string is an array of integers in one way only. -/
theorem IsIntArray.unique {bs : Bytes} {ls ls' : List Int} (h : IsIntArray bs ls)
    (h' : IsIntArray bs ls') :
  ls = ls'
  := by
  obtain ⟨head, ts, hh, -, -, hts, hls, rfl⟩ := h
  obtain ⟨head', ts', hh', -, -, hts', hls', e⟩ := h'
  obtain ⟨-, e⟩ := Token.bytes_append_cancel hh hh' e
  rw [Token.flatMap_bytes_injective hts hts' e, hls'] at hls
  exact ((List.map_inj_right fun _ _ => Option.some.inj).mp hls).symm

/-! ### Honouring crit -/

/-- The value of an entry with the label `label` is of the form that the decoder understands, and
the header has it in the field of the label. -/
inductive RecordedIn (hdr : Hdr) : Int → Bytes → Prop where
  | alg {bs : Bytes} : IsInt bs hdr.alg → RecordedIn hdr hdrAlg bs
  | contentType {bs : Bytes} : IsUint bs hdr.contentType → RecordedIn hdr hdrContentType bs
  | kid {bs data : Bytes} : IsBstr bs data → hdr.kid = some data → RecordedIn hdr hdrKid bs
  | iv {bs data : Bytes} : IsBstr bs data → hdr.iv = some data → RecordedIn hdr hdrIv bs
  | partialIv {bs data : Bytes} : IsBstr bs data → hdr.partialIv = some data →
      RecordedIn hdr hdrPartialIv bs

/-- The crit parameter among the entries is honoured: it is a non-empty array of labels, and each of
them is among the entries with a value that is understood and recorded in the header. -/
def CritHonoured (es : List Entry) (hdr : Hdr) : Prop :=
  ∀ crit ∈ es, crit.label = .int hdrCrit →
    ∃ ls, IsIntArray crit.value ls ∧ ls ≠ []
      ∧ ∀ l ∈ ls, ∃ e ∈ es, e.label = .int l ∧ RecordedIn hdr l e.value

/-- The crit parameter among the entries lists neither itself nor an algorithm that is a text
string. -/
def CritRecordable (es : List Entry) : Prop :=
  ∀ crit ∈ es, crit.label = .int hdrCrit → ∀ ls, IsIntArray crit.value ls →
    hdrCrit ∉ ls ∧ (hdrAlg ∈ ls → ∀ e ∈ es, e.label = .int hdrAlg → ¬ IsText e.value)

/-- What is not recorded in a header is not honoured. -/
theorem CritHonoured.recordable {es : List Entry} {hdr : Hdr} (hnd : (labelsOf es).Nodup)
    (h : CritHonoured es hdr) :
  CritRecordable es
  := by
  intro crit hcrit hl ls hls
  obtain ⟨ls', hls', -, hall⟩ := h crit hcrit hl
  obtain rfl := hls.unique hls'
  constructor
  · intro hm
    obtain ⟨e, -, -, hrec⟩ := hall _ hm
    generalize hk : hdrCrit = k at hrec
    cases hrec <;> exact absurd hk (by decide)
  · intro hm a ha hal htext
    obtain ⟨e, he, hel, hrec⟩ := hall _ hm
    have hae : a = e := eq_of_label hnd ha he (hal.trans hel.symm)
    subst hae
    generalize hk : hdrAlg = k at hrec
    cases hrec with
    | alg hint => exact htext.not_int hint
    | contentType => exact absurd hk (by decide)
    | kid => exact absurd hk (by decide)
    | iv => exact absurd hk (by decide)
    | partialIv => exact absurd hk (by decide)

section Decode

variable [Settings]

theorem MapEntries.isMap {flags : UInt32} {bs : Bytes} {es : List Entry} (h : MapEntries flags bs es) :
  IsMap bs es
  := by
  obtain ⟨head, hh, rfl, hes⟩ := h
  refine ⟨head, hh.accepted.wellFormed, hh.major, hh.val, rfl, ?_⟩
  intro e he
  obtain ⟨hl, hv⟩ := hes e he
  exact ⟨hl.1.wellFormed, hl.2, maxDepth, Items.imp hv Accepted.wf⟩

theorem TokenValue.isToken {flags : UInt32} {R : Token → Prop} {bs : Bytes}
    (h : TokenValue flags R bs) :
  IsToken R bs
  := by
  obtain ⟨t, ht, hR, rfl⟩ := h
  exact ⟨t, ht.wellFormed, hR, rfl⟩

omit [Settings] in
theorem critBits_and_ne_zero {crit b : UInt32} {ts : List Token} :
  critBits crit ts &&& b ≠ 0 ↔ crit &&& b ≠ 0 ∨ ∃ t ∈ ts, critBit t &&& b ≠ 0
  := by
  induction ts generalizing crit with
  | nil => simp [critBits]
  | cons t ts ih =>
      have hcons : critBits crit (t :: ts) = critBits (crit ||| critBit t) ts := rfl
      rw [hcons, ih, uint32_or_and_ne_zero, or_assoc]
      simp only [List.mem_cons, exists_eq_or_imp]

/-- What is read of a crit parameter are the bits of the labels it lists. -/
theorem CritValue.isIntArray {flags : UInt32} {crit : UInt32} {bs : Bytes}
    (h : CritValue flags 0 bs crit) :
  ∃ ls, IsIntArray bs ls ∧ ls ≠ [] ∧ ∀ l ∈ ls, 1 ≤ l ∧ l ≤ 6 ∧ crit &&& labelBit l ≠ 0
  := by
  obtain ⟨head, ts, hh, hm, hv, hpos, -, hts, rfl, rfl⟩ := h
  have hint : ∀ t ∈ ts, intOf t = some ((intOf t).getD 0) := by
    intro t ht
    obtain ⟨-, v, hv, -⟩ := hts t ht
    rw [hv, Option.getD_some]
  refine ⟨ts.map fun t => (intOf t).getD 0, ⟨head, ts, hh.wellFormed, hm, hv, ?_, ?_, rfl⟩, ?_, ?_⟩
  · exact fun t ht => (hts t ht).1.wellFormed
  · rw [List.map_map]
    exact List.map_congr_left hint
  · intro hnil
    rw [List.map_eq_nil_iff.mp hnil] at hpos
    exact absurd hpos (Nat.lt_irrefl 0)
  · intro l hl
    obtain ⟨t, ht, rfl⟩ := List.mem_map.mp hl
    obtain ⟨-, v, hv, h₁, h₆⟩ := hts t ht
    rw [hv, Option.getD_some]
    refine ⟨h₁, h₆, critBits_and_ne_zero.mpr (.inr ⟨t, ht, ?_⟩)⟩
    rw [critBit, hv, Option.getD_some, labelBit_and_labelBit]
    exact ⟨labelBit_ne_zero h₁ h₆, rfl⟩

/-! ### What the loop does with crit -/

/-- What a value of the content type does to the field and to `contentTypeUnderstood`. -/
def ContentTypeUnderstood (flags : UInt32) (bs : Bytes) (old new : Int × Bool) : Prop :=
  (ContentTypeInteger flags bs new.1 ∧ new.2 = true) ∨ (TextValue flags bs ∧ new = old)

theorem ProtectedValue.critStep {flags : UInt32} {label : Label} {idx : Nat} {bs : Bytes}
    {vars vars' : ProtectedVars} (h : ProtectedValue flags label idx bs vars vars') :
  FieldStep (.int hdrCrit) (fun bs c c' => CritValue flags c bs c') label bs vars.critLabels
    vars'.critLabels
  := by
  unfold FieldStep
  unfold ProtectedValue at h
  split
  · rename_i hl
    subst hl
    rw [if_neg (by decide), if_pos rfl] at h
    obtain ⟨crit, hv, rfl⟩ := h
    exact hv
  · rename_i hcrit
    rw [if_neg hcrit] at h
    repeat' split at h
    all_goals first
      | (obtain ⟨-, rfl⟩ := h; rfl)
      | (obtain ⟨_, -, rfl⟩ := h; rfl)

theorem ProtectedValue.contentTypeStep {flags : UInt32} {label : Label} {idx : Nat} {bs : Bytes}
    {vars vars' : ProtectedVars} (h : ProtectedValue flags label idx bs vars vars') :
  FieldStep (.int hdrContentType) (ContentTypeUnderstood flags) label bs
    (vars.hdr.contentType, vars.contentTypeUnderstood)
    (vars'.hdr.contentType, vars'.contentTypeUnderstood)
  := by
  have hstep := h.hdrStep.contentType
  unfold FieldStep at hstep ⊢
  unfold ProtectedValue at h
  split
  · rename_i hl
    subst hl
    rw [if_neg (by decide), if_neg (by decide), if_pos rfl] at h
    obtain ⟨r, ⟨t, ht, ⟨hm, rfl⟩ | ⟨hm, -, rfl⟩, rfl⟩, rfl⟩ := h
    · exact .inr ⟨⟨t, ht, hm, rfl⟩, by simp⟩
    · exact .inl ⟨⟨t, ht, ⟨hm, rfl⟩, rfl⟩, by simp⟩
  · rename_i hct
    rw [if_neg hct] at hstep
    rw [hstep, Prod.mk.injEq]
    refine ⟨rfl, ?_⟩
    rw [if_neg hct] at h
    repeat' split at h
    all_goals first
      | (obtain ⟨-, rfl⟩ := h; rfl)
      | (obtain ⟨_, -, rfl⟩ := h; rfl)

omit [Settings] in
/-- A field comes from an entry with its label. -/
theorem FieldReport.value {β : Type} {l : Label} {R : Bytes → β → β → Prop} {es : List Entry}
    {x x' : β} (h : FieldReport l R es x x') (hnd : (labelsOf es).Nodup) {e : Entry} (he : e ∈ es)
    (hl : e.label = l) :
  R e.value x x'
  := by
  unfold FieldReport entryWith at h
  cases hfind : es.find? (fun x => x.label = l) with
  | none =>
      rw [List.find?_eq_none] at hfind
      exact absurd (hfind e he) (by simp [hl])
  | some e' =>
      have hl' := List.find?_some hfind
      have he' : e' = e := eq_of_label hnd (List.mem_of_find?_eq_some hfind) he
        (by rw [of_decide_eq_true hl', hl])
      rw [hfind, he'] at h
      exact h

/-- A protected bucket with a recordable crit parameter is accepted only if crit is honoured. -/
theorem ProtectedMap.critHonoured {flags : UInt32} {hdr hdr' : Hdr} {head : Token} {es : List Entry}
    (h : ProtectedMap flags hdr hdr' head es) (hrec : CritRecordable es) :
  CritHonoured es hdr'
  := by
  intro crit hcrit hl
  have hnd := h.map.labels.nodup
  obtain ⟨bits, understood, hs, hsub, hct⟩ := h.scans
  have hbits := hs.fieldReport (f := ProtectedVars.critLabels) (fun _ _ _ _ _ => ProtectedValue.critStep) hnd
  obtain ⟨ls, hls, hne, hall⟩ := (hbits.value hnd hcrit hl).isIntArray
  obtain ⟨hself, hrecAlg⟩ := hrec crit hcrit hl ls hls
  refine ⟨ls, hls, hne, ?_⟩
  intro l hlm
  obtain ⟨h₁, h₆, hbit⟩ := hall l hlm
  -- the label is present, as its bit is among those of the bucket
  obtain ⟨-, hmem⟩ := (labelsBits_and_labelBit _ _).mp (uint32_and_ne_zero_of_subset hsub hbit)
  obtain ⟨e, he, hel⟩ := List.mem_map.mp hmem
  refine ⟨e, he, hel, ?_⟩
  have hstep := hs.map ProtectedVars.hdr (fun _ _ _ _ _ hv => hv.hdrStep) 0
  obtain rfl | rfl | rfl | rfl | rfl | rfl :
      l = hdrAlg ∨ l = hdrCrit ∨ l = hdrContentType ∨ l = hdrKid ∨ l = hdrIv ∨ l = hdrPartialIv := by
    unfold hdrAlg hdrCrit hdrContentType hdrKid hdrIv hdrPartialIv
    omega
  · have hfield := hstep.fieldReport (f := Hdr.alg) (fun _ _ _ _ _ hv => hv.alg) hnd
    rcases hfield.value hnd he hel with hv | ⟨htext, -⟩
    · exact .alg hv.isToken
    · exact absurd htext.isToken (hrecAlg hlm e he hel)
  · exact absurd hlm hself
  · have hfield := hs.fieldReport
      (f := fun vars => (vars.hdr.contentType, vars.contentTypeUnderstood))
      (fun _ _ _ _ _ => ProtectedValue.contentTypeStep) hnd
    rcases hfield.value hnd he hel with ⟨hv, -⟩ | ⟨-, hold⟩
    · exact .contentType hv.isToken
    · -- a text string leaves the content type not understood, which is checked after the loop
      have hfalse : understood = false := congrArg Prod.snd hold
      rw [hct hbit] at hfalse
      cases hfalse
  · have hfield := hstep.fieldReport (f := Hdr.kid) (fun _ _ _ _ _ hv => hv.kid) hnd
    obtain ⟨data, hv, hd⟩ := hfield.value hnd he hel
    exact .kid hv.isToken hd
  · have hfield := hstep.fieldReport (f := Hdr.iv) (fun _ _ _ _ _ hv => hv.iv) hnd
    obtain ⟨data, hv, hd⟩ := hfield.value hnd he hel
    exact .iv hv.isToken hd
  · have hfield := hstep.fieldReport (f := Hdr.partialIv) (fun _ _ _ _ _ hv => hv.partialIv) hnd
    obtain ⟨data, hv, hd⟩ := hfield.value hnd he hel
    exact .partialIv hv.isToken hd

/-- An accepted protected bucket honours crit exactly if it lists neither itself nor an algorithm
that is a text string, and an unprotected map with crit is not accepted. -/
theorem crit_honoured_iff :
  (∀ (flags : UInt32) (data : Buffer) (hdr : Hdr) (r : Hdr × HdrState),
      decodeProtectedHdrEx (.mem data.bytes) hdr flags = .ok r →
      ∃ es, IsBucket data.bytes es ∧ (CritHonoured es r.1 ↔ CritRecordable es))
    ∧ ∀ (flags : UInt32) (wantEk : Bool) (hdr : Hdr) (state : HdrState) (ctx : DecCtx) (bs : Bytes)
        (es : List Entry), IsMap bs es → bs <+: ctx.rest → .int hdrCrit ∈ labelsOf es →
        ¬ Succeeds (decodeUnprotectedHdrInternal flags wantEk hdr state) ctx
  := by
  constructor
  · intro flags data hdr r h
    obtain ⟨-, ⟨hnil, rfl⟩ | ⟨head, es, hd, hmap, -⟩⟩ := (decodeProtectedHdrEx_eq_ok data.length_le).mp h
    · refine ⟨[], .inl ⟨hnil, rfl⟩, ?_⟩
      constructor
      · exact fun _ => List.forall_mem_nil _
      · exact fun _ => List.forall_mem_nil _
    · obtain ⟨bits, understood, hs, -, -⟩ := hmap.scans
      have hmap' : MapEntries flags data.bytes es := by
        refine ⟨head, hmap.map.head, hd, fun e he => ⟨hmap.map.labelled e he, ?_⟩⟩
        exact hs.forall (fun _ _ _ _ _ hv => hv.hdrStep.item) e he
      refine ⟨es, .inr hmap'.isMap, ?_⟩
      constructor
      · exact fun hh => hh.recordable hmap.map.labels.nodup
      · exact fun hrec => hmap.critHonoured hrec
  · rintro flags wantEk hdr state ctx bs es hes ⟨r, hr⟩ hcrit ⟨a, ctx', hrun⟩
    obtain ⟨-, head, es', hmap, hc, -⟩ := runs_decodeUnprotectedHdrInternal.mp hrun
    obtain ⟨hmap', -, hok, -⟩ := hmap.entries
    have e : bs ++ r = mapBytes head es' ++ ctx'.rest := by
      rw [hr, hc.rest_eq]
    obtain rfl := hes.cancel hmap'.isMap e
    exact (hok _ hcrit).1 rfl

end Decode

section Instances

attribute [local instance] defaultSettings

/-- The bucket `{1: -7, 2: [1]}` and the unprotected map `{2: [1]}`. -/
theorem crit_honoured_iff_instance :
  (∃ es, IsBucket [0xA2, 0x01, 0x26, 0x02, 0x81, 0x01] es
      ∧ (CritHonoured es ⟨-7, none, none, none, 0, 0⟩ ↔ CritRecordable es))
    ∧ ¬ Succeeds (decodeUnprotectedHdrInternal 0 false .zero .init)
        (.init ⟨[0xA1, 0x02, 0x81, 0x01], by decide⟩)
  := by
  constructor
  · apply crit_honoured_iff.1 0 ⟨[0xA2, 0x01, 0x26, 0x02, 0x81, 0x01], by decide⟩ .zero
      ⟨⟨-7, none, none, none, 0, 0⟩, ⟨3, [], []⟩⟩
    rfl
  · apply crit_honoured_iff.2 0 false .zero .init _ [0xA1, 0x02, 0x81, 0x01]
      [⟨⟨.imm, .uint, 2, []⟩, .int hdrCrit, [0x81, 0x01]⟩]
    · refine ⟨⟨.imm, .map, 1, []⟩, ⟨by decide, by decide⟩, rfl, rfl, rfl, ?_⟩
      refine List.forall_mem_singleton.mpr ⟨⟨by decide, by decide⟩, rfl, 1, ?_⟩
      have harray : Token.WellFormed ⟨.imm, .array, 1, []⟩ := ⟨by decide, by decide⟩
      have hlabel : Token.WellFormed ⟨.imm, .uint, 1, []⟩ := ⟨by decide, by decide⟩
      exact .container harray (by decide) (.leaf hlabel (by decide) rfl (.nil 0)) (.nil 1)
    · exact List.prefix_rfl
    · exact List.mem_singleton.mpr rfl

/-- The bucket `{1: "a", 2: [1]}` is accepted, although its algorithm is skipped. -/
theorem crit_text_alg_accepted :
  ¬ ∀ (flags : UInt32) (data : Buffer) (hdr : Hdr) (r : Hdr × HdrState) (es : List Entry),
    IsBucket data.bytes es → decodeProtectedHdrEx (.mem data.bytes) hdr flags = .ok r →
    CritHonoured es r.1
  := by
  intro h
  let alg : Entry := ⟨⟨.imm, .uint, 1, []⟩, .int hdrAlg, [0x61, 0x61]⟩
  let crit : Entry := ⟨⟨.imm, .uint, 2, []⟩, .int hdrCrit, [0x81, 0x01]⟩
  have harray : Token.WellFormed ⟨.imm, .array, 1, []⟩ := ⟨by decide, by decide⟩
  have hlabel : Token.WellFormed ⟨.imm, .uint, 1, []⟩ := ⟨by decide, by decide⟩
  have htext : Token.WellFormed ⟨.imm, .tstr, 1, [0x61]⟩ := ⟨by decide, by decide⟩
  have hes : IsBucket [0xA2, 0x01, 0x61, 0x61, 0x02, 0x81, 0x01] [alg, crit] := by
    refine .inr ⟨⟨.imm, .map, 2, []⟩, ⟨by decide, by decide⟩, rfl, rfl, rfl, ?_⟩
    refine List.forall_mem_cons.mpr ⟨⟨hlabel, rfl, 0, ?_⟩, ?_⟩
    · exact .leaf htext (by decide) rfl (.nil 0)
    · refine List.forall_mem_singleton.mpr ⟨⟨by decide, by decide⟩, rfl, 1, ?_⟩
      exact .container harray (by decide) (.leaf hlabel (by decide) rfl (.nil 0)) (.nil 1)
  have hh := h 0 ⟨[0xA2, 0x01, 0x61, 0x61, 0x02, 0x81, 0x01], by decide⟩ .zero
    ⟨.zero, ⟨3, [], []⟩⟩ [alg, crit] hes rfl
  have hrec := hh.recordable (by decide) crit (by simp) rfl [1]
    ⟨⟨.imm, .array, 1, []⟩, [⟨.imm, .uint, 1, []⟩], harray, rfl, rfl,
      List.forall_mem_singleton.mpr hlabel, rfl, rfl⟩
  exact hrec.2 (by decide) alg (by simp) rfl ⟨_, htext, rfl, rfl⟩

end Instances

end WolfCose
