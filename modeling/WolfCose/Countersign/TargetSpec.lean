import WolfCose.Countersign.Target
import WolfCose.Message
import WolfCose.Hdr.Merge
import WolfCose.Hdr.Portable

/-!
# What the target of a countersignature is

The parser of the unprotected map notes the place of every countersignature.  The messages that
`wolfCose_ParseCounterTarget` accepts are described by their parts, from which the fields of the
target are read off.
-/

namespace WolfCose

open Program Cbor Settings

variable [Settings]

/-! ### The places of the countersignatures -/

/-- The encoding starts with the head of an item of a major type. -/
def StartsWith (m : MajorType) (bs : Bytes) : Prop :=
  ∃ t r, Accepted 0 t ∧ t.major = m ∧ bs = t.bytes ++ r

/-- `CounterValue label idx bs spans spans'`: the value `bs` of an entry, which lies at `idx`,
takes the places noted before to the places noted after. -/
def CounterValue (label : Label) (idx : Nat) (bs : Bytes) (spans spans' : CounterSpans) : Prop :=
  SkippedValue 0 bs ∧
    if label = .int hdrCountersignatureV2 then
      spans.full = none ∧ StartsWith .array bs
        ∧ spans' = { spans with full := some ⟨idx, idx + bs.length⟩ }
    else if label = .int hdrCountersignature0V2 then
      spans.abbreviated = none ∧ StartsWith .bstr bs
        ∧ spans' = { spans with abbreviated := some ⟨idx, idx + bs.length⟩ }
    else if label = .int hdrCountersignatureLegacy then
      spans.legacyFull = none ∧ StartsWith .array bs
        ∧ spans' = { spans with legacyFull := some ⟨idx, idx + bs.length⟩ }
    else if label = .int hdrCountersignature0Legacy then
      spans.legacyAbbreviated = none ∧ StartsWith .bstr bs
        ∧ spans' = { spans with legacyAbbreviated := some ⟨idx, idx + bs.length⟩ }
    else spans' = spans

/-- A look at the next byte tells how an item that is read starts. -/
theorem startsWith_iff {ctx ctx' : DecCtx} {bs : Bytes} {m : MajorType} (h : SkippedValue 0 bs)
    (hc : ctx.Consumes bs ctx') :
  StartsWith m bs ↔ ctx.peekType = some m
  := by
  obtain ⟨t, r, ht, rfl⟩ := Items.head h
  rw [DecCtx.peekType_eq ht.wellFormed hc, Option.some.injEq]
  constructor
  · rintro ⟨t', r', ht', rfl, he⟩
    rw [(Token.bytes_append_cancel ht.wellFormed ht'.wellFormed he).1]
  · rintro rfl
    exact ⟨t, r, ht, rfl, rfl⟩

theorem readsValue_counter :
  ReadsValue parseCounterValue CounterValue
  := by
  intro label spans ctx spans' ctx'
  have field {span : Option Span} {m : MajorType} {s : CounterSpans} {c : DecCtx} :
      Runs (do failIf (span.isSome = true ∨ ctx.peekType ≠ some m) .cborMalformed; return s : Dec CounterSpans)
          c spans' ctx'
        ↔ span = none ∧ ctx.peekType = some m ∧ spans' = s ∧ c = ctx' := by
    simp only [runs_bind, runs_failIf, runs_pure, not_or, Bool.not_eq_true, Option.isSome_eq_false_iff,
      Option.isNone_iff_eq_none, not_not]
    constructor
    · rintro ⟨_, _, ⟨⟨h₁, h₂⟩, rfl⟩, rfl, rfl⟩
      exact ⟨h₁, h₂, rfl, rfl⟩
    · rintro ⟨h₁, h₂, rfl, rfl⟩
      exact ⟨(), c, ⟨⟨h₁, h₂⟩, rfl⟩, rfl, rfl⟩
  unfold parseCounterValue
  constructor
  · intro h
    obtain ⟨_, _, hget, h⟩ := (runs_bind _ _ _ _ _).mp h
    obtain ⟨rfl, rfl⟩ := (runs_get _ _ _).mp hget
    obtain ⟨bs, c, hitem, h⟩ := (runs_bind _ _ _ _ _).mp h
    obtain ⟨hs, hc⟩ := (runs_skipItem _ _ _).mp hitem
    obtain ⟨_, _, hget, h⟩ := (runs_bind _ _ _ _ _).mp h
    obtain ⟨rfl, rfl⟩ := (runs_get _ _ _).mp hget
    unfold CounterValue
    refine ⟨bs, ⟨hs, ?_⟩, ?_⟩
    · rw [startsWith_iff hs hc, startsWith_iff hs hc, ← hc.idx_eq]
      split_ifs at h ⊢
      · obtain ⟨h₁, h₂, h₃, -⟩ := field.mp h
        exact ⟨h₁, h₂, h₃⟩
      · obtain ⟨h₁, h₂, h₃, -⟩ := field.mp h
        exact ⟨h₁, h₂, h₃⟩
      · obtain ⟨h₁, h₂, h₃, -⟩ := field.mp h
        exact ⟨h₁, h₂, h₃⟩
      · obtain ⟨h₁, h₂, h₃, -⟩ := field.mp h
        exact ⟨h₁, h₂, h₃⟩
      · exact ((runs_pure _ _ _ _).mp h).1.symm
    · suffices c = ctx' from this ▸ hc
      split_ifs at h
      · exact (field.mp h).2.2.2
      · exact (field.mp h).2.2.2
      · exact (field.mp h).2.2.2
      · exact (field.mp h).2.2.2
      · exact ((runs_pure _ _ _ _).mp h).2
  · rintro ⟨bs, ⟨hs, h⟩, hc⟩
    refine (runs_bind _ _ _ _ _).mpr ⟨ctx, ctx, (runs_get _ _ _).mpr ⟨rfl, rfl⟩, ?_⟩
    refine (runs_bind _ _ _ _ _).mpr ⟨bs, ctx', (runs_skipItem _ _ _).mpr ⟨hs, hc⟩, ?_⟩
    refine (runs_bind _ _ _ _ _).mpr ⟨ctx', ctx', (runs_get _ _ _).mpr ⟨rfl, rfl⟩, ?_⟩
    rw [startsWith_iff hs hc, startsWith_iff hs hc, ← hc.idx_eq] at h
    split_ifs at h ⊢
    · exact field.mpr ⟨h.1, h.2.1, h.2.2, rfl⟩
    · exact field.mpr ⟨h.1, h.2.1, h.2.2, rfl⟩
    · exact field.mpr ⟨h.1, h.2.1, h.2.2, rfl⟩
    · exact field.mpr ⟨h.1, h.2.1, h.2.2, rfl⟩
    · exact (runs_pure _ _ _ _).mpr ⟨h.symm, rfl⟩

/-- The labels of countersignatures. -/
def CounterLabel (label : Label) : Prop :=
  label = .int hdrCountersignatureV2 ∨ label = .int hdrCountersignature0V2
    ∨ label = .int hdrCountersignatureLegacy ∨ label = .int hdrCountersignature0Legacy

/-- The place noted for a label. -/
def CounterSpans.spanAt (spans : CounterSpans) (label : Label) : Option Span :=
  if label = .int hdrCountersignatureV2 then spans.full
  else if label = .int hdrCountersignature0V2 then spans.abbreviated
  else if label = .int hdrCountersignatureLegacy then spans.legacyFull
  else if label = .int hdrCountersignature0Legacy then spans.legacyAbbreviated
  else Option.none

omit [Settings] in
theorem CounterSpans.spanAt_none (label : Label) :
  CounterSpans.none.spanAt label = .none
  := by
  unfold spanAt
  split_ifs
  · rfl
  · rfl
  · rfl
  · rfl
  · rfl

/-- The value of a countersignature is noted for its label. -/
theorem CounterValue.spanAt_eq {label : Label} {idx : Nat} {bs : Bytes} {spans spans' : CounterSpans}
    (h : CounterValue label idx bs spans spans') (hl : CounterLabel label) :
  spans'.spanAt label = some ⟨idx, idx + bs.length⟩
  := by
  obtain ⟨-, h⟩ := h
  unfold CounterSpans.spanAt
  obtain rfl | rfl | rfl | rfl := hl
  · rw [if_pos rfl] at h ⊢
    rw [h.2.2]
  · rw [if_neg (by decide), if_pos rfl] at h ⊢
    rw [h.2.2]
  · rw [if_neg (by decide), if_neg (by decide), if_pos rfl] at h ⊢
    rw [h.2.2]
  · rw [if_neg (by decide), if_neg (by decide), if_neg (by decide), if_pos rfl] at h ⊢
    rw [h.2.2]

/-- Other values leave a place as it is. -/
theorem CounterValue.spanAt_ne {label l : Label} {idx : Nat} {bs : Bytes} {spans spans' : CounterSpans}
    (h : CounterValue label idx bs spans spans') (hne : label ≠ l) :
  spans'.spanAt l = spans.spanAt l
  := by
  obtain ⟨-, h⟩ := h
  unfold CounterSpans.spanAt
  -- a value changes only the place of its own label
  split_ifs at h ⊢
  all_goals first
    | rfl
    | rw [h]
    | (rw [h.2.2]; done)
    | exact absurd (by simp_all) hne

/-- The place of an entry of a map whose entries start at `idx`. -/
structure PlacedAt (idx : Nat) (es : List Entry) (label : Label) (span : Span) (es₁ : List Entry) (e : Entry)
    (es₂ : List Entry) : Prop where
  entries : es = es₁ ++ e :: es₂
  label : e.label = label
  start : span.start = idx + (entriesBytes es₁).length + e.token.bytes.length
  stop : span.stop = span.start + e.value.length

/-- After a map a place is noted exactly for the labels that are in the map. -/
theorem Scans.spanAt {idx : Nat} {es : List Entry} {spans spans' : CounterSpans}
    (h : Scans CounterValue idx es spans spans') {l : Label} (hl : CounterLabel l) :
  (∃ span es₁ e es₂, spans'.spanAt l = some span ∧ PlacedAt idx es l span es₁ e es₂)
    ∨ (l ∉ labelsOf es ∧ spans'.spanAt l = spans.spanAt l)
  := by
  induction h with
  | nil => exact .inr ⟨List.not_mem_nil, rfl⟩
  | @cons idx e es s s₁ s' hv hs ih =>
      obtain ⟨span, es₁, e', es₂, hspan, rfl, hlabel, hstart, hstop⟩ | ⟨hnot, hsame⟩ := ih
      · refine .inl ⟨span, e :: es₁, e', es₂, hspan, rfl, hlabel, ?_, hstop⟩
        rw [hstart, entriesBytes_cons, List.length_append]
        omega
      · by_cases he : e.label = l
        · subst he
          refine .inl ⟨_, [], e, es, hsame.trans (hv.spanAt_eq hl), rfl, rfl, ?_, rfl⟩
          rw [entriesBytes_nil, List.length_nil, Nat.add_zero]
        · refine .inr ⟨?_, hsame.trans (hv.spanAt_ne he)⟩
          rintro (_ | ⟨_, hm⟩)
          · exact he rfl
          · exact hnot hm

/-! ### The unprotected map -/

/-- The head that is decoded is the head of the map. -/
theorem MapHead.decoded {head : Token} {es : List Entry} (h : MapHead 0 es head) {ctx ctx₁ ctx' : DecCtx}
    {n : Nat} (hhead : Runs decodeMapStart ctx n ctx₁) (hc : ctx.Consumes (mapBytes head es) ctx') :
  n = es.length ∧ ctx₁.idx = ctx.idx + head.bytes.length
  := by
  obtain ⟨-, t, ht, hct, -, rfl, -⟩ := (runs_decodeMapStartEx _ _ _ _).mp hhead
  obtain ⟨ctx₂, hc₂, -⟩ := hc.split
  obtain ⟨rfl, -⟩ := Token.bytes_append_cancel h.accepted.wellFormed ht.wellFormed
    (hc₂.rest_eq.symm.trans hct.rest_eq)
  exact ⟨h.val, hct.idx_eq⟩

/-- The map is parsed exactly if it is a map of admitted labels whose values the loop accepts, and
the fields are the places of its head and its end, the number of its entries and the places of the
countersignatures. -/
theorem runs_parseCounterMap {hdrState : HdrState} {ctx ctx' : DecCtx} {map : CounterMap} :
  Runs (parseCounterMap hdrState) ctx map ctx'
    ↔ ∃ head es spans, HeaderMap 0 (UnprotectedLabelOk hdrState) head es
      ∧ ctx.Consumes (mapBytes head es) ctx'
      ∧ Scans CounterValue (ctx.idx + head.bytes.length) es .none spans
      ∧ map = ⟨ctx.idx, ctx.idx + head.bytes.length, ctx.idx + (mapBytes head es).length, es.length, spans⟩
  := by
  have loop := fun scan' => @runs_decodeEntries _ _ 0 _ _ _ _ decodeFlagsValid_zero
    (admits_admitUnprotected hdrState) readsValue_counter (fun _ _ _ _ _ h => h.1.ne_nil) CounterSpans.none scan'
    ctx ctx'
  constructor
  · intro h
    simp only [parseCounterMap, runs_bind, runs_get, runs_failIf, runs_pure] at h
    obtain ⟨_, _, ⟨rfl, rfl⟩, n, ctx₁, hhead, _, _, ⟨hn, rfl⟩, _, _, ⟨rfl, rfl⟩, scan, stop, hloop, _, _,
      ⟨rfl, rfl⟩, rfl, rfl⟩ := h
    have hruns : Runs (decodeEntries 0 hdrState.admitUnprotected parseCounterValue .none) ctx scan stop := by
      simp only [decodeEntries, runs_bind, runs_failIf]
      exact ⟨n, _, hhead, (), _, ⟨hn, rfl⟩, hloop⟩
    obtain ⟨head, es, hmap, hc, hs, -⟩ := (loop scan).mp hruns
    obtain ⟨hn', hidx⟩ := hmap.head.decoded hhead hc
    refine ⟨head, es, scan.vars, hmap, hc, hs, ?_⟩
    rw [hn', hidx, hc.idx_eq]
  · rintro ⟨head, es, spans, hmap, hc, hs, rfl⟩
    have hruns := (loop ⟨_, spans⟩).mpr ⟨head, es, hmap, hc, hs, rfl⟩
    simp only [decodeEntries, runs_bind, runs_failIf] at hruns
    obtain ⟨n, ctx₁, hhead, _, _, ⟨hn, rfl⟩, hloop⟩ := hruns
    obtain ⟨hn', hidx⟩ := hmap.head.decoded hhead hc
    simp only [parseCounterMap, runs_bind, runs_get, runs_failIf, runs_pure]
    refine ⟨ctx, ctx, ⟨rfl, rfl⟩, n, ctx₁, hhead, (), ctx₁, ⟨hn, rfl⟩, ctx₁, ctx₁, ⟨rfl, rfl⟩, _, ctx',
      hloop, ctx', ctx', ⟨rfl, rfl⟩, ?_, rfl⟩
    rw [hn', hidx, hc.idx_eq]

/-! ### The message -/

/-- A payload and what is covered of it: the detached payload if it is null. -/
def CounterPayloadValue (detached : Pointer) (bs : Bytes) (payload : Pointer) : Prop :=
  ∃ r, PayloadValue 0 detached .zero bs r ∧ payload = verifyPayload detached r.2

theorem reads_parseCounterPayload (detached : Pointer) :
  Reads (parseCounterPayload detached) (CounterPayloadValue detached)
  := by
  intro ctx payload ctx'
  have hdecode : Runs (parseCounterPayload detached) ctx payload ctx' ↔
      Runs (do let r ← decodePayload detached .zero 0; return verifyPayload detached r.2) ctx payload ctx' := by
    simp only [parseCounterPayload, decodePayload, decodeBstr, runs_bind, runs_get, runs_ite, runs_set,
      runs_failIf, runs_pure]
    constructor
    · rintro ⟨_, _, ⟨rfl, rfl⟩, ⟨hnull, _, _, rfl, _, _, ⟨hd, rfl⟩, rfl, rfl⟩ | ⟨hnull, bs, c, hbs, rfl, rfl⟩⟩
      · exact ⟨_, _, ⟨_, _, ⟨rfl, rfl⟩, .inl ⟨hnull, (), _, rfl, (), _, ⟨hd, rfl⟩, rfl, rfl⟩⟩, rfl, rfl⟩
      · exact ⟨_, _, ⟨_, _, ⟨rfl, rfl⟩, .inr ⟨hnull, bs, c, hbs, rfl, rfl⟩⟩, rfl, rfl⟩
    · rintro ⟨_, _, ⟨_, _, ⟨rfl, rfl⟩, ⟨hnull, _, _, rfl, _, _, ⟨hd, rfl⟩, rfl, rfl⟩ | ⟨hnull, bs, c, hbs, rfl, rfl⟩⟩,
        rfl, rfl⟩
      · exact ⟨_, _, ⟨rfl, rfl⟩, .inl ⟨hnull, (), _, rfl, (), _, ⟨hd, rfl⟩, rfl, rfl⟩⟩
      · exact ⟨_, _, ⟨rfl, rfl⟩, .inr ⟨hnull, bs, c, hbs, rfl, rfl⟩⟩
  rw [hdecode]
  apply (reads_decodePayload decodeFlagsValid_zero detached .zero).map

/-- The signature or the tag that follows the payload, if the message has one. -/
def OtherValue (tag : Nat) (bs : Bytes) (other : OtherFields) : Prop :=
  if tag = tagSign1 ∨ tag = tagMac0 ∨ tag = tagMac then
    ∃ data, BstrValue 0 bs data ∧ other = .one data
  else bs = [] ∧ other = .none

theorem reads_parseCounterOther (tag : Nat) :
  Reads (parseCounterOther tag) (OtherValue tag)
  := by
  apply Reads.ite
  · apply (reads_decodeBstrEx decodeFlagsValid_zero).map
  · intro ctx other ctx'
    rw [runs_pure]
    constructor
    · rintro ⟨rfl, rfl⟩
      exact ⟨[], ⟨rfl, rfl⟩, ctx.consumes_nil⟩
    · rintro ⟨_, ⟨rfl, rfl⟩, hc⟩
      exact ⟨rfl, ctx.consumes_nil.unique hc⟩

/-- The parts of a message: its tag, the head of its array, the protected bucket, the head and the
entries of the unprotected map, the payload, the signature or tag, and the children. -/
structure CounterParts where
  tag : Token
  count : Token
  prot : Bytes
  head : Token
  entries : List Entry
  payload : Bytes
  other : Bytes
  children : Bytes

namespace CounterParts

/-- What precedes the unprotected map. -/
def start (p : CounterParts) : Bytes := p.tag.bytes ++ (p.count.bytes ++ p.prot)

/-- What follows the unprotected map. -/
def tail (p : CounterParts) : Bytes := p.payload ++ (p.other ++ p.children)

/-- The message. -/
def bytes (p : CounterParts) : Bytes := p.start ++ (mapBytes p.head p.entries ++ p.tail)

end CounterParts

/-- The fields of a target that a message with these parts has.  The children are read at the end
of the message. -/
structure CounterMessage (detached : Pointer) (input : Buffer) (p : CounterParts) (target : CounterTarget) :
    Prop where
  input_eq : input.bytes = p.bytes
  tag : Accepted 0 p.tag ∧ p.tag.major = .tag ∧ p.tag.val = target.tag
  count : Accepted 0 p.count ∧ p.count.major = .array ∧ expectedCount target.tag = .ok p.count.val
  buckets : ∃ data r vars, BstrValue 0 p.prot data ∧ target.bodyProtected = .mem data
    ∧ decodeProtectedHdr (.mem data) .zero = .ok r ∧ r.2.containsCountersignature = false
    ∧ UnprotectedMap 0 false r.2 0 r.1 vars p.head p.entries
  mapStart : target.mapStart = p.start.length
  mapContentStart : target.mapContentStart = p.start.length + p.head.bytes.length
  mapEnd : target.mapEnd = p.start.length + (mapBytes p.head p.entries).length
  mapCount : target.mapCount = p.entries.length
  spans : Scans CounterValue (p.start.length + p.head.bytes.length) p.entries .none target.spans
  payload : CounterPayloadValue detached p.payload target.payload
  other : OtherValue target.tag p.other target.other
  children : Runs (parseCounterChildren target.tag) ⟨input, input.bytes.length - p.children.length⟩ ()
    ⟨input, input.bytes.length⟩

/-- The signatures and recipients at the end of a message can be read in a longer buffer. -/
theorem portable_parseCounterChildren (tag : Nat) :
  Portable (parseCounterChildren tag)
  := by
  apply Portable.ite
  · apply Portable.bind portable_decodeArrayStart
    intro count
    apply Portable.bind Portable.failIf
    intro _ ctx ctx₁ he
    apply CarriesAt.repeatM _ he
    intro _
    apply Portable.ite
    · apply portable_decodeSkippedSignature
    · apply Portable.bind portable_decodeSkippedRecipient
      intro _
      apply Portable.pure
  · apply Portable.pure

omit [Settings] in
/-- The number of fields of a message depends on its tag. -/
theorem expectedCount_eq_ok {tag n : Nat} (h : expectedCount tag = .ok n) :
  (tag = tagEncrypt0 ∧ n = 3) ∨ ((tag = tagMac0 ∨ tag = tagSign1 ∨ tag = tagSign ∨ tag = tagEncrypt) ∧ n = 4)
    ∨ (tag = tagMac ∧ n = 5)
  := by
  unfold expectedCount at h
  split_ifs at h with h₁ h₂ h₃
  · exact .inl ⟨h₁, (Except.ok.inj h).symm⟩
  · exact .inr (.inl ⟨h₂, (Except.ok.inj h).symm⟩)
  · exact .inr (.inr ⟨h₃, (Except.ok.inj h).symm⟩)

/-- Two maps that are decoded at one place and end at one place are the same. -/
theorem mapBytes_unique {head head' : Token} {es es' : List Entry} {ctx ctx₁ ctx₂ : DecCtx}
    (h : MapHead 0 es head) (hes : ∀ e ∈ es, e.Labelled 0 ∧ SkippedValue 0 e.value)
    (h' : MapHead 0 es' head') (hes' : ∀ e ∈ es', e.Labelled 0 ∧ SkippedValue 0 e.value)
    (hc : ctx.Consumes (mapBytes head es) ctx₁) (hc' : ctx.Consumes (mapBytes head' es') ctx₂)
    (hidx : ctx₁.idx = ctx₂.idx) :
  head = head' ∧ es = es' ∧ ctx₁ = ctx₂
  := by
  have hlen : (mapBytes head es).length = (mapBytes head' es').length := by
    rw [hc.idx_eq, hc'.idx_eq] at hidx
    exact Nat.add_left_cancel hidx
  have hb : mapBytes head es = mapBytes head' es' :=
    (List.append_inj (hc.rest_eq.symm.trans hc'.rest_eq) hlen).1
  obtain ⟨hh, -⟩ := Token.bytes_append_cancel h.accepted.wellFormed h'.accepted.wellFormed hb
  refine ⟨hh, MapEntries.unique ⟨head, h, rfl, hes⟩ ⟨head', h', hb, hes'⟩, ?_⟩
  rw [hb] at hc
  exact hc.unique hc'

/-- The context at the end of its buffer. -/
theorem DecCtx.Consumes.of_init {input : Buffer} {bs : Bytes} {ctx : DecCtx}
    (h : (DecCtx.init input).Consumes bs ctx) :
  ctx = ⟨input, bs.length⟩
  := by
  obtain ⟨-, rfl⟩ := h
  simp [DecCtx.advance, DecCtx.init]

/-- Signatures and recipients take some bytes. -/
theorem idx_lt_of_children {tag : Nat} {ctx ctx' : DecCtx} (h : Runs (parseCounterChildren tag) ctx () ctx')
    (htag : tag = tagSign ∨ tag = tagEncrypt ∨ tag = tagMac) :
  ctx.idx < ctx'.idx
  := by
  rw [parseCounterChildren, if_pos htag, runs_bind] at h
  obtain ⟨count, c, hcount, h⟩ := h
  obtain ⟨-, t, -, hc, -⟩ := (runs_decodeArrayStartEx _ _ _ _).mp hcount
  have hrest : Portable (do
      failIf (count = 0) .cborMalformed
      repeatM count (fun _ =>
        if tag = tagSign then decodeSkippedSignature
        else do
          let _ ← decodeSkippedRecipient
          return ()) () : Dec Unit) := by
    apply Portable.bind Portable.failIf
    intro _ c c₁ he
    apply CarriesAt.repeatM _ he
    intro _
    apply Portable.ite portable_decodeSkippedSignature
    apply Portable.bind portable_decodeSkippedRecipient
    intro _
    apply Portable.pure
  obtain ⟨bs, _, hc', -, -⟩ := hrest c c ⟨rfl, Nat.le_refl _⟩ _ _ h
  have hpos := t.one_le_length_bytes
  rw [hc'.idx_eq, hc.idx_eq]
  omega

/-- Where the bytes that are consumed start. -/
theorem DecCtx.Consumes.eq_of_end {input : Buffer} {bs : Bytes} {n : Nat} {ctx : DecCtx}
    (h : ctx.Consumes bs ⟨input, n⟩) :
  ctx = ⟨input, n - bs.length⟩
  := by
  have hb := h.cbuf_eq
  have hi := h.idx_eq
  obtain ⟨b, i⟩ := ctx
  dsimp only at hb hi
  rw [hb, hi, Nat.add_sub_cancel]

namespace CounterMessage

variable {detached : Pointer} {input : Buffer} {p : CounterParts} {target : CounterTarget}

/-- The fields that the array counts are there. -/
theorem count_le (h : CounterMessage detached input p target) :
  p.count.children ≤ (p.prot ++ (mapBytes p.head p.entries ++ p.tail)).length
  := by
  obtain ⟨data, r, vars, hprot, -⟩ := h.buckets
  obtain ⟨_, hpayload, -⟩ := h.payload
  obtain ⟨-, hcm, hcount⟩ := h.count
  have h₁ := List.length_pos_iff.mpr hprot.ne_nil
  have h₂ := p.head.one_le_length_bytes
  have h₃ := List.length_pos_iff.mpr hpayload.ne_nil
  have h₄ : target.tag = tagSign1 ∨ target.tag = tagMac0 ∨ target.tag = tagMac → 0 < p.other.length := by
    intro htag
    have hother := h.other
    rw [OtherValue, if_pos htag] at hother
    obtain ⟨_, hother, -⟩ := hother
    apply List.length_pos_iff.mpr hother.ne_nil
  have h₅ : target.tag = tagSign ∨ target.tag = tagEncrypt ∨ target.tag = tagMac → 0 < p.children.length := by
    intro htag
    have hlt := idx_lt_of_children h.children htag
    dsimp only at hlt
    omega
  rw [Token.children, hcm]
  simp only [CounterParts.tail, List.length_append]
  obtain ⟨-, hn⟩ | ⟨htag, hn⟩ | ⟨htag, hn⟩ := expectedCount_eq_ok hcount
  · omega
  · obtain htag | htag | htag | htag := htag
    · have := h₄ (.inr (.inl htag))
      omega
    · have := h₄ (.inl htag)
      omega
    · have := h₅ (.inl htag)
      omega
    · have := h₅ (.inr (.inl htag))
      omega
  · have := h₄ (.inr (.inr htag))
    have := h₅ (.inr (.inr htag))
    omega

/-- A message with these parts is parsed. -/
theorem parse (h : CounterMessage detached input p target) :
  parseCounterTarget input detached = .ok target
  := by
  obtain ⟨ht, htm, htv⟩ := h.tag
  obtain ⟨hcnt, hcm, hcv⟩ := h.count
  obtain ⟨data, r, vars, hprot, hdata, hr, hplaced, hmap⟩ := h.buckets
  have hwhole : (DecCtx.init input).Consumes p.bytes ⟨input, input.bytes.length⟩ := by
    constructor
    · use []
      rw [List.append_nil, DecCtx.rest_init, h.input_eq]
    · rw [DecCtx.advance, DecCtx.init, Nat.zero_add, h.input_eq]
  obtain ⟨c₃, hstart, hrest⟩ := hwhole.split
  obtain ⟨c₁, htag, hstart'⟩ := hstart.split
  obtain ⟨c₂, hcount, hbstr⟩ := hstart'.split
  obtain ⟨c₄, hcmap, htail⟩ := hrest.split
  obtain ⟨c₅, hpayload, htail'⟩ := htail.split
  obtain ⟨c₆, hother, hchildren⟩ := htail'.split
  have hidx : c₃.idx = p.start.length := by
    rw [hstart.of_init]
  have hroom : p.count.children ≤ c₂.rest.length := by
    have hle := h.count_le
    rw [hbstr.length_rest_eq, hrest.length_rest_eq]
    rw [List.length_append] at hle
    omega
  let map : CounterMap := ⟨c₃.idx, c₃.idx + p.head.bytes.length, c₃.idx + (mapBytes p.head p.entries).length,
    p.entries.length, target.spans⟩
  let merged : Hdr × HdrState :=
    (vars.hdr, { r.2 with labelBits := r.2.labelBits ||| labelsBits (labelsOf p.entries) })
  have hruns : Runs (parseCounterMessage detached) (.init input) target ⟨input, input.bytes.length⟩ := by
    simp only [parseCounterMessage, runs_bind, runs_get, runs_set, runs_failIf, runs_pure, runs_ofExcept]
    refine ⟨_, _, ⟨rfl, rfl⟩, (), _, ⟨?_, rfl⟩, target.tag, c₁, ?_, p.count.val, _, ⟨hcv, rfl⟩, p.count.val, c₂, ?_,
      (), _, ⟨not_not.mpr rfl, rfl⟩, data, c₃, ?_, r, _, ⟨hr, rfl⟩, (), _, ⟨?_, rfl⟩, _, _, ⟨rfl, rfl⟩, map, c₄, ?_,
      ⟨⟩, _, rfl, merged, c₄, ?_, _, _, ⟨rfl, rfl⟩, (), _, ⟨?_, rfl⟩, target.payload, c₅, ?_, target.other, c₆, ?_, (), _, ?_,
      _, _, ⟨rfl, rfl⟩, (), _, ⟨?_, rfl⟩, ?_, rfl⟩
    · rw [not_not, ← htm]
      rw [← List.append_nil p.tag.bytes] at htag
      apply DecCtx.peekType_eq ht.wellFormed htag
    · exact (runs_decodeTagEx _ _ _ _).mpr ⟨decodeFlagsValid_zero, p.tag, ht, htag, htm, htv⟩
    · exact (runs_decodeArrayStartEx _ _ _ _).mpr ⟨decodeFlagsValid_zero, p.count, hcnt, hcount, hcm, rfl, hroom⟩
    · exact (reads_decodeBstrEx decodeFlagsValid_zero _ _ _).mpr ⟨p.prot, hprot, hbstr⟩
    · rw [hplaced]
      exact Bool.false_ne_true
    · exact runs_parseCounterMap.mpr ⟨p.head, p.entries, target.spans, hmap.map, hcmap, hidx ▸ h.spans, rfl⟩
    · exact runs_decodeUnprotectedHdrEx.mpr ⟨decodeFlagsValid_zero, p.head, p.entries, vars.hpkeEk, hmap.move _,
        hcmap, rfl⟩
    · rw [not_not, hcmap.idx_eq]
    · exact (reads_parseCounterPayload _ _ _ _).mpr ⟨p.payload, h.payload, hpayload⟩
    · exact (reads_parseCounterOther _ _ _ _).mpr ⟨p.other, h.other, hother⟩
    · rw [hchildren.eq_of_end]
      exact h.children
    · exact not_not.mpr rfl
    · simp only [map, hidx, ← hdata]
      rw [← h.mapContentStart, ← h.mapEnd, ← h.mapCount, ← h.mapStart]
  rw [parseCounterTarget, hruns]

end CounterMessage

/-- The messages with a target are those with its parts. -/
theorem parseCounterTarget_eq_ok {detached : Pointer} {input : Buffer} {target : CounterTarget} :
  parseCounterTarget input detached = .ok target ↔ ∃ p, CounterMessage detached input p target
  := by
  constructor
  · intro h
    obtain ⟨ctx', hr⟩ : ∃ ctx', Runs (parseCounterMessage detached) (.init input) target ctx' := by
      unfold parseCounterTarget at h
      cases hp : parseCounterMessage detached (.init input) with
      | ok t c =>
          rw [hp] at h
          cases h
          exact ⟨c, hp⟩
      | error e c =>
          rw [hp] at h
          cases h
    unfold parseCounterMessage at hr
    simp only [↓runs_get_bind, ↓runs_set_bind, ↓runs_failIf_bind, ↓runs_ofExcept_bind, runs_bind, runs_pure] at hr
    obtain ⟨-, tag, c₁, htag, n, hn, count, c₂, hcount, hcn, data, c₃, hdata, r, hprot, hplaced, map, c₄, hmap, r', c₅,
      hunprot, hidx, payload, c₆, hpayload, other, c₇, hother, _, c₈, hchildren, hend, rfl, rfl⟩ := hr
    obtain ⟨-, t, ht, hct, htm, rfl⟩ := (runs_decodeTagEx _ _ _ _).mp htag
    obtain ⟨-, tc, htc, hcc, hcm, rfl, -⟩ := (runs_decodeArrayStartEx _ _ _ _).mp hcount
    obtain ⟨bs, hbs, hcb⟩ := (reads_decodeBstrEx decodeFlagsValid_zero _ _ _).mp hdata
    obtain ⟨head, es, spans, hm, hcm₁, hs, rfl⟩ := runs_parseCounterMap.mp hmap
    obtain ⟨-, head', es', ek, hm', hcm₂, -⟩ := runs_decodeUnprotectedHdrEx.mp hunprot
    obtain ⟨pb, hp, hcp⟩ := (reads_parseCounterPayload detached _ _ _).mp hpayload
    obtain ⟨ob, ho, hco⟩ := (reads_parseCounterOther _ _ _ _).mp hother
    obtain ⟨cb, _, hcc', -, -⟩ := portable_parseCounterChildren _ _ _ ⟨rfl, Nat.le_refl _⟩ _ _ hchildren
    obtain ⟨rfl, rfl, rfl⟩ := mapBytes_unique hm.head
      (fun e he => ⟨hm.labelled e he, hs.forall (fun _ _ _ _ _ hv => hv.1) e he⟩) hm'.map.head
      (fun e he => ⟨hm'.map.labelled e he, (hm'.entries.1.choose_spec.2.2 e he).2⟩) hcm₁ hcm₂
      (by rw [hcm₁.idx_eq]; exact (not_not.mp hidx).symm)
    have hstart := (hct.trans (hcc.trans hcb))
    have hwhole := hstart.trans (hcm₁.trans (hcp.trans (hco.trans hcc')))
    have hin : input.bytes = t.bytes ++ (tc.bytes ++ bs) ++ (mapBytes head es ++ (pb ++ (ob ++ cb))) :=
      hwhole.init_end (not_not.mp hend)
    have hidx₃ : c₃.idx = (t.bytes ++ (tc.bytes ++ bs)).length := by
      rw [hstart.of_init]
    have hlast : c₈ = ⟨input, input.bytes.length⟩ := by
      rw [hwhole.of_init, ← hin]
    subst hlast
    have hfirst := hcc'.eq_of_end
    refine ⟨⟨t, tc, bs, head, es, pb, ob, cb⟩, ?_⟩
    exact {
      input_eq := hin
      tag := ⟨ht, htm, rfl⟩
      count := ⟨htc, hcm, (not_not.mp hcn) ▸ hn⟩
      buckets := ⟨data, r, ⟨r'.1, ek⟩, hbs, rfl, hprot, Bool.not_eq_true _ ▸ hplaced, hm'.move 0⟩
      mapStart := hidx₃
      mapContentStart := congrArg (· + head.bytes.length) hidx₃
      mapEnd := congrArg (· + (mapBytes head es).length) hidx₃
      mapCount := rfl
      spans := hidx₃ ▸ hs
      payload := hp
      other := ho
      children := hfirst ▸ hchildren }
  · rintro ⟨p, h⟩
    exact h.parse

/-! ### The countersignatures of a target -/

namespace CounterMessage

variable {detached : Pointer} {input : Buffer} {p : CounterParts} {target : CounterTarget}

/-- The place of a countersignature that the target has. -/
theorem placed (h : CounterMessage detached input p target) {l : Label} (hl : CounterLabel l) {span : Span}
    (hspan : target.spans.spanAt l = some span) :
  ∃ es₁ e es₂, PlacedAt (p.start.length + p.head.bytes.length) p.entries l span es₁ e es₂
  := by
  obtain ⟨span', es₁, e, es₂, hspan', hp⟩ | ⟨-, hsame⟩ := h.spans.spanAt hl
  · cases Option.some.inj (hspan.symm.trans hspan')
    exact ⟨es₁, e, es₂, hp⟩
  · rw [hspan, CounterSpans.spanAt_none] at hsame
    cases hsame

/-- A countersignature that the target has not is not in the map. -/
theorem absent (h : CounterMessage detached input p target) {l : Label} (hl : CounterLabel l)
    (hspan : target.spans.spanAt l = none) :
  l ∉ labelsOf p.entries
  := by
  obtain ⟨span', es₁, e, es₂, hspan', -⟩ | ⟨hnot, -⟩ := h.spans.spanAt hl
  · rw [hspan] at hspan'
    cases hspan'
  · exact hnot

/-- The value of a countersignature is found at its place. -/
theorem value_at (h : CounterMessage detached input p target) {l : Label} {span : Span} {es₁ es₂ : List Entry}
    {e : Entry} (hp : PlacedAt (p.start.length + p.head.bytes.length) p.entries l span es₁ e es₂) :
  (input.bytes.drop span.start).take (span.stop - span.start) = e.value
  := by
  have hin : input.bytes = (p.start ++ (p.head.bytes ++ (entriesBytes es₁ ++ e.token.bytes))) ++
      (e.value ++ (entriesBytes es₂ ++ p.tail)) := by
    rw [h.input_eq, CounterParts.bytes, mapBytes, hp.entries, entriesBytes_append, entriesBytes_cons, Entry.bytes]
    simp only [List.append_assoc]
  rw [hin]
  apply Bytes.read_middle
  · rw [hp.start]
    simp only [List.length_append]
    omega
  · rw [hp.stop]
    omega

end CounterMessage

end WolfCose
