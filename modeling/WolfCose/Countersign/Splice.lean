import WolfCose.Countersign.Lists
import WolfCose.Countersign.TargetSpec

/-!
# What attaching a countersignature writes

The plan of an attachment is exact: the lengths in it are those of what is written.  The moves and
the encoders together replace the unprotected map by one that has the countersignature, and
nothing outside of the new message is read or written.
-/

namespace WolfCose

open Program Cbor Settings

variable [Settings]

/-! ### The countersignature -/

namespace NewCounter

/-- A full countersignature. -/
def fullBytes (counter : NewCounter) : Bytes :=
  preferredHead .array 3 ++ (stringBytes .bstr counter.protectedHdr ++
    (kidBytes counter.kid ++ stringBytes .bstr counter.sig))

/-- The label a countersignature is put under. -/
def label (counter : NewCounter) : Int :=
  if counter.abbreviated = true then hdrCountersignature0V2 else hdrCountersignatureV2

/-- What is put under the label. -/
def value (counter : NewCounter) : Bytes :=
  if counter.abbreviated = true then stringBytes .bstr counter.sig else counter.fullBytes

/-- The entry of a countersignature. -/
def entry (counter : NewCounter) : Entry :=
  ⟨intToken counter.label, .int counter.label, counter.value⟩

variable {counter : NewCounter}

omit [Settings] in
/-- The kid is there if it has a length. -/
theorem hasKid_iff {kid : Pointer} (h : kidConsistent kid) :
  hasKid kid ↔ kid.len ≠ 0
  := by
  unfold kidConsistent at h
  rw [hasKid, h]
  omega

theorem emits_encodeFullCounter (h : kidConsistent counter.kid) :
  Emits (encodeFullCounter counter) counter.fullBytes
  := by
  have hk := hasKid_iff h
  apply Emits.bind
  · apply emits_encodeHead
  apply Emits.bind
  · apply emits_encodeBstr_mem
  have hkid : kidBytes counter.kid = preferredHead .map (if counter.kid.len ≠ 0 then 1 else 0) ++
      (if counter.kid.len ≠ 0 then intHead hdrKid ++ stringBytes .bstr counter.kid.bytes else []) := by
    unfold kidBytes
    simp only [hk]
    rfl
  rw [hkid, List.append_assoc]
  apply Emits.bind
  · apply emits_encodeHead
  apply Emits.bind
  · apply Emits.onlyIf
    intro hlen
    apply Emits.bind
    · apply emits_encodeInt
    · apply emits_encodeBstr (hk.mpr hlen).1
  · apply emits_encodeBstr_mem

/-- The planned size of a full countersignature is its length. -/
theorem length_fullBytes (h : kidConsistent counter.kid) {n : Nat}
    (hn : fullCounterSize counter.protectedHdr.length counter.kid.len counter.sig.length = .ok n) :
  counter.fullBytes.length = n
  := by
  have hk := hasKid_iff h
  simp only [fullCounterSize, bind_eq_ok] at hn
  obtain ⟨n₁, hn₁, n₂, hn₂, hn⟩ := hn
  have h₁ := sizeAddString_eq_ok (m := .bstr) hn₁
  have h₂ : n₂ = n₁ + (kidBytes counter.kid).length := by
    apply sizeAddKid_eq_ok
    simp only [hk]
    exact hn₂
  have h₃ := sizeAddString_eq_ok (m := .bstr) hn
  simp only [fullBytes, List.length_append, length_preferredHead]
  rw [h₃, h₂, h₁]
  have : cborHeadSize 3 = 1 := rfl
  omega

omit [Settings] in
theorem length_label (counter : NewCounter) :
  (intToken counter.label).bytes.length = 1
  := by
  unfold label
  split
  · rfl
  · rfl

end NewCounter

/-! ### Moves -/

omit [Settings] in
theorem runs_storeBytes {dst : Nat} {bs out : Bytes} (h : dst + bs.length ≤ out.length) :
  Runs (storeBytes dst bs) out () (Bytes.overwrite out dst bs)
  := by
  simp only [storeBytes, runs_bind, runs_get, runs_failIf, runs_set]
  exact ⟨out, out, ⟨rfl, rfl⟩, (), out, ⟨Nat.not_lt.mpr h, rfl⟩, rfl⟩

omit [Settings] in
/-- A move inside the buffer writes what the buffer has at its source. -/
theorem runs_moveBytes {dst src n : Nat} {out bs : Bytes} (hbs : (out.drop src).take n = bs) (hn : bs.length = n)
    (hsrc : src + n ≤ out.length) (hdst : dst + n ≤ out.length) :
  Runs (moveBytes dst src n) out () (Bytes.overwrite out dst bs)
  := by
  simp only [moveBytes, runs_bind, runs_get, runs_failIf]
  refine ⟨out, out, ⟨rfl, rfl⟩, (), out, ⟨Nat.not_lt.mpr hsrc, rfl⟩, ?_⟩
  rw [hbs]
  apply runs_storeBytes
  rw [hn]
  exact hdst

/-- A head and, from some offset on, what follows are encoded into a part of the buffer. -/
theorem runs_encodeWithin {start size idx stop : Nat} {m : MajorType} {n : Nat} {p : Enc Unit} {bs out : Bytes}
    (hp : Emits p bs) (hsize : start + size ≤ out.length) (hout : out.length ≤ sizeMax)
    (hhead : cborHeadSize n ≤ size) (hend : idx + bs.length = stop) (hstop : stop ≤ size) :
  Runs (encodeWithin start size do
      encodeHead m n
      encodeSeek idx
      p
      encodeEndsAt stop) out ()
    (Bytes.overwrite (Bytes.overwrite out start (preferredHead m n)) (start + idx) bs)
  := by
  have hlen : ((out.drop start).take size).length = size := by
    rw [List.length_take, List.length_drop]
    omega
  have hpart : (Buffer.ofBytes ((out.drop start).take size)).bytes = (out.drop start).take size :=
    Buffer.bytes_ofBytes (by omega)
  let ctx₀ : EncCtx := .init (.ofBytes ((out.drop start).take size))
  have hsz : ctx₀.bufSz = size := by
    change (Buffer.ofBytes ((out.drop start).take size)).bytes.length = size
    rw [hpart, hlen]
  let ctx₁ : EncCtx := { ctx₀.put (preferredHead m n) with idx }
  have hrun : Runs (do
      encodeHead m n
      encodeSeek idx
      p
      encodeEndsAt stop : Enc Unit) ctx₀ () (ctx₁.put bs) := by
    simp only [runs_bind, encodeSeek, encodeEndsAt, runs_get, runs_set, runs_failIf]
    refine ⟨(), _, (emits_encodeHead m n).runs_of_fits ?_, (), ctx₁, ⟨_, _, ⟨rfl, rfl⟩, rfl⟩, (), _, hp.runs_of_fits ?_,
      _, _, ⟨rfl, rfl⟩, ?_, rfl⟩
    · rw [hsz, length_preferredHead]
      exact (Nat.zero_add _).le.trans hhead
    · change idx + bs.length ≤ (ctx₀.put (preferredHead m n)).bufSz
      rw [EncCtx.bufSz_put, hsz, hend]
      exact hstop
    · rw [EncCtx.idx_put, not_not]
      exact hend
  have hbytes : (ctx₁.put bs).buf.bytes =
      Bytes.overwrite (Bytes.overwrite ((out.drop start).take size) 0 (preferredHead m n)) idx bs := by
    change Bytes.overwrite (Bytes.overwrite (Buffer.ofBytes _).bytes 0 _) idx bs = _
    rw [hpart]
  have hsplit : out = out.take start ++ ((out.drop start).take size ++ out.drop (start + size)) := by
    rw [← List.drop_drop, List.take_append_drop, List.take_append_drop]
  have hstart : (out.take start).length = start := List.length_take_of_le (by omega)
  unfold encodeWithin
  rw [runs_bind]
  refine ⟨out, out, (runs_get _ _ _).mpr ⟨rfl, rfl⟩, ?_⟩
  rw [runs_bind]
  refine ⟨(), out, (runs_failIf _ _ _ _ _).mpr ⟨Nat.not_lt.mpr hsize, rfl⟩, ?_⟩
  rw [show (_ : Enc Unit) (EncCtx.init (.ofBytes ((out.drop start).take size))) = _ from hrun]
  have hfinal : Bytes.overwrite (Bytes.overwrite out start (preferredHead m n)) (start + idx) bs =
      Bytes.overwrite out start (ctx₁.put bs).buf.bytes := by
    have hb : (ctx₁.put bs).buf.bytes.length = size := by
      rw [hbytes, Bytes.length_overwrite, Bytes.length_overwrite, hlen]
    rw [Bytes.overwrite_eq (show start + (ctx₁.put bs).buf.bytes.length ≤ out.length by rw [hb]; exact hsize), hb,
      hbytes]
    conv_lhs => rw [hsplit]
    have hfirst : 0 + (preferredHead m n).length ≤ ((out.drop start).take size).length := by
      rw [length_preferredHead, hlen, Nat.zero_add]
      exact hhead
    have hsecond : idx + bs.length ≤ (Bytes.overwrite ((out.drop start).take size) 0 (preferredHead m n)).length := by
      rw [Bytes.length_overwrite, hlen, hend]
      exact hstop
    have h₁ := @Bytes.overwrite_middle (out.take start) _ (out.drop (start + size)) _ _ hfirst
    have h₂ := @Bytes.overwrite_middle (out.take start) _ (out.drop (start + size)) _ _ hsecond
    rw [hstart] at h₁ h₂
    rw [Nat.add_zero] at h₁
    rw [h₁, h₂, List.append_assoc]
  rw [hfinal]
  apply runs_storeBytes
  rw [hbytes, Bytes.length_overwrite, Bytes.length_overwrite, hlen]
  exact hsize

/-- A part is moved to behind a new head, and what follows it is encoded: between the head and the
bytes `rest`, which were moved before, no gap is left. -/
theorem runs_moveEncode {out content bs rest : Bytes} {start src size : Nat} {m : MajorType} {n : Nat} {p : Enc Unit}
    (hp : Emits p bs) (hcontent : (out.drop src).take content.length = content)
    (hsrc : src + content.length ≤ start + cborHeadSize n + content.length + bs.length)
    (hroom : cborHeadSize n + content.length + bs.length ≤ size) (hsize : start + size ≤ out.length)
    (hout : out.length ≤ sizeMax) :
  Runs (do
      moveBytes (start + cborHeadSize n) src content.length
      encodeWithin start size do
        encodeHead m n
        encodeSeek (cborHeadSize n + content.length)
        p
        encodeEndsAt (cborHeadSize n + content.length + bs.length))
    (Bytes.overwrite out (start + cborHeadSize n + content.length + bs.length) rest) ()
    (Bytes.overwrite out start (preferredHead m n ++ (content ++ (bs ++ rest))))
  := by
  have hsplice := Bytes.overwrite_splice out start (preferredHead m n) content bs rest
  rw [length_preferredHead] at hsplice
  rw [runs_bind]
  refine ⟨(), _, runs_moveBytes (Bytes.read_overwrite hsrc |>.trans hcontent) rfl ?_ ?_, ?_⟩
  · rw [Bytes.length_overwrite]
    omega
  · rw [Bytes.length_overwrite]
    omega
  · rw [← hsplice, Nat.add_assoc start (cborHeadSize n) content.length]
    apply runs_encodeWithin hp
    · rw [Bytes.length_overwrite, Bytes.length_overwrite]
      exact hsize
    · rw [Bytes.length_overwrite, Bytes.length_overwrite]
      exact hout
    · omega
    · rfl
    · exact hroom

/-! ### The plan -/

/-- No countersignature of the kind is there, neither under its label nor under that of the older
version. -/
def NewCounter.Fresh (counter : NewCounter) (spans : CounterSpans) : Prop :=
  if counter.abbreviated = true then spans.abbreviated = none ∧ spans.legacyAbbreviated = none
  else spans.full = none ∧ spans.legacyFull = none

/-- The plan for a countersignature under a label of its own. -/
structure EntryPlan (target : CounterTarget) (inputLen : Nat) (counter : NewCounter) (plan : AttachPlan) :
    Prop where
  replacement : plan.replacement = none
  fresh : counter.Fresh target.spans
  mapCount : target.mapCount < maxMapItems
  newMapCount : plan.newMapCount = target.mapCount + 1
  newMapHeadLen : plan.newMapHeadLen = cborHeadSize (target.mapCount + 1)
  delta : plan.delta = 1 + counter.value.length +
    (cborHeadSize (target.mapCount + 1) - (target.mapContentStart - target.mapStart))
  finalLen : plan.finalLen = inputLen + plan.delta

/-- The number of countersignatures after one is put beside others. -/
def CounterListInfo.newCount (info : CounterListInfo) : Nat :=
  if info.isList = true then info.count + 1 else 2

/-- The plan for a countersignature that is put beside others. -/
structure ReplacementPlan (target : CounterTarget) (input : Bytes) (counter : NewCounter) (plan : AttachPlan)
    (r : CounterReplacement) (span : Span) : Prop where
  replacement : plan.replacement = some r
  full : counter.abbreviated = false
  found : target.spans.full = some span
  legacy : target.spans.legacyFull = none
  info : counterListInfo ((input.drop span.start).take (span.stop - span.start)) = .ok r.listInfo
  count : r.listInfo.isList = true → r.listInfo.count < maxMapItems
  start : r.start = span.start
  oldValueLen : r.oldValueLen = ((input.drop span.start).take (span.stop - span.start)).length
  newValueLen : r.newValueLen = cborHeadSize r.listInfo.newCount +
    (r.oldValueLen - if r.listInfo.isList = true then r.listInfo.contentOffset else 0) + counter.value.length
  delta : plan.delta = r.newValueLen - r.oldValueLen
  finalLen : plan.finalLen = input.length + plan.delta

/-- The length of the countersignature is planned exactly. -/
theorem planValue_eq_ok {target : CounterTarget} {input : Bytes} {counter : NewCounter}
    (hkid : kidConsistent counter.kid) {n : Nat} {r : Option CounterReplacement}
    (h : planValue target input counter.protectedHdr.length counter.kid.len counter.sig.length counter.abbreviated
      = .ok (n, r)) :
  counter.value.length = n
    ∧ ((r = none ∧ counter.Fresh target.spans)
      ∨ ∃ span r', counter.abbreviated = false ∧ target.spans.full = some span ∧ target.spans.legacyFull = none
        ∧ r = some r'
        ∧ planReplacement ((input.drop span.start).take (span.stop - span.start)) span.start n = .ok r')
  := by
  unfold planValue at h
  unfold NewCounter.value NewCounter.Fresh
  split_ifs at h ⊢ with habbr
  · simp only [bind_eq_ok, rejectIf_eq_ok, not_or, Bool.not_eq_true, Option.isSome_eq_false_iff,
      Option.isNone_iff_eq_none, pure_eq_ok, Prod.mk.injEq] at h
    obtain ⟨_, hfresh, _, hn, rfl, rfl⟩ := h
    exact ⟨cborStringSize_eq_ok hn, .inl ⟨rfl, hfresh⟩⟩
  · simp only [bind_eq_ok, rejectIf_eq_ok, Bool.not_eq_true, Option.isSome_eq_false_iff, Option.isNone_iff_eq_none] at h
    obtain ⟨_, hlegacy, counterLen, hn, h⟩ := h
    have hlen := NewCounter.length_fullBytes hkid hn
    cases hfull : target.spans.full with
    | none =>
        rw [hfull] at h
        simp only [pure_eq_ok, Prod.mk.injEq] at h
        obtain ⟨rfl, rfl⟩ := h
        exact ⟨hlen, .inl ⟨rfl, rfl, hlegacy⟩⟩
    | some span =>
        rw [hfull] at h
        simp only [bind_eq_ok, pure_eq_ok, Prod.mk.injEq] at h
        obtain ⟨r', hr, rfl, rfl⟩ := h
        exact ⟨hlen, .inr ⟨span, r', Bool.not_eq_true _ ▸ habbr, rfl, hlegacy, rfl, hr⟩⟩

/-- What a plan that succeeds says. -/
theorem planAttachCounter_eq_ok {target : CounterTarget} {input : Bytes} {counter : NewCounter} {outSz : Nat}
    (hkid : kidConsistent counter.kid) {plan : AttachPlan}
    (h : planAttachCounter target input counter.protectedHdr.length counter.kid.len counter.sig.length
      counter.abbreviated outSz = .ok plan) :
  plan.finalLen ≤ outSz
    ∧ (EntryPlan target input.length counter plan ∨ ∃ r span, ReplacementPlan target input counter plan r span)
  := by
  simp only [planAttachCounter, bind_eq_ok] at h
  obtain ⟨⟨n, r⟩, hvalue, h⟩ := h
  obtain ⟨hn, ⟨rfl, hfresh⟩ | ⟨span, r', habbr, hspan, hlegacy, rfl, hr⟩⟩ := planValue_eq_ok hkid hvalue
  · simp only [bind_eq_ok, rejectIf_eq_ok, sizeAdd_eq_ok, pure_eq_ok] at h
    obtain ⟨_, hcount, _, ⟨-, rfl⟩, _, ⟨-, rfl⟩, _, ⟨-, rfl⟩, _, hsize, rfl⟩ := h
    refine ⟨Nat.not_lt.mp hsize, .inl ⟨rfl, hfresh, Nat.not_le.mp hcount, rfl, rfl, ?_, rfl⟩⟩
    rw [hn]
  · simp only [bind_eq_ok, rejectIf_eq_ok, sizeAdd_eq_ok, pure_eq_ok] at h
    obtain ⟨_, ⟨-, rfl⟩, _, hsize, rfl⟩ := h
    simp only [planReplacement, bind_eq_ok] at hr
    obtain ⟨info, hinfo, hr⟩ := hr
    refine ⟨Nat.not_lt.mp hsize, .inr ⟨r', span, ?_⟩⟩
    by_cases hlist : info.isList = true
    · simp only [hlist, if_true, bind_eq_ok, rejectIf_eq_ok, sizeAdd_eq_ok, pure_eq_ok] at hr
      obtain ⟨_, hcount, _, ⟨-, rfl⟩, _, ⟨-, rfl⟩, rfl⟩ := hr
      refine ⟨rfl, habbr, hspan, hlegacy, hinfo, fun _ => Nat.not_le.mp hcount, rfl, rfl, ?_, rfl, rfl⟩
      simp only [CounterListInfo.newCount, hlist, if_true, hn]
    · simp only [hlist, Bool.false_eq_true, if_false, bind_eq_ok, sizeAdd_eq_ok, pure_eq_ok] at hr
      obtain ⟨_, ⟨-, rfl⟩, _, ⟨-, rfl⟩, rfl⟩ := hr
      refine ⟨rfl, habbr, hspan, hlegacy, hinfo, fun h => absurd h hlist, rfl, rfl, ?_, rfl, rfl⟩
      simp only [CounterListInfo.newCount, hlist, Bool.false_eq_true, if_false, hn, Nat.sub_zero]

/-! ### The message that is written -/

/-- The message with other entries in its unprotected map. -/
def CounterParts.withEntries (p : CounterParts) (es : List Entry) : CounterParts :=
  { p with head := .ofHead .map es.length, entries := es }

/-- The list of countersignatures, or the single one, with one more at its end. -/
def extendedValue (info : CounterListInfo) (value counter : Bytes) : Bytes :=
  preferredHead .array info.newCount ++ (value.drop info.contentOffset ++ counter)

namespace CounterMessage

variable {detached : Pointer} {input : Buffer} {p : CounterParts} {target : CounterTarget}

/-- The head of the map is the one the encoder writes for it. -/
theorem head_eq (h : CounterMessage detached input p target) :
  p.head = .ofHead .map p.entries.length
  := by
  obtain ⟨_, _, _, -, -, -, -, hmap⟩ := h.buckets
  have hhead := hmap.map.head
  rw [← hhead.val, ← hhead.major]
  apply hhead.accepted.eq_ofHead
  · rw [hhead.major]
    decide
  · rw [hhead.major]
    rfl

/-- The parts of the message around the entries of its map. -/
theorem bytes_eq (h : CounterMessage detached input p target) :
  input.bytes = p.start ++ (preferredHead .map p.entries.length ++ (entriesBytes p.entries ++ p.tail))
  := by
  rw [h.input_eq, CounterParts.bytes, mapBytes, h.head_eq, Token.bytes_ofHead, List.append_assoc]

theorem length_head (h : CounterMessage detached input p target) :
  p.head.bytes.length = cborHeadSize p.entries.length
  := by
  rw [h.head_eq, Token.bytes_ofHead, length_preferredHead]

theorem length_input (h : CounterMessage detached input p target) :
  input.bytes.length = target.mapEnd + p.tail.length
  := by
  rw [h.input_eq, h.mapEnd, CounterParts.bytes]
  simp only [List.length_append]
  omega

end CounterMessage

omit [Settings] in
theorem CounterParts.bytes_withEntries (p : CounterParts) (es : List Entry) :
  (p.withEntries es).bytes = p.start ++ (preferredHead .map es.length ++ (entriesBytes es ++ p.tail))
  := by
  rw [CounterParts.bytes, mapBytes, CounterParts.withEntries]
  dsimp only
  rw [Token.bytes_ofHead, List.append_assoc]
  rfl

omit [Settings] in
/-- The head of a map does not get shorter with one more entry. -/
theorem cborHeadSize_le_succ (n : Nat) :
  cborHeadSize n ≤ cborHeadSize (n + 1)
  := by
  unfold cborHeadSize
  split_ifs <;> omega

/-- A new entry is written behind the entries that are moved. -/
theorem runs_attachEntry {detached : Pointer} {input : Buffer} {p : CounterParts} {target : CounterTarget}
    {counter : NewCounter} {plan : AttachPlan} (h : CounterMessage detached input p target)
    (hplan : EntryPlan target input.bytes.length counter plan) (hkid : kidConsistent counter.kid)
    {rest : Bytes} (hrest : plan.finalLen ≤ (input.bytes ++ rest).length)
    (hsize : (input.bytes ++ rest).length ≤ sizeMax) :
  Runs (attachEntry target plan counter)
    (Bytes.overwrite (input.bytes ++ rest) (target.mapEnd + plan.delta) p.tail) ()
    (Bytes.overwrite (input.bytes ++ rest) p.start.length (preferredHead .map (p.entries.length + 1) ++
      (entriesBytes p.entries ++ (counter.entry.bytes ++ p.tail))))
  := by
  have hlabel := counter.length_label
  have hhead := h.length_head
  have hle := cborHeadSize_le_succ p.entries.length
  have hentry : counter.entry.bytes.length = 1 + counter.value.length := by
    rw [Entry.bytes, List.length_append]
    exact congrArg (· + _) hlabel
  have hin := h.length_input
  have hend := h.mapEnd
  have hfinal := hplan.finalLen
  have hdelta := hplan.delta
  rw [h.mapContentStart, h.mapStart, h.mapCount, Nat.add_sub_cancel_left, hhead] at hdelta
  simp only [mapBytes, List.length_append] at hend
  have hcontent : ((input.bytes ++ rest).drop (p.start.length + p.head.bytes.length)).take
      (entriesBytes p.entries).length = entriesBytes p.entries := by
    have hsplit : input.bytes ++ rest = (p.start ++ preferredHead .map p.entries.length) ++
        (entriesBytes p.entries ++ (p.tail ++ rest)) := by
      rw [h.bytes_eq]
      simp only [List.append_assoc]
    rw [hsplit]
    apply Bytes.read_middle
    · rw [List.length_append, length_preferredHead, hhead]
    · rfl
  have hencode : Emits (do
      encodeInt (if counter.abbreviated = true then hdrCountersignature0V2 else hdrCountersignatureV2)
      if counter.abbreviated = true then encodeBstr (.mem counter.sig) else encodeFullCounter counter)
      counter.entry.bytes := by
    rw [Entry.bytes, NewCounter.entry]
    dsimp only
    rw [← intHead_eq]
    apply Emits.bind
    · apply emits_encodeInt
    · apply Emits.ite
      · intro _
        apply emits_encodeBstr_mem
      · intro _
        apply NewCounter.emits_encodeFullCounter hkid
  have hrun := @runs_moveEncode _ (input.bytes ++ rest) (entriesBytes p.entries) _ p.tail p.start.length
    (p.start.length + p.head.bytes.length) (plan.finalLen - p.start.length) .map (p.entries.length + 1) _ hencode
    hcontent (by omega) (by omega) (by omega) hsize
  simp only [bind_assoc] at hrun
  have hstart : p.start.length + cborHeadSize (p.entries.length + 1) + (entriesBytes p.entries).length - p.start.length =
      cborHeadSize (p.entries.length + 1) + (entriesBytes p.entries).length := by
    omega
  have hstop : target.mapEnd + plan.delta = p.start.length + cborHeadSize (p.entries.length + 1) +
      (entriesBytes p.entries).length + counter.entry.bytes.length := by
    omega
  have hstop' : target.mapEnd + plan.delta - p.start.length = cborHeadSize (p.entries.length + 1) +
      (entriesBytes p.entries).length + counter.entry.bytes.length := by
    omega
  have hcount : target.mapEnd - (p.start.length + p.head.bytes.length) = (entriesBytes p.entries).length := by
    omega
  rw [← hstop] at hrun
  unfold attachEntry
  simp only [h.mapStart, h.mapContentStart, hplan.newMapHeadLen, hplan.newMapCount, h.mapCount, hcount, hstart, hstop']
  cases habbr : counter.abbreviated with
  | true =>
      simp only [habbr, if_true] at hrun ⊢
      exact hrun
  | false =>
      simp only [habbr, Bool.false_eq_true, if_false] at hrun ⊢
      exact hrun

/-- The content of a value is what follows the head of a list, and the head gets no shorter. -/
theorem CounterListInfo.offset_le {value : Bytes} (hlen : value.length ≤ sizeMax) {info : CounterListInfo}
    (h : counterListInfo value = .ok info) :
  info.contentOffset ≤ value.length ∧ info.contentOffset ≤ cborHeadSize info.newCount
    ∧ (info.isList = false → info.contentOffset = 0)
  := by
  obtain ⟨rfl, -⟩ | ⟨items, hitems, rfl⟩ := (counterListInfo_eq_ok hlen).mp h
  · exact ⟨Nat.zero_le _, Nat.zero_le _, fun _ => rfl⟩
  · refine ⟨?_, ?_, fun h => absurd h.symm Bool.false_ne_true⟩
    · rw [hitems.value_eq, List.length_append]
      apply Nat.le_add_right
    · rw [length_preferredHead]
      apply cborHeadSize_le_succ

/-- The countersignature is written behind the content of the old value, which is moved. -/
theorem runs_attachReplacing {detached : Pointer} {input : Buffer} {p : CounterParts} {target : CounterTarget}
    {counter : NewCounter} {plan : AttachPlan} {r : CounterReplacement} {span : Span} {es₁ es₂ : List Entry} {e : Entry}
    (h : CounterMessage detached input p target) (hplan : ReplacementPlan target input.bytes counter plan r span)
    (hp : PlacedAt (p.start.length + p.head.bytes.length) p.entries (.int hdrCountersignatureV2) span es₁ e es₂)
    (hkid : kidConsistent counter.kid) {rest : Bytes} (hrest : plan.finalLen ≤ (input.bytes ++ rest).length)
    (hsize : (input.bytes ++ rest).length ≤ sizeMax) :
  Runs (attachReplacing target r counter)
    (Bytes.overwrite (input.bytes ++ rest) (target.mapEnd + plan.delta) p.tail) ()
    (Bytes.overwrite (input.bytes ++ rest) span.start (extendedValue r.listInfo e.value counter.value ++
      (entriesBytes es₂ ++ p.tail)))
  := by
  have hvalue := h.value_at hp
  have hold := hplan.oldValueLen
  have hinfo := hplan.info
  rw [hvalue] at hold hinfo
  have hbytes : input.bytes ++ rest = (p.start ++ (p.head.bytes ++ (entriesBytes es₁ ++ e.token.bytes))) ++
      (e.value ++ (entriesBytes es₂ ++ (p.tail ++ rest))) := by
    rw [h.input_eq, CounterParts.bytes, mapBytes, hp.entries, entriesBytes_append, entriesBytes_cons, Entry.bytes]
    simp only [List.append_assoc]
  have hstart : span.start = (p.start ++ (p.head.bytes ++ (entriesBytes es₁ ++ e.token.bytes))).length := by
    rw [hp.start]
    simp only [List.length_append]
    omega
  have hin := h.length_input
  have hend := h.mapEnd
  rw [hp.entries, mapBytes, entriesBytes_append, entriesBytes_cons, Entry.bytes] at hend
  simp only [List.length_append] at hend hstart
  have hlen : e.value.length ≤ sizeMax := by
    have := input.length_le
    omega
  obtain ⟨hoff, hhead, hzero⟩ := CounterListInfo.offset_le hlen hinfo
  have hfinal := hplan.finalLen
  have hdelta := hplan.delta
  have hnew := hplan.newValueLen
  have hoffset : (if r.listInfo.isList = true then r.listInfo.contentOffset else 0) = r.listInfo.contentOffset := by
    split_ifs with hlist
    · rfl
    · exact (hzero (Bool.not_eq_true _ ▸ hlist)).symm
  have hcontentLen : (e.value.drop r.listInfo.contentOffset).length = e.value.length - r.listInfo.contentOffset :=
    List.length_drop
  rw [hoffset, hold] at hnew
  rw [hold] at hdelta
  -- what follows the value in the map moves behind the new value
  have hmove : Runs (moveBytes (span.start + r.newValueLen) (span.start + e.value.length) (entriesBytes es₂).length)
      (Bytes.overwrite (input.bytes ++ rest) (target.mapEnd + plan.delta) p.tail) ()
      (Bytes.overwrite (input.bytes ++ rest) (span.start + r.newValueLen) (entriesBytes es₂ ++ p.tail)) := by
    rw [← Bytes.overwrite_prepend, show span.start + r.newValueLen + (entriesBytes es₂).length =
      target.mapEnd + plan.delta by omega]
    apply runs_moveBytes
    · rw [Bytes.read_overwrite (by omega), hbytes, ← List.append_assoc _ e.value]
      apply Bytes.read_middle
      · rw [List.length_append]
        simp only [List.length_append]
        omega
      · rfl
    · rfl
    · rw [Bytes.length_overwrite]
      omega
    · rw [Bytes.length_overwrite]
      omega
  have hcontent : ((input.bytes ++ rest).drop (span.start + r.listInfo.contentOffset)).take
      (e.value.drop r.listInfo.contentOffset).length = e.value.drop r.listInfo.contentOffset := by
    have hsplit : input.bytes ++ rest = (p.start ++ (p.head.bytes ++ (entriesBytes es₁ ++ (e.token.bytes ++
        e.value.take r.listInfo.contentOffset)))) ++ (e.value.drop r.listInfo.contentOffset ++
        (entriesBytes es₂ ++ (p.tail ++ rest))) := by
      rw [hbytes]
      conv_lhs => rw [← List.take_append_drop r.listInfo.contentOffset e.value]
      simp only [List.append_assoc]
    rw [hsplit]
    apply Bytes.read_middle
    · simp only [List.length_append, List.length_take]
      omega
    · rfl
  have hfull : counter.value = counter.fullBytes := by
    rw [NewCounter.value, hplan.full, if_neg Bool.false_ne_true]
  rw [hfull] at hnew
  have hrun := @runs_moveEncode _ (input.bytes ++ rest) _ counter.fullBytes (entriesBytes es₂ ++ p.tail) span.start
    (span.start + r.listInfo.contentOffset) r.newValueLen .array r.listInfo.newCount _
    (NewCounter.emits_encodeFullCounter hkid) hcontent (by omega) (by omega) (by omega) hsize
  have hstop : cborHeadSize r.listInfo.newCount + (e.value.length - r.listInfo.contentOffset) +
      counter.fullBytes.length = r.newValueLen := hnew.symm
  have hstop' : span.start + cborHeadSize r.listInfo.newCount + (e.value.length - r.listInfo.contentOffset) +
      counter.fullBytes.length = span.start + r.newValueLen := by
    omega
  have hafter : target.mapEnd - (span.start + e.value.length) = (entriesBytes es₂).length := by
    omega
  rw [hcontentLen, hstop, hstop'] at hrun
  unfold attachReplacing
  simp only [hplan.start, hold, hafter]
  rw [runs_bind]
  refine ⟨(), _, hmove, ?_⟩
  rw [extendedValue, hfull]
  simp only [List.append_assoc]
  exact hrun

/-- The entries of a map after a countersignature is attached: it has an entry of its own, or the
value of an entry is extended by it. -/
inductive Attached (counter : NewCounter) (es : List Entry) : List Entry → Prop where
  | entry : Attached counter es (es ++ [counter.entry])
  | extended {es₁ es₂ : List Entry} {e : Entry} {info : CounterListInfo} :
      es = es₁ ++ e :: es₂ → e.label = .int hdrCountersignatureV2 → counterListInfo e.value = .ok info →
      Attached counter es (es₁ ++ { e with value := extendedValue info e.value counter.value } :: es₂)

/-- What a plan attaches. -/
def AttachPlan.Attaches (plan : AttachPlan) (p : CounterParts) (counter : NewCounter) (es : List Entry) : Prop :=
  Attached counter p.entries es ∧ (p.withEntries es).bytes.length = plan.finalLen

omit [Settings] in
/-- The two ways to fill the output buffer leave the same message at its start. -/
theorem runs_copyInput {input out : Bytes} {inPlace : Bool} (hroom : input.length ≤ out.length)
    (hin : inPlace = true → out.take input.length = input) :
  Runs (onlyIf (inPlace = false) (storeBytes 0 input)) out () (input ++ out.drop input.length)
  := by
  rw [runs_onlyIf]
  cases inPlace with
  | true =>
      refine .inr ⟨Bool.noConfusion, ?_⟩
      conv_rhs => rw [← hin rfl, List.length_take_of_le hroom]
      rw [List.take_append_drop]
  | false =>
      refine .inl ⟨rfl, ?_⟩
      have h := @runs_storeBytes 0 input out (by omega)
      rw [Bytes.overwrite_eq (by omega), Nat.zero_add] at h
      exact h

/-- The bytes behind the map move first. -/
theorem CounterMessage.runs_moveTail {detached : Pointer} {input : Buffer} {p : CounterParts} {target : CounterTarget}
    (h : CounterMessage detached input p target) {delta : Nat} {out : Bytes}
    (hroom : input.bytes.length + delta ≤ out.length) :
  Runs (moveBytes (target.mapEnd + delta) target.mapEnd (input.bytes.length - target.mapEnd))
    (input.bytes ++ out.drop input.bytes.length) ()
    (Bytes.overwrite (input.bytes ++ out.drop input.bytes.length) (target.mapEnd + delta) p.tail)
  := by
  have hin := h.length_input
  have hn : input.bytes.length - target.mapEnd = p.tail.length := by
    omega
  have hlen : (input.bytes ++ out.drop input.bytes.length).length = out.length := by
    rw [List.length_append, List.length_drop]
    omega
  have hsplit : input.bytes ++ out.drop input.bytes.length =
      (p.start ++ mapBytes p.head p.entries) ++ (p.tail ++ out.drop input.bytes.length) := by
    generalize out.drop input.bytes.length = rest
    rw [h.input_eq, CounterParts.bytes]
    simp only [List.append_assoc]
  rw [hn]
  apply runs_moveBytes
  · rw [hsplit]
    apply Bytes.read_middle
    · rw [h.mapEnd]
      exact List.length_append.symm
    · rfl
  · rfl
  · rw [hlen]
    omega
  · rw [hlen]
    omega

omit [Settings] in
/-- A message that keeps a part of the input and then is written anew. -/
theorem overwrite_message {input out pre ws message : Bytes} (hmessage : message = pre ++ ws)
    (hpre : pre <+: input) (hlen : input.length ≤ message.length) (hroom : message.length ≤ out.length) :
  Bytes.overwrite (input ++ out.drop input.length) pre.length ws = message ++ out.drop message.length
  := by
  obtain ⟨post, rfl⟩ := hpre
  have hws : pre.length + ws.length = message.length := by
    rw [hmessage, List.length_append]
  rw [Bytes.overwrite_eq (by rw [List.length_append, List.length_drop]; omega), hws, List.drop_append,
    List.drop_eq_nil_of_le hlen, List.nil_append, List.drop_drop, Nat.add_sub_cancel' hlen, List.append_assoc pre,
    List.take_left, ← hmessage]

/-- A plan that succeeds is carried out: the new message stands at the start of the output buffer,
and the rest of the buffer is as before. -/
theorem runs_attachCounter {detached : Pointer} {input : Buffer} {p : CounterParts} {target : CounterTarget}
    {counter : NewCounter} {plan : AttachPlan} {outSz : Nat} (h : CounterMessage detached input p target)
    (hkid : kidConsistent counter.kid)
    (hplan : planAttachCounter target input.bytes counter.protectedHdr.length counter.kid.len counter.sig.length
      counter.abbreviated outSz = .ok plan) :
  ∃ es, plan.Attaches p counter es ∧ ∀ (inPlace : Bool) (out : Bytes), plan.finalLen ≤ out.length →
    out.length ≤ sizeMax → (inPlace = true → out.take input.bytes.length = input.bytes) →
    Runs (attachCounter target plan input.bytes inPlace counter) out plan.finalLen
      ((p.withEntries es).bytes ++ out.drop plan.finalLen)
  := by
  have hin := h.length_input
  have hend := h.mapEnd
  have hhead := h.length_head
  simp only [mapBytes, List.length_append] at hend
  obtain ⟨hsz, hentry | ⟨r, span, hrepl⟩⟩ := planAttachCounter_eq_ok hkid hplan
  · have hle := cborHeadSize_le_succ p.entries.length
    have hbytes := p.bytes_withEntries (p.entries ++ [counter.entry])
    rw [List.length_append, List.length_singleton, entriesBytes_append, entriesBytes_cons, entriesBytes_nil,
      List.append_nil, List.append_assoc] at hbytes
    have hfinal := hentry.finalLen
    have hdelta := hentry.delta
    rw [h.mapContentStart, h.mapStart, h.mapCount, Nat.add_sub_cancel_left, hhead] at hdelta
    have hlen : (p.withEntries (p.entries ++ [counter.entry])).bytes.length = plan.finalLen := by
      have hlabel := counter.length_label
      have hentry : counter.entry.bytes.length = 1 + counter.value.length := by
        rw [Entry.bytes, List.length_append]
        exact congrArg (· + _) hlabel
      rw [hbytes]
      simp only [List.length_append, length_preferredHead]
      omega
    refine ⟨_, ⟨.entry, hlen⟩, ?_⟩
    intro inPlace out hroom hsize hinPlace
    have hall : (input.bytes ++ out.drop input.bytes.length).length = out.length := by
      rw [List.length_append, List.length_drop]
      omega
    have hattach : Runs (attachEntry target plan counter)
        (Bytes.overwrite (input.bytes ++ out.drop input.bytes.length) (target.mapEnd + plan.delta) p.tail) () _ :=
      runs_attachEntry h hentry hkid (by omega) (by omega)
    rw [overwrite_message hbytes (by rw [h.bytes_eq]; apply List.prefix_append) (by omega) (by omega), hlen] at hattach
    simp only [attachCounter, runs_bind, hentry.replacement, runs_pure]
    exact ⟨(), _, runs_copyInput (by omega) hinPlace, (), _, h.runs_moveTail (by omega), (), _, hattach, trivial, rfl⟩
  · obtain ⟨es₁, e, es₂, hp⟩ := h.placed (.inl rfl) (hrepl.found : target.spans.spanAt (.int hdrCountersignatureV2) = _)
    have hvalue := h.value_at hp
    have hinfo := hrepl.info
    have hold := hrepl.oldValueLen
    rw [hvalue] at hinfo hold
    let new := extendedValue r.listInfo e.value counter.value
    let es := es₁ ++ { e with value := new } :: es₂
    let pre := p.start ++ (preferredHead .map p.entries.length ++ (entriesBytes es₁ ++ e.token.bytes))
    have hcount : es.length = p.entries.length := by
      rw [hp.entries]
      simp only [es, List.length_append, List.length_cons]
    have hbytes : (p.withEntries es).bytes = pre ++ (new ++ (entriesBytes es₂ ++ p.tail)) := by
      rw [p.bytes_withEntries, hcount]
      simp only [es, pre, entriesBytes_append, entriesBytes_cons, Entry.bytes, List.append_assoc]
    have hold' : entriesBytes p.entries = entriesBytes es₁ ++ (e.token.bytes ++ (e.value ++ entriesBytes es₂)) := by
      rw [hp.entries, entriesBytes_append, entriesBytes_cons, Entry.bytes, List.append_assoc]
    have hinput : input.bytes = pre ++ (e.value ++ (entriesBytes es₂ ++ p.tail)) := by
      rw [h.bytes_eq, hold']
      simp only [pre, List.append_assoc]
    have hpre : pre.length = span.start := by
      rw [hp.start, hhead]
      simp only [pre, List.length_append, length_preferredHead]
      omega
    have hsizes := congrArg List.length hinput
    simp only [List.length_append, hpre] at hsizes
    have hlenValue : e.value.length ≤ sizeMax := by
      have := input.length_le
      omega
    obtain ⟨hoff, hsize, hzero⟩ := CounterListInfo.offset_le hlenValue hinfo
    have hoffset : (if r.listInfo.isList = true then r.listInfo.contentOffset else 0) = r.listInfo.contentOffset := by
      split_ifs with hlist
      · rfl
      · exact (hzero (Bool.not_eq_true _ ▸ hlist)).symm
    have hfinal := hrepl.finalLen
    have hdelta := hrepl.delta
    have hnew := hrepl.newValueLen
    rw [hoffset, hold] at hnew
    have hnewLen : new.length = r.newValueLen := by
      simp only [new, extendedValue, List.length_append, length_preferredHead, List.length_drop]
      omega
    have hlen : (p.withEntries es).bytes.length = plan.finalLen := by
      rw [hbytes]
      simp only [List.length_append, hpre, hnewLen]
      omega
    refine ⟨es, ⟨.extended hp.entries hp.label hinfo, hlen⟩, ?_⟩
    intro inPlace out hroom hsize hinPlace
    have hall : (input.bytes ++ out.drop input.bytes.length).length = out.length := by
      rw [List.length_append, List.length_drop]
      omega
    have hattach : Runs (attachReplacing target r counter)
        (Bytes.overwrite (input.bytes ++ out.drop input.bytes.length) (target.mapEnd + plan.delta) p.tail) () _ :=
      runs_attachReplacing h hrepl hp hkid (by omega) (by omega)
    rw [← hpre, overwrite_message hbytes (by rw [hinput]; apply List.prefix_append) (by omega) (by omega), hlen] at hattach
    simp only [attachCounter, runs_bind, hrepl.replacement, runs_pure]
    exact ⟨(), _, runs_copyInput (by omega) hinPlace, (), _, h.runs_moveTail (by omega), (), _, hattach, trivial, rfl⟩

end WolfCose
