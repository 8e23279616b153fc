import WolfCose.Countersign.Reparse
import WolfCose.Countersign.Selected
import WolfCose.Hdr.Crit

/-!
# A countersignature is appended

Of a message with an added countersignature everything that a countersignature covers is as before, and so are the
countersignatures that were there, with their indices: the new one has the next index.
-/

namespace WolfCose

open Program Cbor Settings WolfCrypt

section

variable [Settings]

/-! ### The value of a label -/

/-- The value that a target has found for a label. -/
def CounterTarget.valueAt (target : CounterTarget) (input : Bytes) (label : Label) : Option Bytes :=
  (target.spans.spanAt label).map fun span => (input.drop span.start).take (span.stop - span.start)

/-- The value of a label is that of the entry with the label. -/
theorem CounterMessage.valueAt_eq_some {detached : Pointer} {input : Buffer} {p : CounterParts} {target : CounterTarget}
    (h : CounterMessage detached input p target) {l : Label} (hl : CounterLabel l) {value : Bytes} :
  target.valueAt input.bytes l = some value ↔ ∃ e ∈ p.entries, e.label = l ∧ e.value = value
  := by
  unfold CounterTarget.valueAt
  cases hspan : target.spans.spanAt l with
  | none =>
      have hnot := h.absent hl hspan
      simp only [Option.map_none, reduceCtorEq, false_iff]
      rintro ⟨e, he, rfl, -⟩
      exact hnot (List.mem_map_of_mem he)
  | some span =>
      obtain ⟨es₁, e, es₂, hp⟩ := h.placed hl hspan
      have hmem : e ∈ p.entries := hp.entries ▸ List.mem_append_right _ List.mem_cons_self
      rw [Option.map_some, h.value_at hp, Option.some.injEq]
      constructor
      · intro hv
        exact ⟨e, hmem, hp.label, hv⟩
      · rintro ⟨e', he', hl', rfl⟩
        rw [eq_of_label h.nodup hmem he' (hp.label.trans hl'.symm)]

/-- A label has no value if no entry has it. -/
theorem CounterMessage.valueAt_eq_none {detached : Pointer} {input : Buffer} {p : CounterParts} {target : CounterTarget}
    (h : CounterMessage detached input p target) {l : Label} (hl : CounterLabel l) :
  target.valueAt input.bytes l = none ↔ l ∉ labelsOf p.entries
  := by
  constructor
  · intro hnone hmem
    obtain ⟨e, he, hlabel⟩ := List.mem_map.mp hmem
    rw [(h.valueAt_eq_some hl).mpr ⟨e, he, hlabel, rfl⟩] at hnone
    cases hnone
  · intro hnot
    cases hv : target.valueAt input.bytes l with
    | none => rfl
    | some value =>
        obtain ⟨e, he, rfl, -⟩ := (h.valueAt_eq_some hl).mp hv
        exact absurd (List.mem_map_of_mem he) hnot

/-! ### The new countersignature -/

/-- The label of full countersignatures. -/
abbrev fullLabel : Label := .int hdrCountersignatureV2

/-- The label of an abbreviated countersignature. -/
abbrev abbreviatedLabel : Label := .int hdrCountersignature0V2

/-- The headers of a countersignature that is created. -/
def NewCounter.headers (counter : NewCounter) (alg : Int) : Headers :=
  ⟨counter.protectedHdr, { Hdr.zero with alg, kid := hdrKidOf counter.kid }, true⟩

/-- A full countersignature that is created is decoded to its headers and its signature. -/
theorem NewCounter.fullCounterValue {counter : NewCounter} {alg : Int} (halg : inInt32Range alg = true)
    (hprot : algProtectedHdr alg = .ok counter.protectedHdr) (hsized : counter.Sized)
    (hfull : counter.abbreviated = false) :
  FullCounterValue counter.fullBytes (counter.headers alg, counter.sig)
  := by
  refine ⟨stringBytes .bstr counter.protectedHdr ++ kidBytes counter.kid, stringBytes .bstr counter.sig, ?_,
    headersValue_kid halg hprot (hsized.2 hfull).2, bstrValue_stringBytes hsized.1⟩
  rw [fullBytes]
  simp only [List.append_assoc]

theorem NewCounter.counterItem {counter : NewCounter} {alg : Int} (halg : inInt32Range alg = true)
    (hprot : algProtectedHdr alg = .ok counter.protectedHdr) (hsized : counter.Sized)
    (hfull : counter.abbreviated = false) :
  CounterItem counter.fullBytes
  := ⟨items_fullBytes hsized hfull (Nat.le_trans (by decide) four_le_maxDepth), _,
    counter.fullCounterValue halg hprot hsized hfull⟩

/-- What a message with an added countersignature has in common with the message before, and what it has in
addition. -/
structure CounterAdded (counter : NewCounter) (input output : Bytes) (target target' : CounterTarget) : Prop where
  tag : target'.tag = target.tag
  bodyProtected : target'.bodyProtected = target.bodyProtected
  payload : target'.payload = target.payload
  other : target'.other = target.other
  before : target'.mapStart = target.mapStart ∧ output.take target'.mapStart = input.take target.mapStart
  after : output.drop target'.mapEnd = input.drop target.mapEnd
  entries : ∃ head head' es es', (input.drop target.mapStart).take (target.mapEnd - target.mapStart) = mapBytes head es
    ∧ (output.drop target'.mapStart).take (target'.mapEnd - target'.mapStart) = mapBytes head' es'
    ∧ es'.filter (·.label ≠ .int counter.label) = es.filter (·.label ≠ .int counter.label)
  kept : ∀ l, CounterLabel l → l ≠ .int counter.label → target'.valueAt output l = target.valueAt input l
  abbreviated : counter.abbreviated = true → target.valueAt input abbreviatedLabel = none
    ∧ target'.valueAt output abbreviatedLabel = some (stringBytes .bstr counter.sig)
  full : counter.abbreviated = false → ∃ items, HasCounters (target.valueAt input fullLabel) items
    ∧ HasCounters (target'.valueAt output fullLabel) (items ++ [counter.fullBytes])

/-- Only the entry of the new countersignature changes. -/
theorem Planned.filter_eq {counter : NewCounter} {spans : CounterSpans} {es es' : List Entry}
    (h : Planned counter spans es es') :
  es'.filter (·.label ≠ .int counter.label) = es.filter (·.label ≠ .int counter.label)
  := by
  cases h with
  | entry => simp [NewCounter.entry]
  | extended hfull _ heq hlabel =>
      have hl : NewCounter.label counter = hdrCountersignatureV2 := by
        rw [NewCounter.label, hfull, if_neg Bool.false_ne_true]
      simp [heq, hl, hlabel]

theorem Planned.length_value_le {counter : NewCounter} {spans : CounterSpans} {es es' : List Entry}
    (h : Planned counter spans es es') :
  counter.value.length ≤ (entriesBytes es').length
  := by
  cases h with
  | entry =>
      simp only [entriesBytes_append, entriesBytes_cons, Entry.bytes, NewCounter.entry, List.length_append]
      omega
  | extended =>
      simp only [entriesBytes_append, entriesBytes_cons, Entry.bytes, extendedValue, List.length_append]
      omega

/-- The parts of a message are found at the places of its target. -/
theorem CounterMessage.parts_eq {detached : Pointer} {input : Buffer} {p : CounterParts} {target : CounterTarget}
    (h : CounterMessage detached input p target) :
  input.bytes.take target.mapStart = p.start
    ∧ (input.bytes.drop target.mapStart).take (target.mapEnd - target.mapStart) = mapBytes p.head p.entries
    ∧ input.bytes.drop target.mapEnd = p.tail
  := by
  rw [h.mapStart, h.mapEnd, h.input_eq, CounterParts.bytes, Nat.add_sub_cancel_left]
  refine ⟨List.take_left, ?_, ?_⟩
  · rw [List.drop_left, List.take_left]
  · rw [← List.append_assoc, ← List.length_append, List.drop_left]

/-- A message in which a countersignature has been attached has it in addition to what was there. -/
theorem CounterMessage.added {detached : Pointer} {input output : Buffer} {p : CounterParts} {target target' : CounterTarget}
    {counter : NewCounter} {es : List Entry} {spans : CounterSpans} (h : CounterMessage detached input p target)
    (hplanned : Planned counter target.spans p.entries es)
    (hitem : counter.abbreviated = false → CounterItem counter.fullBytes)
    (h' : CounterMessage detached output (p.withEntries es) target') (htarget : target' = target.withEntries p es spans) :
  CounterAdded counter input.bytes output.bytes target target'
  := by
  obtain ⟨hstart, hmap, htail⟩ := h.parts_eq
  obtain ⟨hstart', hmap', htail'⟩ := h'.parts_eq
  have hfilter := hplanned.filter_eq
  have hmem (e : Entry) (hl : e.label ≠ .int counter.label) : e ∈ es ↔ e ∈ p.entries := by
    have hiff : e ∈ es.filter (·.label ≠ .int counter.label) ↔ e ∈ p.entries.filter (·.label ≠ .int counter.label) := by
      rw [hfilter]
    simp only [List.mem_filter, decide_eq_true_eq] at hiff
    constructor
    · intro he
      exact (hiff.mp ⟨he, hl⟩).1
    · intro he
      exact (hiff.mpr ⟨he, hl⟩).1
  constructor
  · rw [htarget]
    rfl
  · rw [htarget]
    rfl
  · rw [htarget]
    rfl
  · rw [htarget]
    rfl
  · rw [hstart, hstart', htarget]
    exact ⟨rfl, rfl⟩
  · rw [htail, htail']
    rfl
  · exact ⟨_, _, _, _, hmap, hmap', hfilter⟩
  · intro l hl hne
    apply Option.ext
    intro value
    rw [h'.valueAt_eq_some hl, h.valueAt_eq_some hl]
    constructor
    · rintro ⟨e, he, rfl, hv⟩
      exact ⟨e, (hmem e hne).mp he, rfl, hv⟩
    · rintro ⟨e, he, rfl, hv⟩
      exact ⟨e, (hmem e hne).mpr he, rfl, hv⟩
  · intro habbr
    cases hplanned with
    | entry hfresh hcount =>
        have hl : NewCounter.label counter = hdrCountersignature0V2 := if_pos habbr
        have hnot := hfresh.label_not_mem h
        rw [hl] at hnot
        refine ⟨(h.valueAt_eq_none (.inr (.inl rfl))).mpr hnot, (h'.valueAt_eq_some (.inr (.inl rfl))).mpr ?_⟩
        refine ⟨counter.entry, List.mem_append_right _ List.mem_cons_self, congrArg Label.int hl, if_pos habbr⟩
    | extended hfull =>
        rw [habbr] at hfull
        cases hfull
  · intro hfull
    have hl : NewCounter.label counter = hdrCountersignatureV2 := by
      rw [NewCounter.label, hfull, if_neg Bool.false_ne_true]
    have hvalue : NewCounter.value counter = counter.fullBytes := by
      rw [NewCounter.value, hfull, if_neg Bool.false_ne_true]
    cases hplanned with
    | entry hfresh hcount =>
        have hnot := hfresh.label_not_mem h
        rw [hl] at hnot
        have hnew : target'.valueAt output.bytes fullLabel = some counter.fullBytes := by
          apply (h'.valueAt_eq_some (.inl rfl)).mpr
          exact ⟨counter.entry, List.mem_append_right _ List.mem_cons_self, congrArg Label.int hl, hvalue⟩
        rw [(h.valueAt_eq_none (.inl rfl)).mpr hnot, hnew]
        obtain ⟨r, hr⟩ := (hitem hfull).2
        exact ⟨[], .none, .single hr⟩
    | @extended es₁ es₂ e info _ hlegacy heq hlabel hinfo hcount =>
        have he : e ∈ p.entries := heq ▸ List.mem_append_right _ List.mem_cons_self
        have hnew : target'.valueAt output.bytes fullLabel = some (extendedValue info e.value counter.value) := by
          apply (h'.valueAt_eq_some (.inl rfl)).mpr
          exact ⟨_, List.mem_append_right _ List.mem_cons_self, hlabel, rfl⟩
        rw [(h.valueAt_eq_some (.inl rfl)).mpr ⟨e, he, hlabel, rfl⟩, hnew, hvalue]
        exact HasCounters.extended (h.length_value_le e he) hinfo hcount (h.shapes e he).1 (hitem hfull)

/-- A value that is a single countersignature leaves room for one more level of nesting. -/
def LeavesLevel (value : Bytes) : Prop :=
  counterListInfo value = .ok ⟨1, 0, false⟩ → Items (Accepted 0) (maxDepth - 1) 1 value

/-- A message in which a countersignature has been attached is parsed, unless a single countersignature becomes the
item of a list that then nests too deep; and it has the new one in addition to what was there. -/
theorem CounterMessage.parse_planned {detached : Pointer} {input output : Buffer} {p : CounterParts}
    {target : CounterTarget} {counter : NewCounter} {es : List Entry} (h : CounterMessage detached input p target)
    (hplanned : Planned counter target.spans p.entries es) (hsized : counter.Sized)
    (hitem : counter.abbreviated = false → CounterItem counter.fullBytes)
    (hout : output.bytes = (p.withEntries es).bytes) (hle : input.bytes.length ≤ output.bytes.length) :
  ((∃ target', parseCounterTarget output detached = .ok target')
      ↔ (counter.abbreviated = false → ∀ value, target.valueAt input.bytes fullLabel = some value → LeavesLevel value))
    ∧ ∀ target', parseCounterTarget output detached = .ok target' →
        CounterAdded counter input.bytes output.bytes target target'
  := by
  have hskipped : (∃ target', parseCounterTarget output detached = .ok target') → ∀ e ∈ es, SkippedValue 0 e.value := by
    rintro ⟨target', hparse⟩
    obtain ⟨q, hq⟩ := parseCounterTarget_eq_ok.mp hparse
    rw [← h.entries_of_bytes hplanned hsized hout hq]
    exact fun e he => (hq.shapes e he).1
  have hparsed : (∀ e ∈ es, SkippedValue 0 e.value) → ∃ spans, CounterMessage detached output (p.withEntries es)
      (target.withEntries p es spans) := h.planned hplanned hsized hout hle
  constructor
  · calc (∃ target', parseCounterTarget output detached = .ok target')
      _ ↔ ∀ e ∈ es, SkippedValue 0 e.value := by
        constructor
        · exact hskipped
        · intro hskip
          obtain ⟨spans, hmessage⟩ := hparsed hskip
          exact ⟨_, hmessage.parse⟩
      _ ↔ _ := h.skipped_planned_iff hplanned hsized
      _ ↔ _ := by
        constructor
        · intro hlevel hfull value hvalue
          obtain ⟨e, he, hlabel, rfl⟩ := (h.valueAt_eq_some (.inl rfl)).mp hvalue
          exact hlevel hfull e he hlabel
        · intro hlevel hfull e he hlabel
          exact hlevel hfull e.value ((h.valueAt_eq_some (.inl rfl)).mpr ⟨e, he, hlabel, rfl⟩)
  · intro target' hparse
    obtain ⟨spans, hmessage⟩ := hparsed (hskipped ⟨target', hparse⟩)
    have hsame := hmessage.parse
    rw [hparse] at hsame
    rw [Except.ok.inj hsame]
    exact h.added hplanned hitem hmessage rfl

end

section

variable [WolfCrypt] [Settings]

omit [WolfCrypt] in
theorem range_of_sigSize {alg : Int} {n : Nat} (h : sigSize alg = .ok n) :
  -53 ≤ alg ∧ alg ≤ -7
  := by
  unfold sigSize algEd25519 algEd448 algMlDsa44 algMlDsa65 algMlDsa87 at h
  -- the length for EdDSA is chosen by the build and has no branch of its own
  generalize (if haveEd448 = true then 114 else 64) = edLen at h
  split_ifs at h with h₁ h₂ h₃ h₄ h₅ h₆ h₇ h₈ h₉
  · have := h₁.values
    omega
  · have := h₂.values
    omega
  · have := h₃.values
    omega
  · have := h₄.value
    omega
  · have := h₅.2
    omega
  · have := h₆.2
    omega
  · have := h₇.2
    omega
  · have := h₈.2
    omega
  · have := h₉.2
    omega

/-- A signature has a length for the algorithms of signatures. -/
theorem inInt32Range_of_signSigLen {key : Key} {alg : Int} {n : Nat} (h : signSigLen (some key) alg = .ok n) :
  inInt32Range alg = true
  := by
  have range (hval : -53 ≤ alg ∧ alg ≤ -7) : inInt32Range alg = true := by
    simp only [inInt32Range, Bool.and_eq_true, decide_eq_true_eq]
    omega
  apply range
  by_cases hed : isEddsa alg
  · have := hed.value
    omega
  by_cases hpss : isPss alg
  · have := hpss.values
    omega
  by_cases hlms : alg = algHssLms
  · rw [hlms]
    decide
  exact range_of_sigSize (signSigLen_sigSize h hed hpss hlms)

namespace Added

variable {m : Memory} {request : CounterRequest} {args : AddArgs} {env : Env} {r : AddOut} {key : Key}
  {prepared : Prepared} {sig : Bytes} {p : CounterParts} {es : List Entry}

/-- The checks of the planner hold of what is written. -/
theorem planned (h : Added m request args env r key prepared sig p es) :
  Planned (newCounter m request prepared sig) prepared.target.spans p.entries es
  := by
  have hprepared := addPrepare_ok h.prepare
  have hsize := le_sizeMax_of_fits h.layout.lengths.2.2.2.2
  apply h.attaches.planned h.message h.layout.kid _ hsize
  · intro out hlen htake
    have hrun := h.attachesAs true out (Nat.le_of_eq hlen.symm) (by rw [hlen]; exact h.finalLen.trans hsize) fun _ => htake
    rw [← hlen, List.drop_length, List.append_nil] at hrun
    rw [← hlen]
    exact hrun
  · have hplan := hprepared.plan
    rw [← h.length, ← Place.len_pointer m request.kid] at hplan
    exact hplan

/-- What is written is found at the start of the output buffer. -/
theorem read_out (h : Added m request args env r key prepared sig p es) :
  r.mem.read ⟨args.out.range.start, prepared.plan.finalLen⟩ = (p.withEntries es).bytes
    ∧ (p.withEntries es).bytes.length ≤ sizeMax
  := by
  have hsize := le_sizeMax_of_fits h.layout.lengths.2.2.2.2
  have hlen := h.attaches.2
  have hle := h.finalLen
  constructor
  · rw [h.mem, ← hlen]
    apply read_zeroScratch_write h.layout
    rw [hlen]
    exact hle
  · rw [hlen]
    exact hle.trans hsize

/-- The new countersignature lies in the output buffer. -/
theorem length_value_le (h : Added m request args env r key prepared sig p es) :
  (newCounter m request prepared sig).value.length ≤ sizeMax
  := by
  have hvalue := h.planned.length_value_le
  have hsize := h.read_out.2
  rw [p.bytes_withEntries] at hsize
  simp only [List.length_append] at hsize
  omega

/-- The strings of the new countersignature fit a head. -/
theorem sized (h : Added m request args env r key prepared sig p es) :
  (newCounter m request prepared sig).Sized
  := by
  have hmax := sizeMax_lt
  exact NewCounter.sized_of_value (h.length_value_le.trans_lt hmax)

/-- The new countersignature is a full countersignature, if it is requested to be. -/
theorem counterItem (h : Added m request args env r key prepared sig p es) (hfull : request.abbreviated = false) :
  CounterItem (newCounter m request prepared sig).fullBytes
  := by
  have hprepared := addPrepare_ok h.prepare
  have hprot := hprepared.protectedHdr
  rw [CounterRequest.protectedHdr, hfull, if_neg Bool.false_ne_true] at hprot
  exact NewCounter.counterItem (inInt32Range_of_signSigLen hprepared.sigLen) hprot h.sized hfull

theorem input_eq (h : Added m request args env r key prepared sig p es) :
  prepared.input.bytes = m.read args.input.range
  := by
  rw [(addPrepare_ok h.prepare).input]
  apply Buffer.bytes_ofBytes
  rw [Memory.length_read]
  exact le_sizeMax_of_fits h.layout.lengths.1

/-- What was added to a message is parsed with it. -/
theorem parse (h : Added m request args env r key prepared sig p es) {output : Buffer}
    (hout : output.bytes = (p.withEntries es).bytes) :
  ((∃ target', parseCounterTarget output (args.detached.pointer m) = .ok target')
      ↔ (request.abbreviated = false → ∀ value, prepared.target.valueAt prepared.input.bytes fullLabel = some value →
          LeavesLevel value))
    ∧ ∀ target', parseCounterTarget output (args.detached.pointer m) = .ok target' →
        CounterAdded (newCounter m request prepared sig) prepared.input.bytes output.bytes prepared.target target'
  := by
  apply h.message.parse_planned h.planned h.sized h.counterItem hout
  obtain ⟨-, -, -, -, -, hle, -⟩ := (addPrepare_ok h.prepare).attaches h.layout h.length
  rw [hout, h.attaches.2, h.input_eq, Memory.length_read]
  exact hle

end Added

/-- A successful call, with the message and the countersignature that was added to it. -/
structure CounterCall (m : Memory) (args : AddArgs) (env : Env) (r : AddOut) (request : CounterRequest) (key : Key)
    (target : CounterTarget) (counter : NewCounter) (output : Buffer) : Prop where
  keyed : request.key = some key
  parsed : parseCounterTarget (.ofBytes (m.read args.input.range)) (args.detached.pointer m) = .ok target
  output : ∃ n, r.outLen = some n ∧ n ≤ args.out.len ∧ output.bytes = r.mem.read ⟨args.out.range.start, n⟩
  abbreviated : counter.abbreviated = request.abbreviated
  kid : counter.kid = request.kid.pointer m
  protectedHdr : request.abbreviated = false → algProtectedHdr request.alg = .ok counter.protectedHdr
  made : key.Made request.alg args.rng counter.sig.length (counterStructure target
    (request.signProtected counter.protectedHdr) (args.extAad.pointer m) request.abbreviated false).bytes counter.sig
    ⟨env, []⟩ r.state

/-- A call that succeeds has attached a countersignature. -/
theorem AddCall.added {call : AddCall} {m : Memory} {args : AddArgs} {env : Env} (hret : (call.run m args env).ret = .ok ()) :
  ∃ request key prepared sig p es, call.request = some request
    ∧ Added m request args env (call.run m args env) key prepared sig p es
  := by
  cases hrequest : call.request with
  | none =>
      rw [call.run_eq, hrequest, addCounter_none] at hret
      cases hret
  | some request =>
      have hrun : call.run m args env = addCounterCommon m request args env := by
        rw [call.run_eq, hrequest]
        rfl
      rw [hrun] at hret ⊢
      obtain ⟨⟨e, he⟩, -⟩ | ⟨key, prepared, sig, p, es, h⟩ := addCounterCommon_cases m request args env
      · rw [he] at hret
        cases hret
      · exact ⟨request, key, prepared, sig, p, es, rfl, h⟩

namespace Added

variable {m : Memory} {request : CounterRequest} {args : AddArgs} {env : Env} {r : AddOut} {key : Key}
  {prepared : Prepared} {sig : Bytes} {p : CounterParts} {es : List Entry}

theorem output_eq (h : Added m request args env r key prepared sig p es) :
  (Buffer.ofBytes (p.withEntries es).bytes).bytes = (p.withEntries es).bytes
  := Buffer.bytes_ofBytes h.read_out.2

/-- The new countersignature is made with the key of the request. -/
theorem counterCall (h : Added m request args env r key prepared sig p es) :
  CounterCall m args env r request key prepared.target (newCounter m request prepared sig)
    (.ofBytes (p.withEntries es).bytes)
  := by
  have hprepared := addPrepare_ok h.prepare
  constructor
  · exact h.layout.key
  · rw [← hprepared.input]
    exact hprepared.target
  · exact ⟨_, h.outLen, h.finalLen, h.output_eq.trans h.read_out.1.symm⟩
  · rfl
  · rfl
  · intro hfull
    have hprot := hprepared.protectedHdr
    rw [CounterRequest.protectedHdr, hfull, if_neg Bool.false_ne_true] at hprot
    exact hprot
  · have hmade := runs_counterSignTbs hprepared.sigLen h.sign
    rw [hprepared.tbs, ← h.length] at hmade
    exact hmade

end Added

/-- The message that a successful call leaves is parsed again, unless a single countersignature that nests as deep as
is skipped has become the item of a list.  What a countersignature covers and the countersignatures that were there are
the same, and the new one, made with the key over the structure of the message, is the last of its kind. -/
theorem addCounter_reparsed (call : AddCall) (m : Memory) (args : AddArgs) (env : Env)
    (hret : (call.run m args env).ret = .ok ()) :
  ∃ request key target counter output, call.request = some request
    ∧ CounterCall m args env (call.run m args env) request key target counter output
    ∧ ((∃ target', parseCounterTarget output (args.detached.pointer m) = .ok target')
      ↔ (request.abbreviated = false → ∀ value, target.valueAt (m.read args.input.range) fullLabel = some value →
          LeavesLevel value))
    ∧ ∀ target', parseCounterTarget output (args.detached.pointer m) = .ok target' →
        CounterAdded counter (m.read args.input.range) output.bytes target target'
  := by
  obtain ⟨request, key, prepared, sig, p, es, hrequest, h⟩ := AddCall.added hret
  have hparse := h.parse h.output_eq
  rw [h.input_eq] at hparse
  exact ⟨request, key, prepared.target, newCounter m request prepared sig, _, hrequest, h.counterCall, hparse⟩

end

section Instances

attribute [local instance] defaultSettings counterCrypt

/-- What the second countersigner does. -/
def counterAdded : AddOut := counterCall.run counterMemory inPlaceArgs ()

theorem ret_counterAdded :
  counterAdded.ret = .ok ()
  := by decide +kernel

/-- The message with both countersignatures. -/
def counterMessage : Bytes := counterAdded.mem.read ⟨0x100, 222⟩

theorem output_counterAdded {request : CounterRequest} {key : Key} {target : CounterTarget} {counter : NewCounter}
    {output : Buffer} (h : CounterCall counterMemory inPlaceArgs () counterAdded request key target counter output) :
  output = .ofBytes counterMessage ∧ ∃ target', parseCounterTarget output (.null 0) = .ok target'
  := by
  obtain ⟨n, hn, -, hbytes⟩ := h.output
  have hlen : counterAdded.outLen = some 222 := by decide +kernel
  obtain rfl := Option.some.inj (hlen.symm.trans hn)
  obtain rfl : output = .ofBytes counterMessage := Buffer.eq_ofBytes hbytes
  refine ⟨rfl, ?_⟩
  have hparse : (parseCounterTarget (.ofBytes counterMessage) (.null 0)).toBool = true := by decide +kernel
  cases hres : parseCounterTarget (.ofBytes counterMessage) (.null 0) with
  | ok target' => exact ⟨target', rfl⟩
  | error e =>
      rw [hres] at hparse
      cases hparse

/-- The message before has the first countersignature. -/
theorem target_counterMemory {target : CounterTarget}
    (h : parseCounterTarget (.ofBytes (counterMemory.read ⟨0x100, 149⟩)) (.null 0) = .ok target) :
  target.tag = tagSign1 ∧ target.valueAt (counterMemory.read ⟨0x100, 149⟩) fullLabel = some firstCounter
  := by
  have hmap : (parseCounterTarget (.ofBytes (counterMemory.read ⟨0x100, 149⟩)) (.null 0)).map
      (fun target => (target.tag, target.valueAt (counterMemory.read ⟨0x100, 149⟩) fullLabel))
      = .ok (tagSign1, some firstCounter) := by decide +kernel
  rw [h] at hmap
  exact Prod.mk.inj (Except.ok.inj hmap)

theorem hasCounters_firstCounter :
  HasCounters (some firstCounter) [firstCounter]
  := by
  have hlen : firstCounter.length ≤ sizeMax := by decide
  have hinfo : counterListInfo firstCounter = .ok ⟨1, 0, false⟩ := by decide +kernel
  obtain ⟨-, r, hfull⟩ | ⟨_, -, hlist⟩ := (counterListInfo_eq_ok hlen).mp hinfo
  · exact .single hfull
  · exact absurd (congrArg CounterListInfo.isList hlist) Bool.noConfusion

/-- A message with a countersignature gets a second one, and is then parsed with both. -/
theorem addCounter_reparsed_second :
  ∃ target' second, parseCounterTarget (.ofBytes counterMessage) (.null 0) = .ok target' ∧ target'.tag = tagSign1
    ∧ HasCounters (target'.valueAt counterMessage fullLabel) [firstCounter, second]
  := by
  obtain ⟨request, key, target, counter, output, hrequest, hcall, -, hadded⟩ :=
    addCounter_reparsed counterCall counterMemory inPlaceArgs () ret_counterAdded
  obtain rfl := Option.some.inj hrequest
  obtain ⟨rfl, target', htarget'⟩ := output_counterAdded hcall
  obtain ⟨htag, hvalue⟩ := target_counterMemory hcall.parsed
  have h := hadded target' htarget'
  obtain ⟨items, hitems, hitems'⟩ := h.full hcall.abbreviated
  have hbytes : (Buffer.ofBytes counterMessage).bytes = counterMessage := Buffer.bytes_ofBytes (by decide +kernel)
  change HasCounters (target.valueAt (counterMemory.read ⟨0x100, 149⟩) fullLabel) items at hitems
  rw [hvalue] at hitems
  obtain rfl := hitems.unique hasCounters_firstCounter (by rintro _ ⟨⟩; decide)
  rw [hbytes] at hitems'
  exact ⟨target', counter.fullBytes, htarget', h.tag.trans htag, hitems'⟩

end Instances

end WolfCose
