import WolfCose.Countersign.Appended
import WolfCose.Countersign.Verify

/-!
# Verifying after a countersignature has been added

In the message that `wc_Cose_AddCounterSignature` or `wc_Cose_AddCounterSignature0` leaves, the countersignatures that
were there verify exactly as before, under the same indices, and the new one verifies with the public key.
-/

namespace WolfCose

open Program Cbor Settings WolfCrypt

section

variable [Settings]

/-! ### Where a countersignature is found -/

/-- The label of legacy full countersignatures. -/
abbrev legacyFullLabel : Label := .int hdrCountersignatureLegacy

/-- The label of a legacy abbreviated countersignature. -/
abbrev legacyAbbreviatedLabel : Label := .int hdrCountersignature0Legacy

namespace CounterTarget

/-- The value that is looked up under a label, or else under its legacy label. -/
def ValueOf (target : CounterTarget) (input : Bytes) (label legacyLabel : Label) (value : Bytes) (legacy : Bool) :
    Prop :=
  (target.valueAt input label = some value ∧ legacy = false)
    ∨ (target.valueAt input label = none ∧ target.valueAt input legacyLabel = some value ∧ legacy = true)

/-- A message has a full countersignature under an index. -/
def HasFull (target : CounterTarget) (input : Bytes) (i : Nat) (item : Bytes) (legacy : Bool) : Prop :=
  ∃ value, target.ValueOf input fullLabel legacyFullLabel value legacy ∧ selectFullCounter value i = .ok item

/-- The index that comes after those of the full countersignatures. -/
def NextIndex (target : CounterTarget) (input : Bytes) (i : Nat) : Prop :=
  ∃ items, HasCounters (target.valueAt input fullLabel) items ∧ i = items.length

omit [Settings] in
theorem length_valueAt_le {target : CounterTarget} {input value : Bytes} {label : Label}
    (h : target.valueAt input label = some value) :
  value.length ≤ input.length
  := by
  obtain ⟨span, -, rfl⟩ := Option.map_eq_some_iff.mp h
  rw [List.length_take, List.length_drop]
  omega

omit [Settings] in
/-- A value is found under its label or under its legacy label. -/
theorem labelledValue_iff {target : CounterTarget} {input value : Bytes} {label legacyLabel : Label} {legacy : Bool} :
  (∃ span, labelledValue (target.spans.spanAt label) (target.spans.spanAt legacyLabel) = .ok (span, legacy)
      ∧ (input.drop span.start).take (span.stop - span.start) = value)
    ↔ target.ValueOf input label legacyLabel value legacy
  := by
  unfold ValueOf valueAt labelledValue
  cases target.spans.spanAt label with
  | some span =>
      constructor
      · rintro ⟨_, h, rfl⟩
        obtain ⟨rfl, rfl⟩ := Prod.mk.inj (pure_eq_ok.mp h)
        exact .inl ⟨rfl, rfl⟩
      · rintro (⟨h, rfl⟩ | ⟨⟨⟩, -⟩)
        exact ⟨span, rfl, Option.some.inj h⟩
  | none =>
      cases target.spans.spanAt legacyLabel with
      | some span =>
          constructor
          · rintro ⟨_, h, rfl⟩
            obtain ⟨rfl, rfl⟩ := Prod.mk.inj (pure_eq_ok.mp h)
            exact .inr ⟨rfl, rfl, rfl⟩
          · rintro (⟨⟨⟩, -⟩ | ⟨-, h, rfl⟩)
            exact ⟨span, rfl, Option.some.inj h⟩
      | none => simp

/-- Where there are no legacy countersignatures, the index counts the countersignatures of the list. -/
theorem hasFull_iff {target : CounterTarget} {input : Bytes} {items : List Bytes} (hlen : input.length ≤ sizeMax)
    (hitems : HasCounters (target.valueAt input fullLabel) items)
    (hlegacy : target.valueAt input legacyFullLabel = none) {i : Nat} {item : Bytes} {legacy : Bool} :
  target.HasFull input i item legacy ↔ items[i]? = some item ∧ legacy = false
  := by
  unfold HasFull ValueOf
  rw [hlegacy]
  cases hvalue : target.valueAt input fullLabel with
  | none =>
      rw [hvalue] at hitems
      cases hitems
      simp
  | some value =>
      rw [hvalue] at hitems
      have hselect := selectFullCounter_eq hitems ((length_valueAt_le hvalue).trans hlen) i
      simp only [Option.some.injEq, reduceCtorEq, false_and, or_false]
      constructor
      · rintro ⟨_, ⟨rfl, hl⟩, h⟩
        rw [hselect] at h
        cases hi : items[i]? with
        | none =>
            rw [hi] at h
            cases h
        | some _ =>
            rw [hi] at h
            exact ⟨congrArg some (Except.ok.inj h), hl⟩
      · rintro ⟨hi, hl⟩
        rw [hi] at hselect
        exact ⟨value, ⟨rfl, hl⟩, hselect⟩

end CounterTarget

end

section

variable [WolfCrypt] [Settings]

/-! ### What is verified -/

/-- The structure of a countersignature fits the scratch buffer, and its signature is accepted. -/
structure CounterAccepted (target : CounterTarget) (key : Key) (alg : Int) (signProtected extAad : Pointer)
    (abbreviated legacy : Bool) (sig : Bytes) (scratchSz : Nat) : Prop where
  bodyProtected_valid : target.bodyProtected.Valid
  extAad_valid : extAad.Valid
  payload_valid : target.payload.Valid
  other_valid : legacy = false ∧ target.other.count ≠ 0 → target.other.data.Valid
  room : (counterStructure target signProtected extAad abbreviated legacy).bytes.length ≤ scratchSz
  verified : counterVerifyTbs key alg (counterStructure target signProtected extAad abbreviated legacy).bytes sig
    scratchSz = .ok ()

/-- The last steps of a verification build the structure and verify the signature. -/
theorem counterAccepted_iff {m : Memory} {target : CounterTarget} {key : Key} {alg : Int}
    {signProtected extAad : Pointer} {abbreviated legacy : Bool} {sig : Bytes} {scratch : Place}
    (hfits : lenFitsWord32 scratch.len = true) (hprot : abbreviated = false → signProtected.isNull = false) :
  (∃ tbs, buildCounterStructure target signProtected extAad abbreviated legacy
        (some (.ofBytes (m.read scratch.range))) = .ok tbs
      ∧ counterVerifyTbs key alg tbs sig scratch.len = .ok ())
    ↔ CounterAccepted target key alg signProtected extAad abbreviated legacy sig scratch.len
  := by
  have hlen : (Buffer.ofBytes (m.read scratch.range)).bytes.length = scratch.len := by
    rw [Buffer.bytes_ofBytes, Memory.length_read]
    · rfl
    · rw [Memory.length_read]
      exact le_sizeMax_of_fits hfits
  simp only [buildCounterStructure_eq_ok]
  constructor
  · rintro ⟨_, ⟨-, hbody, haad, hpayload, hother, ⟨buf, hbuf, hroom⟩, rfl⟩, hverify⟩
    rw [← Option.some.inj hbuf, hlen] at hroom
    exact ⟨hbody, haad, hpayload, hother, hroom, hverify⟩
  · intro h
    refine ⟨_, ⟨hprot, h.bodyProtected_valid, h.extAad_valid, h.payload_valid, h.other_valid, ⟨_, rfl, ?_⟩, rfl⟩, h.verified⟩
    rw [hlen]
    exact h.room

/-- An item is verified as a full countersignature of a target and has the header. -/
def CounterTarget.Verifies (target : CounterTarget) (key : Key) (extAad : Pointer) (scratchSz : Nat) (item : Bytes)
    (legacy : Bool) (hdr : Hdr) : Prop :=
  ∃ headers sig, decodeBuffer decodeFullCounter (.ofBytes item) = .ok (headers, sig) ∧ headers.hdr = hdr
    ∧ ¬ (headers.algProtected = false ∧ (key.alg = algUnset ∨ key.alg ≠ headers.hdr.alg))
    ∧ CounterAccepted target key headers.hdr.alg (.mem headers.protectedData) extAad false legacy sig scratchSz

/-- The arguments of a verification pass its checks, and are a key, a message, a detached payload and external data. -/
structure CounterVerifyArgs.Reads (args : CounterVerifyArgs) (m : Memory) (key : Key) (message : Bytes)
    (detached extAad : Pointer) : Prop where
  key : args.key = some key
  input : m.read args.input.range = message
  detached : args.detached.pointer m = detached
  extAad : args.extAad.pointer m = extAad
  check : counterVerifyCheck args = .ok ()

/-- The arguments of a verification of an abbreviated countersignature pass its checks. -/
structure CounterVerifyArgs0.Reads (args : CounterVerifyArgs0) (m : Memory) (alg : Int) (key : Key) (message : Bytes)
    (detached extAad : Pointer) : Prop where
  counterSigner : args.counterSigner = some ⟨alg, some key⟩
  input : m.read args.input.range = message
  detached : args.detached.pointer m = detached
  extAad : args.extAad.pointer m = extAad
  check : counterVerifyCheck0 args = .ok ()

/-- A call succeeds and returns the header. -/
def CounterVerifyOut.Returns (out : CounterVerifyOut) (hdr : Hdr) : Prop :=
  out.ret = .ok () ∧ out.hdr = some hdr

theorem verifyCounterSignature_returns {m : Memory} {args : CounterVerifyArgs} {hdr : Hdr} :
  (verifyCounterSignature m args).Returns hdr ↔ counterVerifyMessage m args = .ok hdr
  := by
  unfold verifyCounterSignature CounterVerifyOut.Returns
  cases counterVerifyMessage m args with
  | ok hdr' => simp
  | error fault => simp

variable {m : Memory} {key : Key} {message : Bytes} {detached extAad : Pointer} {target : CounterTarget}

namespace CounterVerifyArgs.Reads

variable {args : CounterVerifyArgs}

omit [Settings] in
theorem lengths (h : args.Reads m key message detached extAad) :
  args.lengthsFit
  := by
  have hcheck := h.check
  simp only [counterVerifyCheck, failWhen_eq_ok, not_or, not_not] at hcheck
  exact hcheck.2.2.2.2.2.2.2

theorem length_message_le (h : args.Reads m key message detached extAad) :
  message.length ≤ sizeMax
  := by
  rw [← h.input, Memory.length_read]
  exact le_sizeMax_of_fits h.lengths.1

/-- A call verifies the countersignature of the message that has the index. -/
theorem returns_iff (h : args.Reads m key message detached extAad)
    (hparse : parseCounterTarget (.ofBytes message) detached = .ok target) {hdr : Hdr} :
  (verifyCounterSignature m args).Returns hdr ↔ ∃ item legacy, target.HasFull message args.counterIndex item legacy
    ∧ target.Verifies key extAad args.scratch.len item legacy hdr
  := by
  have hbytes : (Buffer.ofBytes message).bytes = message := Buffer.bytes_ofBytes h.length_message_le
  rw [verifyCounterSignature_returns, counterVerifyMessage, h.check, ok_bind, h.key]
  simp only [counterVerifyFind, h.input, h.detached, h.extAad, hparse, bind_eq_ok, lift_eq_ok, failWhen_eq_ok, pure_eq_ok,
    Except.ok.injEq, hbytes]
  constructor
  · rintro ⟨_, ⟨_, rfl, ⟨span, legacy⟩, hspan, item, hselect, ⟨headers, sig⟩, hdec, _, hpin, tbs, htbs, rfl⟩, _, hverify,
      rfl⟩
    refine ⟨item, legacy, ⟨_, CounterTarget.labelledValue_iff.mp ⟨span, hspan, rfl⟩, hselect⟩, headers, sig, hdec, rfl,
      hpin, ?_⟩
    exact (counterAccepted_iff h.lengths.2.2.2 fun _ => rfl).mp ⟨tbs, htbs, hverify⟩
  · rintro ⟨item, legacy, ⟨value, hvalue, hselect⟩, headers, sig, hdec, rfl, hpin, haccepted⟩
    obtain ⟨span, hspan, rfl⟩ := CounterTarget.labelledValue_iff.mpr hvalue
    obtain ⟨tbs, htbs, hverify⟩ := (counterAccepted_iff (m := m) h.lengths.2.2.2 fun _ => rfl).mpr haccepted
    exact ⟨_, ⟨_, rfl, ⟨span, legacy⟩, hspan, item, hselect, ⟨headers, sig⟩, hdec, (), hpin, tbs, htbs, rfl⟩, (),
      hverify, rfl⟩

end CounterVerifyArgs.Reads

namespace CounterVerifyArgs0.Reads

variable {args : CounterVerifyArgs0} {alg : Int}

omit [Settings] in
theorem lengths (h : args.Reads m alg key message detached extAad) :
  args.lengthsFit
  := by
  have hcheck := h.check
  simp only [counterVerifyCheck0, failWhen_eq_ok, not_or, not_not] at hcheck
  exact hcheck.2.2.2.2.2.2.2

theorem length_message_le (h : args.Reads m alg key message detached extAad) :
  message.length ≤ sizeMax
  := by
  rw [← h.input, Memory.length_read]
  exact le_sizeMax_of_fits h.lengths.1

/-- A call verifies the abbreviated countersignature of the message. -/
theorem ret_iff (h : args.Reads m alg key message detached extAad)
    (hparse : parseCounterTarget (.ofBytes message) detached = .ok target) :
  (verifyCounterSignature0 m args).ret = .ok () ↔ ∃ value legacy sig,
    target.ValueOf message abbreviatedLabel legacyAbbreviatedLabel value legacy
    ∧ decodeBuffer decodeCounter0 (.ofBytes value) = .ok sig
    ∧ CounterAccepted target key alg (.null 0) extAad true legacy sig args.scratch.len
  := by
  have hbytes : (Buffer.ofBytes message).bytes = message := Buffer.bytes_ofBytes h.length_message_le
  rw [verifyCounterSignature0, h.check, ok_bind, h.counterSigner]
  simp only [counterVerifyMessage0, h.input, h.detached, h.extAad, hparse, bind_eq_ok, lift_eq_ok, Except.ok.injEq, hbytes]
  constructor
  · rintro ⟨_, rfl, ⟨span, legacy⟩, hspan, sig, hdec, tbs, htbs, hverify⟩
    refine ⟨_, legacy, sig, CounterTarget.labelledValue_iff.mp ⟨span, hspan, rfl⟩, hdec, ?_⟩
    exact (counterAccepted_iff h.lengths.2.2.2 Bool.noConfusion).mp ⟨tbs, htbs, hverify⟩
  · rintro ⟨value, legacy, sig, hvalue, hdec, haccepted⟩
    obtain ⟨span, hspan, rfl⟩ := CounterTarget.labelledValue_iff.mpr hvalue
    obtain ⟨tbs, htbs, hverify⟩ := (counterAccepted_iff (m := m) h.lengths.2.2.2 Bool.noConfusion).mpr haccepted
    exact ⟨_, rfl, ⟨span, legacy⟩, hspan, sig, hdec, tbs, htbs, hverify⟩

end CounterVerifyArgs0.Reads

end

section

variable [Settings]

/-! ### What is added -/

/-- A countersignature is only added where there is no legacy one of its kind. -/
theorem Planned.noLegacy {counter : NewCounter} {target : CounterTarget} {es es' : List Entry}
    (h : Planned counter target.spans es es') (input : Bytes) :
  (counter.abbreviated = false → target.valueAt input legacyFullLabel = none)
    ∧ (counter.abbreviated = true → target.valueAt input legacyAbbreviatedLabel = none)
  := by
  have hvalue {label : Label} (hspan : target.spans.spanAt label = none) : target.valueAt input label = none := by
    rw [CounterTarget.valueAt, hspan]
    rfl
  cases h with
  | entry hfresh _ =>
      unfold NewCounter.Fresh at hfresh
      constructor
      · intro hfull
        rw [hfull, if_neg Bool.false_ne_true] at hfresh
        exact hvalue hfresh.2
      · intro habbr
        rw [habbr, if_pos rfl] at hfresh
        exact hvalue hfresh.2
  | extended hfull hlegacy =>
      constructor
      · intro _
        exact hvalue hlegacy
      · intro habbr
        rw [hfull] at habbr
        cases habbr

/-- The next index is the number of the countersignatures. -/
theorem CounterTarget.nextIndex_iff {target : CounterTarget} {input : Bytes} {items : List Bytes}
    (hlen : input.length ≤ sizeMax) (hitems : HasCounters (target.valueAt input fullLabel) items) {i : Nat} :
  target.NextIndex input i ↔ i = items.length
  := by
  constructor
  · rintro ⟨items', hitems', rfl⟩
    rw [hitems.unique hitems' fun v hv => (length_valueAt_le hv).trans hlen]
  · intro hi
    exact ⟨items, hitems, hi⟩

namespace CounterAdded

variable {counter : NewCounter} {input output : Bytes} {target target' : CounterTarget}

/-- A value under a label of the other kind is as before. -/
theorem valueAt_of_full (h : CounterAdded counter input output target target') (hfull : counter.abbreviated = false)
    {l : Label} (hl : CounterLabel l) (hne : l ≠ fullLabel) :
  target'.valueAt output l = target.valueAt input l
  := by
  have hlabel : NewCounter.label counter = hdrCountersignatureV2 := by
    rw [NewCounter.label, hfull, if_neg Bool.false_ne_true]
  apply h.kept l hl
  rwa [hlabel]

theorem valueAt_of_abbreviated (h : CounterAdded counter input output target target')
    (habbr : counter.abbreviated = true) {l : Label} (hl : CounterLabel l) (hne : l ≠ abbreviatedLabel) :
  target'.valueAt output l = target.valueAt input l
  := by
  have hlabel : NewCounter.label counter = hdrCountersignature0V2 := if_pos habbr
  apply h.kept l hl
  rwa [hlabel]

/-- Under the indices before the next one are the countersignatures that were there. -/
theorem hasFull_iff (h : CounterAdded counter input output target target') (hin : input.length ≤ sizeMax)
    (hout : output.length ≤ sizeMax)
    (hfresh : counter.abbreviated = false → target.valueAt input legacyFullLabel = none)
    {i : Nat} {item : Bytes} {legacy : Bool} :
  target.HasFull input i item legacy ↔ target'.HasFull output i item legacy
    ∧ ¬ (counter.abbreviated = false ∧ target.NextIndex input i)
  := by
  cases hkind : counter.abbreviated with
  | true =>
      have hfull := h.valueAt_of_abbreviated hkind (.inl rfl) (show fullLabel ≠ _ by decide)
      have hlegacy := h.valueAt_of_abbreviated hkind (.inr (.inr (.inl rfl))) (show legacyFullLabel ≠ _ by decide)
      simp [CounterTarget.HasFull, CounterTarget.ValueOf, hfull, hlegacy]
  | false =>
      have hlegacy := h.valueAt_of_full hkind (.inr (.inr (.inl rfl))) (show legacyFullLabel ≠ _ by decide)
      rw [hfresh hkind] at hlegacy
      obtain ⟨items, hitems, hitems'⟩ := h.full hkind
      rw [CounterTarget.hasFull_iff hin hitems (hfresh hkind), CounterTarget.hasFull_iff hout hitems' hlegacy,
        CounterTarget.nextIndex_iff hin hitems]
      simp only [true_and]
      constructor
      · rintro ⟨hi, hl⟩
        have hlt := (List.getElem?_eq_some_iff.mp hi).1
        rw [List.getElem?_append_left hlt]
        exact ⟨⟨hi, hl⟩, Nat.ne_of_lt hlt⟩
      · rintro ⟨⟨hi, hl⟩, hne⟩
        have hle := (List.getElem?_eq_some_iff.mp hi).1
        rw [List.length_append, List.length_singleton] at hle
        rw [List.getElem?_append_left (by omega)] at hi
        exact ⟨hi, hl⟩

/-- Under the next index is the new countersignature. -/
theorem hasFull_new (h : CounterAdded counter input output target target') (hin : input.length ≤ sizeMax)
    (hout : output.length ≤ sizeMax) (hfull : counter.abbreviated = false)
    (hfresh : target.valueAt input legacyFullLabel = none) {i : Nat} (hi : target.NextIndex input i) :
  target'.HasFull output i counter.fullBytes false
  := by
  have hlegacy := h.valueAt_of_full hfull (.inr (.inr (.inl rfl))) (show legacyFullLabel ≠ _ by decide)
  rw [hfresh] at hlegacy
  obtain ⟨items, hitems, hitems'⟩ := h.full hfull
  rw [CounterTarget.nextIndex_iff hin hitems] at hi
  rw [CounterTarget.hasFull_iff hout hitems' hlegacy, hi, List.getElem?_concat_length]
  exact ⟨rfl, rfl⟩

/-- An abbreviated countersignature that was there is there, and a new one is only added where none was. -/
theorem valueOf_abbreviated_iff (h : CounterAdded counter input output target target')
    (hfresh : counter.abbreviated = true → target.valueAt input legacyAbbreviatedLabel = none)
    {value : Bytes} {legacy : Bool} :
  target.ValueOf input abbreviatedLabel legacyAbbreviatedLabel value legacy
    ↔ target'.ValueOf output abbreviatedLabel legacyAbbreviatedLabel value legacy ∧ counter.abbreviated = false
  := by
  unfold CounterTarget.ValueOf
  cases hkind : counter.abbreviated with
  | true => simp [(h.abbreviated hkind).1, hfresh hkind]
  | false =>
      have habbr := h.valueAt_of_full hkind (.inr (.inl rfl)) (show abbreviatedLabel ≠ _ by decide)
      have hlegacy := h.valueAt_of_full hkind (.inr (.inr (.inr rfl))) (show legacyAbbreviatedLabel ≠ _ by decide)
      simp [habbr, hlegacy]

end CounterAdded

end

section

variable [WolfCrypt] [Settings]

namespace CounterAdded

variable {counter : NewCounter} {input output : Bytes} {target target' : CounterTarget}

omit [WolfCrypt] in
/-- What a countersignature covers is the same. -/
theorem counterStructure_eq (h : CounterAdded counter input output target target') (signProtected extAad : Pointer)
    (abbreviated legacy : Bool) :
  counterStructure target' signProtected extAad abbreviated legacy
    = counterStructure target signProtected extAad abbreviated legacy
  := by
  unfold counterStructure
  rw [h.bodyProtected, h.payload, h.other]

/-- A signature is accepted for the message exactly if it was accepted before. -/
theorem accepted_iff (h : CounterAdded counter input output target target') {key : Key} {alg : Int}
    {signProtected extAad : Pointer} {abbreviated legacy : Bool} {sig : Bytes} {scratchSz : Nat} :
  CounterAccepted target' key alg signProtected extAad abbreviated legacy sig scratchSz
    ↔ CounterAccepted target key alg signProtected extAad abbreviated legacy sig scratchSz
  := by
  have hstructure := h.counterStructure_eq signProtected extAad abbreviated legacy
  constructor
  · rintro ⟨hbody, haad, hpayload, hother, hroom, hverify⟩
    rw [h.bodyProtected] at hbody
    rw [h.payload] at hpayload
    rw [h.other] at hother
    rw [hstructure] at hroom hverify
    exact ⟨hbody, haad, hpayload, hother, hroom, hverify⟩
  · rintro ⟨hbody, haad, hpayload, hother, hroom, hverify⟩
    rw [← h.bodyProtected] at hbody
    rw [← h.payload] at hpayload
    rw [← h.other] at hother
    rw [← hstructure] at hroom hverify
    exact ⟨hbody, haad, hpayload, hother, hroom, hverify⟩

theorem verifies_iff (h : CounterAdded counter input output target target') {key : Key} {extAad : Pointer}
    {scratchSz : Nat} {item : Bytes} {legacy : Bool} {hdr : Hdr} :
  target'.Verifies key extAad scratchSz item legacy hdr ↔ target.Verifies key extAad scratchSz item legacy hdr
  := by
  unfold CounterTarget.Verifies
  simp only [h.accepted_iff]

end CounterAdded

/-! ### What was signed -/

/-- A verification that looks at the attached type also succeeds where it does not. -/
theorem verifyEcdsa_false {key : Key} {alg : Int} {digest : Checked (HashType × Bytes)} {sig : Bytes}
    (h : verifyEcdsa true key alg digest sig = .ok ()) :
  verifyEcdsa false key alg digest sig = .ok ()
  := by
  simp only [verifyEcdsa, bind_eq_ok, failWhen_eq_ok, not_or] at h ⊢
  obtain ⟨_, ⟨hkty, -⟩, h⟩ := h
  exact ⟨(), ⟨hkty, fun hno => Bool.false_ne_true hno.1⟩, h⟩

/-- A signature that is accepted with a key that matches the algorithm is verified. -/
theorem counterVerifyTbs_of_accepts {key : Key} {alg : Int} {tbs input sig : Bytes} {scratchSz : Nat}
    (hmatch : key.Matches alg) (hlms : alg ≠ algHssLms) (hpin : key.alg ≠ algUnset → key.alg = alg)
    (hinput : SignedInput alg tbs input) (hacc : key.object.Accepts alg input sig)
    (hfits : lenFitsWord32 scratchSz = true) (htbs : tbs.length ≤ scratchSz) (hsig : sig.length ≤ scratchSz) :
  counterVerifyTbs key alg tbs sig scratchSz = .ok ()
  := by
  have hver := hmatch.verifies (fun h => absurd h hlms) hinput (fun _ _ hd => hashFor_eq_ok.mpr hd) hacc hsig
  have fits {n : Nat} (hn : n ≤ scratchSz) : ¬ lenFitsWord32 n = false := by
    rw [Bool.not_eq_false]
    exact decide_eq_true (hn.trans (of_decide_eq_true hfits))
  unfold counterVerifyTbs
  simp only [bind_eq_ok, failWhen_eq_ok, not_or]
  refine ⟨(), ⟨fits htbs, fits hsig, fits (Nat.le_refl _)⟩, (), fun h => h.2 (hpin h.1), ?_⟩
  cases hver with
  | ecdsa hecdsa heddsa h =>
      rw [heddsa, if_neg Bool.false_ne_true, if_pos hecdsa]
      exact verifyEcdsa_false h
  | eddsa hecdsa heddsa h => rwa [if_pos heddsa]
  | pss hecdsa heddsa hpss h =>
      rwa [hecdsa, heddsa, if_neg Bool.false_ne_true, if_neg Bool.false_ne_true, if_pos hpss]
  | mldsa hecdsa heddsa hpss hmldsa h =>
      rwa [hecdsa, heddsa, if_neg Bool.false_ne_true, if_neg Bool.false_ne_true, if_neg hpss, if_pos hmldsa]
  | lms _ _ _ _ halg _ => exact absurd halg.2 hlms

namespace Added

variable {m : Memory} {request : CounterRequest} {args : AddArgs} {env : Env} {r : AddOut} {key : Key}
  {prepared : Prepared} {sig : Bytes} {p : CounterParts} {es : List Entry}

/-- What is parsed again has the new countersignature in addition. -/
theorem counterAdded (h : Added m request args env r key prepared sig p es) {target' : CounterTarget}
    (hparse : parseCounterTarget (.ofBytes (p.withEntries es).bytes) (args.detached.pointer m) = .ok target') :
  CounterAdded (newCounter m request prepared sig) (m.read args.input.range) (p.withEntries es).bytes prepared.target
    target'
  := by
  have hadded := (h.parse h.output_eq).2 target' hparse
  rwa [h.input_eq, h.output_eq] at hadded

/-- The fields that a countersignature covers are valid. -/
theorem fields_valid (h : Added m request args env r key prepared sig p es) :
  prepared.target.bodyProtected.Valid ∧ (args.extAad.pointer m).Valid ∧ prepared.target.payload.Valid
    ∧ (prepared.target.other.count ≠ 0 → prepared.target.other.data.Valid)
  := by
  have hprepare := h.prepare
  simp only [addPrepare, bind_eq_ok, lift_eq_ok, failWhen_eq_ok, pure_eq_ok] at hprepare
  obtain ⟨target, -, sigLen, -, _, -, protectedHdr, -, tbs, htbs, plan, -, rfl⟩ := hprepare
  rw [buildCounterStructure_eq_ok] at htbs
  obtain ⟨-, hbody, haad, hpayload, hother, -⟩ := htbs
  exact ⟨hbody, haad, hpayload, fun hcount => hother ⟨rfl, hcount⟩⟩

/-- The signature of the new countersignature is accepted with the public key. -/
theorem accepted (h : Added m request args env r key prepared sig p es) {pub : PublicOf} (hscheme : CorrectScheme pub)
    {key' : Key} (hpub : key.HasPublic pub request.alg key') (hmatch : key'.Matches request.alg)
    (hpin : key'.alg ≠ algUnset → key'.alg = request.alg) {scratchSz : Nat} (hfits : lenFitsWord32 scratchSz = true)
    (hroom : args.scratch.len ≤ scratchSz) :
  CounterAccepted prepared.target key' request.alg (request.signProtected prepared.protectedHdr)
    (args.extAad.pointer m) request.abbreviated false sig scratchSz
  := by
  have hprepared := addPrepare_ok h.prepare
  obtain ⟨hbody, haad, hpayload, hother⟩ := h.fields_valid
  have htbs := hprepared.tbs
  have hlen := h.length
  have hle := hprepared.room
  have hmade := runs_counterSignTbs hprepared.sigLen h.sign
  obtain ⟨input, hinput, hacc⟩ := hmade.accepts hscheme hpub
  rw [htbs] at hinput hle
  refine ⟨hbody, haad, hpayload, fun hcount => hother hcount.2, by omega, ?_⟩
  apply counterVerifyTbs_of_accepts hmatch h.layout.alg hpin hinput hacc hfits
  · omega
  · omega

end Added

omit [WolfCrypt] in
/-- A byte string is decoded as the signature of an abbreviated countersignature. -/
theorem decodeCounter0_stringBytes {sig : Bytes} (hlen : (stringBytes .bstr sig).length ≤ sizeMax) :
  decodeBuffer decodeCounter0 (.ofBytes (stringBytes .bstr sig)) = .ok sig
  := by
  have hrest : (DecCtx.init (.ofBytes (stringBytes .bstr sig))).rest = stringBytes .bstr sig := by
    rw [DecCtx.rest_init, Buffer.bytes_ofBytes hlen]
  have hwhole := DecCtx.consumes_of_rest (hrest.trans (List.append_nil _).symm)
  have hsig : sig.length < 2 ^ 64 := by
    have hmax := sizeMax_lt
    rw [length_stringBytes] at hlen
    omega
  rw [decodeBuffer_eq_ok]
  simp only [decodeCounter0, runs_bind, runs_pure, runs_decodeEnd, decodeBstr,
    reads_decodeBstrEx decodeFlagsValid_zero _ _ _]
  refine ⟨_, sig, _, ⟨_, bstrValue_stringBytes hsig, hwhole⟩, (), _, ⟨?_, rfl⟩, rfl, rfl⟩
  rw [hwhole.idx_eq, hwhole.bufSz_eq, DecCtx.bufSz, DecCtx.init, Buffer.bytes_ofBytes hlen, Nat.zero_add]

/-- In the second message exactly those countersignatures verify that verify in the first one, with the same headers,
and in addition those under new indices or, where the new one is abbreviated, the abbreviated one. -/
structure CountersKept (input output : Bytes) (detached : Pointer) (newIndex : Nat → Prop) (newAbbreviated : Prop) :
    Prop where
  full : ∀ (key : Key) (extAad : Pointer) (hdr : Hdr) (m m' : Memory) (args args' : CounterVerifyArgs),
    args.Reads m key input detached extAad → args'.Reads m' key output detached extAad →
    args.counterIndex = args'.counterIndex → args.scratch.len = args'.scratch.len →
    ((verifyCounterSignature m args).Returns hdr
      ↔ (verifyCounterSignature m' args').Returns hdr ∧ ¬ newIndex args'.counterIndex)
  abbreviated : ∀ (alg : Int) (key : Key) (extAad : Pointer) (m m' : Memory) (args args' : CounterVerifyArgs0),
    args.Reads m alg key input detached extAad → args'.Reads m' alg key output detached extAad →
    args.scratch.len = args'.scratch.len →
    ((verifyCounterSignature0 m args).ret = .ok ()
      ↔ (verifyCounterSignature0 m' args').ret = .ok () ∧ ¬ newAbbreviated)

namespace Added

variable {m : Memory} {request : CounterRequest} {args : AddArgs} {env : Env} {r : AddOut} {key : Key}
  {prepared : Prepared} {sig : Bytes} {p : CounterParts} {es : List Entry}

theorem parse_input (h : Added m request args env r key prepared sig p es) :
  parseCounterTarget (.ofBytes (m.read args.input.range)) (args.detached.pointer m) = .ok prepared.target
  := h.counterCall.parsed

theorem length_input_le (h : Added m request args env r key prepared sig p es) :
  (m.read args.input.range).length ≤ sizeMax
  := by
  rw [Memory.length_read]
  exact le_sizeMax_of_fits h.layout.lengths.1

theorem kept (h : Added m request args env r key prepared sig p es) {target' : CounterTarget}
    (hparse : parseCounterTarget (.ofBytes (p.withEntries es).bytes) (args.detached.pointer m) = .ok target') :
  CountersKept (m.read args.input.range) (p.withEntries es).bytes (args.detached.pointer m)
    (fun i => request.abbreviated = false ∧ prepared.target.NextIndex (m.read args.input.range) i)
    (request.abbreviated = true)
  := by
  have hadded := h.counterAdded hparse
  have hfresh := h.planned.noLegacy (m.read args.input.range)
  have hfull {i : Nat} {item : Bytes} {legacy : Bool} :
      prepared.target.HasFull (m.read args.input.range) i item legacy
        ↔ target'.HasFull (p.withEntries es).bytes i item legacy
          ∧ ¬ (request.abbreviated = false ∧ prepared.target.NextIndex (m.read args.input.range) i) :=
    hadded.hasFull_iff h.length_input_le h.read_out.2 hfresh.1
  constructor
  · intro key' extAad hdr m₁ m₂ args₁ args₂ h₁ h₂ hindex hscratch
    rw [h₁.returns_iff h.parse_input, h₂.returns_iff hparse, hindex, hscratch]
    constructor
    · rintro ⟨item, legacy, hitem, hverifies⟩
      obtain ⟨hitem', hnew⟩ := hfull.mp hitem
      exact ⟨⟨item, legacy, hitem', hadded.verifies_iff.mpr hverifies⟩, hnew⟩
    · rintro ⟨⟨item, legacy, hitem, hverifies⟩, hnew⟩
      exact ⟨item, legacy, hfull.mpr ⟨hitem, hnew⟩, hadded.verifies_iff.mp hverifies⟩
  · intro alg key' extAad m₁ m₂ args₁ args₂ h₁ h₂ hscratch
    rw [h₁.ret_iff h.parse_input, h₂.ret_iff hparse, hscratch, Bool.not_eq_true]
    constructor
    · rintro ⟨value, legacy, sig', hvalue, hdec, haccepted⟩
      obtain ⟨hvalue', hnew⟩ := (hadded.valueOf_abbreviated_iff hfresh.2).mp hvalue
      exact ⟨⟨value, legacy, sig', hvalue', hdec, hadded.accepted_iff.mpr haccepted⟩, hnew⟩
    · rintro ⟨⟨value, legacy, sig', hvalue, hdec, haccepted⟩, hnew⟩
      exact ⟨value, legacy, sig', (hadded.valueOf_abbreviated_iff hfresh.2).mpr ⟨hvalue, hnew⟩, hdec,
        hadded.accepted_iff.mp haccepted⟩

/-- The new full countersignature is verified with its headers. -/
theorem verifies_full (h : Added m request args env r key prepared sig p es) (hfull : request.abbreviated = false)
    {target' : CounterTarget}
    (hparse : parseCounterTarget (.ofBytes (p.withEntries es).bytes) (args.detached.pointer m) = .ok target')
    {key' : Key} {scratchSz : Nat}
    (haccepted : CounterAccepted prepared.target key' request.alg (request.signProtected prepared.protectedHdr)
      (args.extAad.pointer m) request.abbreviated false sig scratchSz) :
  target'.Verifies key' (args.extAad.pointer m) scratchSz (newCounter m request prepared sig).fullBytes false
    ((newCounter m request prepared sig).headers request.alg).hdr
  := by
  have hprepared := addPrepare_ok h.prepare
  have hvalue := NewCounter.fullCounterValue (inInt32Range_of_signSigLen hprepared.sigLen)
    (h.counterCall.protectedHdr hfull) h.sized hfull
  have hlen := h.length_value_le
  rw [NewCounter.value, if_neg (by rw [newCounter, hfull]; exact Bool.false_ne_true)] at hlen
  have hprot : request.signProtected prepared.protectedHdr = .mem prepared.protectedHdr := by
    rw [CounterRequest.signProtected, hfull, if_neg Bool.false_ne_true]
  rw [hprot, hfull] at haccepted
  refine ⟨_, _, decodeBuffer_eq_ok.mpr ((runs_decodeFullCounter hlen).mpr hvalue), rfl, ?_, ?_⟩
  · rintro ⟨hno, -⟩
    cases hno
  · exact (h.counterAdded hparse).accepted_iff.mpr haccepted

end Added

/-- After a countersignature has been added, the countersignatures of the message verify exactly as before, and the one
that is new has the next index or is the abbreviated one. -/
theorem addCounter_keeps (call : AddCall) (m : Memory) (args : AddArgs) (env : Env)
    (hret : (call.run m args env).ret = .ok ()) :
  ∃ request key target counter output, call.request = some request
    ∧ CounterCall m args env (call.run m args env) request key target counter output
    ∧ ∀ target', parseCounterTarget output (args.detached.pointer m) = .ok target' →
        CountersKept (m.read args.input.range) output.bytes (args.detached.pointer m)
          (fun i => request.abbreviated = false ∧ target.NextIndex (m.read args.input.range) i)
          (request.abbreviated = true)
  := by
  obtain ⟨request, key, prepared, sig, p, es, hrequest, h⟩ := AddCall.added hret
  refine ⟨request, key, prepared.target, _, _, hrequest, h.counterCall, ?_⟩
  intro target' hparse
  rw [h.output_eq]
  exact h.kept hparse

/-- A countersignature that has been added verifies with the public key and returns the headers of the signer, for any
scratch buffer that is as long as that of the signer. -/
theorem addCounter_verifies {pub : PublicOf} (hscheme : CorrectScheme pub) (call : AddCall) (m : Memory)
    (args : AddArgs) (env : Env) (hret : (call.run m args env).ret = .ok ()) :
  ∃ request key target counter output, call.request = some request
    ∧ CounterCall m args env (call.run m args env) request key target counter output
    ∧ ∀ target' key', parseCounterTarget output (args.detached.pointer m) = .ok target' →
        key.HasPublic pub request.alg key' → key'.Matches request.alg →
        (key'.alg ≠ algUnset → key'.alg = request.alg) →
        (request.abbreviated = false → ∀ m' (args' : CounterVerifyArgs),
          args'.Reads m' key' output.bytes (args.detached.pointer m) (args.extAad.pointer m) →
          target.NextIndex (m.read args.input.range) args'.counterIndex → args.scratch.len ≤ args'.scratch.len →
          (verifyCounterSignature m' args').Returns
            { Hdr.zero with alg := request.alg, kid := hdrKidOf (request.kid.pointer m) })
        ∧ (request.abbreviated = true → ∀ m' (args' : CounterVerifyArgs0),
          args'.Reads m' request.alg key' output.bytes (args.detached.pointer m) (args.extAad.pointer m) →
          args.scratch.len ≤ args'.scratch.len → (verifyCounterSignature0 m' args').ret = .ok ())
  := by
  obtain ⟨request, key, prepared, sig, p, es, hrequest, h⟩ := AddCall.added hret
  refine ⟨request, key, prepared.target, _, _, hrequest, h.counterCall, ?_⟩
  intro target' key' hparse hpub hmatch hpin
  rw [h.output_eq]
  have hadded := h.counterAdded hparse
  have hfresh := h.planned.noLegacy (m.read args.input.range)
  constructor
  · intro hfull m' args' hreads hindex hroom
    have haccepted := h.accepted hscheme hpub hmatch hpin hreads.lengths.2.2.2 hroom
    rw [hreads.returns_iff hparse]
    refine ⟨_, false, ?_, h.verifies_full hfull hparse haccepted⟩
    exact hadded.hasFull_new h.length_input_le h.read_out.2 hfull (hfresh.1 hfull) hindex
  · intro habbr m' args' hreads hroom
    have haccepted := h.accepted hscheme hpub hmatch hpin hreads.lengths.2.2.2 hroom
    have hprot : request.signProtected prepared.protectedHdr = .null 0 := if_pos habbr
    rw [hprot, habbr] at haccepted
    have hkind : (newCounter m request prepared sig).abbreviated = true := habbr
    have hlen := h.length_value_le
    rw [NewCounter.value, if_pos hkind] at hlen
    rw [hreads.ret_iff hparse]
    exact ⟨_, false, sig, .inl ⟨(hadded.abbreviated habbr).2, rfl⟩, decodeCounter0_stringBytes hlen,
      hadded.accepted_iff.mpr haccepted⟩

end

section Instances

attribute [local instance] defaultSettings counterCrypt

/-- The verification of the countersignature with an index in a message of this length. -/
def counterVerifyArgs (publicKey : Bytes) (counterIndex len : Nat) : CounterVerifyArgs where
  key := some (.ofEd25519 publicKey false)
  counterIndex
  input := ⟨some 0x100, len⟩
  detached := ⟨none, 0⟩
  extAad := ⟨none, 0⟩
  scratch := ⟨some 0x400, 240⟩
  counterHdr := ⟨some 0x800, 80⟩

/-- The header of a countersignature without a key identifier. -/
def counterHdr : Hdr := { Hdr.zero with alg := algEddsa, kid := hdrKidOf (.null 0) }

theorem reads_counterAdded (publicKey : Bytes) (counterIndex : Nat) :
  (counterVerifyArgs publicKey counterIndex 222).Reads counterAdded.mem (.ofEd25519 publicKey false)
    (Buffer.ofBytes counterMessage).bytes (.null 0) (.null 0)
  where
  key := rfl
  input := by
    have hlen : counterMessage.length ≤ sizeMax := by decide +kernel
    exact (Buffer.bytes_ofBytes hlen).symm
  detached := rfl
  extAad := rfl
  check := rfl

/-- The first countersignature is verified before and after the second one is added. -/
theorem addCounter_keeps_first :
  (verifyCounterSignature counterMemory (counterVerifyArgs ed25519Public 0 149)).Returns counterHdr
    ∧ (verifyCounterSignature counterAdded.mem (counterVerifyArgs ed25519Public 0 222)).Returns counterHdr
  := by
  obtain ⟨request, key, target, counter, output, hrequest, hcall, hkept⟩ :=
    addCounter_keeps counterCall counterMemory inPlaceArgs () ret_counterAdded
  obtain ⟨rfl, target', hparse⟩ := output_counterAdded hcall
  have hfirst : (verifyCounterSignature counterMemory (counterVerifyArgs ed25519Public 0 149)).Returns counterHdr := by
    constructor <;> decide +kernel
  have hreads : (counterVerifyArgs ed25519Public 0 149).Reads counterMemory (.ofEd25519 ed25519Public false)
      (counterMemory.read inPlaceArgs.input.range) (.null 0) (.null 0) := ⟨rfl, rfl, rfl, rfl, rfl⟩
  have hiff := (hkept target' hparse).full _ _ counterHdr _ _ _ _ hreads (reads_counterAdded ed25519Public 0) rfl rfl
  exact ⟨hfirst, (hiff.mp hfirst).1⟩

/-- The second countersignature has the index 1. -/
theorem addCounter_verifies_second :
  (verifyCounterSignature counterAdded.mem (counterVerifyArgs otherEd25519Public 1 222)).Returns counterHdr
  := by
  obtain ⟨request, key, target, counter, output, hrequest, hcall, hverifies⟩ :=
    addCounter_verifies (correctScheme_ed25519Pub counterAnswers (by decide)) counterCall counterMemory inPlaceArgs ()
      ret_counterAdded
  obtain rfl := Option.some.inj hrequest
  obtain rfl := Option.some.inj hcall.keyed
  obtain ⟨rfl, target', hparse⟩ := output_counterAdded hcall
  obtain ⟨-, hvalue⟩ := target_counterMemory hcall.parsed
  apply (hverifies target' (.ofEd25519 otherEd25519Public false) hparse _ _ _).1 rfl _ _ (reads_counterAdded _ _)
  · refine ⟨[firstCounter], ?_, rfl⟩
    change HasCounters (target.valueAt (counterMemory.read ⟨0x100, 149⟩) fullLabel) [firstCounter]
    rw [hvalue]
    exact hasCounters_firstCounter
  · exact Nat.le_refl _
  · apply PublicOf.Object.ed25519
    exact ⟨otherCounterAnswer, by simp [counterAnswers], rfl, rfl⟩
  · exact .ed25519 (by decide) rfl rfl rfl rfl rfl rfl
  · intro h
    exact absurd rfl h

end Instances

end WolfCose
