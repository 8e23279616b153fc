import WolfCose.Countersign.InPlace

/-!
# Which branch of a plan is taken

What is written for a countersignature tells whether it got an entry of its own or was put beside others, and so which
checks `wolfCose_PlanAttachCounter` has made before.
-/

namespace WolfCose

open Program Cbor Settings WolfCrypt

section

variable [Settings]

/-! ### Which entries are written -/

/-- The entries that a countersignature is attached to and those after it, with what has been checked before. -/
inductive Planned (counter : NewCounter) (spans : CounterSpans) (es : List Entry) : List Entry → Prop where
  | entry : counter.Fresh spans → es.length < maxMapItems → Planned counter spans es (es ++ [counter.entry])
  | extended {es₁ es₂ : List Entry} {e : Entry} {info : CounterListInfo} :
      counter.abbreviated = false → spans.legacyFull = none → es = es₁ ++ e :: es₂ →
      e.label = .int hdrCountersignatureV2 → counterListInfo e.value = .ok info →
      (info.isList = true → info.count < maxMapItems) →
      Planned counter spans es (es₁ ++ { e with value := extendedValue info e.value counter.value } :: es₂)

omit [Settings] in
/-- The number in the head of a map is determined by the bytes. -/
theorem preferredHead_cancel {m : MajorType} {n n' : Nat} {r r' : Bytes} (hm : m.isString = false) (hn : n < 2 ^ 64)
    (hn' : n' < 2 ^ 64) (h : preferredHead m n ++ r = preferredHead m n' ++ r') :
  n = n' ∧ r = r'
  := by
  have hw := @Token.wellFormed_ofHead m n hm hn
  have hw' := @Token.wellFormed_ofHead m n' hm hn'
  rw [← Token.bytes_ofHead, ← Token.bytes_ofHead] at h
  obtain ⟨ht, hr⟩ := Token.bytes_append_cancel hw hw' h
  exact ⟨congrArg Token.val ht, hr⟩

omit [Settings] in
theorem length_le_entriesBytes (es : List Entry) :
  es.length ≤ (entriesBytes es).length
  := by
  induction es with
  | nil => exact Nat.zero_le _
  | cons e es ih =>
      have hpos := e.token.one_le_length_bytes
      rw [entriesBytes_cons, List.length_append, Entry.bytes, List.length_append, List.length_cons]
      omega

namespace CounterMessage

variable {detached : Pointer} {input : Buffer} {p : CounterParts} {target : CounterTarget}

/-- The entries of a message are fewer than a head can count. -/
theorem length_entries_lt (h : CounterMessage detached input p target) :
  p.entries.length + 1 < 2 ^ 64
  := by
  have hle := length_le_entriesBytes p.entries
  have hlen := congrArg List.length h.bytes_eq
  have hpos := List.length_pos_iff.mpr (preferredHead_ne_nil .map p.entries.length)
  have hsize := input.length_le
  have hmax := sizeMax_lt
  have htag := p.tag.one_le_length_bytes
  simp only [CounterParts.start, List.length_append] at hlen
  omega

/-- The number of the entries is found behind the start of a message. -/
theorem length_of_written (h : CounterMessage detached input p target) {es : List Entry} {n : Nat}
    (hes : es.length ≤ p.entries.length + 1) (hn : n ≤ p.entries.length + 1)
    (hbytes : (p.withEntries es).bytes.take (p.start.length + (preferredHead .map n).length)
      = p.start ++ preferredHead .map n) :
  es.length = n
  := by
  have hlt := h.length_entries_lt
  have hsplit := List.take_append_drop (p.start.length + (preferredHead .map n).length) (p.withEntries es).bytes
  rw [hbytes, p.bytes_withEntries, List.append_assoc, List.append_cancel_left_eq] at hsplit
  apply (preferredHead_cancel rfl _ _ hsplit).1.symm
  · omega
  · omega

end CounterMessage

/-- The label of a countersignature is not among the labels of a map with no place for it. -/
theorem NewCounter.Fresh.label_not_mem {counter : NewCounter} {detached : Pointer} {input : Buffer} {p : CounterParts}
    {target : CounterTarget} (hfresh : counter.Fresh target.spans) (h : CounterMessage detached input p target) :
  .int counter.label ∉ labelsOf p.entries
  := by
  unfold Fresh at hfresh
  unfold label
  split_ifs at hfresh ⊢
  · exact h.absent (.inr (.inl rfl)) hfresh.1
  · exact h.absent (.inl rfl) hfresh.1

omit [Settings] in
/-- A map has at most one entry with a label. -/
theorem split_eq_of_label {es₁ es₂ es₁' es₂' : List Entry} {e e' : Entry} (hnd : (labelsOf (es₁ ++ e :: es₂)).Nodup)
    (h : es₁ ++ e :: es₂ = es₁' ++ e' :: es₂') (hl : e.label = e'.label) :
  es₁ = es₁' ∧ e = e' ∧ es₂ = es₂'
  := by
  induction es₁ generalizing es₁' with
  | nil =>
      cases es₁' with
      | nil =>
          obtain ⟨he, hes⟩ := List.cons.inj h
          exact ⟨rfl, he, hes⟩
      | cons e₁ es₁' =>
          obtain ⟨rfl, rfl⟩ := List.cons.inj h
          apply absurd _ (List.nodup_cons.mp hnd).1
          rw [hl]
          apply List.mem_map_of_mem
          simp
  | cons e₁ es₁ ih =>
      cases es₁' with
      | nil =>
          obtain ⟨rfl, rfl⟩ := List.cons.inj h
          apply absurd _ (List.nodup_cons.mp hnd).1
          rw [← hl]
          apply List.mem_map_of_mem
          simp
      | cons e₁' es₁' =>
          obtain ⟨rfl, hes⟩ := List.cons.inj h
          obtain ⟨rfl, rfl, rfl⟩ := ih (List.nodup_cons.mp hnd).2 hes
          exact ⟨rfl, rfl, rfl⟩

/-- The labels of the unprotected map are different. -/
theorem CounterMessage.nodup {detached : Pointer} {input : Buffer} {p : CounterParts} {target : CounterTarget}
    (h : CounterMessage detached input p target) :
  (labelsOf p.entries).Nodup
  := by
  obtain ⟨_, _, _, -, -, -, -, hmap⟩ := h.buckets
  exact hmap.map.labels.nodup

theorem AttachPlan.Attaches.length_le {p : CounterParts} {counter : NewCounter} {plan : AttachPlan} {es : List Entry}
    (h : plan.Attaches p counter es) :
  es.length ≤ p.entries.length + 1
  := by
  obtain hattached | ⟨heq, -, -⟩ := h.1
  · rw [List.length_append, List.length_singleton]
  · rw [heq]
    simp only [List.length_append, List.length_cons]
    omega

/-- What is written tells which branch of the plan was taken, so that the checks of the planner hold of it. -/
theorem AttachPlan.Attaches.planned {detached : Pointer} {input : Buffer} {p : CounterParts} {target : CounterTarget}
    {counter : NewCounter} {plan : AttachPlan} {outSz : Nat} {es : List Entry}
    (hes : plan.Attaches p counter es) (h : CounterMessage detached input p target) (hkid : kidConsistent counter.kid)
    (hplan : planAttachCounter target input.bytes counter.protectedHdr.length counter.kid.len counter.sig.length
      counter.abbreviated outSz = .ok plan) (hsize : outSz ≤ sizeMax)
    (hruns : ∀ out : Bytes, out.length = plan.finalLen → out.take input.bytes.length = input.bytes →
      Runs (attachCounter target plan input.bytes true counter) out plan.finalLen (p.withEntries es).bytes) :
  Planned counter target.spans p.entries es
  := by
  have hcopy : Runs (onlyIf (true = false) (storeBytes 0 input.bytes)) (input.bytes ++ List.replicate plan.delta 0) ()
      (input.bytes ++ List.replicate plan.delta 0) := by
    rw [runs_onlyIf]
    exact .inr ⟨Bool.noConfusion, rfl⟩
  have hout : (input.bytes ++ List.replicate plan.delta 0).length = input.bytes.length + plan.delta := by
    rw [List.length_append, List.length_replicate]
  have hmove := @CounterMessage.runs_moveTail _ _ _ _ _ h plan.delta (input.bytes ++ List.replicate plan.delta 0)
    (Nat.le_of_eq hout.symm)
  rw [List.drop_left] at hmove
  have hin := congrArg List.length h.bytes_eq
  simp only [List.length_append] at hin
  obtain ⟨hroom, hentry | ⟨r, span, hrepl⟩⟩ := planAttachCounter_eq_ok hkid hplan
  · have hfinal := hentry.finalLen
    have hdelta := hentry.delta
    rw [h.mapContentStart, h.mapStart, h.mapCount, Nat.add_sub_cancel_left, h.length_head] at hdelta
    have hrun := hruns _ (hout.trans hfinal.symm) List.take_left
    simp only [attachCounter, runs_bind, hentry.replacement, runs_pure] at hrun
    obtain ⟨_, s₁, h₁, _, s₂, h₂, _, s₃, h₃, -, rfl⟩ := hrun
    obtain ⟨-, rfl⟩ := hcopy.unique h₁
    obtain ⟨-, rfl⟩ := hmove.unique h₂
    obtain ⟨-, hbytes⟩ := h₃.unique (runs_attachEntry h hentry hkid (by omega) (by omega))
    have hcount : es.length = p.entries.length + 1 := by
      apply h.length_of_written hes.length_le (Nat.le_refl _)
      rw [hbytes, ← Bytes.overwrite_append, Bytes.take_overwrite (Nat.le_refl _), Bytes.overwrite_eq, ← List.length_append]
      · have hstart : (input.bytes ++ List.replicate plan.delta 0).take p.start.length = p.start := by
          rw [h.bytes_eq, List.append_assoc, List.take_left]
        rw [hstart, List.take_left]
      · rw [length_preferredHead] at hin ⊢
        omega
    obtain hattached | ⟨heq, -, -⟩ := hes.1
    · apply Planned.entry hentry.fresh
      rw [← h.mapCount]
      exact hentry.mapCount
    · rw [heq] at hcount
      simp only [List.length_append, List.length_cons] at hcount
      omega
  · have hrun := hruns _ (hout.trans hrepl.finalLen.symm) List.take_left
    simp only [attachCounter, runs_bind, hrepl.replacement, runs_pure] at hrun
    obtain ⟨_, s₁, h₁, _, s₂, h₂, _, s₃, h₃, -, rfl⟩ := hrun
    obtain ⟨-, rfl⟩ := hcopy.unique h₁
    obtain ⟨-, rfl⟩ := hmove.unique h₂
    obtain ⟨es₁, e, es₂, hp⟩ := h.placed (.inl rfl) (hrepl.found : target.spans.spanAt (.int hdrCountersignatureV2) = _)
    have hfinal := hrepl.finalLen
    obtain ⟨-, hbytes⟩ := h₃.unique (runs_attachReplacing h hrepl hp hkid (by omega) (by omega))
    have hcount : es.length = p.entries.length := by
      apply h.length_of_written hes.length_le (Nat.le_succ _)
      rw [hbytes, Bytes.take_overwrite]
      · rw [h.bytes_eq, ← List.length_append]
        simp only [List.append_assoc]
        rw [← List.append_assoc, List.take_left]
      · rw [hp.start, h.length_head, length_preferredHead]
        omega
    obtain hattached | ⟨heq, hlabel, hinfo⟩ := hes.1
    · rw [List.length_append, List.length_singleton] at hcount
      omega
    · have hnd := h.nodup
      rw [hp.entries] at hnd heq
      obtain ⟨rfl, rfl, rfl⟩ := split_eq_of_label hnd heq (hp.label.trans hlabel.symm)
      have hsame := hrepl.info
      rw [h.value_at hp, hinfo] at hsame
      apply Planned.extended hrepl.full hrepl.legacy hp.entries hlabel hinfo
      rw [Except.ok.inj hsame]
      exact hrepl.count

end

end WolfCose
