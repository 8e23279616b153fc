import WolfCose.Countersign.Splice

/-!
# Which countersignature has an index

Whether one full countersignature stands under the label or a list of them does not show in the numbers that
`wolfCose_SelectFullCounter` takes: a message has a list of countersignatures, and one that is put beside them comes
last.
-/

namespace WolfCose

open Program Cbor Settings

section

variable [Settings]

/-- The full countersignatures of the value under their label, if there is one, as they are numbered. -/
inductive HasCounters : Option Bytes → List Bytes → Prop where
  | none : HasCounters none []
  | single {value : Bytes} {r : Headers × Bytes} : FullCounterValue value r → HasCounters (some value) [value]
  | list {value : Bytes} {items : List Bytes} : CounterList value items → HasCounters (some value) items

/-- Skipping some items ends with the last of them. -/
theorem runs_repeat_skipItem {xs : List Bytes} (h : ∀ x ∈ xs, SkippedValue 0 x) {ctx ctx' : DecCtx}
    (hc : ctx.Consumes xs.flatten ctx') (a : Bytes) :
  Runs (repeatM xs.length (fun _ => skipItem) a) ctx (xs.getLastD a) ctx'
  := by
  induction xs generalizing ctx a with
  | nil =>
      obtain rfl := ctx.consumes_nil.unique hc
      exact (runs_pure _ _ _ _).mpr ⟨rfl, rfl⟩
  | cons x xs ih =>
      obtain ⟨hx, hxs⟩ := List.forall_mem_cons.mp h
      rw [List.flatten_cons] at hc
      obtain ⟨ctx₁, hc₁, hc₂⟩ := hc.split
      rw [List.getLastD_cons]
      exact (runs_bind _ _ _ _ _).mpr ⟨x, ctx₁, (runs_skipItem _ _ _).mpr ⟨hx, hc₁⟩, ih hxs hc₂ x⟩

/-- The loop stops at the item with the index. -/
theorem runs_decodeListItem {value : Bytes} {items : List Bytes} (h : CounterList value items)
    (hlen : value.length ≤ sizeMax) {i : Nat} (hi : i < items.length) :
  ∃ ctx', Runs (decodeListItem i) (.init (.ofBytes value)) items[i] ctx'
  := by
  have hrest : (DecCtx.init (.ofBytes value)).rest = value := by
    rw [DecCtx.rest_init, Buffer.bytes_ofBytes hlen]
  have hwhole := DecCtx.consumes_of_rest ((hrest.trans h.value_eq).trans (List.append_nil _).symm)
  obtain ⟨ctx₁, h₁, h₂⟩ := hwhole.split
  have hroom : items.length ≤ ctx₁.rest.length := by
    have hle := Bytes.length_le_flatten fun x hx => (h.items x hx).1.ne_nil
    rw [h₂.length_rest_eq]
    omega
  have hlt : items.length < 2 ^ 64 := by
    have hsize := sizeMax_lt
    have hle := ctx₁.length_rest_le
    have hle' := ctx₁.bufSz_le
    omega
  have htake : (items.take (i + 1)).length = i + 1 := List.length_take_of_le hi
  rw [← List.take_append_drop (i + 1) items, List.flatten_append] at h₂
  obtain ⟨ctx₂, h₃, -⟩ := h₂.split
  have hskip := runs_repeat_skipItem (fun x hx => (h.items x (List.mem_of_mem_take hx)).1) h₃ []
  rw [htake] at hskip
  use ctx₂
  unfold decodeListItem
  rw [runs_bind]
  refine ⟨items.length, ctx₁, runs_decodeArrayStart.mpr ⟨hlt, h₁, hroom⟩, ?_⟩
  have hlast : (items.take (i + 1)).getLastD [] = items[i] := by
    rw [List.take_succ_eq_append_getElem hi, List.getLastD_eq_getLast?, List.getLast?_append]
    rfl
  rw [← hlast]
  exact hskip

/-- The item with an index is selected. -/
theorem selectFullCounter_eq {value : Bytes} {items : List Bytes} (h : HasCounters (some value) items)
    (hlen : value.length ≤ sizeMax) (i : Nat) :
  selectFullCounter value i = (items[i]?).elim (.error .invalidArg) .ok
  := by
  cases h with
  | single hvalue =>
      have hinfo := (counterListInfo_eq_ok hlen).mpr (.inl ⟨rfl, _, hvalue⟩)
      rw [selectFullCounter, hinfo]
      cases i with
      | zero => rfl
      | succ i => rfl
  | list hlist =>
      have hinfo := (counterListInfo_eq_ok hlen).mpr (.inr ⟨items, hlist, rfl⟩)
      rw [selectFullCounter, hinfo]
      by_cases hi : i < items.length
      · obtain ⟨ctx', hruns⟩ := runs_decodeListItem hlist hlen hi
        have hvalid : rejectIf (i ≥ items.length) Err.invalidArg = .ok () := by
          rw [rejectIf_eq_ok]
          omega
        rw [List.getElem?_eq_getElem hi, ok_bind, hvalid, ok_bind, if_neg Bool.noConfusion]
        unfold Runs at hruns
        rw [hruns]
        rfl
      · have hbad : rejectIf (i ≥ items.length) Err.invalidArg = .error .invalidArg := if_pos (Nat.le_of_not_lt hi)
        rw [List.getElem?_eq_none (Nat.le_of_not_lt hi), ok_bind, hbad]
        rfl

/-- Lists with the same bytes have the same items. -/
theorem CounterList.unique {value : Bytes} {items items' : List Bytes} (h : CounterList value items)
    (h' : CounterList value items') (hlen : value.length ≤ sizeMax) :
  items = items'
  := by
  have hinfo := (counterListInfo_eq_ok hlen).mpr (.inr ⟨items, h, rfl⟩)
  have hinfo' := (counterListInfo_eq_ok hlen).mpr (.inr ⟨items', h', rfl⟩)
  have hcount : items.length = items'.length :=
    congrArg CounterListInfo.count (Except.ok.inj (hinfo.symm.trans hinfo'))
  have hbytes := h.value_eq.symm.trans h'.value_eq
  rw [hcount, List.append_cancel_left_eq] at hbytes
  have hwf : ∀ t, Accepted 0 t → t.WellFormed := fun _ ht => ht.wellFormed
  exact (Items.flatten_cancel hwf (fun x hx => ⟨maxDepth, (h.items x hx).1⟩) (fun x hx => ⟨maxDepth, (h'.items x hx).1⟩)
    hcount (congrArg (· ++ []) hbytes)).1

/-- A message has one list of countersignatures. -/
theorem HasCounters.unique {value : Option Bytes} {items items' : List Bytes} (h : HasCounters value items)
    (h' : HasCounters value items') (hlen : ∀ v, value = some v → v.length ≤ sizeMax) :
  items = items'
  := by
  cases h with
  | none =>
      cases h' with
      | none => rfl
  | @single v _ hv =>
      cases h' with
      | single => rfl
      | list hl =>
          have hinfo := (counterListInfo_eq_ok (hlen v rfl)).mpr (.inl ⟨rfl, _, hv⟩)
          rw [(counterListInfo_eq_ok (hlen v rfl)).mpr (.inr ⟨_, hl, rfl⟩)] at hinfo
          exact absurd (congrArg CounterListInfo.isList (Except.ok.inj hinfo)) Bool.noConfusion
  | @list v _ hl =>
      cases h' with
      | single hv =>
          have hinfo := (counterListInfo_eq_ok (hlen v rfl)).mpr (.inl ⟨rfl, _, hv⟩)
          rw [(counterListInfo_eq_ok (hlen v rfl)).mpr (.inr ⟨_, hl, rfl⟩)] at hinfo
          exact absurd (congrArg CounterListInfo.isList (Except.ok.inj hinfo)) Bool.noConfusion
      | list hl' => exact hl.unique hl' (hlen v rfl)

/-- The value that is extended by a countersignature has that one last. -/
theorem HasCounters.extended {value new : Bytes} {info : CounterListInfo} (hlen : value.length ≤ sizeMax)
    (hinfo : counterListInfo value = .ok info) (hcount : info.isList = true → info.count < maxMapItems)
    (hvalue : SkippedValue 0 value) (hnew : CounterItem new) :
  ∃ items, HasCounters (some value) items ∧ HasCounters (some (extendedValue info value new)) (items ++ [new])
  := by
  have hmax := four_le_maxMapItems
  obtain ⟨rfl, r, hfull⟩ | ⟨items, hlist, rfl⟩ := (counterListInfo_eq_ok hlen).mp hinfo
  · refine ⟨[value], .single hfull, .list ?_⟩
    constructor
    · simp [extendedValue, CounterListInfo.newCount]
    · exact Nat.zero_lt_two
    · simp only [List.singleton_append, List.length_cons, List.length_nil]
      omega
    · simp only [List.singleton_append, List.forall_mem_cons]
      exact ⟨⟨hvalue, r, hfull⟩, hnew, List.forall_mem_nil _⟩
  · refine ⟨items, .list hlist, .list ?_⟩
    have hlt := hcount rfl
    constructor
    · rw [extendedValue, hlist.value_eq, List.drop_left, List.flatten_append, List.flatten_singleton, List.length_append]
      rfl
    · rw [List.length_append]
      exact Nat.succ_pos _
    · rw [List.length_append]
      exact hlt
    · apply List.forall_mem_append.mpr ⟨hlist.items, List.forall_mem_singleton.mpr hnew⟩

end

end WolfCose
