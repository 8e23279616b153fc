import WolfCose.Countersign.Attach

/-!
# Lists of countersignatures

What stands under the label of full countersignatures is one countersignature or a list of them.
-/

namespace WolfCose

open Program Cbor Settings

variable [Settings]

/-- A full countersignature, with its headers and its signature. -/
def FullCounterValue (bs : Bytes) (r : Headers × Bytes) : Prop :=
  ∃ headers sig, bs = preferredHead .array 3 ++ (headers ++ sig) ∧ HeadersValue 0 headers r.1
    ∧ BstrValue 0 sig r.2

/-- An accepted head that carries no bytes is in its shortest form. -/
theorem Accepted.eq_ofHead {t : Token} (h : Accepted 0 t) (hs : t.major ≠ .simple)
    (hstr : t.major.isString = false) :
  t = .ofHead t.major t.val
  := by
  have hdata := h.wellFormed.length_data
  rw [hstr, if_neg Bool.false_ne_true] at hdata
  obtain ⟨w, m, v, d⟩ := t
  obtain rfl := List.eq_nil_of_length_eq_zero hdata
  rw [Token.ofHead, ← h.preferred allowsNonpreferred_zero hs]

theorem Accepted.bytes_eq {t : Token} (h : Accepted 0 t) (hs : t.major ≠ .simple)
    (hstr : t.major.isString = false) :
  t.bytes = preferredHead t.major t.val
  := by
  rw [h.eq_ofHead hs hstr, Token.bytes_ofHead]
  rfl

/-- The head of an array is decoded where the array has room for its items. -/
theorem runs_decodeArrayStart {ctx ctx' : DecCtx} {n : Nat} :
  Runs decodeArrayStart ctx n ctx'
    ↔ n < 2 ^ 64 ∧ ctx.Consumes (preferredHead .array n) ctx' ∧ n ≤ ctx'.rest.length
  := by
  rw [decodeArrayStart, runs_decodeArrayStartEx]
  constructor
  · rintro ⟨-, t, ht, hc, hm, rfl, hroom⟩
    rw [ht.bytes_eq (by rw [hm]; decide) (by rw [hm]; rfl), hm] at hc
    rw [Token.children, hm] at hroom
    exact ⟨Nat.lt_of_lt_of_le ht.wellFormed.val_lt (Width.bound_le _), hc, hroom⟩
  · rintro ⟨hn, hc, hroom⟩
    refine ⟨decodeFlagsValid_zero, .ofHead .array n, accepted_ofHead rfl (by decide) hn, ?_, rfl, rfl, hroom⟩
    rw [Token.bytes_ofHead]
    exact hc

theorem FullCounterValue.ne_nil {bs : Bytes} {r : Headers × Bytes} (h : FullCounterValue bs r) :
  bs ≠ []
  := by
  obtain ⟨_, _, rfl, -⟩ := h
  exact List.append_ne_nil_of_left_ne_nil (preferredHead_ne_nil _ _) _

/-- A value is a full countersignature exactly if the decoder accepts it up to its end. -/
theorem runs_decodeFullCounter {value : Bytes} (hlen : value.length ≤ sizeMax) {r : Headers × Bytes} :
  (∃ ctx', Runs decodeFullCounter (.init (.ofBytes value)) r ctx') ↔ FullCounterValue value r
  := by
  simp only [decodeFullCounter, runs_bind, runs_failIf, runs_pure, runs_decodeEnd,
    reads_decodeHeaders decodeFlagsValid_zero _ _ _, decodeBstr, reads_decodeBstrEx decodeFlagsValid_zero _ _ _,
    runs_decodeArrayStart, not_not, ne_eq]
  have hrest : (DecCtx.init (.ofBytes value)).rest = value := by
    rw [DecCtx.rest_init, Buffer.bytes_ofBytes hlen]
  constructor
  · rintro ⟨_, n, c₁, ⟨-, h₁, -⟩, _, _, ⟨rfl, rfl⟩, headers, c₂, ⟨hs, hh, h₂⟩, sig, c₃, ⟨ss, hsig, h₃⟩, _, _,
      ⟨hend, rfl⟩, rfl, rfl⟩
    exact ⟨hs, ss, hrest.symm.trans ((h₁.trans (h₂.trans h₃)).init_end hend), hh, hsig⟩
  · rintro ⟨hs, ss, rfl, hh, hsig⟩
    have hwhole := DecCtx.consumes_of_rest (hrest.trans (List.append_nil _).symm)
    have hend := hwhole.idx_eq
    obtain ⟨c₁, h₁, hwhole'⟩ := hwhole.split
    obtain ⟨c₂, h₂, h₃⟩ := hwhole'.split
    refine ⟨_, 3, c₁, ⟨by decide, h₁, ?_⟩, (), c₁, ⟨rfl, rfl⟩, r.1, c₂, ⟨hs, hh, h₂⟩, r.2, _, ⟨ss, hsig, h₃⟩, (), _,
      ⟨?_, rfl⟩, rfl, rfl⟩
    · have hpos := List.length_pos_iff.mpr hsig.ne_nil
      rw [h₂.length_rest_eq, h₃.length_rest_eq]
      have := hh.two_le_length
      omega
    · rw [hend, hwhole.bufSz_eq, DecCtx.bufSz, DecCtx.init, Buffer.bytes_ofBytes hlen, Nat.zero_add]

theorem validateFullCounter_eq_ok {value : Bytes} (hlen : value.length ≤ sizeMax) :
  validateFullCounter value = .ok () ↔ ∃ r, FullCounterValue value r
  := by
  simp only [← runs_decodeFullCounter hlen, validateFullCounter, Runs]
  cases h : decodeFullCounter (.init (.ofBytes value)) with
  | ok r ctx =>
      simp only [true_iff]
      exact ⟨r, ctx, rfl⟩
  | error e ctx => simp

/-! ### Lists -/

/-- An item of a list of full countersignatures. -/
def CounterItem (bs : Bytes) : Prop :=
  SkippedValue 0 bs ∧ ∃ r, FullCounterValue bs r

theorem reads_validateListItem :
  Reads validateListItem (fun bs _ => CounterItem bs)
  := by
  intro ctx u ctx'
  simp only [validateListItem, runs_bind, runs_skipItem, runs_ofExcept]
  have valid {bs : Bytes} {c : DecCtx} (hc : ctx.Consumes bs c) :
      validateFullCounter bs = .ok () ↔ ∃ r, FullCounterValue bs r := by
    apply validateFullCounter_eq_ok
    have h₁ := hc.length_rest_eq
    have h₂ := ctx.length_rest_le
    have h₃ := ctx.bufSz_le
    omega
  constructor
  · rintro ⟨bs, c, ⟨hs, hc⟩, hv, rfl⟩
    exact ⟨bs, ⟨hs, (valid hc).mp hv⟩, hc⟩
  · rintro ⟨bs, ⟨hs, hv⟩, hc⟩
    exact ⟨bs, ctx', ⟨hs, hc⟩, (valid hc).mpr hv, rfl⟩

/-- The value is a list of full countersignatures. -/
structure CounterList (value : Bytes) (items : List Bytes) : Prop where
  value_eq : value = preferredHead .array items.length ++ items.flatten
  pos : 0 < items.length
  length_le : items.length ≤ maxMapItems
  items : ∀ x ∈ items, CounterItem x

/-- The next byte tells the major type of the item that starts there. -/
theorem DecCtx.peekType_of_rest {ctx : DecCtx} {t : Token} {r : Bytes} (ht : t.WellFormed)
    (h : ctx.rest = t.bytes ++ r) :
  ctx.peekType = some t.major
  := DecCtx.peekType_eq ht (DecCtx.consumes_of_rest (h.trans (List.append_nil _).symm))

/-- In a list the head of an array is next. -/
theorem CounterItem.peekType {ctx : DecCtx} {bs r : Bytes} (h : CounterItem bs) (hrest : ctx.rest = bs ++ r) :
  ctx.peekType = some .array
  := by
  obtain ⟨_, headers, sig, rfl, -⟩ := h.2
  apply DecCtx.peekType_of_rest (t := .ofHead .array 3) (Token.wellFormed_ofHead rfl (by decide))
  rw [hrest, List.append_assoc, Token.bytes_ofHead]

/-- In a countersignature a byte string is next. -/
theorem HeadersValue.peekType {ctx : DecCtx} {flags : UInt32} {bs r : Bytes} {headers : Headers}
    (h : HeadersValue flags bs headers) (hrest : ctx.rest = bs ++ r) :
  ctx.peekType = some .bstr
  := by
  obtain ⟨prot, _, head, es, _, rfl, ⟨t, ht, ⟨hm, -⟩, rfl⟩, -⟩ := h
  rw [← hm]
  apply DecCtx.peekType_of_rest ht.wellFormed
  rw [hrest, List.append_assoc]

/-- The value under the label of full countersignatures is one countersignature or a list. -/
theorem counterListInfo_eq_ok {value : Bytes} (hlen : value.length ≤ sizeMax) {info : CounterListInfo} :
  counterListInfo value = .ok info
    ↔ (info = ⟨1, 0, false⟩ ∧ ∃ r, FullCounterValue value r)
      ∨ ∃ items, CounterList value items ∧ info = ⟨items.length, (preferredHead .array items.length).length, true⟩
  := by
  have hrest : (DecCtx.init (.ofBytes value)).rest = value := by
    rw [DecCtx.rest_init, Buffer.bytes_ofBytes hlen]
  have hruns : counterListInfo value = .ok info
      ↔ ∃ ctx', Runs (decodeCounterListInfo value) (.init (.ofBytes value)) info ctx' := by
    unfold counterListInfo Runs
    cases decodeCounterListInfo value (.init (.ofBytes value)) with
    | ok i ctx => simp
    | error e ctx => simp
  rw [hruns]
  simp only [decodeCounterListInfo, runs_bind, runs_failIf, runs_get, runs_ite, runs_pure, runs_throw, runs_ofExcept,
    runs_decodeArrayStart, runs_decodeEnd, reads_validateListItem.repeat, validateFullCounter_eq_ok hlen,
    and_false, or_false]
  constructor
  · rintro ⟨_, n, c₁, ⟨hn, h₁, hroom⟩, _, _, ⟨rfl, rfl⟩, _, _, ⟨hidx, rfl⟩, hcases⟩
    obtain ⟨-, _, _, ⟨hv, rfl⟩, rfl, rfl⟩ | ⟨-, -, _, _, ⟨hmax, rfl⟩, _, c₂, ⟨items, rfl, hitems, h₂⟩, _, _,
      ⟨hend, rfl⟩, rfl, rfl⟩ := hcases
    · exact .inl ⟨rfl, hv⟩
    · have hwhole := hrest.symm.trans ((h₁.trans h₂).init_end hend)
      refine .inr ⟨items, ⟨hwhole, by omega, by omega, hitems⟩, ?_⟩
      rw [h₁.idx_eq, DecCtx.init, Nat.zero_add]
  · rintro (⟨rfl, hv⟩ | ⟨items, h, rfl⟩)
    · obtain ⟨r, headers, sig, hval, hh, hsig⟩ := hv
      have hwhole := DecCtx.consumes_of_rest ((hrest.trans hval).trans (List.append_nil _).symm)
      obtain ⟨c₁, h₁, h₂⟩ := hwhole.split
      have hlen₁ : 3 ≤ c₁.rest.length := by
        have hpos := List.length_pos_iff.mpr hsig.ne_nil
        have htwo := hh.two_le_length
        rw [h₂.length_rest_eq, List.length_append]
        omega
      have hidx : ¬ (3 = 0 ∨ c₁.idx ≥ c₁.bufSz) := by
        rw [DecCtx.length_rest] at hlen₁
        omega
      have hpeek : c₁.peekType = some .bstr := by
        apply hh.peekType
        rw [h₂.rest_eq, List.append_assoc]
      refine ⟨c₁, 3, c₁, ⟨by decide, h₁, hlen₁⟩, c₁, c₁, ⟨rfl, rfl⟩, (), c₁, ⟨hidx, rfl⟩, .inl ⟨hpeek, (), c₁, ⟨?_, rfl⟩,
        rfl, rfl⟩⟩
      exact ⟨r, headers, sig, hval, hh, hsig⟩
    · have hwhole := DecCtx.consumes_of_rest ((hrest.trans h.value_eq).trans (List.append_nil _).symm)
      have hend := hwhole.idx_eq
      obtain ⟨c₁, h₁, h₂⟩ := hwhole.split
      have hlen₁ : items.length ≤ c₁.rest.length := by
        have hle := Bytes.length_le_flatten fun x hx => (h.items x hx).1.ne_nil
        rw [h₂.length_rest_eq]
        omega
      have hpos := h.pos
      have hidx : ¬ (items.length = 0 ∨ c₁.idx ≥ c₁.bufSz) := by
        rw [DecCtx.length_rest] at hlen₁
        omega
      have hpeek : c₁.peekType = some .array := by
        obtain ⟨x, xs, rfl⟩ := List.exists_cons_of_length_pos hpos
        apply (h.items x List.mem_cons_self).peekType
        rw [h₂.rest_eq, List.flatten_cons, List.append_assoc]
      have hlt : items.length < 2 ^ 64 := by
        have hsize := sizeMax_lt
        have hle := c₁.length_rest_le
        have hle' := c₁.bufSz_le
        omega
      refine ⟨_, items.length, c₁, ⟨hlt, h₁, hlen₁⟩, c₁, c₁, ⟨rfl, rfl⟩, (), c₁, ⟨hidx, rfl⟩,
        .inr ⟨?_, hpeek, (), c₁, ⟨Nat.not_lt.mpr h.length_le, rfl⟩, (), _, ⟨items, rfl, h.items, h₂⟩, (), _, ⟨?_, rfl⟩, ?_,
          rfl⟩⟩
      · rw [hpeek]
        decide
      · rw [hend, hwhole.bufSz_eq, ← h.value_eq, DecCtx.bufSz, DecCtx.init, Nat.zero_add, Buffer.bytes_ofBytes hlen]
      · rw [h₁.idx_eq, DecCtx.init, Nat.zero_add]

end WolfCose
