import WolfCose.Codec.Decode

/-!
# What the decoder accepts

A successful call of a decoding function consumes the bytes under the cursor up to the new
cursor.  This file says, for each function, exactly which bytes it consumes and what it
returns for them: a token for a single head, and one data item of bounded nesting for
`skipEx`.
-/

namespace WolfCose

open Program Cbor Settings

variable [Settings]

/-! ### Consumed bytes -/

/-- The context `ctx'` is `ctx` with the cursor moved over `bs`, which stands at the cursor
of `ctx`. -/
def DecCtx.Consumes (ctx : DecCtx) (bs : Bytes) (ctx' : DecCtx) : Prop :=
  bs <+: ctx.rest ∧ ctx' = ctx.advance bs.length

namespace DecCtx

variable {ctx ctx₁ ctx₂ ctx₃ : DecCtx} {a b bs : Bytes}

@[simp]
theorem rest_advance (ctx : DecCtx) (n : Nat) :
  (ctx.advance n).rest = ctx.rest.drop n
  := by
  simp [rest, advance, List.drop_drop]

@[simp]
theorem bufSz_advance (ctx : DecCtx) (n : Nat) :
  (ctx.advance n).bufSz = ctx.bufSz
  := rfl

@[simp]
theorem idx_advance (ctx : DecCtx) (n : Nat) :
  (ctx.advance n).idx = ctx.idx + n
  := rfl

@[simp]
theorem cbuf_advance (ctx : DecCtx) (n : Nat) :
  (ctx.advance n).cbuf = ctx.cbuf
  := rfl

@[simp]
theorem advance_zero (ctx : DecCtx) :
  ctx.advance 0 = ctx
  := rfl

@[simp]
theorem advance_advance (ctx : DecCtx) (m n : Nat) :
  (ctx.advance m).advance n = ctx.advance (m + n)
  := by
  simp [advance, Nat.add_assoc]

theorem length_rest (ctx : DecCtx) :
  ctx.rest.length = ctx.bufSz - ctx.idx
  := List.length_drop

@[simp]
theorem rest_init (b : Buffer) :
  (init b).rest = b.bytes
  := rfl

theorem consumes_nil (ctx : DecCtx) :
  ctx.Consumes [] ctx
  := ⟨List.nil_prefix, rfl⟩

/-- Reading bytes that stand at the cursor. -/
theorem consumes_of_rest {r : Bytes} (h : ctx.rest = bs ++ r) :
  ctx.Consumes bs (ctx.advance bs.length)
  := ⟨⟨r, h.symm⟩, rfl⟩

theorem Consumes.rest_eq (h : ctx.Consumes bs ctx₁) :
  ctx.rest = bs ++ ctx₁.rest
  := by
  obtain ⟨⟨r, hr⟩, rfl⟩ := h
  rw [rest_advance, ← hr, List.drop_left]

theorem Consumes.trans (h₁ : ctx.Consumes a ctx₁) (h₂ : ctx₁.Consumes b ctx₂) :
  ctx.Consumes (a ++ b) ctx₂
  := by
  have e₁ := h₁.rest_eq
  have e₂ := h₂.rest_eq
  refine ⟨⟨ctx₂.rest, ?_⟩, ?_⟩
  · rw [e₁, e₂, List.append_assoc]
  · rw [h₂.2, h₁.2, advance_advance, List.length_append]

theorem Consumes.split (h : ctx.Consumes (a ++ b) ctx₂) :
  ∃ ctx₁, ctx.Consumes a ctx₁ ∧ ctx₁.Consumes b ctx₂
  := by
  have e := h.rest_eq
  rw [List.append_assoc] at e
  refine ⟨ctx.advance a.length, consumes_of_rest e, ⟨ctx₂.rest, ?_⟩, ?_⟩
  · rw [rest_advance, e, List.drop_left]
  · rw [h.2, advance_advance, List.length_append]

theorem Consumes.unique (h₁ : ctx.Consumes bs ctx₁) (h₂ : ctx.Consumes bs ctx₂) :
  ctx₁ = ctx₂
  := by
  rw [h₁.2, h₂.2]

theorem Consumes.cbuf_eq (h : ctx.Consumes bs ctx₁) :
  ctx₁.cbuf = ctx.cbuf
  := by
  rw [h.2]
  rfl

theorem Consumes.bufSz_eq (h : ctx.Consumes bs ctx₁) :
  ctx₁.bufSz = ctx.bufSz
  := by
  rw [h.2]
  rfl

theorem Consumes.idx_eq (h : ctx.Consumes bs ctx₁) :
  ctx₁.idx = ctx.idx + bs.length
  := by
  rw [h.2]
  rfl

theorem Consumes.length_rest_eq (h : ctx.Consumes bs ctx₁) :
  ctx.rest.length = bs.length + ctx₁.rest.length
  := by
  rw [h.rest_eq, List.length_append]

/-- A buffer that is read to its end is what was read. -/
theorem Consumes.init_end {b : Buffer} (h : (init b).Consumes bs ctx) (hend : ctx.idx = ctx.bufSz) :
  b.bytes = bs
  := by
  have hnil : ctx.rest = [] := by
    apply List.eq_nil_of_length_eq_zero
    rw [length_rest, hend, Nat.sub_self]
  have heq := h.rest_eq
  rw [rest_init, hnil, List.append_nil] at heq
  exact heq

/-- A buffer can be read to its end. -/
theorem consumes_whole (b : Buffer) :
  ∃ last, (init b).Consumes b.bytes last ∧ last.idx = last.bufSz
  := by
  have hc : (init b).Consumes b.bytes ((init b).advance b.bytes.length) := by
    apply consumes_of_rest (r := [])
    rw [rest_init, List.append_nil]
  refine ⟨_, hc, ?_⟩
  rw [idx_advance, bufSz_advance]
  exact Nat.zero_add _

theorem length_rest_le (ctx : DecCtx) :
  ctx.rest.length ≤ ctx.bufSz
  := by
  rw [length_rest]
  omega

theorem bufSz_le (ctx : DecCtx) :
  ctx.bufSz ≤ sizeMax
  := ctx.cbuf.length_le

/-- The bytes consumed between two cursors are determined by the cursors. -/
theorem Consumes.bytes_unique (h₁ : ctx.Consumes a ctx₁) (h₂ : ctx.Consumes b ctx₁) :
  a = b
  := by
  have hl : a.length = b.length := by
    have := h₁.idx_eq
    have := h₂.idx_eq
    omega
  have e := h₁.rest_eq
  rw [h₂.rest_eq] at e
  exact (List.append_inj e hl.symm).1.symm

end DecCtx

/-! ### Heads -/

theorem runs_decodeArgument (n : Nat) (ctx : DecCtx) (v : Nat) (ctx' : DecCtx)
    (hidx : ctx.idx ≤ ctx.bufSz) :
  Runs (decodeArgument n) ctx v ctx'
    ↔ ∃ bs, bs.length = n ∧ ctx.Consumes bs ctx' ∧ v = Bytes.ofBe bs
  := by
  have hl := ctx.length_rest
  simp only [decodeArgument, runs_bind, runs_get, runs_failIf, runs_set, runs_pure]
  constructor
  · rintro ⟨_, _, ⟨rfl, rfl⟩, _, _, ⟨hn, rfl⟩, _, _, rfl, rfl, rfl⟩
    refine ⟨ctx.rest.take n, ?_, ⟨List.take_prefix n ctx.rest, ?_⟩, rfl⟩
    · rw [List.length_take]
      omega
    · rw [List.length_take, Nat.min_eq_left (by omega)]
  · rintro ⟨bs, rfl, hc, rfl⟩
    have hle := hc.length_rest_eq
    refine ⟨ctx, ctx, ⟨rfl, rfl⟩, (), ctx, ⟨by omega, rfl⟩, ⟨⟩, ctx', hc.2.symm, ?_, rfl⟩
    rw [hc.rest_eq, List.take_left]

/-- The argument read for additional information `ai` is that of the width `ai` stands
for. -/
theorem runs_decodeValue (ai : Nat) (ctx : DecCtx) (v : Nat) (ctx' : DecCtx)
    (hidx : ctx.idx ≤ ctx.bufSz) :
  Runs (decodeValue ai) ctx v ctx'
    ↔ ∃ w : Width, v < w.bound ∧ w.ai v = ai ∧ ctx.Consumes (Bytes.be w.size v) ctx'
  := by
  have argument : ∀ w : Width, w ≠ .imm → (w.ai v = ai) →
      (Runs (decodeArgument w.size) ctx v ctx'
        ↔ v < w.bound ∧ ctx.Consumes (Bytes.be w.size v) ctx') := by
    intro w hw _
    rw [runs_decodeArgument _ _ _ _ hidx, Width.bound_le_pow hw]
    constructor
    · rintro ⟨bs, hl, hc, rfl⟩
      refine ⟨hl ▸ Bytes.ofBe_lt bs, ?_⟩
      rw [← hl, Bytes.be_ofBe]
      exact hc
    · rintro ⟨hv, hc⟩
      exact ⟨_, Bytes.length_be .., hc, (Bytes.ofBe_be hv).symm⟩
  -- a width other than `w₀` has other additional information
  have only : ∀ w₀ : Width, w₀ ≠ .imm → w₀.ai v = ai →
      ((∃ w : Width, v < w.bound ∧ w.ai v = ai ∧ ctx.Consumes (Bytes.be w.size v) ctx')
        ↔ v < w₀.bound ∧ ctx.Consumes (Bytes.be w₀.size v) ctx') := by
    intro w₀ hw₀ hai
    constructor
    · rintro ⟨w, hv, hw, hc⟩
      have : w = w₀ := by
        cases w <;> cases w₀ <;> simp only [Width.ai, Width.bound] at hv hw hai hw₀ ⊢ <;>
          first | rfl | omega | exact absurd rfl hw₀
      subst this
      exact ⟨hv, hc⟩
    · rintro ⟨hv, hc⟩
      exact ⟨w₀, hv, hai, hc⟩
  unfold decodeValue
  split
  · rename_i hai
    rw [runs_pure]
    constructor
    · rintro ⟨rfl, rfl⟩
      exact ⟨.imm, Nat.lt_succ_of_le hai, rfl, ctx.consumes_nil⟩
    · rintro ⟨w, hv, hw, hc⟩
      cases w <;> simp only [Width.ai] at hw <;> try omega
      subst hw
      exact ⟨rfl, DecCtx.Consumes.unique ctx.consumes_nil hc⟩
  split
  · rename_i hai
    rw [only .one (by decide) hai.symm]
    exact argument .one (by decide) hai.symm
  split
  · rename_i hai
    rw [only .two (by decide) hai.symm]
    exact argument .two (by decide) hai.symm
  split
  · rename_i hai
    rw [only .four (by decide) hai.symm]
    exact argument .four (by decide) hai.symm
  split
  · rename_i hai
    rw [only .eight (by decide) hai.symm]
    exact argument .eight (by decide) hai.symm
  have none : ∀ w : Width, v < w.bound → w.ai v ≠ ai := by
    intro w hv hw
    cases w <;> simp only [Width.ai, Width.bound] at hv hw <;> omega
  split <;> simp only [runs_throw, false_iff]
  all_goals
    rintro ⟨w, hv, hw, -⟩
    exact none w hv hw

/-- The tokens a decoding function accepts: strings have their announced length, text is
UTF-8, a two-byte simple value is at least 32, and, unless other forms are tolerated, the
argument is in its shortest form (except on major type 7, where the argument may be the
bits of a floating-point number). -/
structure Accepted [Settings] (decodeFlags : UInt32) (t : Token) : Prop where
  wellFormed : t.WellFormed
  simple : t.major = .simple → t.width = .one → 32 ≤ t.val
  preferred : allowsNonpreferred decodeFlags = false → t.major ≠ .simple →
    t.width = Width.preferred t.val
  utf8 : t.major = .tstr → isUtf8 t.data = true

/-- The item a token is decoded to. -/
def tokenItem (t : Token) : Item := ⟨t.major, t.val, t.data⟩

theorem Accepted.wf {flags : UInt32} :
  ∀ t, Accepted flags t → t.WellFormed
  := fun _ h => h.wellFormed

omit [Settings] in
/-- Checking an argument against the bound of each shorter form is checking for the
preferred width. -/
theorem isNonpreferred_iff {w : Width} {v : Nat} (h : v < w.bound) :
  isNonpreferred (w.ai v) v = false ↔ w = Width.preferred v
  := by
  unfold Width.preferred isNonpreferred
  cases w <;> simp only [Width.ai, Width.bound] at h ⊢
  all_goals
    repeat' split
    all_goals
      simp
      omega

omit [Settings] in
theorem isString_iff {m : MajorType} :
  m.isString = true ↔ m = .bstr ∨ m = .tstr
  := by
  cases m <;> simp [MajorType.isString]

/-- A head is decoded exactly when an accepted token stands at the cursor. -/
theorem runs_decodeHeadEx (flags : UInt32) (ctx : DecCtx) (item : Item) (ctx' : DecCtx) :
  Runs (decodeHeadEx flags) ctx item ctx'
    ↔ decodeFlagsValid flags = true
      ∧ ∃ t, Accepted flags t ∧ ctx.Consumes t.bytes ctx' ∧ item = tokenItem t
  := by
  simp only [decodeHeadEx, runs_bind, runs_failIf, runs_get, Bool.not_eq_false]
  constructor
  · rintro ⟨_, _, ⟨hf, rfl⟩, _, _, ⟨rfl, rfl⟩, h⟩
    refine ⟨hf, ?_⟩
    cases hr : ctx.rest with
    | nil =>
        rw [hr] at h
        exact absurd h (runs_throw _ _ _ _)
    | cons ib r =>
        rw [hr] at h
        simp only [runs_bind, runs_set, runs_failIf, runs_ite, runs_get, runs_pure] at h
        obtain ⟨_, _, rfl, v, ctx₁, hv, _, _, ⟨hs, rfl⟩, _, _, ⟨hp, rfl⟩, h⟩ := h
        have hlen := ctx.length_rest
        rw [hr, List.length_cons] at hlen
        rw [runs_decodeValue _ _ _ _ (by simp only [DecCtx.idx_advance, DecCtx.bufSz_advance]; omega)]
          at hv
        obtain ⟨w, hlt, hai, hc⟩ := hv
        have hib : ctx.Consumes [ib] (ctx.advance 1) := DecCtx.consumes_of_rest (r := r) hr
        have hhead : ctx.Consumes (headBytes w (MajorType.ofByte ib) v) ctx₁ := by
          rw [headBytes, hai, initialByte_ofByte]
          exact hib.trans hc
        have hsimple : MajorType.ofByte ib = .simple → w = .one → 32 ≤ v := by
          rintro hm rfl
          have : additionalInfo ib = 24 := hai.symm
          by_contra hlt
          exact hs ⟨hm, this, by omega⟩
        have hpref : allowsNonpreferred flags = false → MajorType.ofByte ib ≠ .simple →
            w = Width.preferred v := by
          intro ha hm
          rw [← isNonpreferred_iff hlt, hai]
          by_contra hne
          exact hp ⟨ha, hm, by simpa using hne⟩
        rcases h with ⟨hm, _, _, ⟨rfl, rfl⟩, _, _, ⟨hval, rfl⟩, _, _, rfl, _, _, ⟨hu, rfl⟩, rfl, rfl⟩ |
          ⟨hm, rfl, rfl⟩
        · have hl := ctx₁.length_rest
          have hdata : (ctx₁.rest.take v).length = v := by
            rw [List.length_take]
            omega
          refine ⟨⟨w, MajorType.ofByte ib, v, ctx₁.rest.take v⟩, ⟨⟨hlt, ?_⟩, hsimple, hpref, ?_⟩, ?_, rfl⟩
          · rw [if_pos (isString_iff.mpr hm), hdata]
          · intro ht
            by_contra hne
            exact hu ⟨ht, by simpa using hne⟩
          · refine hhead.trans ⟨List.take_prefix v ctx₁.rest, ?_⟩
            rw [hdata]
        · refine ⟨⟨w, MajorType.ofByte ib, v, []⟩, ⟨⟨hlt, ?_⟩, hsimple, hpref, ?_⟩, ?_, rfl⟩
          · rw [if_neg (fun h => hm (isString_iff.mp h))]
            rfl
          · exact fun ht => absurd (.inr ht) hm
          · rw [Token.bytes, List.append_nil]
            exact hhead
  · rintro ⟨hf, ⟨w, m, v, data⟩, ⟨⟨hlt, hdata⟩, hsimple, hpref, hutf8⟩, hc, rfl⟩
    simp only at hlt hdata hsimple hpref hutf8
    have hai : w.ai v < 32 := Nat.lt_of_lt_of_le (Width.ai_lt hlt) (by decide)
    have hr := hc.rest_eq
    simp only [Token.bytes, headBytes, List.cons_append] at hr
    refine ⟨(), ctx, ⟨hf, rfl⟩, ctx, ctx, ⟨rfl, rfl⟩, ?_⟩
    rw [hr]
    simp only [runs_bind, runs_set, runs_failIf, runs_ite, runs_get, runs_pure,
      ofByte_initialByte m hai, additionalInfo_initialByte m hai, tokenItem]
    have hlen := ctx.length_rest
    rw [hr, List.length_cons] at hlen
    obtain ⟨ctx₁, hc₁, hc₂⟩ := hc.split
    have hv : Runs (decodeValue (w.ai v)) (ctx.advance 1) v ctx₁ := by
      rw [runs_decodeValue _ _ _ _ (by simp only [DecCtx.idx_advance, DecCtx.bufSz_advance]; omega)]
      refine ⟨w, hlt, rfl, ?_⟩
      have hc₁' := hc₁
      rw [headBytes, ← List.singleton_append] at hc₁'
      obtain ⟨ctx₂, h₁, h₂⟩ := hc₁'.split
      rw [show ctx₂ = ctx.advance 1 from h₁.2] at h₂
      exact h₂
    refine ⟨⟨⟩, ctx.advance 1, rfl, v, ctx₁, hv, (), ctx₁, ⟨?_, rfl⟩, (), ctx₁, ⟨?_, rfl⟩, ?_⟩
    · rintro ⟨hm, ha, hlt'⟩
      have hw : w = .one := @Width.eq_of_ai_eq w .one v v hlt
        (by simp only [Width.bound]; omega) ha
      have := hsimple hm hw
      omega
    · rintro ⟨ha, hm, hne⟩
      rw [(isNonpreferred_iff hlt).mpr (hpref ha hm)] at hne
      exact Bool.false_ne_true hne
    · by_cases hm : m = .bstr ∨ m = .tstr
      · left
        rw [if_pos (isString_iff.mpr hm)] at hdata
        have hl : ctx₁.rest.length = data.length + ctx'.rest.length := hc₂.length_rest_eq
        have hl' := ctx₁.length_rest
        have htake : ctx₁.rest.take v = data := by
          rw [hc₂.rest_eq, ← hdata, List.take_left]
        refine ⟨hm, ctx₁, ctx₁, ⟨rfl, rfl⟩, (), ctx₁, ⟨by omega, rfl⟩, ⟨⟩, ctx', ?_, (), ctx',
          ⟨?_, rfl⟩, ?_, rfl⟩
        · rw [hc₂.2, hdata]
        · rw [htake]
          rintro ⟨ht, hne⟩
          rw [hutf8 ht] at hne
          exact Bool.false_ne_true hne.symm
        · rw [htake]
      · right
        rw [if_neg (fun h => hm (isString_iff.mp h))] at hdata
        have hnil : data = [] := List.eq_nil_of_length_eq_zero hdata
        subst hnil
        exact ⟨hm, rfl, hc₂.unique ctx₁.consumes_nil |>.symm⟩

/-- A token at the cursor shows its major type. -/
theorem DecCtx.peekType_eq {ctx ctx' : DecCtx} {t : Token} {r : Bytes} (ht : t.WellFormed)
    (h : ctx.Consumes (t.bytes ++ r) ctx') :
  ctx.peekType = some t.major
  := by
  have hr := h.rest_eq
  rw [Token.bytes, headBytes] at hr
  rw [peekType, hr]
  simp only [List.cons_append, List.head?_cons, Option.map_some]
  rw [ofByte_initialByte t.major (Nat.lt_trans (Width.ai_lt ht.val_lt) (by decide))]

/-! ### Single items -/

/-- One accepted token at most stands at the cursor. -/
theorem Accepted.consumes_unique {flags flags' : UInt32} {t t' : Token} (h : Accepted flags t)
    (h' : Accepted flags' t') {ctx ctx₁ ctx₂ : DecCtx} (hc : ctx.Consumes t.bytes ctx₁)
    (hc' : ctx.Consumes t'.bytes ctx₂) :
  t = t' ∧ ctx₁ = ctx₂
  := by
  obtain ⟨rfl, -⟩ := Token.bytes_append_cancel h.wellFormed h'.wellFormed (hc.rest_eq.symm.trans hc'.rest_eq)
  exact ⟨rfl, hc.unique hc'⟩

/-- One sequence of a number of items at most stands at the cursor. -/
theorem DecCtx.Consumes.items_unique {flags : UInt32} {d d' n : Nat} {a b : Bytes} {ctx ctx₁ ctx₂ : DecCtx}
    (hc : ctx.Consumes a ctx₁) (hc' : ctx.Consumes b ctx₂) (h : Items (Accepted flags) d n a)
    (h' : Items (Accepted flags) d' n b) :
  a = b ∧ ctx₁ = ctx₂
  := by
  obtain ⟨rfl, -⟩ := Items.append_cancel Accepted.wf h h' (hc.rest_eq.symm.trans hc'.rest_eq)
  exact ⟨rfl, hc.unique hc'⟩

theorem runs_decodeUintEx (flags : UInt32) (ctx : DecCtx) (v : Nat) (ctx' : DecCtx) :
  Runs (decodeUintEx flags) ctx v ctx'
    ↔ decodeFlagsValid flags = true
      ∧ ∃ t, Accepted flags t ∧ ctx.Consumes t.bytes ctx' ∧ t.major = .uint ∧ t.val = v
  := by
  simp only [decodeUintEx, runs_bind, runs_failIf, runs_pure, runs_decodeHeadEx, not_not]
  constructor
  · rintro ⟨_, _, ⟨hf, t, ht, hc, rfl⟩, _, _, ⟨hm, rfl⟩, hv, rfl⟩
    exact ⟨hf, t, ht, hc, hm, hv⟩
  · rintro ⟨hf, t, ht, hc, hm, hv⟩
    exact ⟨_, _, ⟨hf, t, ht, hc, rfl⟩, (), _, ⟨hm, rfl⟩, hv, rfl⟩

/-- The integer a token stands for, when it is an integer in the range of `int64_t`. -/
def intOf (t : Token) : Option Int :=
  match t.major with
  | .uint => if t.val ≤ 2 ^ 63 - 1 then some (t.val : Int) else none
  | .negint => if t.val ≤ 2 ^ 63 - 1 then some (-1 - (t.val : Int)) else none
  | _ => none

theorem runs_itemInt (t : Token) (ctx : DecCtx) (v : Int) (ctx' : DecCtx) :
  Runs (itemInt (tokenItem t)) ctx v ctx' ↔ intOf t = some v ∧ ctx = ctx'
  := by
  obtain ⟨w, m, n, d⟩ := t
  unfold itemInt intOf tokenItem
  cases m <;> simp only [runs_throw, reduceCtorEq, false_and]
  all_goals
    simp only [runs_bind, runs_failIf, runs_pure, Option.ite_none_right_eq_some,
      Option.some.injEq, gt_iff_lt, Nat.not_lt]
    constructor
    · rintro ⟨_, _, ⟨h, rfl⟩, rfl, rfl⟩
      exact ⟨⟨h, rfl⟩, rfl⟩
    · rintro ⟨⟨h, rfl⟩, rfl⟩
      exact ⟨(), ctx, ⟨h, rfl⟩, rfl, rfl⟩

theorem runs_decodeIntEx (flags : UInt32) (ctx : DecCtx) (v : Int) (ctx' : DecCtx) :
  Runs (decodeIntEx flags) ctx v ctx'
    ↔ decodeFlagsValid flags = true
      ∧ ∃ t, Accepted flags t ∧ ctx.Consumes t.bytes ctx' ∧ intOf t = some v
  := by
  simp only [decodeIntEx, runs_bind, runs_decodeHeadEx]
  constructor
  · rintro ⟨_, _, ⟨hf, t, ht, hc, rfl⟩, h⟩
    obtain ⟨hv, rfl⟩ := (runs_itemInt _ _ _ _).mp h
    exact ⟨hf, t, ht, hc, hv⟩
  · rintro ⟨hf, t, ht, hc, hv⟩
    exact ⟨_, _, ⟨hf, t, ht, hc, rfl⟩, (runs_itemInt _ _ _ _).mpr ⟨hv, rfl⟩⟩

theorem runs_decodeBytesEx (m : MajorType) (flags : UInt32) (ctx : DecCtx) (bs : Bytes)
    (ctx' : DecCtx) :
  Runs (decodeBytesEx m flags) ctx bs ctx'
    ↔ decodeFlagsValid flags = true
      ∧ ∃ t, Accepted flags t ∧ ctx.Consumes t.bytes ctx' ∧ t.major = m ∧ t.data = bs
  := by
  simp only [decodeBytesEx, runs_bind, runs_failIf, runs_pure, runs_decodeHeadEx, not_not]
  constructor
  · rintro ⟨_, _, ⟨hf, t, ht, hc, rfl⟩, _, _, ⟨hm, rfl⟩, hv, rfl⟩
    exact ⟨hf, t, ht, hc, hm, hv⟩
  · rintro ⟨hf, t, ht, hc, hm, hv⟩
    exact ⟨_, _, ⟨hf, t, ht, hc, rfl⟩, (), _, ⟨hm, rfl⟩, hv, rfl⟩

theorem runs_decodeBstrEx (flags : UInt32) (ctx : DecCtx) (bs : Bytes) (ctx' : DecCtx) :
  Runs (decodeBstrEx flags) ctx bs ctx'
    ↔ decodeFlagsValid flags = true
      ∧ ∃ t, Accepted flags t ∧ ctx.Consumes t.bytes ctx' ∧ t.major = .bstr ∧ t.data = bs
  := runs_decodeBytesEx .bstr flags ctx bs ctx'

theorem runs_decodeTagEx (flags : UInt32) (ctx : DecCtx) (v : Nat) (ctx' : DecCtx) :
  Runs (decodeTagEx flags) ctx v ctx'
    ↔ decodeFlagsValid flags = true
      ∧ ∃ t, Accepted flags t ∧ ctx.Consumes t.bytes ctx' ∧ t.major = .tag ∧ t.val = v
  := by
  simp only [decodeTagEx, runs_bind, runs_failIf, runs_pure, runs_decodeHeadEx, not_not]
  constructor
  · rintro ⟨_, _, ⟨hf, t, ht, hc, rfl⟩, _, _, ⟨hm, rfl⟩, hv, rfl⟩
    exact ⟨hf, t, ht, hc, hm, hv⟩
  · rintro ⟨hf, t, ht, hc, hm, hv⟩
    exact ⟨_, _, ⟨hf, t, ht, hc, rfl⟩, (), _, ⟨hm, rfl⟩, hv, rfl⟩

/-- The start of an array or map is decoded when enough bytes are left for its children,
each of which takes at least one byte. -/
theorem runs_decodeContainerStartEx {m : MajorType} (hm : m = .array ∨ m = .map)
    (flags : UInt32) (ctx : DecCtx) (n : Nat) (ctx' : DecCtx) :
  Runs (decodeContainerStartEx m flags) ctx n ctx'
    ↔ decodeFlagsValid flags = true
      ∧ ∃ t, Accepted flags t ∧ ctx.Consumes t.bytes ctx' ∧ t.major = m ∧ t.val = n
        ∧ t.children ≤ ctx'.rest.length
  := by
  simp only [decodeContainerStartEx, runs_bind, runs_failIf, runs_get, runs_pure,
    runs_decodeHeadEx, not_not]
  have room : ∀ t : Token, t.major = m → ∀ c : DecCtx,
      (¬ ((m = .array ∧ (tokenItem t).val > c.bufSz - c.idx) ∨
          (m = .map ∧ (tokenItem t).val > (c.bufSz - c.idx) / 2))
        ↔ t.children ≤ c.rest.length) := by
    intro t ht c
    rw [c.length_rest, Token.children, ht]
    rcases hm with rfl | rfl
    · simp [tokenItem]
    · simp [tokenItem]
      omega
  constructor
  · rintro ⟨_, _, ⟨hf, t, ht, hc, rfl⟩, _, _, ⟨hmaj, rfl⟩, _, _, ⟨rfl, rfl⟩, _, _, ⟨hr, rfl⟩, hv, rfl⟩
    exact ⟨hf, t, ht, hc, hmaj, hv, (room t hmaj _).mp hr⟩
  · rintro ⟨hf, t, ht, hc, hmaj, hv, hr⟩
    exact ⟨_, _, ⟨hf, t, ht, hc, rfl⟩, (), _, ⟨hmaj, rfl⟩, _, _, ⟨rfl, rfl⟩, (), _,
      ⟨(room t hmaj _).mpr hr, rfl⟩, hv, rfl⟩

theorem runs_decodeArrayStartEx (flags : UInt32) (ctx : DecCtx) (n : Nat) (ctx' : DecCtx) :
  Runs (decodeArrayStartEx flags) ctx n ctx'
    ↔ decodeFlagsValid flags = true
      ∧ ∃ t, Accepted flags t ∧ ctx.Consumes t.bytes ctx' ∧ t.major = .array ∧ t.val = n
        ∧ t.children ≤ ctx'.rest.length
  := runs_decodeContainerStartEx (.inl rfl) flags ctx n ctx'

theorem runs_decodeMapStartEx (flags : UInt32) (ctx : DecCtx) (n : Nat) (ctx' : DecCtx) :
  Runs (decodeMapStartEx flags) ctx n ctx'
    ↔ decodeFlagsValid flags = true
      ∧ ∃ t, Accepted flags t ∧ ctx.Consumes t.bytes ctx' ∧ t.major = .map ∧ t.val = n
        ∧ t.children ≤ ctx'.rest.length
  := runs_decodeContainerStartEx (.inr rfl) flags ctx n ctx'

/-- The label a token stands for, when it is an integer or a text string. -/
def labelOf (t : Token) : Option Label :=
  match t.major with
  | .tstr => some (.text t.data)
  | _ => (intOf t).map .int

theorem runs_decodeLabelEx (flags : UInt32) (ctx : DecCtx) (l : Label) (ctx' : DecCtx) :
  Runs (decodeLabelEx flags) ctx l ctx'
    ↔ decodeFlagsValid flags = true
      ∧ ∃ t, Accepted flags t ∧ ctx.Consumes t.bytes ctx' ∧ labelOf t = some l
  := by
  have step : ∀ (t : Token) (c : DecCtx),
      (Runs (match (tokenItem t).majorType with
        | .tstr => pure (.text (tokenItem t).data)
        | _ => Label.int <$> itemInt (tokenItem t) : Dec Label) c l ctx'
        ↔ labelOf t = some l ∧ c = ctx') := by
    intro t c
    unfold labelOf
    have hm : (tokenItem t).majorType = t.major := rfl
    rw [hm]
    split
    · simp [tokenItem]
    · simp only [runs_map, runs_itemInt, Option.map_eq_some_iff]
      constructor
      · rintro ⟨v, ⟨hv, hc⟩, hl⟩
        exact ⟨⟨v, hv, hl⟩, hc⟩
      · rintro ⟨⟨v, hv, hl⟩, hc⟩
        exact ⟨v, ⟨hv, hc⟩, hl⟩
  simp only [decodeLabelEx, runs_bind, runs_decodeHeadEx]
  constructor
  · rintro ⟨_, _, ⟨hf, t, ht, hc, rfl⟩, h⟩
    obtain ⟨hl, rfl⟩ := (step t _).mp h
    exact ⟨hf, t, ht, hc, hl⟩
  · rintro ⟨hf, t, ht, hc, hl⟩
    exact ⟨_, _, ⟨hf, t, ht, hc, rfl⟩, (step t _).mpr ⟨hl, rfl⟩⟩

/-! ### Skipping an item -/

/-- What one turn of the loop does to the number of items left and the open levels. -/
theorem runs_skipStep (t : Token) (n : Nat) (s : List Nat) (ctx : DecCtx)
    (next : Nat × List Nat) (ctx' : DecCtx) :
  Runs (skipStep (tokenItem t) (n + 1) s) ctx next ctx'
    ↔ ctx' = ctx ∧
      ((t.major = .tag ∧ next = (n + 1, s)) ∨
        (t.major ≠ .tag ∧ t.children = 0 ∧ next = (n, s)) ∨
        (t.children ≠ 0 ∧ s.length < maxDepth ∧ t.val ≤ ctx.bufSz
          ∧ (t.major = .map → t.val ≤ sizeMax / 2) ∧ next = (t.children, n :: s)))
  := by
  obtain ⟨w, m, v, d⟩ := t
  dsimp only [skipStep, tokenItem, Token.children]
  simp only [runs_bind, runs_get, Nat.add_sub_cancel]
  constructor
  · rintro ⟨_, _, ⟨rfl, rfl⟩, h⟩
    cases m
    case array =>
      simp only [runs_ite, runs_bind, runs_failIf, runs_pure] at h
      rcases h with ⟨hv, _, _, ⟨hd, rfl⟩, _, _, ⟨hb, rfl⟩, rfl, rfl⟩ | ⟨hv, rfl, rfl⟩
      · exact ⟨rfl, .inr (.inr ⟨Nat.ne_of_gt hv, by omega, by omega, (by rintro ⟨⟩), rfl⟩)⟩
      · exact ⟨rfl, .inr (.inl ⟨(by rintro ⟨⟩), Nat.eq_zero_of_not_pos hv, rfl⟩)⟩
    case map =>
      simp only [runs_ite, runs_bind, runs_failIf, runs_pure] at h
      rcases h with ⟨hv, _, _, ⟨hd, rfl⟩, _, _, ⟨hb, rfl⟩, _, _, ⟨hs, rfl⟩, rfl, rfl⟩ | ⟨hv, rfl, rfl⟩
      · refine ⟨rfl, .inr (.inr ⟨?_, by omega, by omega, fun _ => by omega, ?_⟩)⟩
        · dsimp only
          omega
        · rw [Nat.mul_comm]
      · refine ⟨rfl, .inr (.inl ⟨(by rintro ⟨⟩), ?_, rfl⟩)⟩
        dsimp only
        omega
    case tag =>
      obtain ⟨rfl, rfl⟩ := (runs_pure _ _ _ _).mp h
      exact ⟨rfl, .inl ⟨rfl, rfl⟩⟩
    all_goals
      obtain ⟨rfl, rfl⟩ := (runs_pure _ _ _ _).mp h
      exact ⟨rfl, .inr (.inl ⟨(by rintro ⟨⟩), rfl, rfl⟩)⟩
  · rintro ⟨rfl, h⟩
    refine ⟨ctx', ctx', ⟨rfl, rfl⟩, ?_⟩
    cases m
    case array =>
      dsimp only at h ⊢
      simp only [runs_ite, runs_bind, runs_failIf, runs_pure]
      rcases h with ⟨h, -⟩ | ⟨-, hv, rfl⟩ | ⟨hv, hd, hb, -, rfl⟩
      · exact absurd h (by decide)
      · exact .inr ⟨by omega, rfl, trivial⟩
      · exact .inl ⟨by omega, (), ctx', ⟨by omega, rfl⟩, (), ctx', ⟨by omega, rfl⟩, rfl, rfl⟩
    case map =>
      dsimp only at h ⊢
      simp only [runs_ite, runs_bind, runs_failIf, runs_pure]
      rcases h with ⟨h, -⟩ | ⟨-, hv, rfl⟩ | ⟨hv, hd, hb, hs, rfl⟩
      · exact absurd h (by decide)
      · exact .inr ⟨by omega, rfl, trivial⟩
      · have hs' := hs rfl
        refine .inl ⟨by omega, (), ctx', ⟨by omega, rfl⟩, (), ctx', ⟨by omega, rfl⟩, (), ctx',
          ⟨by omega, rfl⟩, ?_, rfl⟩
        rw [Nat.mul_comm]
    case tag =>
      rcases h with ⟨-, rfl⟩ | ⟨h, -⟩ | ⟨h, -⟩
      · exact (runs_pure _ _ _ _).mpr ⟨rfl, rfl⟩
      · exact absurd rfl h
      · exact absurd rfl h
    all_goals
      rcases h with ⟨h, -⟩ | ⟨-, -, rfl⟩ | ⟨h, -⟩
      · exact absurd h (by decide)
      · exact (runs_pure _ _ _ _).mpr ⟨rfl, rfl⟩
      · exact absurd rfl h

/-- The loop reads exactly the items that its open levels still wait for. -/
theorem runs_skipLoop {flags : UInt32} (hf : decodeFlagsValid flags = true) (fuel n : Nat)
    (s : List Nat) (ctx : DecCtx) (ctx' : DecCtx) (hfuel : ctx.rest.length < fuel)
    (hlen : s.length ≤ maxDepth) (hs : n = 0 → s = []) :
  Runs (skipLoop flags fuel n s) ctx () ctx'
    ↔ ∃ bs, Frames (Items (Accepted flags)) maxDepth (n :: s) bs ∧ ctx.Consumes bs ctx'
  := by
  induction fuel generalizing n s ctx with
  | zero => omega
  | succ fuel ih =>
      cases n with
      | zero =>
          obtain rfl := hs rfl
          simp only [skipLoop, runs_pure, true_and]
          constructor
          · rintro rfl
            exact ⟨[], Frames.singleton_iff.mpr (.nil _), ctx.consumes_nil⟩
          · rintro ⟨bs, hb, hc⟩
            rw [Frames.singleton_iff] at hb
            rw [hb.eq_nil] at hc
            exact ctx.consumes_nil.unique hc
      | succ n =>
          -- after a head, the induction hypothesis applies to the levels left open
          have tail : ∀ (ctx₁ : DecCtx) (k : Nat) (s' : List Nat), s'.length ≤ maxDepth →
              ctx₁.rest.length < ctx.rest.length →
              (Runs (skipLoop flags fuel (unwind k s').1 (unwind k s').2) ctx₁ () ctx'
                ↔ ∃ bs, Frames (Items (Accepted flags)) maxDepth (k :: s') bs ∧ ctx₁.Consumes bs ctx') := by
            intro ctx₁ k s' hs' hl
            rw [ih _ _ _ (by omega) (Nat.le_trans (unwind_length_le k s') hs')
              unwind_eq_nil]
            simp only [Frames.unwind_iff Items.zero_iff]
          have shorter : ∀ (t : Token) (ctx₁ : DecCtx), ctx.Consumes t.bytes ctx₁ →
              ctx₁.rest.length < ctx.rest.length := by
            intro t ctx₁ hc
            have h₁ := hc.length_rest_eq
            have h₂ := t.one_le_length_bytes
            omega
          simp only [skipLoop, runs_bind, runs_decodeHeadEx]
          constructor
          · rintro ⟨_, ctx₁, ⟨-, t, ht, hc, rfl⟩, next, ctx₂, hstep, hloop⟩
            obtain ⟨rfl, hcase⟩ := (runs_skipStep ..).mp hstep
            have hsh := shorter t _ hc
            rcases hcase with ⟨hm, rfl⟩ | ⟨hm, h0, rfl⟩ | ⟨hcs, hd, -, -, rfl⟩
            · obtain ⟨bs, hb, hc'⟩ := (tail _ _ _ hlen hsh).mp hloop
              exact ⟨_, (Items.frames_tag_iff Accepted.wf ht hm).mpr hb, hc.trans hc'⟩
            · obtain ⟨bs, hb, hc'⟩ := (tail _ _ _ hlen hsh).mp hloop
              exact ⟨_, (Items.frames_leaf_iff Accepted.wf ht hm h0).mpr hb, hc.trans hc'⟩
            · obtain ⟨bs, hb, hc'⟩ := (tail _ _ (n :: s) hd hsh).mp hloop
              exact ⟨_, (Items.frames_container_iff Accepted.wf ht hcs).mpr ⟨hd, hb⟩, hc.trans hc'⟩
          · rintro ⟨bs, hb, hc⟩
            obtain ⟨a, b, rfl, ha, -⟩ := Frames.cons_iff.mp hb
            obtain ⟨t, r, ht, rfl⟩ := ha.head
            rw [List.append_assoc] at hb hc
            obtain ⟨ctx₁, hc₁, hc₂⟩ := hc.split
            have hsh := shorter t _ hc₁
            refine ⟨_, ctx₁, ⟨hf, t, ht, hc₁, rfl⟩, ?_⟩
            by_cases hm : t.major = .tag
            · refine ⟨_, ctx₁, (runs_skipStep ..).mpr ⟨rfl, .inl ⟨hm, rfl⟩⟩, ?_⟩
              exact (tail _ _ _ hlen hsh).mpr ⟨_, (Items.frames_tag_iff Accepted.wf ht hm).mp hb, hc₂⟩
            by_cases h0 : t.children = 0
            · refine ⟨_, ctx₁, (runs_skipStep ..).mpr ⟨rfl, .inr (.inl ⟨hm, h0, rfl⟩)⟩, ?_⟩
              exact (tail _ _ _ hlen hsh).mpr ⟨_, (Items.frames_leaf_iff Accepted.wf ht hm h0).mp hb, hc₂⟩
            · obtain ⟨hd, hb'⟩ := (Items.frames_container_iff Accepted.wf ht h0).mp hb
              -- the children are in the buffer, so their number passes the sanity checks
              have hroom : t.children ≤ ctx₁.rest.length := by
                obtain ⟨cs, b', e, hcs, -⟩ := Frames.cons_iff.mp hb'
                have h₁ := hcs.le_length
                have h₂ := hc₂.length_rest_eq
                rw [e, List.length_append] at h₂
                omega
              have hbuf := ctx₁.length_rest_le
              have hmax := ctx₁.bufSz_le
              have hval : t.val ≤ t.children ∧ (t.major = .map → 2 * t.val = t.children) := by
                unfold Token.children at h0 ⊢
                split <;> rename_i hmaj <;> simp_all
                omega
              refine ⟨_, ctx₁, (runs_skipStep ..).mpr ⟨rfl, .inr (.inr ⟨h0, hd, by omega, ?_, rfl⟩)⟩, ?_⟩
              · intro hmap
                have := hval.2 hmap
                omega
              · exact (tail _ _ (n :: s) hd hsh).mpr ⟨_, hb', hc₂⟩

/-- One item is skipped exactly when a complete data item nested at most
`WOLFCOSE_CBOR_MAX_DEPTH` deep stands at the cursor. -/
theorem runs_skipEx {flags : UInt32} (hf : decodeFlagsValid flags = true) (ctx : DecCtx)
    (ctx' : DecCtx) :
  Runs (skipEx flags) ctx () ctx'
    ↔ ∃ bs, Items (Accepted flags) maxDepth 1 bs ∧ ctx.Consumes bs ctx'
  := by
  have hl := ctx.length_rest_le
  have h := runs_skipLoop hf (ctx.bufSz + 1) 1 [] ctx ctx' (by omega) (by simp) (by simp)
  simp only [Frames.singleton_iff] at h
  simp only [skipEx, runs_bind, runs_get]
  constructor
  · rintro ⟨_, _, ⟨rfl, rfl⟩, hr⟩
    exact h.mp hr
  · intro hr
    exact ⟨ctx, ctx, ⟨rfl, rfl⟩, h.mpr hr⟩

@[simp]
theorem decodeFlagsValid_zero :
  decodeFlagsValid 0 = true
  := by
  unfold decodeFlagsValid
  split <;> decide

@[simp]
theorem allowsNonpreferred_zero :
  allowsNonpreferred 0 = false
  := by
  simp [allowsNonpreferred]

/-- The skipped item is handed out with its bytes. -/
theorem runs_skipItem (ctx : DecCtx) (bs : Bytes) (ctx' : DecCtx) :
  Runs skipItem ctx bs ctx' ↔ Items (Accepted 0) maxDepth 1 bs ∧ ctx.Consumes bs ctx'
  := by
  simp only [skipItem, runs_bind, runs_get, runs_pure, runs_skipEx decodeFlagsValid_zero]
  constructor
  · rintro ⟨_, _, ⟨rfl, rfl⟩, ⟨⟩, ctx', ⟨bs', hb, hc⟩, _, _, ⟨rfl, rfl⟩, rfl, rfl⟩
    have hbs : ctx.rest.take (ctx'.idx - ctx.idx) = bs' := by
      rw [hc.idx_eq, Nat.add_sub_cancel_left, hc.rest_eq, List.take_left]
    rw [hbs]
    exact ⟨hb, hc⟩
  · rintro ⟨hb, hc⟩
    refine ⟨ctx, ctx, ⟨rfl, rfl⟩, (), ctx', ⟨bs, hb, hc⟩, ctx', ctx', ⟨rfl, rfl⟩, ?_, rfl⟩
    rw [hc.idx_eq, Nat.add_sub_cancel_left, hc.rest_eq, List.take_left]

end WolfCose
