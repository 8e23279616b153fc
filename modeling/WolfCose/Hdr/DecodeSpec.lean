import WolfCose.Hdr.Entries

/-!
# What the header decoders accept

For each kind of value, the bytes that the decoders read for it and what they store.  The
protected bucket and the unprotected map are accepted exactly when their entries are; the
two decoders in a row see every label at most once.
-/

namespace WolfCose

open Program Cbor Settings

variable [Settings]

/-! ### Reading -/

/-- The program `p` reads exactly the byte strings, and returns exactly the results, that
the relation `R` allows, whatever follows in the buffer. -/
def Reads {α : Type} (p : Dec α) (R : Bytes → α → Prop) : Prop :=
  ∀ ctx a ctx', Runs p ctx a ctx' ↔ ∃ bs, R bs a ∧ ctx.Consumes bs ctx'

theorem Reads.map {α β : Type} {p : Dec α} {R : Bytes → α → Prop} (h : Reads p R) (f : α → β) :
  Reads (do let a ← p; return f a) (fun bs b => ∃ a, R bs a ∧ b = f a)
  := by
  intro ctx b ctx'
  simp only [runs_bind, runs_pure, h _ _ _]
  constructor
  · rintro ⟨a, _, ⟨bs, hR, hc⟩, rfl, rfl⟩
    exact ⟨bs, ⟨a, hR, rfl⟩, hc⟩
  · rintro ⟨bs, ⟨a, hR, rfl⟩, hc⟩
    exact ⟨a, ctx', ⟨bs, hR, hc⟩, rfl, rfl⟩

/-- A value that is checked after it is read. -/
theorem Reads.check {α β : Type} {p : Dec α} {R : Bytes → α → Prop} (h : Reads p R) {bad : α → Prop}
    [DecidablePred bad] {e : Err} (f : α → β) :
  Reads (do let a ← p; failIf (bad a) e; return f a) (fun bs b => ∃ a, R bs a ∧ ¬ bad a ∧ b = f a)
  := by
  intro ctx b ctx'
  simp only [runs_bind, runs_failIf, runs_pure, h _ _ _]
  constructor
  · rintro ⟨a, _, ⟨bs, hR, hc⟩, _, _, ⟨hbad, rfl⟩, rfl, rfl⟩
    exact ⟨bs, ⟨a, hR, hbad, rfl⟩, hc⟩
  · rintro ⟨bs, ⟨a, hR, hbad, rfl⟩, hc⟩
    exact ⟨a, ctx', ⟨bs, hR, hc⟩, (), ctx', ⟨hbad, rfl⟩, rfl, rfl⟩

theorem Reads.andReturn {α : Type} {p : Dec Unit} {R : Bytes → Prop} (h : Reads p (fun bs _ => R bs))
    (a : α) :
  Reads (do p; return a) (fun bs b => R bs ∧ b = a)
  := by
  intro ctx b ctx'
  rw [(h.map fun _ => a) ctx b ctx']
  simp

/-- A loop around a program reads one byte string after the other. -/
theorem Reads.repeat {p : Dec Unit} {R : Bytes → Prop} (h : Reads p (fun bs _ => R bs)) (n : Nat)
    (ctx : DecCtx) (u : Unit) (ctx' : DecCtx) :
  Runs (repeatM n (fun _ => p) ()) ctx u ctx'
    ↔ ∃ xs : List Bytes, xs.length = n ∧ (∀ x ∈ xs, R x) ∧ ctx.Consumes xs.flatten ctx'
  := by
  induction n generalizing ctx with
  | zero =>
      rw [runs_repeatM_zero]
      constructor
      · rintro ⟨-, rfl⟩
        exact ⟨[], rfl, List.forall_mem_nil _, ctx.consumes_nil⟩
      · rintro ⟨xs, hn, -, hc⟩
        obtain rfl := List.eq_nil_of_length_eq_zero hn
        exact ⟨rfl, ctx.consumes_nil.unique hc⟩
  | succ n ih =>
      simp only [runs_repeatM_succ, h _ _ _, ih]
      constructor
      · rintro ⟨_, ctx₁, ⟨x, hx, hc⟩, xs, rfl, hxs, hc'⟩
        exact ⟨x :: xs, rfl, List.forall_mem_cons.mpr ⟨hx, hxs⟩, hc.trans hc'⟩
      · rintro ⟨xs, hn, hxs, hc⟩
        obtain _ | ⟨x, xs⟩ := xs
        · exact absurd hn (Nat.succ_ne_zero n).symm
        obtain ⟨hx, hxs⟩ := List.forall_mem_cons.mp hxs
        rw [List.flatten_cons] at hc
        obtain ⟨ctx₁, hc₁, hc₂⟩ := hc.split
        exact ⟨(), ctx₁, ⟨x, hx, hc₁⟩, xs, Nat.succ.inj hn, hxs, hc₂⟩

/-- A buffer is read to its end exactly if its bytes are what is read. -/
theorem Reads.whole {α : Type} {p : Dec α} {R : Bytes → α → Prop} (h : Reads p R) {b : Buffer} {a : α} :
  (∃ ctx', Runs p (.init b) a ctx' ∧ ctx'.idx = ctx'.bufSz) ↔ R b.bytes a
  := by
  constructor
  · rintro ⟨ctx', hrun, hend⟩
    obtain ⟨bs, hbs, hc⟩ := (h _ _ _).mp hrun
    rw [hc.init_end hend]
    exact hbs
  · intro hR
    obtain ⟨last, hc, hend⟩ := DecCtx.consumes_whole b
    exact ⟨last, (h _ _ _).mpr ⟨b.bytes, hR, hc⟩, hend⟩

theorem Reads.ite {α : Type} {c : Prop} [Decidable c] {p q : Dec α} {R S : Bytes → α → Prop}
    (hp : Reads p R) (hq : Reads q S) :
  Reads (if c then p else q) (fun bs a => if c then R bs a else S bs a)
  := by
  intro ctx a ctx'
  by_cases hc : c
  · simpa only [hc, if_true] using hp ctx a ctx'
  · simpa only [hc, if_false] using hq ctx a ctx'

/-- A value that the generic walker skips: one data item. -/
def SkippedValue (flags : UInt32) (bs : Bytes) : Prop :=
  Items (Accepted flags) maxDepth 1 bs

/-- A value that is a single token with a property. -/
def TokenValue (flags : UInt32) (R : Token → Prop) (bs : Bytes) : Prop :=
  ∃ t, Accepted flags t ∧ R t ∧ bs = t.bytes

/-- A byte string value. -/
def BstrValue (flags : UInt32) (bs data : Bytes) : Prop :=
  TokenValue flags (fun t => t.major = .bstr ∧ t.data = data) bs

/-- The value of an algorithm parameter: a text string, which is passed over, or an integer
of 32 bits. -/
def AlgValue (flags : UInt32) (hdr : Hdr) (bs : Bytes) (hdr' : Hdr) : Prop :=
  TokenValue flags (fun t => (t.major = .tstr ∧ hdr' = hdr)
    ∨ ∃ v, intOf t = some v ∧ inInt32Range v = true ∧ hdr' = { hdr with alg := v }) bs

/-- The value of a content type parameter: a text string, which is passed over, or an
unsigned integer of 31 bits. -/
def ContentTypeValue (flags : UInt32) (hdr : Hdr) (bs : Bytes) (r : Hdr × Bool) : Prop :=
  TokenValue flags (fun t => (t.major = .tstr ∧ r = (hdr, false))
    ∨ (t.major = .uint ∧ t.val ≤ 2 ^ 31 - 1 ∧ r = ({ hdr with contentType := t.val }, true))) bs

theorem TokenValue.ne_nil {flags : UInt32} {R : Token → Prop} {bs : Bytes}
    (h : TokenValue flags R bs) :
  bs ≠ []
  := by
  obtain ⟨t, -, -, rfl⟩ := h
  exact t.bytes_ne_nil

/-- A byte string is not longer than its encoding. -/
theorem BstrValue.length_le {flags : UInt32} {bs data : Bytes} (h : BstrValue flags bs data) :
  data.length ≤ bs.length
  := by
  obtain ⟨t, -, ⟨-, rfl⟩, rfl⟩ := h
  rw [Token.bytes, List.length_append]
  apply Nat.le_add_left

theorem SkippedValue.ne_nil {flags : UInt32} {bs : Bytes} (h : SkippedValue flags bs) :
  bs ≠ []
  := Items.ne_nil h

/-- An item without children is skipped as its token. -/
theorem skippedValue_token {flags : UInt32} {t : Token} (ht : Accepted flags t)
    (hm : t.major ≠ .tag) (hc : t.children = 0) {r : Bytes} :
  SkippedValue flags (t.bytes ++ r) ↔ r = []
  := by
  rw [SkippedValue, Items.leaf_iff Accepted.wf ht hm hc (n := 0)]
  constructor
  · exact Items.eq_nil
  · rintro rfl
    exact .nil _

omit [Settings] in
theorem intOf_major {t : Token} {v : Int} (h : intOf t = some v) :
  t.major = .uint ∨ t.major = .negint
  := by
  unfold intOf at h
  split at h
  · left
    assumption
  · right
    assumption
  · simp at h

/-- A label of the crit parameter: one that the library processes. -/
def CritToken (flags : UInt32) (t : Token) : Prop :=
  Accepted flags t ∧ ∃ v, intOf t = some v ∧ 1 ≤ v ∧ v ≤ 6

/-- The bit of a label of the crit parameter. -/
def critBit (t : Token) : UInt32 :=
  labelBit ((intOf t).getD 0)

/-- The bits of the labels of the crit parameter, added to those before. -/
def critBits (crit : UInt32) (ts : List Token) : UInt32 :=
  ts.foldl (fun c t => c ||| critBit t) crit

/-- The value of the crit parameter: a non-empty array of labels. -/
def CritValue (flags : UInt32) (crit : UInt32) (bs : Bytes) (crit' : UInt32) : Prop :=
  ∃ (head : Token) (ts : List Token), Accepted flags head ∧ head.major = .array
    ∧ head.val = ts.length ∧ 0 < ts.length ∧ ts.length ≤ maxMapItems
    ∧ (∀ t ∈ ts, CritToken flags t) ∧ bs = head.bytes ++ ts.flatMap Token.bytes
    ∧ crit' = critBits crit ts

section Values

variable {flags : UInt32} (hf : decodeFlagsValid flags = true)

include hf

theorem reads_skipEx :
  Reads (skipEx flags) (fun bs _ => SkippedValue flags bs)
  := fun ctx _ ctx' => runs_skipEx hf ctx ctx'

theorem reads_decodeBstrEx :
  Reads (decodeBstrEx flags) (BstrValue flags)
  := by
  intro ctx data ctx'
  rw [runs_decodeBstrEx]
  constructor
  · rintro ⟨-, t, ht, hc, hm, hd⟩
    exact ⟨_, ⟨t, ht, ⟨hm, hd⟩, rfl⟩, hc⟩
  · rintro ⟨_, ⟨t, ht, ⟨hm, hd⟩, rfl⟩, hc⟩
    exact ⟨hf, t, ht, hc, hm, hd⟩

/-- The text alternative of a value: a text string at the cursor is skipped. -/
theorem skip_text (ctx ctx' : DecCtx) :
  (ctx.peekType = some .tstr ∧ Runs (skipEx flags) ctx () ctx')
    ↔ ∃ t, Accepted flags t ∧ t.major = .tstr ∧ ctx.Consumes t.bytes ctx'
  := by
  rw [runs_skipEx hf]
  have leaf : ∀ t : Token, t.major = .tstr → t.major ≠ .tag ∧ t.children = 0 := by
    intro t hm
    rw [Token.children, hm]
    exact ⟨(by rintro ⟨⟩), rfl⟩
  constructor
  · rintro ⟨hp, bs, hb, hc⟩
    obtain ⟨t, r, ht, rfl⟩ := hb.head
    rw [DecCtx.peekType_eq ht.wellFormed hc, Option.some.injEq] at hp
    rw [(skippedValue_token ht (leaf t hp).1 (leaf t hp).2).mp hb, List.append_nil] at hc
    exact ⟨t, ht, hp, hc⟩
  · rintro ⟨t, ht, hm, hc⟩
    rw [← List.append_nil t.bytes] at hc
    refine ⟨?_, _, (skippedValue_token ht (leaf t hm).1 (leaf t hm).2).mpr rfl, hc⟩
    rw [DecCtx.peekType_eq ht.wellFormed hc, hm]

theorem reads_decodeAlgValue (hdr : Hdr) :
  Reads (decodeAlgValue flags hdr) (AlgValue flags hdr)
  := by
  intro ctx hdr' ctx'
  have htext := skip_text hf ctx ctx'
  simp only [decodeAlgValue, runs_bind, runs_get, runs_ite, runs_pure, runs_failIf,
    runs_decodeIntEx, Bool.not_eq_false]
  constructor
  · rintro ⟨_, _, ⟨rfl, rfl⟩, ⟨hp, ⟨⟩, _, hs, rfl, rfl⟩ |
      ⟨-, v, _, ⟨-, t, ht, hc, hv⟩, _, _, ⟨hr, rfl⟩, rfl, rfl⟩⟩
    · obtain ⟨t, ht, hm, hc⟩ := htext.mp ⟨hp, hs⟩
      exact ⟨_, ⟨t, ht, .inl ⟨hm, rfl⟩, rfl⟩, hc⟩
    · exact ⟨_, ⟨t, ht, .inr ⟨v, hv, hr, rfl⟩, rfl⟩, hc⟩
  · rintro ⟨_, ⟨t, ht, ⟨hm, rfl⟩ | ⟨v, hv, hr, rfl⟩, rfl⟩, hc⟩
    · obtain ⟨hp, hs⟩ := htext.mpr ⟨t, ht, hm, hc⟩
      exact ⟨ctx, ctx, ⟨rfl, rfl⟩, .inl ⟨hp, (), ctx', hs, rfl, rfl⟩⟩
    · have hp : ctx.peekType ≠ some .tstr := by
        rw [← List.append_nil t.bytes] at hc
        rw [DecCtx.peekType_eq ht.wellFormed hc]
        rcases intOf_major hv with h | h <;> simp [h]
      exact ⟨ctx, ctx, ⟨rfl, rfl⟩, .inr ⟨hp, v, ctx', ⟨hf, t, ht, hc, hv⟩, (), ctx', ⟨hr, rfl⟩, rfl, rfl⟩⟩

theorem reads_decodeContentTypeValue (hdr : Hdr) :
  Reads (decodeContentTypeValue flags hdr) (ContentTypeValue flags hdr)
  := by
  intro ctx r ctx'
  have htext := skip_text hf ctx ctx'
  simp only [decodeContentTypeValue, runs_bind, runs_get, runs_ite, runs_pure, runs_failIf,
    runs_decodeUintEx, gt_iff_lt, Nat.not_lt]
  constructor
  · rintro ⟨_, _, ⟨rfl, rfl⟩, ⟨hp, ⟨⟩, _, hs, rfl, rfl⟩ |
      ⟨-, _, _, ⟨-, t, ht, hc, hm, rfl⟩, _, _, ⟨hr, rfl⟩, rfl, rfl⟩⟩
    · obtain ⟨t, ht, hm, hc⟩ := htext.mp ⟨hp, hs⟩
      exact ⟨_, ⟨t, ht, .inl ⟨hm, rfl⟩, rfl⟩, hc⟩
    · exact ⟨_, ⟨t, ht, .inr ⟨hm, hr, rfl⟩, rfl⟩, hc⟩
  · rintro ⟨_, ⟨t, ht, ⟨hm, rfl⟩ | ⟨hm, hr, rfl⟩, rfl⟩, hc⟩
    · obtain ⟨hp, hs⟩ := htext.mpr ⟨t, ht, hm, hc⟩
      exact ⟨ctx, ctx, ⟨rfl, rfl⟩, .inl ⟨hp, (), ctx', hs, rfl, rfl⟩⟩
    · have hp : ctx.peekType ≠ some .tstr := by
        rw [← List.append_nil t.bytes] at hc
        rw [DecCtx.peekType_eq ht.wellFormed hc, hm]
        rintro ⟨⟩
      exact ⟨ctx, ctx, ⟨rfl, rfl⟩,
        .inr ⟨hp, t.val, ctx', ⟨hf, t, ht, hc, hm, rfl⟩, (), ctx', ⟨hr, rfl⟩, rfl, rfl⟩⟩

theorem runs_decodeCritLabel (crit : UInt32) (ctx : DecCtx) (crit' : UInt32) (ctx' : DecCtx) :
  Runs (decodeCritLabel flags crit) ctx crit' ctx'
    ↔ ∃ t, CritToken flags t ∧ ctx.Consumes t.bytes ctx' ∧ crit' = crit ||| critBit t
  := by
  simp only [decodeCritLabel, runs_bind, runs_get, runs_pure, runs_failIf, runs_decodeIntEx]
  constructor
  · rintro ⟨_, _, ⟨rfl, rfl⟩, _, _, ⟨-, rfl⟩, v, _, ⟨-, t, ht, hc, hv⟩, _, _, ⟨hr, rfl⟩, _, _,
      ⟨-, rfl⟩, rfl, rfl⟩
    refine ⟨t, ⟨ht, v, hv, by omega, by omega⟩, hc, ?_⟩
    rw [critBit, hv, Option.getD_some]
  · rintro ⟨t, ⟨ht, v, hv, h1, h6⟩, hc, rfl⟩
    have hp : ctx.peekType = some t.major := by
      rw [← List.append_nil t.bytes] at hc
      exact DecCtx.peekType_eq ht.wellFormed hc
    have hbit := labelBit_ne_zero h1 h6
    have hlen : ctx.idx < ctx.bufSz := by
      have h₁ := hc.length_rest_eq
      have h₂ := t.one_le_length_bytes
      rw [ctx.length_rest] at h₁
      omega
    refine ⟨ctx, ctx, ⟨rfl, rfl⟩, (), ctx, ⟨?_, rfl⟩, v, ctx', ⟨hf, t, ht, hc, hv⟩, (), ctx',
      ⟨by omega, rfl⟩, (), ctx', ⟨hbit, rfl⟩, ?_, rfl⟩
    · rintro (h | h)
      · omega
      · rw [hp, Option.some.injEq] at h
        rcases intOf_major hv with h' | h' <;> simp [h] at h'
    · rw [critBit, hv, Option.getD_some]

theorem reads_decodeCritValue (crit : UInt32) :
  Reads (decodeCritValue flags crit) (CritValue flags crit)
  := by
  have loop : ∀ (n : Nat) (crit : UInt32) (ctx : DecCtx) (crit' : UInt32) (ctx' : DecCtx),
      Runs (repeatM n (decodeCritLabel flags) crit) ctx crit' ctx'
        ↔ ∃ ts : List Token, ts.length = n ∧ (∀ t ∈ ts, CritToken flags t)
          ∧ ctx.Consumes (ts.flatMap Token.bytes) ctx' ∧ crit' = critBits crit ts := by
    intro n
    induction n with
    | zero =>
        intro crit ctx crit' ctx'
        rw [runs_repeatM_zero]
        constructor
        · rintro ⟨rfl, rfl⟩
          exact ⟨[], rfl, List.forall_mem_nil _, ctx.consumes_nil, rfl⟩
        · rintro ⟨ts, hn, -, hc, rfl⟩
          obtain rfl := List.eq_nil_of_length_eq_zero hn
          exact ⟨rfl, ctx.consumes_nil.unique hc⟩
    | succ n ih =>
        intro crit ctx crit' ctx'
        simp only [runs_repeatM_succ, runs_decodeCritLabel hf, ih]
        constructor
        · rintro ⟨_, ctx₁, ⟨t, ht, hc, rfl⟩, ts, rfl, hts, hc', rfl⟩
          exact ⟨t :: ts, rfl, List.forall_mem_cons.mpr ⟨ht, hts⟩, hc.trans hc', rfl⟩
        · rintro ⟨ts, hn, hts, hc, rfl⟩
          obtain _ | ⟨t, ts⟩ := ts
          · exact absurd hn (Nat.succ_ne_zero n).symm
          obtain ⟨ht, hts⟩ := List.forall_mem_cons.mp hts
          rw [List.flatMap_cons] at hc
          obtain ⟨ctx₁, hc₁, hc₂⟩ := hc.split
          exact ⟨_, ctx₁, ⟨t, ht, hc₁, rfl⟩, ts, Nat.succ.inj hn, hts, hc₂, rfl⟩
  intro ctx crit' ctx'
  simp only [decodeCritValue, runs_bind, runs_failIf, runs_decodeArrayStartEx, loop, not_or,
    gt_iff_lt, Nat.not_lt]
  constructor
  · rintro ⟨_, _, ⟨-, head, hh, hc, hm, rfl, -⟩, _, _, ⟨⟨h0, hn⟩, rfl⟩, ts, hlen, hts, hc', rfl⟩
    exact ⟨_, ⟨head, ts, hh, hm, hlen.symm, by omega, by omega, hts, rfl, rfl⟩, hc.trans hc'⟩
  · rintro ⟨_, ⟨head, ts, hh, hm, hv, h0, hn, hts, rfl, rfl⟩, hc⟩
    obtain ⟨ctx₁, hc₁, hc₂⟩ := hc.split
    have hroom : head.children ≤ ctx₁.rest.length := by
      have hle : ts.length ≤ (ts.flatMap Token.bytes).length := by
        clear hc hc₂ hv h0 hn hts
        induction ts with
        | nil => exact Nat.le_refl 0
        | cons t ts ih =>
            have := t.one_le_length_bytes
            rw [List.flatMap_cons, List.length_append, List.length_cons]
            omega
      rw [hc₂.length_rest_eq, Token.children, hm, hv]
      dsimp only
      omega
    exact ⟨ts.length, ctx₁, ⟨hf, head, hh, hc₁, hm, hv, hroom⟩, (), ctx₁, ⟨⟨by omega, hn⟩, rfl⟩,
      ts, rfl, hts, hc₂, rfl⟩

end Values

/-! ### The protected bucket -/

/-- What `decodeProtectedValue` reads for a label, and what it stores. -/
def ProtectedValue (flags : UInt32) (label : Label) (_idx : Nat) (bs : Bytes)
    (vars vars' : ProtectedVars) : Prop :=
  if label = .int hdrAlg then
    ∃ hdr, AlgValue flags vars.hdr bs hdr ∧ vars' = { vars with hdr }
  else if label = .int hdrCrit then
    ∃ critLabels, CritValue flags vars.critLabels bs critLabels ∧ vars' = { vars with critLabels }
  else if label = .int hdrContentType then
    ∃ r, ContentTypeValue flags vars.hdr bs r ∧ vars' = { vars with
      hdr := r.1, contentTypeUnderstood := vars.contentTypeUnderstood || r.2 }
  else if label = .int hdrKid then
    ∃ kid, BstrValue flags bs kid ∧ vars' = { vars with hdr := { vars.hdr with kid := some kid } }
  else if label = .int hdrIv then
    ∃ iv, BstrValue flags bs iv ∧ vars' = { vars with hdr := { vars.hdr with iv := some iv } }
  else if label = .int hdrPartialIv then
    ∃ partialIv, BstrValue flags bs partialIv
      ∧ vars' = { vars with hdr := { vars.hdr with partialIv := some partialIv } }
  else if eatPsaVerify = true ∧ label = .int hdrX5chain then
    SkippedValue flags bs
      ∧ vars' = { vars with hdr := { vars.hdr with flags := vars.hdr.flags ||| hdrFlagX5chain } }
  else SkippedValue flags bs ∧ vars' = vars

theorem readsValue_protected {flags : UInt32} (hf : decodeFlagsValid flags = true) :
  ReadsValue (decodeProtectedValue flags) (ProtectedValue flags)
  := by
  intro label vars ctx vars' ctx'
  have h : Reads (decodeProtectedValue flags label vars)
      (fun bs vars' => ProtectedValue flags label ctx.idx bs vars vars') :=
    ((reads_decodeAlgValue hf _).map _).ite <| ((reads_decodeCritValue hf _).map _).ite <|
      ((reads_decodeContentTypeValue hf _).map _).ite <| ((reads_decodeBstrEx hf).map _).ite <|
      ((reads_decodeBstrEx hf).map _).ite <| ((reads_decodeBstrEx hf).map _).ite <|
      ((reads_skipEx hf).andReturn _).ite <| (reads_skipEx hf).andReturn _
  exact h ctx vars' ctx'

theorem ProtectedValue.ne_nil {flags : UInt32} {label : Label} {idx : Nat} {bs : Bytes}
    {vars vars' : ProtectedVars} (h : ProtectedValue flags label idx bs vars vars') :
  bs ≠ []
  := by
  unfold ProtectedValue at h
  repeat' split at h
  on_goal 2 =>
    obtain ⟨_, ⟨head, ts, -, -, -, -, -, -, rfl, -⟩, -⟩ := h
    exact fun e => head.bytes_ne_nil (List.append_eq_nil_iff.mp e).1
  all_goals first
    | exact h.1.ne_nil
    | exact h.choose_spec.1.ne_nil

/-- The content of a protected bucket that is not empty: a map of entries, none of them a
countersignature, that the decoder takes from the header `hdr` to `hdr'`. -/
structure ProtectedMap (flags : UInt32) (hdr hdr' : Hdr) (head : Token) (es : List Entry) : Prop where
  map : HeaderMap flags (fun _ => True) head es
  placed : ∀ l ∈ labelsOf es, l ≠ .int hdrCountersignatureV2 ∧ l ≠ .int hdrCountersignature0V2
    ∧ l ≠ .int hdrCountersignatureLegacy ∧ l ≠ .int hdrCountersignature0Legacy
  scans : ∃ critLabels understood,
    Scans (ProtectedValue flags) head.bytes.length es ⟨hdr, 0, false⟩ ⟨hdr', critLabels, understood⟩
    ∧ critLabels &&& ~~~ labelsBits (labelsOf es) = 0
    ∧ (critLabels &&& labelBit hdrContentType ≠ 0 → understood = true)
  ivs : ¬ (hdr'.iv.isSome = true ∧ hdr'.partialIv.isSome = true)

theorem HdrState.Represents.containsCountersignature_iff {state : HdrState} {labels : List Label}
    (h : state.Represents labels) :
  state.containsCountersignature = false
    ↔ ∀ l ∈ labels, l ≠ .int hdrCountersignatureV2 ∧ l ≠ .int hdrCountersignature0V2
      ∧ l ≠ .int hdrCountersignatureLegacy ∧ l ≠ .int hdrCountersignature0Legacy
  := by
  have key : ∀ v, state.contains v = false ↔ .int v ∉ labels := by
    intro v
    rw [← h.contains_iff v, Bool.not_eq_true]
  simp only [containsCountersignature, Bool.or_eq_false_iff, key]
  constructor
  · rintro ⟨⟨⟨h₁, h₂⟩, h₃⟩, h₄⟩ l hl
    exact ⟨fun e => h₁ (e ▸ hl), fun e => h₂ (e ▸ hl), fun e => h₃ (e ▸ hl), fun e => h₄ (e ▸ hl)⟩
  · intro hall
    exact ⟨⟨⟨fun hm => (hall _ hm).1 rfl, fun hm => (hall _ hm).2.1 rfl⟩,
      fun hm => (hall _ hm).2.2.1 rfl⟩, fun hm => (hall _ hm).2.2.2 rfl⟩

/-- The state after the entries of a protected bucket represents their labels. -/
theorem ProtectedMap.represents {flags : UInt32} {hdr hdr' : Hdr} {head : Token} {es : List Entry}
    (h : ProtectedMap flags hdr hdr' head es) (hlen : (entriesBytes es).length ≤ sizeMax) :
  (HdrState.pushAll .init (entriesBytes es) es).Represents (labelsOf es)
  := by
  have hrep := HdrState.represents_init.pushAll h.map.labelled h.map.labels.enabled
    (List.prefix_refl _) hlen
  rwa [List.nil_append] at hrep

theorem runs_decodeProtectedMap {flags : UInt32} (hf : decodeFlagsValid flags = true) {data : Bytes}
    (hdata : data.length ≤ sizeMax) {hdr : Hdr} {r : Hdr × HdrState} :
  (∃ ctx', Runs (decodeProtectedMap flags hdr) (.init (.ofBytes data)) r ctx')
    ↔ ∃ head es, data = mapBytes head es ∧ ProtectedMap flags hdr r.1 head es
      ∧ r.2 = HdrState.pushAll .init (entriesBytes es) es
  := by
  have hinit : (DecCtx.init (.ofBytes data)).rest = data := Buffer.bytes_ofBytes hdata
  have hsz : (DecCtx.init (.ofBytes data)).bufSz = data.length := congrArg List.length hinit
  have hloop := runs_decodeEntries hf admits_checkAndAddLabel (readsValue_protected hf)
    (fun _ _ _ _ _ => ProtectedValue.ne_nil) ⟨hdr, 0, false⟩
  -- the checks after the loop, in terms of the labels of the entries
  have checks : ∀ (head : Token) (es : List Entry) (state : HdrState),
      state.Represents (labelsOf es) → ∀ crit : UInt32,
      (crit &&& ~~~ state.labelBits = 0 ↔ crit &&& ~~~ labelsBits (labelsOf es) = 0) := by
    intro head es state hrep crit
    rw [hrep.bits]
  simp only [decodeProtectedMap, runs_bind, runs_failIf, runs_get, runs_pure, hloop]
  constructor
  · rintro ⟨ctx', scan, ctx₁, ⟨head, es, hmap, hc, hs, hst⟩, _, _, ⟨hcrit, rfl⟩, _, _, ⟨hct, rfl⟩, _, _,
      ⟨hcs, rfl⟩, _, _, ⟨hiv, rfl⟩, _, _, ⟨rfl, rfl⟩, _, _, ⟨hend, rfl⟩, rfl, rfl⟩
    obtain ⟨state, vars⟩ := scan
    dsimp only at hcrit hct hcs hiv hs hst ⊢
    have hd : data = mapBytes head es := hinit.symm.trans (hc.init_end (by omega))
    have hst' : state = HdrState.pushAll .init (entriesBytes es) es := by
      rw [hst, hinit, hd, List.drop_left]
    have hlen : (entriesBytes es).length ≤ sizeMax := by
      rw [hd, List.length_append] at hdata
      omega
    have hrep : state.Represents (labelsOf es) := by
      rw [hst']
      have hrep := HdrState.represents_init.pushAll hmap.labelled hmap.labels.enabled
        (List.prefix_refl _) hlen
      rwa [List.nil_append] at hrep
    refine ⟨head, es, hd, ⟨hmap, ?_, ⟨vars.critLabels, vars.contentTypeUnderstood, ?_, ?_, ?_⟩, hiv⟩, hst'⟩
    · exact hrep.containsCountersignature_iff.mp (by simpa using hcs)
    · have hidx : (DecCtx.init (.ofBytes data)).idx = 0 := rfl
      rw [hidx, Nat.zero_add] at hs
      exact hs
    · exact (checks head es state hrep _).mp (by simpa using hcrit)
    · intro hbit
      by_contra hne
      exact hct ⟨hbit, by simpa using hne⟩
  · rintro ⟨head, es, hd, hmap, hst⟩
    have hlen : (entriesBytes es).length ≤ sizeMax := by
      rw [hd, List.length_append] at hdata
      omega
    have hrep := hmap.represents hlen
    rw [← hst] at hrep
    obtain ⟨crit, understood, hs, hcrit, hct⟩ := hmap.scans
    have hc : (DecCtx.init (.ofBytes data)).Consumes (mapBytes head es)
        ((DecCtx.init (.ofBytes data)).advance (mapBytes head es).length) :=
      DecCtx.consumes_of_rest (r := []) (by rw [hinit, List.append_nil, hd])
    obtain ⟨hdr', state⟩ := r
    dsimp only at hs hst hrep hct hcrit ⊢
    refine ⟨_, ⟨state, hdr', crit, understood⟩, _, ⟨head, es, hmap.map, hc, ?_, ?_⟩, (), _, ⟨?_, rfl⟩, (),
      _, ⟨?_, rfl⟩, (), _, ⟨?_, rfl⟩, (), _, ⟨hmap.ivs, rfl⟩, _, _, ⟨rfl, rfl⟩, (), _, ⟨?_, rfl⟩, rfl, rfl⟩
    · have hidx : (DecCtx.init (.ofBytes data)).idx = 0 := rfl
      rw [hidx, Nat.zero_add]
      exact hs
    · rw [hst, hinit, hd, List.drop_left]
    · exact not_not.mpr ((checks head es state hrep _).mpr hcrit)
    · rintro ⟨hbit, hne⟩
      rw [hct hbit] at hne
      exact Bool.false_ne_true hne.symm
    · rw [hrep.containsCountersignature_iff.mpr hmap.placed]
      exact Bool.false_ne_true
    · have hidx : (DecCtx.init (.ofBytes data)).idx = 0 := rfl
      simp only [DecCtx.idx_advance, DecCtx.bufSz_advance, hsz, hidx, ← hd]
      omega

/-- The content of the protected bucket is accepted exactly if it is empty or a map of
accepted entries; the state then represents their labels. -/
theorem decodeProtectedHdrEx_eq_ok {flags : UInt32} {data : Bytes} (hdata : data.length ≤ sizeMax)
    {hdr : Hdr} {r : Hdr × HdrState} :
  decodeProtectedHdrEx (.mem data) hdr flags = .ok r
    ↔ decodeFlagsValid flags = true
      ∧ ((data = [] ∧ r = (hdr, .init))
        ∨ ∃ head es, data = mapBytes head es ∧ ProtectedMap flags hdr r.1 head es
          ∧ r.2 = HdrState.pushAll .init (entriesBytes es) es)
  := by
  unfold decodeProtectedHdrEx
  by_cases hf : decodeFlagsValid flags = false
  · rw [if_pos hf]
    simp [hf]
  have hf' : decodeFlagsValid flags = true := by simpa using hf
  rw [if_neg hf, if_neg (fun h => Bool.false_ne_true h.1)]
  by_cases hnil : data = []
  · subst hnil
    rw [if_pos (by rfl)]
    constructor
    · rintro h
      exact ⟨hf', .inl ⟨rfl, (Except.ok.inj h).symm⟩⟩
    · rintro ⟨-, ⟨-, rfl⟩ | ⟨head, es, he, -⟩⟩
      · rfl
      · exact absurd (List.append_eq_nil_iff.mp he.symm).1 head.bytes_ne_nil
  · have hlen : (Pointer.mem data).len ≠ 0 := fun h => hnil (List.eq_nil_of_length_eq_zero h)
    rw [if_neg hlen]
    have hrun := @runs_decodeProtectedMap _ flags hf' data hdata hdr r
    simp only [hf', hnil, false_and, false_or, true_and, ← hrun, Pointer.bytes]
    unfold Runs
    cases decodeProtectedMap flags hdr (.init (.ofBytes data)) with
    | ok a c => simp
    | error e c => simp

/-! ### The unprotected bucket -/

/-- What `decodeUnprotectedValue` reads for a label, and what it stores. -/
def UnprotectedValue (flags : UInt32) (wantEk : Bool) (label : Label) (_idx : Nat) (bs : Bytes)
    (vars vars' : UnprotectedVars) : Prop :=
  if label = .int hdrKid then
    ∃ kid, BstrValue flags bs kid ∧ vars' = { vars with hdr := { vars.hdr with kid := some kid } }
  else if label = .int hdrIv then
    ∃ iv, BstrValue flags bs iv ∧ vars' = { vars with hdr := { vars.hdr with iv := some iv } }
  else if label = .int hdrPartialIv then
    ∃ partialIv, BstrValue flags bs partialIv
      ∧ vars' = { vars with hdr := { vars.hdr with partialIv := some partialIv } }
  else if haveHpke0 = true ∧ label = .int hdrHpkeEk then
    if wantEk = false then SkippedValue 0 bs ∧ vars' = vars
    else ∃ ek, BstrValue 0 bs ek ∧ vars' = { vars with hpkeEk := some ek }
  else if label = .int hdrAlg then
    ∃ hdr, AlgValue flags vars.hdr bs hdr ∧ vars' = { vars with hdr }
  else if label = .int hdrContentType then
    ∃ r, ContentTypeValue flags
        { vars.hdr with flags := vars.hdr.flags ||| hdrFlagContentTypeUnprotected } bs r
      ∧ vars' = { vars with hdr := r.1 }
  else if eatPsaVerify = true ∧ label = .int hdrX5chain then
    SkippedValue flags bs
      ∧ vars' = { vars with hdr := { vars.hdr with flags := vars.hdr.flags ||| hdrFlagX5chain } }
  else SkippedValue flags bs ∧ vars' = vars

theorem readsValue_unprotected {flags : UInt32} (hf : decodeFlagsValid flags = true) (wantEk : Bool) :
  ReadsValue (decodeUnprotectedValue flags wantEk) (UnprotectedValue flags wantEk)
  := by
  intro label vars ctx vars' ctx'
  have h₀ := decodeFlagsValid_zero
  have h : Reads (decodeUnprotectedValue flags wantEk label vars)
      (fun bs vars' => UnprotectedValue flags wantEk label ctx.idx bs vars vars') :=
    ((reads_decodeBstrEx hf).map _).ite <| ((reads_decodeBstrEx hf).map _).ite <|
      ((reads_decodeBstrEx hf).map _).ite <|
      (((reads_skipEx h₀).andReturn _).ite ((reads_decodeBstrEx h₀).map _)).ite <|
      ((reads_decodeAlgValue hf _).map _).ite <| ((reads_decodeContentTypeValue hf _).map _).ite <|
      ((reads_skipEx hf).andReturn _).ite <| (reads_skipEx hf).andReturn _
  exact h ctx vars' ctx'

theorem UnprotectedValue.ne_nil {flags : UInt32} {wantEk : Bool} {label : Label} {idx : Nat}
    {bs : Bytes} {vars vars' : UnprotectedVars}
    (h : UnprotectedValue flags wantEk label idx bs vars vars') :
  bs ≠ []
  := by
  unfold UnprotectedValue at h
  repeat' split at h
  all_goals first
    | exact h.1.ne_nil
    | exact h.choose_spec.1.ne_nil

/-- An unprotected bucket beside a protected one with the state `hdrState`: a map of entries
that the decoder takes from the header `hdr` to `hdr'`. -/
structure UnprotectedMap (flags : UInt32) (wantEk : Bool) (hdrState : HdrState) (idx : Nat)
    (hdr : Hdr) (vars' : UnprotectedVars) (head : Token) (es : List Entry) : Prop where
  map : HeaderMap flags (UnprotectedLabelOk hdrState) head es
  scans : Scans (UnprotectedValue flags wantEk) (idx + head.bytes.length) es ⟨hdr, none⟩ vars'
  ivs : ¬ (vars'.hdr.iv.isSome = true ∧ vars'.hdr.partialIv.isSome = true)

/-- The unprotected bucket is accepted exactly if it is a map of accepted entries; the bits
of their labels are added to the state. -/
theorem runs_decodeUnprotectedHdrInternal {flags : UInt32} {wantEk : Bool} {hdr : Hdr}
    {hdrState : HdrState} {ctx ctx' : DecCtx} {r : Hdr × HdrState × Option Bytes} :
  Runs (decodeUnprotectedHdrInternal flags wantEk hdr hdrState) ctx r ctx'
    ↔ decodeFlagsValid flags = true
      ∧ ∃ head es, UnprotectedMap flags wantEk hdrState ctx.idx hdr ⟨r.1, r.2.2⟩ head es
        ∧ ctx.Consumes (mapBytes head es) ctx'
        ∧ r.2.1 = { hdrState with labelBits := hdrState.labelBits ||| labelsBits (labelsOf es) }
  := by
  simp only [decodeUnprotectedHdrInternal, runs_bind, runs_failIf, runs_pure, Bool.not_eq_false]
  by_cases hf : decodeFlagsValid flags = true
  swap
  · simp [hf]
  have hloop := runs_decodeEntries hf (admits_admitUnprotected hdrState)
    (readsValue_unprotected hf wantEk) (fun _ _ _ _ _ => UnprotectedValue.ne_nil) ⟨hdr, none⟩
  have bits : ∀ (head : Token) (es : List Entry) (ctx' : DecCtx),
      HeaderMap flags (UnprotectedLabelOk hdrState) head es → ctx.Consumes (mapBytes head es) ctx' →
      (HdrState.pushAll .init (ctx.rest.drop head.bytes.length) es).labelBits
        = labelsBits (labelsOf es) := by
    intro head es ctx' hmap hc
    have hr := hc.rest_eq
    have hlen : (entriesBytes es ++ ctx'.rest).length ≤ sizeMax := by
      have h₁ := ctx.length_rest_le
      have h₂ := ctx.bufSz_le
      rw [hr, mapBytes, List.append_assoc, List.length_append] at h₁
      omega
    have hrep := HdrState.represents_init.pushAll hmap.labelled hmap.labels.enabled
      (List.prefix_append _ ctx'.rest) hlen
    rw [hr, mapBytes, List.append_assoc, List.drop_left, hrep.bits, List.nil_append]
  simp only [hloop, hf, true_and]
  constructor
  · rintro ⟨_, _, rfl, scan, _, ⟨head, es, hmap, hc, hs, hst⟩, _, _, ⟨hiv, rfl⟩, rfl, rfl⟩
    refine ⟨head, es, ⟨hmap, hs, hiv⟩, hc, ?_⟩
    dsimp only
    rw [hst, bits head es _ hmap hc]
  · rintro ⟨head, es, ⟨hmap, hs, hiv⟩, hc, hst⟩
    refine ⟨(), ctx, rfl, ⟨_, ⟨r.1, r.2.2⟩⟩, ctx', ⟨head, es, hmap, hc, hs, rfl⟩, (), ctx', ⟨hiv, rfl⟩,
      ?_, rfl⟩
    obtain ⟨hdr', hdrState', ek⟩ := r
    dsimp only at hst ⊢
    rw [hst, bits head es _ hmap hc]

theorem runs_decodeUnprotectedHdrEx {flags : UInt32} {hdr : Hdr} {hdrState : HdrState}
    {ctx ctx' : DecCtx} {r : Hdr × HdrState} :
  Runs (decodeUnprotectedHdrEx hdr hdrState flags) ctx r ctx'
    ↔ decodeFlagsValid flags = true
      ∧ ∃ head es ek, UnprotectedMap flags false hdrState ctx.idx hdr ⟨r.1, ek⟩ head es
        ∧ ctx.Consumes (mapBytes head es) ctx'
        ∧ r.2 = { hdrState with labelBits := hdrState.labelBits ||| labelsBits (labelsOf es) }
  := by
  simp only [decodeUnprotectedHdrEx, runs_bind, runs_pure, runs_decodeUnprotectedHdrInternal]
  constructor
  · rintro ⟨⟨hdr', st', ek⟩, _, ⟨hf, head, es, hmap, hc, hst⟩, rfl, rfl⟩
    exact ⟨hf, head, es, ek, hmap, hc, hst⟩
  · rintro ⟨hf, head, es, ek, hmap, hc, hst⟩
    exact ⟨⟨r.1, r.2, ek⟩, ctx', ⟨hf, head, es, hmap, hc, hst⟩, rfl, rfl⟩

end WolfCose
