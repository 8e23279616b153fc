import WolfCose.Lib.Forest
import WolfCose.Lib.Steps
import WolfCose.Recipient
import WolfCose.Sign.Entries

/-!
# Recipients that are not selected

What `wolfCose_DecodeSkippedRecipient` accepts: one recipient with the recipients below it, read node by
node, where a node is a recipient without them.
-/

namespace WolfCose

open Program Cbor Settings

variable [Settings]

/-! ### Buckets -/

/-- The value of an algorithm: a text, which is passed over, or an integer. -/
def SkippedAlgValue (bs : Bytes) (vars vars' : SkippedAlg) : Prop :=
  TokenValue 0 (fun t => (t.major = .tstr ∧ vars' = { vars with algFound := true })
    ∨ ∃ v, intOf t = some v ∧ inInt32Range v = true ∧ vars' = { vars with alg := v, algFound := true }) bs

/-- The value of an entry of a bucket; only the algorithm is looked at. -/
def SkippedEntryValue (trackEk : Bool) (label : Label) (bs : Bytes) (vars vars' : SkippedAlg) : Prop :=
  if label = .int hdrAlg then vars.algFound = false ∧ SkippedAlgValue bs vars vars'
  else if hpke0KeDecrypt = true ∧ label = .int hdrHpkeEk then
    ¬ (trackEk = true ∧ vars.hpkeEkFound = true) ∧ SkippedValue 0 bs
      ∧ vars' = { vars with hpkeEkFound := vars.hpkeEkFound || trackEk }
  else SkippedValue 0 bs ∧ vars' = vars

/-- An entry of a bucket of a recipient that is not selected. -/
def SkippedEntry (trackEk : Bool) (e : Entry) (vars vars' : SkippedAlg) : Prop :=
  e.Labelled 0 ∧ SkippedEntryValue trackEk e.label e.value vars vars'

/-- A bucket of a recipient that is not selected. -/
def SkippedBucket (trackEk : Bool) (vars : SkippedAlg) (bs : Bytes) (vars' : SkippedAlg) : Prop :=
  ∃ head es, bs = mapBytes head es ∧ MapHead 0 es head
    ∧ Steps (SkippedEntry trackEk) es { vars with hpkeEkFound := false } vars'

theorem SkippedEntryValue.ne_nil {trackEk : Bool} {label : Label} {bs : Bytes} {vars vars' : SkippedAlg}
    (h : SkippedEntryValue trackEk label bs vars vars') :
  bs ≠ []
  := by
  unfold SkippedEntryValue at h
  split at h
  · exact TokenValue.ne_nil h.2
  split at h
  · exact h.2.1.ne_nil
  · exact h.1.ne_nil

theorem reads_skippedAlgValue (vars : SkippedAlg) :
  Reads (do
    let ctx ← get
    if ctx.peekType = some .tstr then do
      skip
      return { vars with algFound := true }
    else do
      let algVal ← decodeInt
      failIf (inInt32Range algVal = false) .coseBadAlg
      return { vars with alg := algVal, algFound := true }) (fun bs vars' => SkippedAlgValue bs vars vars')
  := by
  intro ctx vars' ctx'
  have hf := decodeFlagsValid_zero
  have htext := skip_text hf ctx ctx'
  simp only [skip, decodeInt, runs_bind, runs_get, runs_ite, runs_pure, runs_failIf, runs_decodeIntEx,
    Bool.not_eq_false]
  constructor
  · rintro ⟨_, _, ⟨rfl, rfl⟩, ⟨hp, ⟨⟩, _, hs, rfl, rfl⟩ |
      ⟨-, v, _, ⟨-, t, ht, hc, hv⟩, _, _, ⟨hr, rfl⟩, rfl, rfl⟩⟩
    · obtain ⟨t, ht, hm, hc⟩ := htext.mp ⟨hp, hs⟩
      exact ⟨_, ⟨t, ht, .inl ⟨hm, rfl⟩, rfl⟩, hc⟩
    · exact ⟨_, ⟨t, ht, .inr ⟨v, hv, hr, rfl⟩, rfl⟩, hc⟩
  · rintro ⟨_, ⟨t, ht, ⟨hm, rfl⟩ | ⟨v, hv, hr, rfl⟩, rfl⟩, hc⟩
    · obtain ⟨hp, hs⟩ := htext.mpr ⟨t, ht, hm, hc⟩
      exact ⟨ctx, ctx, ⟨rfl, rfl⟩, .inl ⟨hp, (), ctx', hs, rfl, rfl⟩⟩
    · have hp : ctx.peekType ≠ some .tstr := by
        rw [← List.append_nil t.bytes] at hc
        rw [DecCtx.peekType_eq ht.wellFormed hc]
        rcases intOf_major hv with h | h <;> simp [h]
      exact ⟨ctx, ctx, ⟨rfl, rfl⟩, .inr ⟨hp, v, ctx', ⟨hf, t, ht, hc, hv⟩, (), ctx', ⟨hr, rfl⟩, rfl, rfl⟩⟩

theorem runs_decodeSkippedHdrEntry (trackEk : Bool) (vars : SkippedAlg) (ctx : DecCtx) (vars' : SkippedAlg)
    (ctx' : DecCtx) :
  Runs (decodeSkippedHdrEntry trackEk vars) ctx vars' ctx'
    ↔ ∃ e, SkippedEntry trackEk e vars vars' ∧ ctx.Consumes e.bytes ctx'
  := by
  have hvalue : ∀ label c₁, Runs (if label = .int hdrAlg then do
        failIf (vars.algFound = true) .cborMalformed
        let ctx ← get
        if ctx.peekType = some .tstr then do
          skip
          return { vars with algFound := true }
        else do
          let algVal ← decodeInt
          failIf (inInt32Range algVal = false) .coseBadAlg
          return { vars with alg := algVal, algFound := true }
      else if hpke0KeDecrypt = true ∧ label = .int hdrHpkeEk then do
        failIf (trackEk = true ∧ vars.hpkeEkFound = true) .cborMalformed
        skip
        return { vars with hpkeEkFound := vars.hpkeEkFound || trackEk }
      else do
        skip
        return vars) c₁ vars' ctx'
      ↔ ∃ bs, SkippedEntryValue trackEk label bs vars vars' ∧ c₁.Consumes bs ctx' := by
    intro label c₁
    have hskip := fun v => (reads_skipEx decodeFlagsValid_zero).andReturn v c₁ vars' ctx'
    unfold SkippedEntryValue
    split
    · rw [runs_bind]
      simp only [runs_failIf, reads_skippedAlgValue vars _ _ _, Bool.not_eq_true]
      constructor
      · rintro ⟨_, _, ⟨hnew, rfl⟩, bs, hbs, hc⟩
        exact ⟨bs, ⟨hnew, hbs⟩, hc⟩
      · rintro ⟨bs, ⟨hnew, hbs⟩, hc⟩
        exact ⟨(), c₁, ⟨hnew, rfl⟩, bs, hbs, hc⟩
    split
    · rw [runs_bind]
      simp only [runs_failIf]
      constructor
      · rintro ⟨_, _, ⟨hnew, rfl⟩, hrun⟩
        obtain ⟨bs, ⟨hbs, hv⟩, hc⟩ := (hskip _).mp hrun
        exact ⟨bs, ⟨hnew, hbs, hv⟩, hc⟩
      · rintro ⟨bs, ⟨hnew, hbs, hv⟩, hc⟩
        exact ⟨(), c₁, ⟨hnew, rfl⟩, (hskip _).mpr ⟨bs, ⟨hbs, hv⟩, hc⟩⟩
    · exact hskip vars
  unfold decodeSkippedHdrEntry
  rw [decodeLabel, runs_bind]
  simp only [hvalue, runs_decodeLabelEx]
  constructor
  · rintro ⟨label, c₁, ⟨-, t, ht, hc, hl⟩, bs, hbs, hc'⟩
    exact ⟨⟨t, label, bs⟩, ⟨⟨ht, hl⟩, hbs⟩, hc.trans hc'⟩
  · rintro ⟨⟨t, label, bs⟩, ⟨⟨ht, hl⟩, hbs⟩, hc⟩
    obtain ⟨c₁, hc₁, hc₂⟩ := hc.split
    exact ⟨label, c₁, ⟨decodeFlagsValid_zero, t, ht, hc₁, hl⟩, bs, hbs, hc₂⟩

theorem runs_decodeSkippedHdrEntries (trackEk : Bool) (n : Nat) (vars : SkippedAlg) (ctx : DecCtx)
    (vars' : SkippedAlg) (ctx' : DecCtx) :
  Runs (repeatM n (decodeSkippedHdrEntry trackEk) vars) ctx vars' ctx'
    ↔ ∃ es, es.length = n ∧ Steps (SkippedEntry trackEk) es vars vars' ∧ ctx.Consumes (entriesBytes es) ctx'
  := by
  induction n generalizing vars ctx with
  | zero =>
      rw [runs_repeatM_zero]
      constructor
      · rintro ⟨rfl, rfl⟩
        exact ⟨[], rfl, .nil _, ctx.consumes_nil⟩
      · rintro ⟨es, hn, hs, hc⟩
        obtain rfl := List.eq_nil_of_length_eq_zero hn
        exact ⟨Steps.nil_iff.mp hs, ctx.consumes_nil.unique hc⟩
  | succ n ih =>
      simp only [runs_repeatM_succ, runs_decodeSkippedHdrEntry]
      constructor
      · rintro ⟨vars₁, c₁, ⟨e, he, hc⟩, hrest⟩
        obtain ⟨es, rfl, hs, hc'⟩ := (ih vars₁ c₁).mp hrest
        exact ⟨e :: es, rfl, .cons he hs, hc.trans hc'⟩
      · rintro ⟨es, hn, hs, hc⟩
        obtain ⟨e, es, rfl⟩ := List.exists_cons_of_length_eq_add_one hn
        obtain ⟨vars₁, he, hs⟩ := Steps.cons_iff.mp hs
        obtain ⟨c₁, hc₁, hc₂⟩ := hc.split
        exact ⟨vars₁, c₁, ⟨e, he, hc₁⟩, (ih vars₁ c₁).mpr ⟨es, Nat.succ.inj hn, hs, hc₂⟩⟩

/-- Every entry has at least two bytes. -/
theorem two_mul_length_le_entriesBytes {trackEk : Bool} {es : List Entry} {vars vars' : SkippedAlg}
    (h : Steps (SkippedEntry trackEk) es vars vars') :
  2 * es.length ≤ (entriesBytes es).length
  := by
  induction h with
  | nil => exact Nat.le_refl 0
  | @cons e es _ _ _ he _ ih =>
      have h₁ := e.token.one_le_length_bytes
      have h₂ := List.length_pos_iff.mpr he.2.ne_nil
      rw [entriesBytes_cons, List.length_append, Entry.bytes, List.length_append, List.length_cons]
      omega

theorem reads_decodeSkippedHdrAlg (trackEk : Bool) (vars : SkippedAlg) :
  Reads (decodeSkippedHdrAlg trackEk vars) (SkippedBucket trackEk vars)
  := by
  intro ctx vars' ctx'
  simp only [decodeSkippedHdrAlg, decodeMapStart, runs_bind, runs_get, runs_failIf, runs_decodeMapStartEx,
    runs_decodeSkippedHdrEntries]
  constructor
  · rintro ⟨n, c₁, ⟨-, t, ht, hc, hm, hv, -⟩, _, _, ⟨rfl, rfl⟩, _, _, ⟨-, rfl⟩, es, rfl, hs, hc'⟩
    exact ⟨_, ⟨t, es, rfl, ⟨ht, hm, hv⟩, hs⟩, hc.trans hc'⟩
  · rintro ⟨_, ⟨head, es, rfl, hhead, hs⟩, hc⟩
    obtain ⟨c₁, hc₁, hc₂⟩ := hc.split
    have hlen := two_mul_length_le_entriesBytes hs
    have hrest := hc₂.length_rest_eq
    have hle := c₁.length_rest_le
    refine ⟨es.length, c₁, ⟨decodeFlagsValid_zero, head, hhead.accepted, hc₁, hhead.major, hhead.val, ?_⟩, c₁, c₁,
      ⟨rfl, rfl⟩, (), c₁, ⟨by omega, rfl⟩, es, rfl, hs, hc₂⟩
    rw [Token.children, hhead.major, hhead.val]
    dsimp only
    omega

/-! ### Nodes -/

/-- The protected bucket: an empty byte string, or one that holds a map. -/
def SkippedProtected (bs data : Bytes) (vars : SkippedAlg) : Prop :=
  BstrValue 0 bs data ∧ ((data = [] ∧ vars = .init) ∨ (data ≠ [] ∧ SkippedBucket false .init data vars))

/-- The third field: an empty byte string for a direct recipient, otherwise null or a byte string. -/
def SkippedField (alg : Int) (bs : Bytes) : Prop :=
  if alg = algDirect then BstrValue 0 bs [] else bs = [cborNull] ∨ ∃ data, BstrValue 0 bs data

theorem reads_decodeSkippedRecipientValue (alg : Int) :
  Reads (decodeSkippedRecipientValue alg) (fun bs _ => SkippedField alg bs)
  := by
  intro ctx u ctx'
  have hbstr := reads_decodeBstrEx decodeFlagsValid_zero
  unfold decodeSkippedRecipientValue SkippedField
  split
  · simp only [decodeHead, runs_bind, runs_failIf, runs_decodeHeadEx]
    constructor
    · rintro ⟨_, _, ⟨-, t, ht, hc, rfl⟩, hbad, rfl⟩
      refine ⟨_, ⟨t, ht, ⟨?_, ?_⟩, rfl⟩, hc⟩
      · by_contra hne
        exact hbad (.inl hne)
      · by_contra hne
        exact hbad (.inr fun h0 => hne (List.length_eq_zero_iff.mp h0))
    · rintro ⟨_, ⟨t, ht, ⟨hm, hd⟩, rfl⟩, hc⟩
      refine ⟨_, ctx', ⟨decodeFlagsValid_zero, t, ht, hc, rfl⟩, ?_, rfl⟩
      rintro (hne | hne)
      · exact hne hm
      · exact hne (congrArg List.length hd)
  · simp only [decodeBstr, runs_bind, runs_get, runs_ite, runs_set, runs_pure, hbstr _ _ _]
    constructor
    · rintro ⟨_, _, ⟨rfl, rfl⟩, ⟨hnull, rfl⟩ | ⟨-, data, _, ⟨bs, hbs, hc⟩, -, rfl⟩⟩
      · exact ⟨_, .inl rfl, consumes_null hnull⟩
      · exact ⟨bs, .inr ⟨data, hbs⟩, hc⟩
    · rintro ⟨bs, rfl | ⟨data, hbs⟩, hc⟩
      · refine ⟨ctx, ctx, ⟨rfl, rfl⟩, .inl ⟨?_, hc.2.symm⟩⟩
        rw [hc.rest_eq]
        rfl
      · refine ⟨ctx, ctx, ⟨rfl, rfl⟩, .inr ⟨?_, data, ctx', ⟨bs, hbs, hc⟩, trivial, rfl⟩⟩
        rw [hc.rest_eq]
        apply hbs.head?_ne_null

/-- The content of a protected bucket. -/
theorem runs_decodeSkippedProtected {data : Bytes} (hdata : data.length ≤ sizeMax) (ctx : DecCtx)
    (vars : SkippedAlg) (ctx' : DecCtx) :
  Runs (decodeSkippedProtected data) ctx vars ctx' ↔ SkippedBucket false .init data vars ∧ ctx = ctx'
  := by
  have hwhole := (reads_decodeSkippedHdrAlg false .init).whole (b := .ofBytes data) (a := vars)
  rw [Buffer.bytes_ofBytes hdata] at hwhole
  rw [← hwhole]
  simp only [decodeSkippedProtected, runs_bind, runs_onLocal, runs_failIf, runs_pure, ne_eq, Decidable.not_not]
  constructor
  · rintro ⟨⟨v, c⟩, _, ⟨hrun, rfl⟩, _, _, ⟨hend, rfl⟩, rfl, rfl⟩
    exact ⟨⟨c, hrun, hend⟩, rfl⟩
  · rintro ⟨⟨c, hrun, hend⟩, rfl⟩
    exact ⟨(vars, c), ctx, ⟨hrun, rfl⟩, (), ctx, ⟨hend, rfl⟩, rfl, rfl⟩

/-- The fields of a recipient without the recipients below it, and what is found in its buckets. -/
structure SkippedFields (prot unprot value data : Bytes) (vars : SkippedAlg) : Prop where
  buckets : ∃ vars₀, SkippedProtected prot data vars₀ ∧ SkippedBucket true vars₀ unprot vars
  direct : vars.alg = algDirect → data = []
  value : SkippedField vars.alg value

theorem SkippedFields.three_le_length {prot unprot value data : Bytes} {vars : SkippedAlg}
    (h : SkippedFields prot unprot value data vars) :
  3 ≤ (prot ++ (unprot ++ value)).length
  := by
  obtain ⟨vars₀, ⟨hprot, -⟩, head, es, rfl, -, -⟩ := h.buckets
  have h₁ := List.length_pos_iff.mpr (TokenValue.ne_nil hprot)
  have h₂ := head.one_le_length_bytes
  have h₃ : 0 < value.length := by
    apply List.length_pos_iff.mpr
    have hvalue := h.value
    unfold SkippedField at hvalue
    split at hvalue
    · exact TokenValue.ne_nil hvalue
    · rcases hvalue with rfl | ⟨_, hvalue⟩
      · exact List.cons_ne_nil _ _
      · exact TokenValue.ne_nil hvalue
  rw [List.length_append, List.length_append, mapBytes, List.length_append]
  omega

theorem reads_skippedProtected {β : Type} (f : Bytes → SkippedAlg → Dec β) (ctx : DecCtx) (b : β) (ctx' : DecCtx) :
  Runs (do
    let protectedData ← decodeBstr
    let vars ← if protectedData.length > 0 then decodeSkippedProtected protectedData else pure .init
    f protectedData vars) ctx b ctx'
    ↔ ∃ data vars c₁, (∃ prot, SkippedProtected prot data vars ∧ ctx.Consumes prot c₁) ∧ Runs (f data vars) c₁ b ctx'
  := by
  have hbstr := reads_decodeBstrEx decodeFlagsValid_zero
  rw [decodeBstr, runs_bind]
  simp only [hbstr _ _ _]
  constructor
  · rintro ⟨data, c₁, ⟨prot, hprot, hc⟩, hrun⟩
    have hlen : data.length ≤ sizeMax := by
      have h₁ := hprot.length_le
      have h₂ := hc.length_rest_eq
      have h₃ := ctx.length_rest_le
      have h₄ := ctx.bufSz_le
      omega
    by_cases hdata : data.length > 0
    · rw [if_pos hdata, runs_bind] at hrun
      obtain ⟨vars, c₂, hv, hrun⟩ := hrun
      obtain ⟨hbucket, rfl⟩ := (runs_decodeSkippedProtected hlen _ _ _).mp hv
      exact ⟨data, vars, c₁, ⟨prot, ⟨hprot, .inr ⟨List.ne_nil_of_length_pos hdata, hbucket⟩⟩, hc⟩, hrun⟩
    · rw [if_neg hdata, pure_bind] at hrun
      have hnil := List.eq_nil_of_length_eq_zero (Nat.eq_zero_of_not_pos hdata)
      exact ⟨data, .init, c₁, ⟨prot, ⟨hprot, .inl ⟨hnil, rfl⟩⟩, hc⟩, hrun⟩
  · rintro ⟨data, vars, c₁, ⟨prot, ⟨hprot, hvars⟩, hc⟩, hrun⟩
    have hlen : data.length ≤ sizeMax := by
      have h₁ := hprot.length_le
      have h₂ := hc.length_rest_eq
      have h₃ := ctx.length_rest_le
      have h₄ := ctx.bufSz_le
      omega
    refine ⟨data, c₁, ⟨prot, hprot, hc⟩, ?_⟩
    rcases hvars with ⟨rfl, rfl⟩ | ⟨hne, hbucket⟩
    · rw [if_neg (by decide), pure_bind]
      exact hrun
    · rw [if_pos (List.length_pos_iff.mpr hne), runs_bind]
      exact ⟨vars, c₁, (runs_decodeSkippedProtected hlen _ _ _).mpr ⟨hbucket, rfl⟩, hrun⟩

theorem runs_decodeSkippedHeaderEntryRecipient (maxArrayCount : Nat) (ctx : DecCtx) (r : Nat × SkippedAlg)
    (ctx' : DecCtx) :
  Runs (decodeSkippedHeaderEntryRecipient maxArrayCount) ctx r ctx'
    ↔ ∃ (head : Token) (c₁ : DecCtx) (prot unprot value data : Bytes), Accepted 0 head ∧ head.major = .array
      ∧ head.val = r.1 ∧ 3 ≤ r.1 ∧ r.1 ≤ maxArrayCount ∧ ctx.Consumes head.bytes c₁ ∧ r.1 ≤ c₁.rest.length
      ∧ c₁.Consumes (prot ++ (unprot ++ value)) ctx' ∧ SkippedFields prot unprot value data r.2
  := by
  unfold decodeSkippedHeaderEntryRecipient
  rw [runs_bind]
  simp only [runs_bind _ (fun _ => _ >>= _), reads_skippedProtected]
  simp only [decodeArrayStart, runs_bind, runs_failIf, runs_pure, runs_decodeArrayStartEx,
    reads_decodeSkippedHdrAlg _ _ _ _ _, reads_decodeSkippedRecipientValue _ _ _ _]
  constructor
  · rintro ⟨n, c₁, ⟨-, head, hhead, hc₀, hm, rfl, hroom⟩, _, _, ⟨hn, rfl⟩, data, vars₀, c₂,
      ⟨prot, hprot, hc₁⟩, vars, c₃, ⟨unprot, hunprot, hc₂⟩, _, _, ⟨hdirect, rfl⟩, _, c₄, ⟨value, hvalue, hc₃⟩, rfl, rfl⟩
    rw [Token.children, hm] at hroom
    refine ⟨head, c₁, prot, unprot, value, data, hhead, hm, rfl, by omega, by omega, hc₀, hroom,
      hc₁.trans (hc₂.trans hc₃), ⟨vars₀, hprot, hunprot⟩, ?_, hvalue⟩
    intro hdir
    by_contra hne
    exact hdirect ⟨hdir, fun hlen => hne (List.length_eq_zero_iff.mp hlen)⟩
  · rintro ⟨head, c₁, prot, unprot, value, data, hhead, hm, hv, h3, hmax, hc₀, hroom, hc, ⟨vars₀, hprot, hunprot⟩,
      hdirect, hvalue⟩
    obtain ⟨n, vars⟩ := r
    obtain ⟨c₂, hc₁, hc⟩ := hc.split
    obtain ⟨c₃, hc₂, hc₃⟩ := hc.split
    refine ⟨n, c₁, ⟨decodeFlagsValid_zero, head, hhead, hc₀, hm, hv, ?_⟩, (), c₁, ⟨by omega, rfl⟩, data, vars₀, c₂,
      ⟨prot, hprot, hc₁⟩, vars, c₃, ⟨unprot, hunprot, hc₂⟩, (), c₃, ⟨?_, rfl⟩, (), ctx', ⟨value, hvalue, hc₃⟩, rfl, rfl⟩
    · rw [Token.children, hm, hv]
      exact hroom
    · rintro ⟨hdir, hne⟩
      rw [hdirect hdir] at hne
      exact hne rfl

/-- The value of an entry is a data item. -/
theorem SkippedEntry.skipped {trackEk : Bool} {e : Entry} {vars vars' : SkippedAlg}
    (h : SkippedEntry trackEk e vars vars') :
  e.Labelled 0 ∧ SkippedValue 0 e.value
  := by
  obtain ⟨hlabelled, hvalue⟩ := h
  refine ⟨hlabelled, ?_⟩
  unfold SkippedEntryValue at hvalue
  split at hvalue
  · obtain ⟨-, t, ht, hcase, hbytes⟩ := hvalue
    have hm : t.major ≠ .tag ∧ t.children = 0 := by
      rcases hcase with ⟨hm, -⟩ | ⟨v, hv, -⟩
      · rw [Token.children, hm]
        exact ⟨by rintro ⟨⟩, rfl⟩
      · rcases intOf_major hv with hm | hm
        · rw [Token.children, hm]
          exact ⟨by rintro ⟨⟩, rfl⟩
        · rw [Token.children, hm]
          exact ⟨by rintro ⟨⟩, rfl⟩
    rw [hbytes, ← List.append_nil t.bytes]
    exact (skippedValue_token ht hm.1 hm.2).mpr rfl
  split at hvalue
  · exact hvalue.2.1
  · exact hvalue.1

theorem SkippedBucket.dataItem {trackEk : Bool} {vars vars' : SkippedAlg} {bs : Bytes}
    (h : SkippedBucket trackEk vars bs vars') :
  DataItem bs
  := by
  obtain ⟨head, es, rfl, hhead, hs⟩ := h
  apply dataItem_map hhead
  intro e he
  obtain ⟨_, _, hentry⟩ := hs.forall_mem e he
  exact ⟨hentry.skipped.1, hentry.skipped.2.dataItem⟩

theorem SkippedField.dataItem {alg : Int} {bs : Bytes} (h : SkippedField alg bs) :
  DataItem bs
  := by
  unfold SkippedField at h
  split at h
  · exact ⟨0, h.items 0⟩
  · rcases h with rfl | ⟨data, h⟩
    · exact ⟨0, items_null 0⟩
    · exact ⟨0, h.items 0⟩

/-- The algorithm that is reported of a recipient: one with an encapsulated key and no algorithm is taken for
one of HPKE. -/
def SkippedAlg.reported (vars : SkippedAlg) : Int :=
  if hpke0KeDecrypt = true ∧ vars.algFound = false ∧ vars.hpkeEkFound = true then algHpke0Ke else vars.alg

/-- A recipient with the given algorithm, without the recipients below it, and how many these are: an array of
three fields has none, one of four fields has at least one and is no direct recipient. -/
def RecipientNode (alg : Int) (bs : Bytes) (k : Nat) : Prop :=
  ∃ head prot unprot value data list vars, bs = Token.bytes head ++ (prot ++ (unprot ++ (value ++ list)))
    ∧ Accepted 0 head ∧ head.major = .array ∧ SkippedFields prot unprot value data vars ∧ alg = vars.reported
    ∧ ((head.val = 3 ∧ list = [] ∧ k = 0)
      ∨ (head.val = 4 ∧ k ≠ 0 ∧ alg ≠ algDirect
        ∧ TokenValue 0 (fun t => t.major = .array ∧ t.val = k) list))

/-- The nodes of the trees of recipients. -/
def IsRecipientNode (bs : Bytes) (k : Nat) : Prop :=
  ∃ alg, RecipientNode alg bs k

theorem RecipientNode.ne_nil {alg : Int} {bs : Bytes} {k : Nat} (h : RecipientNode alg bs k) :
  bs ≠ []
  := by
  obtain ⟨head, _, _, _, _, _, _, rfl, -⟩ := h
  exact List.append_ne_nil_of_left_ne_nil (List.ne_nil_of_length_pos head.one_le_length_bytes) _

theorem IsRecipientNode.ne_nil {bs : Bytes} {k : Nat} (h : IsRecipientNode bs k) :
  bs ≠ []
  := by
  obtain ⟨_, h⟩ := h
  exact h.ne_nil

/-- Items at the start of the same bytes are the same. -/
theorem DataItem.append_cancel {a b r r' : Bytes} (ha : DataItem a) (hb : DataItem b) (e : a ++ r = b ++ r') :
  a = b ∧ r = r'
  := by
  obtain ⟨d, ha⟩ := ha
  obtain ⟨d', hb⟩ := hb
  exact Items.append_cancel Accepted.wf ha hb e

theorem prefixFree_isRecipientNode :
  PrefixFree IsRecipientNode
  := by
  rintro b k b' k' r r' ⟨alg, head, prot, unprot, value, data, list, vars, rfl, hhead, hm, hf, -, hcase⟩
    ⟨alg', head', prot', unprot', value', data', list', vars', rfl, hhead', hm', hf', -, hcase'⟩ e
  simp only [List.append_assoc] at e
  obtain ⟨vars₀, ⟨hprot, -⟩, hunprot⟩ := hf.buckets
  obtain ⟨vars₀', ⟨hprot', -⟩, hunprot'⟩ := hf'.buckets
  obtain ⟨rfl, e₁⟩ := Token.bytes_append_cancel hhead.wellFormed hhead'.wellFormed e
  obtain ⟨rfl, e₂⟩ := DataItem.append_cancel ⟨0, hprot.items 0⟩ ⟨0, hprot'.items 0⟩ e₁
  obtain ⟨rfl, e₃⟩ := DataItem.append_cancel hunprot.dataItem hunprot'.dataItem e₂
  obtain ⟨rfl, e₄⟩ := DataItem.append_cancel hf.value.dataItem hf'.value.dataItem e₃
  rcases hcase with ⟨h3, rfl, rfl⟩ | ⟨h4, -, -, t, ht, ⟨-, hk⟩, rfl⟩
  · rcases hcase' with ⟨-, rfl, rfl⟩ | ⟨h4, -⟩
    · exact ⟨rfl, rfl, e₄⟩
    · omega
  · rcases hcase' with ⟨h3, -⟩ | ⟨-, -, -, t', ht', ⟨-, hk'⟩, rfl⟩
    · omega
    · obtain ⟨rfl, e₅⟩ := Token.bytes_append_cancel ht.wellFormed ht'.wellFormed e₄
      exact ⟨rfl, hk.symm.trans hk', e₅⟩

/-! ### The loop -/

/-- What is left to read after a recipient. -/
def RecipientWalk.next (walk : RecipientWalk) (alg : Int) (k : Nat) : RecipientWalk :=
  if k = 0 then ⟨walk.remaining - 1, walk.stack, some (walk.recipientAlg.getD alg)⟩
  else ⟨k, (walk.remaining - 1) :: walk.stack, some (walk.recipientAlg.getD alg)⟩

theorem runs_skippedRecipientStep (walk : RecipientWalk) (ctx : DecCtx) (next : RecipientWalk) (ctx' : DecCtx) :
  Runs (skippedRecipientStep walk) ctx next ctx'
    ↔ ∃ alg bs k, RecipientNode alg bs k ∧ ctx.Consumes bs ctx' ∧ k ≤ ctx'.rest.length
      ∧ (k ≠ 0 → walk.stack.length < maxDepth) ∧ next = walk.next alg k
  := by
  simp only [skippedRecipientStep, decodeArrayStart, runs_bind, runs_get, runs_failIf, runs_ite, runs_pure,
    runs_decodeArrayStartEx, runs_decodeSkippedHeaderEntryRecipient]
  constructor
  · rintro ⟨⟨n, vars⟩, c₁, ⟨head, c₀, prot, unprot, value, data, hhead, hm, hv, h3, hmax, hc₀, hroom, hc, hf⟩, _, _,
      ⟨hdirect, rfl⟩, ⟨h4, k, c₂, ⟨-, t, ht, hct, htm, htv, htroom⟩, _, _, ⟨rfl, rfl⟩, _, _, ⟨hk, rfl⟩, _, _,
        ⟨hdepth, rfl⟩, rfl, rfl⟩ | ⟨h4, rfl, rfl⟩⟩
    · dsimp only at hv h4 hdirect hf
      have hk0 : k ≠ 0 := fun h0 => hk (.inl h0)
      rw [Token.children, htm, htv] at htroom
      refine ⟨vars.reported, _, k, ⟨head, prot, unprot, value, data, t.bytes, vars, rfl, hhead, hm, hf, rfl,
        .inr ⟨hv.trans h4, hk0, fun hdir => hdirect ⟨h4, hdir⟩, t, ht, ⟨htm, htv⟩, rfl⟩⟩, ?_, htroom,
        fun _ => Nat.lt_of_not_le hdepth, ?_⟩
      · have := hc₀.trans (hc.trans hct)
        simpa only [List.append_assoc] using this
      · rw [RecipientWalk.next, if_neg hk0]
        rfl
    · dsimp only at hv h3 hmax h4 hf
      refine ⟨vars.reported, _, 0, ⟨head, prot, unprot, value, data, [], vars, rfl, hhead, hm, hf, rfl,
        .inl ⟨by omega, rfl, rfl⟩⟩, ?_, Nat.zero_le _, fun h => absurd rfl h, ?_⟩
      · rw [List.append_nil]
        exact hc₀.trans hc
      · rw [RecipientWalk.next, if_pos rfl]
        rfl
  · rintro ⟨alg, _, k, ⟨head, prot, unprot, value, data, list, vars, rfl, hhead, hm, hf, rfl, hcase⟩, hc, hroom, hdepth,
      rfl⟩
    have hlen := hf.three_le_length
    obtain ⟨c₀, hc₀, hc⟩ := hc.split
    rcases hcase with ⟨h3, rfl, rfl⟩ | ⟨h4, hk0, hdirect, t, ht, ⟨htm, htv⟩, rfl⟩
    · rw [List.append_nil] at hc
      have hrest := hc.length_rest_eq
      refine ⟨(3, vars), ctx', ⟨head, c₀, prot, unprot, value, data, hhead, hm, h3, Nat.le_refl 3, Nat.le_succ 3, hc₀,
        by dsimp only; omega, hc, hf⟩, (), ctx', ⟨by rintro ⟨⟨⟩, -⟩, rfl⟩, .inr ⟨by rintro ⟨⟩, ?_, rfl⟩⟩
      rw [RecipientWalk.next, if_pos rfl]
      rfl
    · have hassoc : prot ++ (unprot ++ (value ++ t.bytes)) = (prot ++ (unprot ++ value)) ++ t.bytes := by
        simp only [List.append_assoc]
      rw [hassoc] at hc
      obtain ⟨c₁, hc₁, hc₂⟩ := hc.split
      have hrest₁ := hc₁.length_rest_eq
      have hrest₂ := hc₂.length_rest_eq
      have hpos := t.one_le_length_bytes
      have hbuf := ctx'.length_rest_le
      refine ⟨(4, vars), c₁, ⟨head, c₀, prot, unprot, value, data, hhead, hm, h4, Nat.le_succ 3, Nat.le_refl 4, hc₀,
        by dsimp only; omega, hc₁, hf⟩, (), c₁, ⟨fun h => hdirect h.2, rfl⟩, .inl ⟨rfl, k, ctx',
        ⟨decodeFlagsValid_zero, t, ht, hc₂, htm, htv, ?_⟩, ctx', ctx', ⟨rfl, rfl⟩, (), ctx', ⟨by omega, rfl⟩, (), ctx',
        ⟨Nat.not_le.mpr (hdepth hk0), rfl⟩, ?_, rfl⟩⟩
      · rw [Token.children, htm, htv]
        exact hroom
      · rw [RecipientWalk.next, if_neg hk0]
        rfl

/-- The loop reads the recipients that are left on the open levels. -/
theorem runs_skippedRecipientLoop (fuel : Nat) (n : Nat) (s : List Nat) (first : Int) (ctx : DecCtx) (alg : Int)
    (ctx' : DecCtx) (hfuel : ctx.rest.length < fuel) (hlen : s.length ≤ maxDepth) (hs : n = 0 → s = []) :
  Runs (skippedRecipientLoop fuel ⟨n, s, some first⟩) ctx alg ctx'
    ↔ alg = first ∧ ∃ bs, Frames (Forest IsRecipientNode) maxDepth (n :: s) bs ∧ ctx.Consumes bs ctx'
  := by
  induction fuel generalizing n s ctx with
  | zero => omega
  | succ fuel ih =>
      cases n with
      | zero =>
          obtain rfl := hs rfl
          rw [skippedRecipientLoop, if_pos rfl, runs_pure]
          constructor
          · rintro ⟨rfl, rfl⟩
            exact ⟨rfl, [], Frames.singleton_iff.mpr (.nil _), ctx.consumes_nil⟩
          · rintro ⟨rfl, bs, hb, hc⟩
            rw [Frames.singleton_iff] at hb
            rw [hb.eq_nil] at hc
            exact ⟨rfl, ctx.consumes_nil.unique hc⟩
      | succ n =>
          rw [skippedRecipientLoop, if_neg (Nat.succ_ne_zero n), runs_bind]
          simp only [runs_skippedRecipientStep]
          -- after a node, the induction hypothesis applies to the levels left open
          have tail : ∀ (c₁ : DecCtx) (m : Nat) (s' : List Nat), s'.length ≤ maxDepth →
              c₁.rest.length < ctx.rest.length →
              (Runs (skippedRecipientLoop fuel ⟨(unwind m s').1, (unwind m s').2, some first⟩) c₁ alg ctx'
                ↔ alg = first ∧ ∃ bs, Frames (Forest IsRecipientNode) maxDepth (m :: s') bs ∧ c₁.Consumes bs ctx') := by
            intro c₁ m s' hs' hl
            rw [ih _ _ _ (by omega) (Nat.le_trans (unwind_length_le m s') hs') unwind_eq_nil]
            simp only [Frames.unwind_iff Forest.zero_iff]
          have shorter : ∀ (a : Int) (b : Bytes) (k : Nat) (c₁ : DecCtx), RecipientNode a b k → ctx.Consumes b c₁ →
              c₁.rest.length < ctx.rest.length := by
            intro a b k c₁ hb hc
            have h₁ := hc.length_rest_eq
            have h₂ := List.length_pos_iff.mpr hb.ne_nil
            omega
          constructor
          · rintro ⟨_, c₁, ⟨a, b, k, hb, hc, hroom, hdepth, rfl⟩, hloop⟩
            have hsh := shorter _ _ _ _ hb hc
            by_cases hk : k = 0
            · subst hk
              obtain ⟨rfl, bs, hbs, hc'⟩ := (tail c₁ n s hlen hsh).mp hloop
              exact ⟨rfl, _, (Forest.frames_leaf_iff prefixFree_isRecipientNode ⟨a, hb⟩).mpr hbs, hc.trans hc'⟩
            · rw [RecipientWalk.next, if_neg hk] at hloop
              obtain ⟨rfl, bs, hbs, hc'⟩ := (tail c₁ k (n :: s) (hdepth hk) hsh).mp hloop
              exact ⟨rfl, _, (Forest.frames_node_iff prefixFree_isRecipientNode ⟨a, hb⟩ hk).mpr ⟨hdepth hk, hbs⟩, hc.trans hc'⟩
          · rintro ⟨rfl, bs, hbs, hc⟩
            obtain ⟨x, y, rfl, hx, -⟩ := Frames.cons_iff.mp hbs
            obtain ⟨b, k, r, ⟨a, hb⟩, rfl⟩ := hx.head
            rw [List.append_assoc] at hbs hc
            obtain ⟨c₁, hc₁, hc₂⟩ := hc.split
            have hsh := shorter _ _ _ _ hb hc₁
            by_cases hk : k = 0
            · subst hk
              refine ⟨_, c₁, ⟨a, b, 0, hb, hc₁, Nat.zero_le _, fun h => absurd rfl h, rfl⟩, ?_⟩
              exact (tail c₁ n s hlen hsh).mpr
                ⟨rfl, _, (Forest.frames_leaf_iff prefixFree_isRecipientNode ⟨a, hb⟩).mp hbs, hc₂⟩
            · obtain ⟨hd, hbs'⟩ := (Forest.frames_node_iff prefixFree_isRecipientNode ⟨a, hb⟩ hk).mp hbs
              -- the recipients below are in the buffer
              have hroom : k ≤ c₁.rest.length := by
                obtain ⟨cs, y', e, hcs, -⟩ := Frames.cons_iff.mp hbs'
                have h₁ := hcs.le_length fun _ _ => IsRecipientNode.ne_nil
                have h₂ := hc₂.length_rest_eq
                rw [e, List.length_append] at h₂
                omega
              refine ⟨_, c₁, ⟨a, b, k, hb, hc₁, hroom, fun _ => hd, rfl⟩, ?_⟩
              rw [RecipientWalk.next, if_neg hk]
              exact (tail c₁ k (n :: s) hd hsh).mpr ⟨rfl, _, hbs', hc₂⟩

/-- A recipient with the given algorithm and the recipients below it, nested at most `d` levels. -/
def RecipientTree (d : Nat) (alg : Int) (bs : Bytes) : Prop :=
  ∃ b k cs, bs = b ++ cs ∧ RecipientNode alg b k ∧ ((k = 0 ∧ cs = [])
    ∨ (k ≠ 0 ∧ ∃ e, d = e + 1 ∧ Forest IsRecipientNode e k cs))

/-- A recipient is skipped exactly if one tree of recipients stands at the cursor, nested at most
`WOLFCOSE_CBOR_MAX_DEPTH` levels; the algorithm is that of its root. -/
theorem reads_decodeSkippedRecipient :
  Reads decodeSkippedRecipient (fun bs alg => RecipientTree maxDepth alg bs)
  := by
  intro ctx alg ctx'
  obtain ⟨e, he⟩ : ∃ e, maxDepth = e + 1 := ⟨maxDepth - 1, by have := four_le_maxDepth; omega⟩
  -- after the root, the loop reads the row below it
  have tail : ∀ (a : Int) (b : Bytes) (c₁ : DecCtx) (m : Nat) (s : List Nat), s.length ≤ maxDepth →
      b ≠ [] → ctx.Consumes b c₁ →
      (Runs (skippedRecipientLoop ctx.bufSz ⟨(unwind m s).1, (unwind m s).2, some a⟩) c₁ alg ctx'
        ↔ alg = a ∧ ∃ bs, Frames (Forest IsRecipientNode) maxDepth (m :: s) bs ∧ c₁.Consumes bs ctx') := by
    intro a b c₁ m s hs hb hc
    have h₁ := hc.length_rest_eq
    have h₂ := List.length_pos_iff.mpr hb
    have h₃ := ctx.length_rest_le
    rw [runs_skippedRecipientLoop _ _ _ _ _ _ _ (by omega) (Nat.le_trans (unwind_length_le m s) hs)
      unwind_eq_nil]
    simp only [Frames.unwind_iff Forest.zero_iff]
  rw [decodeSkippedRecipient, runs_bind]
  simp only [runs_get, skippedRecipientLoop, Nat.succ_ne_zero, if_false, runs_bind, runs_skippedRecipientStep]
  constructor
  · rintro ⟨_, _, ⟨rfl, rfl⟩, _, c₁, ⟨a, b, k, hb, hc, -, -, rfl⟩, hloop⟩
    by_cases hk : k = 0
    · subst hk
      obtain ⟨rfl, bs, hbs, hc'⟩ := (tail a b c₁ 0 [] (Nat.zero_le _) hb.ne_nil hc).mp hloop
      rw [Frames.singleton_iff] at hbs
      obtain rfl := hbs.eq_nil
      exact ⟨_, ⟨b, 0, [], rfl, hb, .inl ⟨rfl, rfl⟩⟩, hc.trans hc'⟩
    · rw [RecipientWalk.next, if_neg hk] at hloop
      obtain ⟨rfl, bs, hbs, hc'⟩ := (tail a b c₁ k [0] (by rw [he]; exact Nat.le_add_left 1 e) hb.ne_nil hc).mp hloop
      obtain ⟨x, y, rfl, hx, hy⟩ := Frames.cons_iff.mp hbs
      rw [Frames.singleton_iff] at hy
      obtain rfl := hy.eq_nil
      rw [List.append_nil] at hc'
      refine ⟨_, ⟨b, k, x, rfl, hb, .inr ⟨hk, e, he, ?_⟩⟩, hc.trans hc'⟩
      rw [he] at hx
      exact hx
  · rintro ⟨_, ⟨b, k, cs, rfl, hb, hcase⟩, hc⟩
    obtain ⟨c₁, hc₁, hc₂⟩ := hc.split
    refine ⟨ctx, ctx, ⟨rfl, rfl⟩, _, c₁, ⟨alg, b, k, hb, hc₁, ?_, fun _ => by rw [he]; exact Nat.zero_lt_succ e, rfl⟩, ?_⟩
    · rcases hcase with ⟨rfl, -⟩ | ⟨-, e', -, hcs⟩
      · exact Nat.zero_le _
      · have h₁ := hcs.le_length fun _ _ => IsRecipientNode.ne_nil
        have h₂ := hc₂.length_rest_eq
        omega
    · rcases hcase with ⟨rfl, rfl⟩ | ⟨hk, e', he', hcs⟩
      · exact (tail alg b c₁ 0 [] (Nat.zero_le _) hb.ne_nil hc₁).mpr ⟨rfl, [], Frames.singleton_iff.mpr (.nil _), hc₂⟩
      · rw [RecipientWalk.next, if_neg hk]
        apply (tail alg b c₁ k [0] (by rw [he]; exact Nat.le_add_left 1 e) hb.ne_nil hc₁).mpr
        obtain rfl : e' = e := by omega
        refine ⟨rfl, cs, ?_, hc₂⟩
        rw [← List.append_nil cs]
        apply Frames.cons _ (Frames.singleton_iff.mpr (.nil _))
        rw [he]
        exact hcs

end WolfCose
