import WolfCose.Key.Decode
import WolfCose.Hdr.Merge

/-!
# What the walk through a key accepts

The walk through a key succeeds exactly on a map of entries with different integer labels, whose
values are those that the labels call for.
-/

namespace WolfCose

open Program Cbor Settings KeySettings

variable [Settings]

/-! ### The walk -/

section

variable {σ : Type} {value : Int → σ → Dec σ} {V : Int → Bytes → σ → σ → Prop}

/-- A label of a key. -/
def IsInteger (label : Label) : Prop := ∃ v, label = .int v

/-- What the values of integer labels do, as what the values of labels do. -/
def OfInteger (V : Int → Bytes → σ → σ → Prop) (label : Label) (_idx : Nat) (bs : Bytes) (s s' : σ) : Prop :=
  ∃ v, label = .int v ∧ V v bs s s'

/-- A key admits integer labels that are new. -/
def admitKeyLabel (state : HdrState) (label : Label) (_encoded : Bytes) : Except Err HdrState :=
  match label with
  | .int v => state.checkAndAdd v
  | .text _ => .error .cborMalformed

/-- The values of integer labels. -/
def integerValue (value : Int → σ → Dec σ) (label : Label) (s : σ) : Dec σ :=
  match label with
  | .int v => value v s
  | .text _ => throw .cborMalformed

theorem admits_admitKeyLabel :
  Admits admitKeyLabel IsInteger
  := by
  intro state labels label encoded state' hrep hlen henc
  cases label with
  | int v =>
      have h := admits_checkAndAddLabel state labels (.int v) encoded state' hrep hlen henc
      simp only [true_and] at h
      have hint : IsInteger (.int v) := ⟨v, rfl⟩
      simp only [hint, true_and]
      exact h
  | text t =>
      constructor
      · rintro ⟨⟩
      · rintro ⟨-, ⟨v, hv⟩, -⟩
        cases hv

theorem readsValue_integerValue (hvalue : ∀ v s, Reads (value v s) (fun bs s' => V v bs s s')) :
  ReadsValue (integerValue value) (OfInteger V)
  := by
  intro label s ctx s' ctx'
  cases label with
  | int v =>
      have h := hvalue v s ctx s' ctx'
      simpa [integerValue, OfInteger] using h
  | text t => simp [integerValue, OfInteger]

/-- One turn of the loop of a key is one of the loop of a header with integer labels. -/
theorem runs_decodeKeyEntry {scan scan' : Scan σ} {ctx ctx' : DecCtx} :
  Runs (decodeKeyEntry value scan) ctx scan' ctx'
    ↔ Runs (decodeEntry 0 admitKeyLabel (integerValue value) scan) ctx scan' ctx'
  := by
  have hint : ∀ (t : Token) (v : Int), labelOf t = some (.int v) ↔ intOf t = some v := by
    intro t v
    unfold labelOf
    split
    · rename_i hm
      simp [intOf, hm]
    · simp
  simp only [decodeKeyEntry, decodeEntry, skipIfTstrLabel, decodeInt, runs_bind, runs_get, runs_failIf, runs_ofExcept,
    runs_pure, runs_decodeIntEx, runs_decodeLabelEx]
  constructor
  · rintro ⟨_, _, ⟨_, _, ⟨rfl, rfl⟩, _, _, ⟨-, rfl⟩, -, rfl⟩, v, ctx₁, ⟨hf, t, ht, hc, hv⟩, state, _, ⟨hst, rfl⟩, vars,
      ctx₂, hval, rfl, rfl⟩
    exact ⟨ctx, ctx, ⟨rfl, rfl⟩, .int v, ctx₁, ⟨hf, t, ht, hc, (hint t v).mpr hv⟩, state, ctx₁, ⟨hst, rfl⟩, vars, ctx₂,
      hval, rfl, rfl⟩
  · rintro ⟨_, _, ⟨rfl, rfl⟩, label, ctx₁, ⟨hf, t, ht, hc, hl⟩, state, _, ⟨hst, rfl⟩, vars, ctx₂, hval, rfl, rfl⟩
    cases label with
    | text x => cases hst
    | int v =>
        rw [hint] at hl
        have hp : ctx.peekType = some t.major := by
          rw [← List.append_nil t.bytes] at hc
          exact DecCtx.peekType_eq ht.wellFormed hc
        have hlen : ctx.idx < ctx.bufSz := by
          have h₁ := hc.length_rest_eq
          have h₂ := t.one_le_length_bytes
          rw [ctx.length_rest] at h₁
          omega
        have htext : ¬ ctx.peekType = some .tstr := by
          rw [hp, Option.some.injEq]
          rcases intOf_major hl with h | h <;> simp [h]
        exact ⟨(), ctx, ⟨ctx, ctx, ⟨rfl, rfl⟩, (), ctx, ⟨by omega, rfl⟩, htext, rfl⟩, v, ctx₁, ⟨hf, t, ht, hc, hl⟩, state,
          ctx₁, ⟨hst, rfl⟩, vars, ctx₂, hval, rfl, rfl⟩

theorem walkKeyEntries_eq_ok {n : Nat} {scan : Scan σ} {ctx ctx' : DecCtx} {vars' : σ} :
  walkKeyEntries value n scan ctx = (.ok ctx', vars')
    ↔ ∃ state, Runs (repeatM n (decodeEntry 0 admitKeyLabel (integerValue value)) scan) ctx ⟨state, vars'⟩ ctx'
  := by
  induction n generalizing scan ctx with
  | zero =>
      simp only [walkKeyEntries, runs_repeatM_zero, Prod.mk.injEq, Except.ok.injEq]
      constructor
      · rintro ⟨rfl, rfl⟩
        exact ⟨scan.state, rfl, rfl⟩
      · rintro ⟨state, rfl, rfl⟩
        exact ⟨rfl, rfl⟩
  | succ n ih =>
      simp only [walkKeyEntries, runs_repeatM_succ, ← runs_decodeKeyEntry]
      cases hstep : decodeKeyEntry value scan ctx with
      | ok scan₁ ctx₁ =>
          dsimp only
          rw [ih]
          constructor
          · rintro ⟨state, h⟩
            exact ⟨state, scan₁, ctx₁, hstep, h⟩
          · rintro ⟨state, scan₂, ctx₂, h, hrest⟩
            obtain ⟨rfl, rfl⟩ := Runs.unique hstep h
            exact ⟨state, hrest⟩
      | error e ctx₁ =>
          dsimp only
          constructor
          · rintro ⟨⟩
          · rintro ⟨state, scan₂, ctx₂, h, -⟩
            unfold Runs at h
            rw [hstep] at h
            cases h

/-- The walk through a key accepts exactly the maps of entries with integer labels whose values are
those that are read. -/
theorem walkKey_eq_ok (hvalue : ∀ v s, Reads (value v s) (fun bs s' => V v bs s s'))
    (hsize : ∀ v bs s s', V v bs s s' → bs ≠ []) {vars vars' : σ} {input : Buffer} {ctx' : DecCtx} :
  walkKey value vars input = (.ok ctx', vars')
    ↔ ∃ head es, HeaderMap 0 IsInteger head es ∧ (DecCtx.init input).Consumes (mapBytes head es) ctx'
      ∧ Scans (OfInteger V) head.bytes.length es vars vars'
  := by
  have hloop := @runs_decodeEntries _ _ 0 admitKeyLabel IsInteger _ _ decodeFlagsValid_zero admits_admitKeyLabel
    (readsValue_integerValue hvalue)
    (by rintro label idx bs s s' ⟨v, -, hv⟩; exact hsize v bs s s' hv) vars
  have hwalk : walkKey value vars input = (.ok ctx', vars') ↔
      ∃ state, Runs (decodeEntries 0 admitKeyLabel (integerValue value) vars) (.init input) ⟨state, vars'⟩ ctx' := by
    have hstart : decodeKeyMapStart = (do
        let mapCount ← decodeMapStartEx 0
        failIf (mapCount > maxMapItems) .cborMalformed
        return mapCount) := rfl
    simp only [decodeEntries, runs_bind, runs_failIf]
    unfold walkKey
    cases h : decodeKeyMapStart (.init input) with
    | ok n ctx =>
        have hrun : Runs decodeKeyMapStart (.init input) n ctx := h
        simp only [hstart, runs_bind, runs_failIf, runs_pure] at hrun
        obtain ⟨_, _, hhead, _, _, ⟨hn, rfl⟩, rfl, rfl⟩ := hrun
        dsimp only
        rw [walkKeyEntries_eq_ok]
        constructor
        · rintro ⟨state, hrest⟩
          exact ⟨state, _, _, hhead, (), _, ⟨hn, rfl⟩, hrest⟩
        · rintro ⟨state, n', ctx₁, hhead', _, _, ⟨-, rfl⟩, hrest⟩
          obtain ⟨rfl, rfl⟩ := Runs.unique hhead hhead'
          exact ⟨state, hrest⟩
    | error e ctx =>
        dsimp only
        constructor
        · rintro ⟨⟩
        · rintro ⟨state, n, ctx₁, hhead, _, _, ⟨hn, rfl⟩, -⟩
          have hrun : Runs decodeKeyMapStart (.init input) n ctx₁ := by
            rw [hstart]
            simp only [runs_bind, runs_failIf, runs_pure]
            exact ⟨n, ctx₁, hhead, (), ctx₁, ⟨hn, rfl⟩, rfl, rfl⟩
          unfold Runs at hrun
          rw [h] at hrun
          cases hrun
  rw [hwalk]
  have hidx : (DecCtx.init input).idx = 0 := rfl
  simp only [hloop, hidx, Nat.zero_add]
  constructor
  · rintro ⟨state, head, es, hmap, hc, hs, -⟩
    exact ⟨head, es, hmap, hc, hs⟩
  · rintro ⟨head, es, hmap, hc, hs⟩
    exact ⟨_, head, es, hmap, hc, hs, rfl⟩

end

/-! ### The entries -/

/-- What an entry of a key does to the variables of the walk. -/
inductive KeyUpdate where
  | kty (kty : Int)
  | alg (alg : Int)
  | crv (crv : Int)
  | kid (kid : Bytes)
  | n (n : Bytes)
  | x (x : Bytes)
  | y (y : Bytes)
  | d (d : Bytes)
  | q (q : Bytes)
  | dp (dp : Bytes)
  | dq (dq : Bytes)
  | qi (qi : Bytes)
  | rsaPrivateTypeInvalid
  | nothing

namespace KeyUpdate

/-- The variables after an update. -/
def apply (vars : KeyVars) : KeyUpdate → KeyVars
  | .kty v => { vars with kty := v }
  | .alg v => { vars with alg := v }
  | .crv v => { vars with crv := v }
  | .kid data => { vars with kid := some data }
  | .n data => { vars with n := some data }
  | .x data => { vars with x := some data }
  | .y data => { vars with y := some data }
  | .d data => { vars with d := some data }
  | .q data => { vars with q := some data }
  | .dp data => { vars with dp := some data }
  | .dq data => { vars with dq := some data }
  | .qi data => { vars with qi := some data }
  | .rsaPrivateTypeInvalid => { vars with rsaPrivateTypeInvalid := true }
  | .nothing => vars

/-- The label of the entry that makes an update, where only one does. -/
def slot : KeyUpdate → Option Int
  | .kty _ => some keyLabelKty
  | .alg _ => some keyLabelAlg
  | .crv _ => some keyLabelCrv
  | .kid _ => some keyLabelKid
  | .n _ => some keyLabelCrv
  | .x _ => some keyLabelX
  | .y _ => some keyLabelY
  | .d _ => some keyLabelD
  | .q _ => some keyLabelRsaQ
  | .dp _ => some keyLabelRsaDp
  | .dq _ => some keyLabelRsaDq
  | .qi _ => some keyLabelRsaQinv
  | .rsaPrivateTypeInvalid => none
  | .nothing => none

end KeyUpdate

/-- An integer value of 32 bits. -/
def Int32Value (bs : Bytes) (v : Int) : Prop :=
  TokenValue 0 (fun t => intOf t = some v ∧ inInt32Range v = true) bs

/-- The value of the type of a key. -/
def KtyValue (bs : Bytes) (v : Int) : Prop :=
  TokenValue 0 (fun t => t.major = .uint ∧ t.val ≤ 2 ^ 31 - 1 ∧ v = t.val) bs

/-- A value that is skipped and is not a byte string. -/
def NotBstrValue (bs : Bytes) : Prop :=
  SkippedValue 0 bs ∧ ∀ t r, Accepted 0 t → bs = t.bytes ++ r → t.major ≠ .bstr

/-- The value of a private component of an RSA key makes the update `u`. -/
def RsaWrites (store : Bytes → KeyUpdate) (bs : Bytes) (u : KeyUpdate) : Prop :=
  (∃ data, BstrValue 0 bs data ∧ u = store data) ∨ (NotBstrValue bs ∧ u = .rsaPrivateTypeInvalid)

/-- The value of an entry of a key makes the update `u`. -/
def KeyWrites [KeySettings] (label : Int) (bs : Bytes) (u : KeyUpdate) : Prop :=
  if label = keyLabelKty then ∃ kty, KtyValue bs kty ∧ u = .kty kty
  else if label = keyLabelKid then ∃ kid, BstrValue 0 bs kid ∧ u = .kid kid
  else if label = keyLabelAlg then ∃ alg, Int32Value bs alg ∧ u = .alg alg
  else if label = keyLabelKeyOps then False
  else if label = keyLabelCrv then
    (∃ n, BstrValue 0 bs n ∧ u = .n n) ∨ (∃ crv, Int32Value bs crv ∧ u = .crv crv)
  else if label = keyLabelX then ∃ x, BstrValue 0 bs x ∧ u = .x x
  else if label = keyLabelY then ∃ y, BstrValue 0 bs y ∧ u = .y y
  else if label = keyLabelD then ∃ d, BstrValue 0 bs d ∧ u = .d d
  else if haveRsaPrivateKeyDecode = true ∧ label = keyLabelRsaQ then RsaWrites .q bs u
  else if haveRsaPrivateKeyDecode = true ∧ label = keyLabelRsaDp then RsaWrites .dp bs u
  else if haveRsaPrivateKeyDecode = true ∧ label = keyLabelRsaDq then RsaWrites .dq bs u
  else if haveRsaPrivateKeyDecode = true ∧ label = keyLabelRsaQinv then RsaWrites .qi bs u
  else SkippedValue 0 bs ∧ u = .nothing

/-- What the value of an entry of a key does to the variables of the walk. -/
def KeyEntryValue [KeySettings] (label : Int) (bs : Bytes) (vars vars' : KeyVars) : Prop :=
  ∃ u, KeyWrites label bs u ∧ vars' = u.apply vars

theorem Reads.congr {α : Type} {p : Dec α} {R S : Bytes → α → Prop} (h : Reads p R) (hRS : ∀ bs a, R bs a ↔ S bs a) :
  Reads p S
  := by
  intro ctx a ctx'
  rw [h ctx a ctx']
  simp only [hRS]

theorem reads_decodeInt32 (e : Err) :
  Reads (decodeInt32 e) Int32Value
  := by
  intro ctx v ctx'
  simp only [decodeInt32, decodeInt, runs_bind, runs_failIf, runs_pure, runs_decodeIntEx, Bool.not_eq_false]
  constructor
  · rintro ⟨_, _, ⟨-, t, ht, hc, hv⟩, _, _, ⟨hr, rfl⟩, rfl, rfl⟩
    exact ⟨_, ⟨t, ht, ⟨hv, hr⟩, rfl⟩, hc⟩
  · rintro ⟨_, ⟨t, ht, ⟨hv, hr⟩, rfl⟩, hc⟩
    exact ⟨v, ctx', ⟨decodeFlagsValid_zero, t, ht, hc, hv⟩, (), ctx', ⟨hr, rfl⟩, rfl, rfl⟩

theorem reads_decodeKty :
  Reads decodeKty KtyValue
  := by
  intro ctx v ctx'
  simp only [decodeKty, decodeUint, runs_bind, runs_failIf, runs_pure, runs_decodeUintEx, gt_iff_lt, Nat.not_lt]
  constructor
  · rintro ⟨_, _, ⟨-, t, ht, hc, hm, rfl⟩, _, _, ⟨hr, rfl⟩, rfl, rfl⟩
    exact ⟨_, ⟨t, ht, ⟨hm, hr, rfl⟩, rfl⟩, hc⟩
  · rintro ⟨_, ⟨t, ht, ⟨hm, hr, rfl⟩, rfl⟩, hc⟩
    exact ⟨t.val, ctx', ⟨decodeFlagsValid_zero, t, ht, hc, hm, rfl⟩, (), ctx', ⟨hr, rfl⟩, rfl, rfl⟩

/-- What is read with a byte string at the cursor, and otherwise. -/
theorem reads_peekBstr {α : Type} {p q : Dec α} {R S : Bytes → α → Prop} (hp : Reads p R) (hq : Reads q S)
    (hR : ∀ bs a, R bs a → SkippedValue 0 bs) (hS : ∀ bs a, S bs a → SkippedValue 0 bs) :
  Reads (do let ctx ← get; if ctx.peekType = some .bstr then p else q)
    (fun bs a => ((∃ data, BstrValue 0 bs data) ∧ R bs a) ∨
      ((∀ t r, Accepted 0 t → bs = t.bytes ++ r → t.major ≠ .bstr) ∧ S bs a))
  := by
  have peek : ∀ {ctx ctx' : DecCtx} {bs : Bytes}, SkippedValue 0 bs → ctx.Consumes bs ctx' →
      (ctx.peekType = some .bstr ↔ ∃ data, BstrValue 0 bs data) := by
    intro ctx ctx' bs hb hc
    obtain ⟨t, r, ht, rfl⟩ := hb.head
    rw [DecCtx.peekType_eq ht.wellFormed hc, Option.some.injEq]
    constructor
    · intro hm
      have hleaf := leaf_of_major hm (by decide)
      obtain rfl := (skippedValue_token ht hleaf.1 hleaf.2).mp hb
      exact ⟨t.data, t, ht, ⟨hm, rfl⟩, List.append_nil _⟩
    · rintro ⟨data, t', ht', ⟨hm, -⟩, he⟩
      rw [← List.append_nil t'.bytes] at he
      obtain ⟨rfl, -⟩ := Token.bytes_append_cancel ht.wellFormed ht'.wellFormed he
      exact hm
  have other : ∀ {bs : Bytes}, SkippedValue 0 bs → ((¬ ∃ data, BstrValue 0 bs data) ↔
      ∀ t r, Accepted 0 t → bs = t.bytes ++ r → t.major ≠ .bstr) := by
    intro bs hb
    constructor
    · rintro hn t r ht rfl hm
      have hleaf := leaf_of_major hm (by decide)
      obtain rfl := (skippedValue_token ht hleaf.1 hleaf.2).mp hb
      exact hn ⟨t.data, t, ht, ⟨hm, rfl⟩, List.append_nil _⟩
    · rintro hall ⟨data, t, ht, ⟨hm, -⟩, rfl⟩
      exact hall t [] ht (List.append_nil _).symm hm
  intro ctx a ctx'
  simp only [runs_bind, runs_get, runs_ite, hp _ _ _, hq _ _ _]
  constructor
  · rintro ⟨_, _, ⟨rfl, rfl⟩, ⟨hpeek, bs, hb, hc⟩ | ⟨hpeek, bs, hb, hc⟩⟩
    · exact ⟨bs, .inl ⟨(peek (hR _ _ hb) hc).mp hpeek, hb⟩, hc⟩
    · rw [peek (hS _ _ hb) hc, other (hS _ _ hb)] at hpeek
      exact ⟨bs, .inr ⟨hpeek, hb⟩, hc⟩
  · rintro ⟨bs, ⟨hd, hb⟩ | ⟨ho, hb⟩, hc⟩
    · exact ⟨ctx, ctx, ⟨rfl, rfl⟩, .inl ⟨(peek (hR _ _ hb) hc).mpr hd, bs, hb, hc⟩⟩
    · rw [← other (hS _ _ hb), ← peek (hS _ _ hb) hc] at ho
      exact ⟨ctx, ctx, ⟨rfl, rfl⟩, .inr ⟨ho, bs, hb, hc⟩⟩

theorem Int32Value.skipped {bs : Bytes} {v : Int} (h : Int32Value bs v) :
  SkippedValue 0 bs
  := TokenValue.skipped h fun _ ht => leaf_of_intOf ht.1

theorem KtyValue.skipped {bs : Bytes} {v : Int} (h : KtyValue bs v) :
  SkippedValue 0 bs
  := TokenValue.skipped h fun _ ht => leaf_of_major ht.1 (by decide)

/-- An integer is not a byte string. -/
theorem Int32Value.not_bstr {bs : Bytes} {v : Int} (h : Int32Value bs v) {t : Token} {r : Bytes} (ht : Accepted 0 t)
    (he : bs = t.bytes ++ r) :
  t.major ≠ .bstr
  := by
  obtain ⟨t', ht', ⟨hv, -⟩, rfl⟩ := h
  rw [← List.append_nil t'.bytes] at he
  obtain ⟨rfl, -⟩ := Token.bytes_append_cancel ht'.wellFormed ht.wellFormed he
  rcases intOf_major hv with h | h <;> simp [h]

theorem reads_decodeRsaPrivateComponent :
  Reads decodeRsaPrivateComponent
    (fun bs r => (∃ data, BstrValue 0 bs data ∧ r = some data) ∨ (NotBstrValue bs ∧ r = none))
  := by
  have hp : Reads (some <$> decodeBstr) (fun bs r => ∃ data, BstrValue 0 bs data ∧ r = some data) := by
    intro ctx r ctx'
    have h := (reads_decodeBstrEx decodeFlagsValid_zero).map some ctx r ctx'
    rw [runs_map, ← h]
    simp [decodeBstr, eq_comm]
  have hq := (reads_skipEx decodeFlagsValid_zero).andReturn (none : Option Bytes)
  have h := reads_peekBstr hp hq (by rintro bs r ⟨data, hd, -⟩; exact hd.skipped) (fun bs r h => h.1)
  apply h.congr
  intro bs r
  constructor
  · rintro (⟨-, hd⟩ | ⟨ho, hs, rfl⟩)
    · exact .inl hd
    · exact .inr ⟨⟨hs, ho⟩, rfl⟩
  · rintro (⟨data, hd, rfl⟩ | ⟨⟨hs, ho⟩, rfl⟩)
    · exact .inl ⟨⟨data, hd⟩, data, hd, rfl⟩
    · exact .inr ⟨ho, hs, rfl⟩

theorem reads_decodeRsaValue (vars : KeyVars) (store : Bytes → KeyUpdate) :
  Reads (decodeRsaValue vars fun data => (store data).apply vars)
    (fun bs vars' => ∃ u, RsaWrites store bs u ∧ vars' = u.apply vars)
  := by
  intro ctx vars' ctx'
  simp only [decodeRsaValue, runs_bind, reads_decodeRsaPrivateComponent _ _ _]
  constructor
  · rintro ⟨r, ctx₁, ⟨bs, ⟨data, hd, rfl⟩ | ⟨ho, rfl⟩, hc⟩, hret⟩
    · obtain ⟨rfl, rfl⟩ := (runs_pure _ _ _ _).mp hret
      exact ⟨bs, ⟨_, .inl ⟨data, hd, rfl⟩, rfl⟩, hc⟩
    · obtain ⟨rfl, rfl⟩ := (runs_pure _ _ _ _).mp hret
      exact ⟨bs, ⟨_, .inr ⟨ho, rfl⟩, rfl⟩, hc⟩
  · rintro ⟨bs, ⟨_, ⟨data, hd, rfl⟩ | ⟨ho, rfl⟩, rfl⟩, hc⟩
    · exact ⟨some data, ctx', ⟨bs, .inl ⟨data, hd, rfl⟩, hc⟩, (runs_pure _ _ _ _).mpr ⟨rfl, rfl⟩⟩
    · exact ⟨none, ctx', ⟨bs, .inr ⟨ho, rfl⟩, hc⟩, (runs_pure _ _ _ _).mpr ⟨rfl, rfl⟩⟩

/-- An integer value is not a text string. -/
theorem reads_decodeKeyAlg :
  Reads (do let ctx ← get; failIf (ctx.peekType = some .tstr) .coseBadAlg; decodeInt32 .coseBadAlg) Int32Value
  := by
  intro ctx v ctx'
  simp only [runs_bind, runs_get, runs_failIf, reads_decodeInt32 _ _ _ _]
  constructor
  · rintro ⟨_, _, ⟨rfl, rfl⟩, _, _, ⟨-, rfl⟩, h⟩
    exact h
  · rintro ⟨bs, hb, hc⟩
    have htext : ¬ ctx.peekType = some .tstr := by
      obtain ⟨t, ht, ⟨hv, -⟩, rfl⟩ := hb
      rw [← List.append_nil t.bytes] at hc
      rw [DecCtx.peekType_eq ht.wellFormed hc, Option.some.injEq]
      rcases intOf_major hv with h | h <;> simp [h]
    exact ⟨ctx, ctx, ⟨rfl, rfl⟩, (), ctx, ⟨htext, rfl⟩, bs, hb, hc⟩

/-- A value that is stored. -/
theorem Reads.store {α : Type} {p : Dec α} {R : Bytes → α → Prop} (h : Reads p R) (vars : KeyVars) (store : α → KeyUpdate) :
  Reads (do let a ← p; return (store a).apply vars) (fun bs vars' => ∃ u, (∃ a, R bs a ∧ u = store a) ∧ vars' = u.apply vars)
  := by
  apply (h.map fun a => (store a).apply vars).congr
  intro bs vars'
  constructor
  · rintro ⟨a, ha, rfl⟩
    exact ⟨_, ⟨a, ha, rfl⟩, rfl⟩
  · rintro ⟨_, ⟨a, ha, rfl⟩, rfl⟩
    exact ⟨a, ha, rfl⟩

/-- What a program reads and which update it makes. -/
abbrev ReadsUpdate (vars : KeyVars) (p : Dec KeyVars) (W : Bytes → KeyUpdate → Prop) : Prop :=
  Reads p (fun bs vars' => ∃ u, W bs u ∧ vars' = u.apply vars)

theorem ReadsUpdate.ite {vars : KeyVars} {c : Prop} [Decidable c] {p q : Dec KeyVars} {W W' : Bytes → KeyUpdate → Prop}
    (hp : ReadsUpdate vars p W) (hq : ReadsUpdate vars q W') :
  ReadsUpdate vars (if c then p else q) (fun bs u => if c then W bs u else W' bs u)
  := by
  by_cases h : c
  · simpa only [h, if_true] using hp
  · simpa only [h, if_false] using hq

theorem readsUpdate_alg (vars : KeyVars) :
  ReadsUpdate vars (do
      let ctx ← get
      failIf (ctx.peekType = some .tstr) .coseBadAlg
      let alg ← decodeInt32 .coseBadAlg
      return { vars with alg }) (fun bs u => ∃ alg, Int32Value bs alg ∧ u = .alg alg)
  := by
  have h := reads_decodeKeyAlg.store vars .alg
  simp only [bind_assoc] at h
  exact h

theorem readsUpdate_keyOps (vars : KeyVars) :
  ReadsUpdate vars (throw .unsupported) (fun _ _ => False)
  := by
  intro ctx vars' ctx'
  constructor
  · intro h
    exact absurd h (runs_throw _ _ _ _)
  · rintro ⟨bs, ⟨u, ⟨⟩, -⟩, -⟩

theorem readsUpdate_crv (vars : KeyVars) :
  ReadsUpdate vars (do
      let ctx ← get
      if ctx.peekType = some .bstr then do
        let n ← decodeBstr
        return { vars with n := some n }
      else do
        let crv ← decodeInt32 .coseBadHdr
        return { vars with crv })
    (fun bs u => (∃ n, BstrValue 0 bs n ∧ u = .n n) ∨ (∃ crv, Int32Value bs crv ∧ u = .crv crv))
  := by
  have hbstr : Reads decodeBstr (BstrValue 0) := reads_decodeBstrEx decodeFlagsValid_zero
  apply (reads_peekBstr (hbstr.store vars .n) ((reads_decodeInt32 _).store vars .crv) _ _).congr
  · intro bs vars'
    constructor
    · rintro (⟨-, u, hn, rfl⟩ | ⟨-, u, hcrv, rfl⟩)
      · exact ⟨u, .inl hn, rfl⟩
      · exact ⟨u, .inr hcrv, rfl⟩
    · rintro ⟨u, ⟨n, hn, rfl⟩ | ⟨crv, hcrv, rfl⟩, rfl⟩
      · exact .inl ⟨⟨n, hn⟩, _, ⟨n, hn, rfl⟩, rfl⟩
      · exact .inr ⟨fun t r ht he => hcrv.not_bstr ht he, _, ⟨crv, hcrv, rfl⟩, rfl⟩
  · rintro bs _ ⟨_, ⟨n, hn, -⟩, -⟩
    exact hn.skipped
  · rintro bs _ ⟨_, ⟨crv, hcrv, -⟩, -⟩
    exact hcrv.skipped

theorem readsUpdate_skip (vars : KeyVars) :
  ReadsUpdate vars (do skip; return vars) (fun bs u => SkippedValue 0 bs ∧ u = .nothing)
  := by
  apply ((reads_skipEx decodeFlagsValid_zero).andReturn vars).congr
  intro bs vars'
  constructor
  · rintro ⟨hs, rfl⟩
    exact ⟨.nothing, ⟨hs, rfl⟩, rfl⟩
  · rintro ⟨_, ⟨hs, rfl⟩, rfl⟩
    exact ⟨hs, rfl⟩

/-- The loop body of `wc_CoseKey_Decode` reads the values that the labels call for. -/
theorem reads_decodeKeyValue [KeySettings] (label : Int) (vars : KeyVars) :
  Reads (decodeKeyValue label vars) (fun bs vars' => KeyEntryValue label bs vars vars')
  := by
  have hbstr : Reads decodeBstr (BstrValue 0) := reads_decodeBstrEx decodeFlagsValid_zero
  apply ReadsUpdate.ite (reads_decodeKty.store vars .kty)
  apply ReadsUpdate.ite (hbstr.store vars .kid)
  apply ReadsUpdate.ite (readsUpdate_alg vars)
  apply ReadsUpdate.ite (readsUpdate_keyOps vars)
  apply ReadsUpdate.ite (readsUpdate_crv vars)
  apply ReadsUpdate.ite (hbstr.store vars .x)
  apply ReadsUpdate.ite (hbstr.store vars .y)
  apply ReadsUpdate.ite (hbstr.store vars .d)
  apply ReadsUpdate.ite (reads_decodeRsaValue vars .q)
  apply ReadsUpdate.ite (reads_decodeRsaValue vars .dp)
  apply ReadsUpdate.ite (reads_decodeRsaValue vars .dq)
  apply ReadsUpdate.ite (reads_decodeRsaValue vars .qi)
  apply readsUpdate_skip

/-- The entries of a key with the updates they make, one kind after the other. -/
inductive KeyEntry : Int → Bytes → KeyUpdate → Prop where
  | kty {bs : Bytes} {v : Int} : KtyValue bs v → KeyEntry keyLabelKty bs (.kty v)
  | kid {bs data : Bytes} : BstrValue 0 bs data → KeyEntry keyLabelKid bs (.kid data)
  | alg {bs : Bytes} {v : Int} : Int32Value bs v → KeyEntry keyLabelAlg bs (.alg v)
  | n {bs data : Bytes} : BstrValue 0 bs data → KeyEntry keyLabelCrv bs (.n data)
  | crv {bs : Bytes} {v : Int} : Int32Value bs v → KeyEntry keyLabelCrv bs (.crv v)
  | x {bs data : Bytes} : BstrValue 0 bs data → KeyEntry keyLabelX bs (.x data)
  | y {bs data : Bytes} : BstrValue 0 bs data → KeyEntry keyLabelY bs (.y data)
  | d {bs data : Bytes} : BstrValue 0 bs data → KeyEntry keyLabelD bs (.d data)
  | q {bs : Bytes} {u : KeyUpdate} : RsaWrites .q bs u → KeyEntry keyLabelRsaQ bs u
  | dp {bs : Bytes} {u : KeyUpdate} : RsaWrites .dp bs u → KeyEntry keyLabelRsaDp bs u
  | dq {bs : Bytes} {u : KeyUpdate} : RsaWrites .dq bs u → KeyEntry keyLabelRsaDq bs u
  | qi {bs : Bytes} {u : KeyUpdate} : RsaWrites .qi bs u → KeyEntry keyLabelRsaQinv bs u
  | other {label : Int} {bs : Bytes} :
      label ∉ [keyLabelKty, keyLabelKid, keyLabelAlg, keyLabelKeyOps, keyLabelCrv] → SkippedValue 0 bs →
      KeyEntry label bs .nothing

theorem KeyWrites.entry [KeySettings] {label : Int} {bs : Bytes} {u : KeyUpdate} (h : KeyWrites label bs u) :
  KeyEntry label bs u
  := by
  have cases {c P Q : Prop} [Decidable c] (h : if c then P else Q) : (c ∧ P) ∨ (¬ c ∧ Q) := by
    by_cases hc : c
    · rw [if_pos hc] at h
      exact .inl ⟨hc, h⟩
    · rw [if_neg hc] at h
      exact .inr ⟨hc, h⟩
  unfold KeyWrites at h
  obtain ⟨rfl, v, hv, rfl⟩ | ⟨hkty, h⟩ := cases h
  · exact .kty hv
  obtain ⟨rfl, v, hv, rfl⟩ | ⟨hkid, h⟩ := cases h
  · exact .kid hv
  obtain ⟨rfl, v, hv, rfl⟩ | ⟨halg, h⟩ := cases h
  · exact .alg hv
  obtain ⟨rfl, ⟨⟩⟩ | ⟨hops, h⟩ := cases h
  obtain ⟨rfl, ⟨v, hv, rfl⟩ | ⟨v, hv, rfl⟩⟩ | ⟨hcrv, h⟩ := cases h
  · exact .n hv
  · exact .crv hv
  obtain ⟨rfl, v, hv, rfl⟩ | ⟨-, h⟩ := cases h
  · exact .x hv
  obtain ⟨rfl, v, hv, rfl⟩ | ⟨-, h⟩ := cases h
  · exact .y hv
  obtain ⟨rfl, v, hv, rfl⟩ | ⟨-, h⟩ := cases h
  · exact .d hv
  obtain ⟨⟨-, rfl⟩, hv⟩ | ⟨-, h⟩ := cases h
  · exact .q hv
  obtain ⟨⟨-, rfl⟩, hv⟩ | ⟨-, h⟩ := cases h
  · exact .dp hv
  obtain ⟨⟨-, rfl⟩, hv⟩ | ⟨-, h⟩ := cases h
  · exact .dq hv
  obtain ⟨⟨-, rfl⟩, hv⟩ | ⟨-, hv, rfl⟩ := cases h
  · exact .qi hv
  · apply KeyEntry.other _ hv
    simp [hkty, hkid, halg, hops, hcrv]

/-- The value of a private component of an RSA key is a data item. -/
theorem RsaWrites.skipped {store : Bytes → KeyUpdate} {bs : Bytes} {u : KeyUpdate} (h : RsaWrites store bs u) :
  SkippedValue 0 bs
  := by
  rcases h with ⟨data, hd, -⟩ | ⟨ho, -⟩
  · exact hd.skipped
  · exact ho.1

/-- Every value of a key is a data item. -/
theorem KeyEntry.skipped {label : Int} {bs : Bytes} {u : KeyUpdate} (h : KeyEntry label bs u) :
  SkippedValue 0 bs
  := by
  cases h with
  | kty h => exact h.skipped
  | kid h => exact h.skipped
  | alg h => exact h.skipped
  | n h => exact h.skipped
  | crv h => exact h.skipped
  | x h => exact h.skipped
  | y h => exact h.skipped
  | d h => exact h.skipped
  | q h => exact h.skipped
  | dp h => exact h.skipped
  | dq h => exact h.skipped
  | qi h => exact h.skipped
  | other _ h => exact h

/-- The walk of `wc_CoseKey_Decode` accepts exactly the maps of entries with integer labels whose values
are those that the labels call for. -/
theorem walkKey_decodeKeyValue [KeySettings] {vars vars' : KeyVars} {input : Buffer} {ctx' : DecCtx} :
  walkKey decodeKeyValue vars input = (.ok ctx', vars')
    ↔ ∃ head es, HeaderMap 0 IsInteger head es ∧ (DecCtx.init input).Consumes (mapBytes head es) ctx'
      ∧ Scans (OfInteger KeyEntryValue) head.bytes.length es vars vars'
  := by
  apply walkKey_eq_ok reads_decodeKeyValue
  rintro v bs s s' ⟨u, hu, -⟩
  exact hu.entry.skipped.ne_nil

end WolfCose
