import WolfCose.Key.Peek
import WolfCose.Key.Import

/-!
# Peeking and decoding agree

What `wc_CoseKey_Decode` accepts is accepted by `wc_CoseKey_PeekInfo`, with the same type, algorithm,
curve and identifier.  A structure passed to `wc_CoseKey_PeekInfo` shows no key after a failure unless
there was no input to read.
-/

namespace WolfCose

open Program Cbor Settings KeySettings WolfCrypt RecipientCrypt RecipientSettings KeyCrypt

section

variable [Settings]

/-! ### What is peeked at -/

/-- What the value of an entry of a key does to the structure that `wc_CoseKey_PeekInfo` fills. -/
def PeekValue (label : Int) (bs : Bytes) (info info' : KeyInfo) : Prop :=
  if label = keyLabelKty then ∃ kty, KtyValue bs kty ∧ info' = { info with kty }
  else if label = keyLabelKid then ∃ kid, BstrValue 0 bs kid ∧ info' = { info with kid := .mem kid }
  else if label = keyLabelAlg then ∃ alg, Int32Value bs alg ∧ info' = { info with alg }
  else if label = keyLabelKeyOps then False
  else if label = keyLabelCrv then
    ((∃ n, BstrValue 0 bs n) ∧ info' = info) ∨ (∃ crv, Int32Value bs crv ∧ info' = { info with crv })
  else SkippedValue 0 bs ∧ info' = info

theorem reads_peekCrv (info : KeyInfo) :
  Reads (do
      let ctx ← get
      if ctx.peekType = some .bstr then do
        skip
        return info
      else do
        let crv ← decodeInt32 .coseBadHdr
        return { info with crv })
    (fun bs info' => ((∃ n, BstrValue 0 bs n) ∧ info' = info) ∨ (∃ crv, Int32Value bs crv ∧ info' = { info with crv }))
  := by
  have hskip := (reads_skipEx decodeFlagsValid_zero).andReturn info
  have hint := (reads_decodeInt32 .coseBadHdr).map fun crv => { info with crv }
  apply (reads_peekBstr hskip hint (fun bs _ h => h.1) _).congr
  · intro bs info'
    constructor
    · rintro (⟨hn, -, rfl⟩ | ⟨-, crv, hcrv, rfl⟩)
      · exact .inl ⟨hn, rfl⟩
      · exact .inr ⟨crv, hcrv, rfl⟩
    · rintro (⟨⟨n, hn⟩, rfl⟩ | ⟨crv, hcrv, rfl⟩)
      · exact .inl ⟨⟨n, hn⟩, hn.skipped, rfl⟩
      · exact .inr ⟨fun t r ht he => hcrv.not_bstr ht he, crv, hcrv, rfl⟩
  · rintro bs _ ⟨crv, hcrv, -⟩
    exact hcrv.skipped

/-- The loop body of `wc_CoseKey_PeekInfo` reads the values that the labels call for. -/
theorem reads_peekKeyValue (label : Int) (info : KeyInfo) :
  Reads (peekKeyValue label info) (fun bs info' => PeekValue label bs info info')
  := by
  have hkid : Reads decodeBstr (BstrValue 0) := reads_decodeBstrEx decodeFlagsValid_zero
  have hops : Reads (throw .unsupported : Dec KeyInfo) (fun _ _ => False) := by
    intro ctx info' ctx'
    constructor
    · intro h
      exact absurd h (runs_throw _ _ _ _)
    · rintro ⟨bs, ⟨⟩, -⟩
  apply Reads.ite (reads_decodeKty.map _)
  apply Reads.ite (hkid.map _)
  apply Reads.ite ((reads_decodeInt32 _).map _)
  apply Reads.ite hops
  apply Reads.ite (reads_peekCrv info)
  apply (reads_skipEx decodeFlagsValid_zero).andReturn

theorem PeekValue.ne_nil {label : Int} {bs : Bytes} {info info' : KeyInfo} (h : PeekValue label bs info info') :
  bs ≠ []
  := by
  unfold PeekValue at h
  split at h
  · obtain ⟨kty, hv, -⟩ := h
    exact hv.skipped.ne_nil
  split at h
  · obtain ⟨kid, hv, -⟩ := h
    exact hv.skipped.ne_nil
  split at h
  · obtain ⟨alg, hv, -⟩ := h
    exact hv.skipped.ne_nil
  split at h
  · exact h.elim
  split at h
  · obtain ⟨⟨n, hv⟩, -⟩ | ⟨crv, hv, -⟩ := h
    · exact hv.skipped.ne_nil
    · exact hv.skipped.ne_nil
  · exact h.1.ne_nil

/-- Peeking succeeds if the walk does, there is a type, and nothing follows. -/
theorem peekInfoFrom_eq_ok {input : Buffer} {info : KeyInfo} :
  peekInfoFrom input = .ok info
    ↔ ∃ ctx, walkKey peekKeyValue .cleared input = (.ok ctx, info) ∧ info.kty ≠ 0 ∧ ctx.idx = ctx.bufSz
  := by
  unfold peekInfoFrom
  cases hwalk : walkKey peekKeyValue .cleared input with
  | mk walked info₁ =>
      simp only [bind_eq_ok, rejectIf_eq_ok, pure_eq_ok, not_not]
      constructor
      · rintro ⟨ctx, rfl, _, hkty, _, hend, rfl⟩
        exact ⟨ctx, rfl, hkty, hend⟩
      · rintro ⟨ctx, he, hkty, hend⟩
        obtain ⟨rfl, rfl⟩ := Prod.mk.inj he
        exact ⟨ctx, rfl, (), hkty, (), hend, rfl⟩

/-! ### Agreement -/

/-- What the variables of `wc_CoseKey_Decode` say of a key. -/
def KeyVars.info (vars : KeyVars) : KeyInfo := ⟨vars.kty, vars.alg, vars.crv, vars.kid.elim (.null 0) .mem⟩

/-- The value of a private component of an RSA key says nothing of the key. -/
theorem RsaWrites.info {store : Bytes → KeyUpdate} {bs : Bytes} {u : KeyUpdate} (h : RsaWrites store bs u)
    {vars : KeyVars} (hstore : ∀ data, ((store data).apply vars).info = vars.info) :
  (u.apply vars).info = vars.info
  := by
  rcases h with ⟨data, -, rfl⟩ | ⟨-, rfl⟩
  · apply hstore
  · rfl

/-- A value that neither of the labels that matter to `wc_CoseKey_PeekInfo` has is skipped. -/
theorem PeekValue.other {label : Int} (hl : label ∉ [keyLabelKty, keyLabelKid, keyLabelAlg, keyLabelKeyOps, keyLabelCrv])
    {bs : Bytes} (hs : SkippedValue 0 bs) {info info' : KeyInfo} (hi : info' = info) :
  PeekValue label bs info info'
  := by
  simp only [List.mem_cons, List.not_mem_nil, or_false, not_or] at hl
  obtain ⟨hkty, hkid, halg, hops, hcrv⟩ := hl
  unfold PeekValue
  rw [if_neg hkty, if_neg hkid, if_neg halg, if_neg hops, if_neg hcrv]
  exact ⟨hs, hi⟩

/-- An entry that is decoded is peeked at. -/
theorem KeyEntry.peeked {label : Int} {bs : Bytes} {u : KeyUpdate} (h : KeyEntry label bs u) (vars : KeyVars) :
  PeekValue label bs vars.info (u.apply vars).info
  := by
  have hs := h.skipped
  cases h with
  | kty h => exact ⟨_, h, rfl⟩
  | kid h => exact ⟨_, h, rfl⟩
  | alg h => exact ⟨_, h, rfl⟩
  | n h => exact .inl ⟨⟨_, h⟩, rfl⟩
  | crv h => exact .inr ⟨_, h, rfl⟩
  | x h => exact PeekValue.other (by decide) hs rfl
  | y h => exact PeekValue.other (by decide) hs rfl
  | d h => exact PeekValue.other (by decide) hs rfl
  | q h => exact PeekValue.other (by decide) hs (h.info fun _ => rfl)
  | dp h => exact PeekValue.other (by decide) hs (h.info fun _ => rfl)
  | dq h => exact PeekValue.other (by decide) hs (h.info fun _ => rfl)
  | qi h => exact PeekValue.other (by decide) hs (h.info fun _ => rfl)
  | other hl h => exact PeekValue.other hl hs rfl

/-- A walk of `wc_CoseKey_Decode` that succeeds is one of `wc_CoseKey_PeekInfo`. -/
theorem walkKey_peeked [KeySettings] {vars : KeyVars} {input : Buffer} {ctx : DecCtx}
    (h : walkKey decodeKeyValue .init input = (.ok ctx, vars)) :
  walkKey peekKeyValue .cleared input = (.ok ctx, vars.info)
  := by
  rw [walkKey_decodeKeyValue] at h
  obtain ⟨head, es, hmap, hc, hs⟩ := h
  rw [walkKey_eq_ok reads_peekKeyValue fun _ _ _ _ hv => hv.ne_nil]
  refine ⟨head, es, hmap, hc, ?_⟩
  have hpeek := hs.map (W := fun label bs => OfInteger PeekValue label 0 bs) KeyVars.info
    (by
      rintro label i bs s _ ⟨v, rfl, u, hu, rfl⟩
      exact ⟨v, rfl, hu.entry.peeked s⟩) head.bytes.length
  exact hpeek

end

variable [Settings] [KeySettings] [RecipientSettings] [WolfCrypt] [KeyCrypt]

omit [Settings] [KeySettings] [RecipientSettings] [KeyCrypt] in
/-- What a key says of itself. -/
def Key.info (key : Key) : KeyInfo := ⟨key.kty, key.alg, key.crv, key.kid⟩

/-- What is decoded is peeked at, with the same result. -/
theorem peekInfoFrom_of_decoded {key key' : Key} {input : Buffer}
    (h : keyDecode (some key) (some input) = (.ok (), some key')) :
  peekInfoFrom input = .ok key'.info
  := by
  obtain ⟨-, -, ctx, vars, hwalk, hcheck, himport⟩ := keyDecode_eq_ok.mp h
  have hparams := params_of_decoded himport
  have hinfo : key'.info = vars.info := by
    unfold Key.params KeyVars.store at hparams
    injection hparams with hkty halg hcrv hkid
    unfold Key.info KeyVars.info
    rw [hkty, halg, hcrv, hkid]
  rw [hinfo, peekInfoFrom_eq_ok]
  have hchecks := hcheck
  unfold checkKeyVars at hchecks
  simp only [bind_eq_ok, rejectIf_eq_ok, not_not] at hchecks
  obtain ⟨_, hkty, _, -, _, hend, -⟩ := hchecks
  exact ⟨ctx, walkKey_peeked hwalk, hkty, hend⟩

/-- Peeking at an input agrees with decoding it, with any object attached, and leaves no key in the
structure when it fails. -/
structure PeekAgrees (input : Option Buffer) (info : KeyInfo) : Prop where
  decoded : ∀ key key' : Key, keyDecode (some key) input = (.ok (), some key') →
    keyPeekInfo input (some info) = (.ok (), some key'.info)
  failed : ∀ e info', keyPeekInfo input (some info) = (.error e, info') →
    ∀ key key' : Key, keyDecode (some key) input ≠ (.ok (), some key')
  cleared : ∀ e info', keyPeekInfo input (some info) = (.error e, info') → info' = some .cleared

/-- `wc_CoseKey_PeekInfo` agrees with `wc_CoseKey_Decode` unless there is no input and the structure
shows a key already. -/
theorem peekAgrees_iff (input : Option Buffer) (info : KeyInfo) :
  PeekAgrees input info ↔ (∃ b : Buffer, input = some b ∧ b.bytes ≠ []) ∨ info = .cleared
  := by
  by_cases hin : ∃ b : Buffer, input = some b ∧ b.bytes ≠ []
  · simp only [hin, true_or, iff_true]
    obtain ⟨b, rfl, hne⟩ := hin
    have hlen : ¬ b.bytes.length = 0 := fun h => hne (List.eq_nil_of_length_eq_zero h)
    have hdecoded : ∀ key key' : Key, keyDecode (some key) (some b) = (.ok (), some key') →
        keyPeekInfo (some b) (some info) = (.ok (), some key'.info) := by
      intro key key' h
      unfold keyPeekInfo
      simp only [if_neg hlen, peekInfoFrom_of_decoded h]
    constructor
    · exact hdecoded
    · intro e info' h key key' hk
      rw [hdecoded key key' hk] at h
      cases h
    · intro e info' h
      unfold keyPeekInfo at h
      simp only [if_neg hlen] at h
      cases hpeek : peekInfoFrom b with
      | ok info₁ =>
          rw [hpeek] at h
          cases h
      | error e₁ =>
          rw [hpeek] at h
          exact (Prod.mk.inj h).2.symm
  · simp only [hin, false_or]
    have hpeek : keyPeekInfo input (some info) = (.error .invalidArg, some info) := by
      cases input with
      | none => rfl
      | some b =>
          have hlen : b.bytes.length = 0 := by
            by_contra hlen
            exact hin ⟨b, rfl, fun h => hlen (by rw [h]; rfl)⟩
          unfold keyPeekInfo
          simp only [if_pos hlen]
    have hdecode : ∀ key key' : Key, keyDecode (some key) input ≠ (.ok (), some key') := by
      intro key key' h
      cases input with
      | none => cases h
      | some b => exact hin ⟨b, rfl, (keyDecode_eq_ok.mp h).1⟩
    constructor
    · intro h
      exact Option.some.inj (h.cleared _ _ hpeek)
    · rintro rfl
      constructor
      · intro key key' h
        exact absurd h (hdecode key key')
      · intro e info' _ key key'
        apply hdecode
      · intro e info' h
        rw [hpeek] at h
        exact (Prod.mk.inj h).2.symm

end WolfCose
