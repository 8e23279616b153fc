import WolfCose.Hdr.Emitted
import WolfCose.Hdr.Skipped
import WolfCose.Key.Basic
import WolfCose.Message

/-!
# Recipients

What COSE_Mac and COSE_Encrypt have in common: the recipients that a caller names, the policy of
`wolfcose_recipient.c` on the algorithms that a message may combine, and a recipient that shares
the key of the message with its sender.
-/

namespace WolfCose

open Program Cbor Settings

/-! ### Recipients of a caller -/

/-- A recipient `WOLFCOSE_RECIPIENT`. -/
structure Recipient [WolfCrypt] where
  algId : Int
  key : Option Key
  kid : Pointer

/-! ### Combinations of algorithms -/

/-- `WOLFCOSE_ALG_DIRECT_HKDF_SHA_256` -/
def algDirectHkdfSha256 : Int := -10

/-- `WOLFCOSE_ALG_DIRECT_HKDF_SHA_512` -/
def algDirectHkdfSha512 : Int := -11

/-- `WOLFCOSE_ALG_DIRECT_HKDF_AES_128` -/
def algDirectHkdfAes128 : Int := -12

/-- `WOLFCOSE_ALG_DIRECT_HKDF_AES_256` -/
def algDirectHkdfAes256 : Int := -13

/-- `WOLFCOSE_ALG_ECDH_ES_HKDF_256` -/
def algEcdhEsHkdf256 : Int := -25

/-- `WOLFCOSE_ALG_ECDH_ES_HKDF_512` -/
def algEcdhEsHkdf512 : Int := -26

/-- `WOLFCOSE_ALG_ECDH_SS_HKDF_256` -/
def algEcdhSsHkdf256 : Int := -27

/-- `WOLFCOSE_ALG_ECDH_SS_HKDF_512` -/
def algEcdhSsHkdf512 : Int := -28

/-- The values `WOLFCOSE_RECIP_MODE_*`. -/
inductive RecipientMode where
  | directEncryption
  | directAgreement
  | keyTransport
  deriving DecidableEq, Repr

/-- The mode of an algorithm. -/
def RecipientMode.ofAlg (alg : Int) : RecipientMode :=
  if alg = algDirect ∨ alg = algDirectHkdfSha256 ∨ alg = algDirectHkdfSha512 ∨ alg = algDirectHkdfAes128
      ∨ alg = algDirectHkdfAes256 then .directEncryption
  else if alg = algEcdhEsHkdf256 ∨ alg = algEcdhEsHkdf512 ∨ alg = algEcdhSsHkdf256
      ∨ alg = algEcdhSsHkdf512 then .directAgreement
  else .keyTransport

/-- `wolfCose_UpdateRecipientMode`; there is no common mode before the first recipient. -/
def updateRecipientMode (alg : Int) (commonMode : Option RecipientMode) :
    Except Err (Option RecipientMode) :=
  if alg = algUnset then .error .coseBadAlg
  else
    match commonMode with
    | none => .ok (some (.ofAlg alg))
    | some mode =>
        if mode ≠ .ofAlg alg ∨ RecipientMode.ofAlg alg = .directAgreement then .error .coseBadAlg
        else .ok (some mode)

/-- Direct recipients can be combined. -/
theorem updateRecipientMode_direct {commonMode : Option RecipientMode}
    (h : commonMode = none ∨ commonMode = some .directEncryption) :
  updateRecipientMode algDirect commonMode = .ok (some .directEncryption)
  := by
  rcases h with rfl | rfl <;> rfl

section

variable [Settings]

/-- The loop over recipients that are not selected: each one is checked, and its algorithm is
combined with those before it. -/
def decodeSkippedRecipients (n : Nat) (mode : Option RecipientMode) : Dec (Option RecipientMode) :=
  repeatM n (fun mode => do
    let skippedAlg ← decodeSkippedRecipient
    MonadExcept.ofExcept (updateRecipientMode skippedAlg mode)) mode

/-! ### Direct recipients -/

/-- The entries of the unprotected bucket of a direct recipient. -/
def directEntries (kid : Pointer) : List Entry :=
  algEntry algDirect :: (kidEntries kid).map bstrEntry

/-- The unprotected bucket of a direct recipient. -/
def directBucket (kid : Pointer) : Bytes :=
  mapBytes (.ofHead .map (directEntries kid).length) (directEntries kid)

/-- The encoding of a direct recipient: the protected bucket and the encrypted key are empty. -/
def directRecipientBytes (kid : Pointer) : Bytes :=
  preferredHead .array 3 ++ (stringBytes .bstr [] ++ (directBucket kid ++ stringBytes .bstr []))

/-- The header that the decoder of a direct recipient finds. -/
def directHdr (kid : Pointer) : Hdr :=
  { Hdr.zero with alg := algDirect, kid := hdrKidOf kid }

theorem labelled_intToken {label : Int} (hmin : -2 ^ 63 ≤ label) (hmax : label < 2 ^ 63) (value : Bytes) :
  (Entry.mk (intToken label) (.int label) value).Labelled 0
  := by
  refine ⟨accepted_intToken hmin hmax, ?_⟩
  have hint := intOf_intToken hmin hmax
  rw [labelOf]
  rcases intToken_major label with hm | hm <;> simp only [hm, hint, Option.map_some]

/-- The algorithm of an unprotected bucket is stored. -/
theorem unprotectedValue_alg {wantEk : Bool} {alg : Int} (halg : inInt32Range alg = true) (idx : Nat)
    (vars : UnprotectedVars) :
  UnprotectedValue 0 wantEk (.int hdrAlg) idx (intToken alg).bytes vars
    { vars with hdr := { vars.hdr with alg } }
  := by
  obtain ⟨hmin, hmax⟩ := range_of_inInt32Range halg
  have hne : ¬ (haveHpke0 = true ∧ Label.int hdrAlg = .int hdrHpkeEk) := by
    rintro ⟨-, h⟩
    revert h
    decide
  unfold UnprotectedValue
  rw [if_neg (by decide), if_neg (by decide), if_neg (by decide), if_neg hne, if_pos rfl]
  exact ⟨_, ⟨_, accepted_intToken hmin hmax, .inr ⟨alg, intOf_intToken hmin hmax, halg, rfl⟩, rfl⟩, rfl⟩

omit [Settings] in
/-- The kid of a header is there or not. -/
theorem directEntries_cases (kid : Pointer) :
  (hasKid kid ∧ directEntries kid = [algEntry algDirect, bstrEntry (hdrKid, kid.bytes)]
      ∧ hdrKidOf kid = some kid.bytes)
    ∨ (¬ hasKid kid ∧ directEntries kid = [algEntry algDirect] ∧ hdrKidOf kid = none)
  := by
  unfold directEntries kidEntries hdrKidOf
  by_cases h : hasKid kid
  · rw [if_pos h, if_pos h]
    exact .inl ⟨h, rfl, rfl⟩
  · rw [if_neg h, if_neg h]
    exact .inr ⟨h, rfl, rfl⟩

omit [Settings] in
/-- The labels of a direct recipient. -/
theorem labelsOf_directEntries (kid : Pointer) :
  labelsOf (directEntries kid) = [.int hdrAlg, .int hdrKid] ∨ labelsOf (directEntries kid) = [.int hdrAlg]
  := by
  rcases directEntries_cases kid with ⟨-, he, -⟩ | ⟨-, he, -⟩ <;> rw [he]
  · exact .inl rfl
  · exact .inr rfl

omit [Settings] in
theorem label_directEntries {kid : Pointer} {e : Entry} (h : e ∈ directEntries kid) :
  e.label = .int hdrAlg ∨ e.label = .int hdrKid
  := by
  have hl : e.label ∈ labelsOf (directEntries kid) := List.mem_map_of_mem h
  rcases labelsOf_directEntries kid with he | he <;> rw [he] at hl
  · simpa using hl
  · exact .inl (List.mem_singleton.mp hl)

omit [Settings] in
theorem length_directEntries_le (kid : Pointer) :
  (directEntries kid).length ≤ 2
  := by
  rcases directEntries_cases kid with ⟨-, he, -⟩ | ⟨-, he, -⟩ <;> rw [he]
  · exact Nat.le_refl 2
  · exact Nat.le_succ 1

omit [Settings] in
theorem two_mul_length_directEntries (kid : Pointer) :
  2 * (directEntries kid).length ≤ (entriesBytes (directEntries kid)).length
  := by
  have halg : (algEntry algDirect).bytes.length = 2 := by decide
  rcases directEntries_cases kid with ⟨-, he, -⟩ | ⟨-, he, -⟩ <;>
    rw [he] <;> simp only [entriesBytes_cons, entriesBytes_nil, List.length_append, halg, List.length_cons,
      List.length_nil, Nat.le_refl]
  have h₁ := (bstrEntry (hdrKid, kid.bytes)).token.one_le_length_bytes
  have h₂ : 1 ≤ (bstrEntry (hdrKid, kid.bytes)).value.length :=
    List.length_pos_iff.mpr (Token.ofString .bstr kid.bytes).bytes_ne_nil
  simp only [Entry.bytes, List.length_append]
  omega

theorem directEntries_labelled {kid : Pointer} {e : Entry} (h : e ∈ directEntries kid) :
  e.Labelled 0
  := by
  rcases List.mem_cons.mp h with rfl | h
  · apply labelled_intToken <;> decide
  · obtain ⟨entry, hentry, rfl⟩ := List.mem_map.mp h
    have hlabel : entry.1 = hdrKid := by
      unfold kidEntries at hentry
      split at hentry
      · rw [List.mem_singleton.mp hentry]
      · cases hentry
    apply labelled_intToken <;> rw [hlabel] <;> decide

/-- The unprotected bucket of a direct recipient is read back. -/
theorem unprotectedMap_direct {kid : Pointer} (hlen : hasKid kid → kid.bytes.length < 2 ^ 64) :
  UnprotectedMap 0 false .init 0 .zero ⟨directHdr kid, none⟩ (.ofHead .map (directEntries kid).length)
    (directEntries kid)
  := by
  have hcount := length_directEntries_le kid
  constructor
  · constructor
    · exact ⟨accepted_ofHead rfl (by decide) (by omega), rfl, rfl⟩
    · exact fun e => directEntries_labelled
    · constructor
      · rcases labelsOf_directEntries kid with he | he <;> rw [he] <;> decide
      · exact fun _ _ => List.not_mem_nil
      · intro e he
        rcases label_directEntries he with hl | hl <;> rw [hl] <;> exact ⟨by decide, rfl⟩
      · intro e he text ht
        rcases label_directEntries he with hl | hl <;> rw [hl] at ht <;> cases ht
    · exact Nat.le_trans hcount (Nat.le_trans (by decide) four_le_maxMapItems)
  · apply Scans.cons (unprotectedValue_alg (by decide) _ _)
    have hstore : (kidEntries kid).foldl (UnprotectedVars.store false) ⟨{ Hdr.zero with alg := algDirect }, none⟩
        = ⟨directHdr kid, none⟩ := by
      unfold kidEntries directHdr hdrKidOf
      split <;> rfl
    rw [← hstore]
    apply scans_bstrs
    intro entry hentry
    unfold kidEntries at hentry
    split at hentry
    · rename_i hkid
      rw [List.mem_singleton.mp hentry]
      exact ⟨.inl rfl, hlen hkid⟩
    · cases hentry
  · rintro ⟨h, -⟩
    cases h

/-- The header of a direct recipient is read back. -/
theorem headersValue_direct {kid : Pointer} (hlen : hasKid kid → kid.bytes.length < 2 ^ 64) :
  HeadersValue 0 (stringBytes .bstr [] ++ directBucket kid) ⟨[], directHdr kid, false⟩
  := by
  have hdec : decodeProtectedHdrEx (.mem []) .zero 0 = .ok (.zero, .init) :=
    (decodeProtectedHdrEx_eq_ok (Nat.zero_le _)).mpr ⟨decodeFlagsValid_zero, .inl ⟨rfl, rfl⟩⟩
  exact ⟨_, (.zero, .init), _, _, none, rfl, bstrValue_stringBytes (by decide), hdec, rfl,
    unprotectedMap_direct hlen⟩

/-! ### Skipping a direct recipient -/

/-- An entry of a bucket is skipped, and its algorithm is kept. -/
theorem runs_decodeSkippedHdrEntry_alg {alg : Int} (halg : inInt32Range alg = true) {trackEk : Bool}
    {vars : SkippedAlg} (hvars : vars.algFound = false) {ctx ctx' : DecCtx}
    (h : ctx.Consumes (algEntry alg).bytes ctx') :
  Runs (decodeSkippedHdrEntry trackEk vars) ctx { vars with alg, algFound := true } ctx'
  := by
  obtain ⟨hmin, hmax⟩ := range_of_inInt32Range halg
  obtain ⟨c₁, h₁, h₂⟩ := h.split
  simp only [decodeSkippedHdrEntry, runs_bind]
  refine ⟨.int hdrAlg, c₁, ?_, ?_⟩
  · rw [decodeLabel, runs_decodeLabelEx]
    exact ⟨decodeFlagsValid_zero, _, accepted_intToken (by decide) (by decide), h₁, rfl⟩
  · have hvalue : Accepted 0 (intToken alg) := accepted_intToken hmin hmax
    have hpeek : c₁.peekType ≠ some .tstr := by
      have hc := h₂
      rw [← List.append_nil (algEntry alg).value] at hc
      rw [DecCtx.peekType_eq hvalue.wellFormed hc]
      rcases intToken_major alg with hm | hm <;> rw [hm] <;> rintro ⟨⟩
    rw [if_pos rfl, runs_bind]
    refine ⟨(), c₁, (runs_failIf _ _ _ _ _).mpr ⟨by rw [hvars]; exact Bool.false_ne_true, rfl⟩, ?_⟩
    rw [runs_bind]
    refine ⟨c₁, c₁, (runs_get _ _ _).mpr ⟨rfl, rfl⟩, ?_⟩
    rw [if_neg hpeek, runs_bind]
    refine ⟨alg, ctx', ?_, ?_⟩
    · rw [decodeInt, runs_decodeIntEx]
      exact ⟨decodeFlagsValid_zero, _, hvalue, h₂, intOf_intToken hmin hmax⟩
    · rw [runs_bind]
      refine ⟨(), ctx', (runs_failIf _ _ _ _ _).mpr ⟨by rw [halg]; simp, rfl⟩, ?_⟩
      apply (runs_pure _ _ _ _).mpr ⟨rfl, rfl⟩

/-- Any other entry with an integer label that has no meaning for a recipient is skipped. -/
theorem runs_decodeSkippedHdrEntry_kid {kid : Bytes} (hlen : kid.length < 2 ^ 64) {trackEk : Bool}
    {vars : SkippedAlg} {ctx ctx' : DecCtx} (h : ctx.Consumes (bstrEntry (hdrKid, kid)).bytes ctx') :
  Runs (decodeSkippedHdrEntry trackEk vars) ctx vars ctx'
  := by
  obtain ⟨c₁, h₁, h₂⟩ := h.split
  have hek : ¬ (hpke0KeDecrypt = true ∧ Label.int hdrKid = .int hdrHpkeEk) := by
    rintro ⟨-, h⟩
    revert h
    decide
  have hlabel : Accepted 0 (intToken hdrKid) := accepted_intToken (by decide) (by decide)
  have hvalue := (@bstrValue_stringBytes _ 0 kid hlen).skipped
  simp only [decodeSkippedHdrEntry, runs_bind]
  refine ⟨.int hdrKid, c₁, ?_, ?_⟩
  · rw [decodeLabel, runs_decodeLabelEx]
    exact ⟨decodeFlagsValid_zero, _, hlabel, h₁, rfl⟩
  · rw [if_neg (by decide), if_neg hek, runs_bind]
    refine ⟨(), ctx', ?_, (runs_pure _ _ _ _).mpr ⟨rfl, rfl⟩⟩
    rw [skip, reads_skipEx decodeFlagsValid_zero _ _ _]
    exact ⟨_, hvalue, h₂⟩

/-- The unprotected bucket of a direct recipient is skipped, and its algorithm is found. -/
theorem runs_decodeSkippedHdrAlg_direct {kid : Pointer} (hlen : hasKid kid → kid.bytes.length < 2 ^ 64)
    {ctx ctx' : DecCtx} (h : ctx.Consumes (directBucket kid) ctx') :
  Runs (decodeSkippedHdrAlg true .init) ctx ⟨algDirect, true, false⟩ ctx'
  := by
  have hcount := length_directEntries_le kid
  have hhead : Accepted 0 (Token.ofHead .map (directEntries kid).length) :=
    accepted_ofHead rfl (by decide) (by omega)
  have hvars : ({ SkippedAlg.init with hpkeEkFound := false } : SkippedAlg) = .init := rfl
  obtain ⟨c₁, h₁, h₂⟩ := h.split
  have hroom := two_mul_length_directEntries kid
  rw [decodeSkippedHdrAlg, runs_bind]
  refine ⟨(directEntries kid).length, c₁, ?_, ?_⟩
  · rw [decodeMapStart, runs_decodeMapStartEx]
    refine ⟨decodeFlagsValid_zero, _, hhead, h₁, rfl, rfl, ?_⟩
    rw [h₂.length_rest_eq]
    exact Nat.le_trans hroom (Nat.le_add_right _ _)
  rw [runs_bind]
  refine ⟨c₁, c₁, (runs_get _ _ _).mpr ⟨rfl, rfl⟩, ?_⟩
  rw [runs_bind]
  refine ⟨(), c₁, (runs_failIf _ _ _ _ _).mpr ⟨?_, rfl⟩, ?_⟩
  · have hrest := h₂.length_rest_eq
    have hle := c₁.length_rest_le
    omega
  rw [hvars]
  rcases directEntries_cases kid with ⟨hkid, he, -⟩ | ⟨-, he, -⟩ <;> rw [he] at h₂ ⊢
  · rw [entriesBytes_cons, entriesBytes_cons, entriesBytes_nil, List.append_nil] at h₂
    obtain ⟨c₂, h₂, h₃⟩ := h₂.split
    simp only [List.length_cons, List.length_nil, runs_repeatM_succ, runs_repeatM_zero]
    exact ⟨_, c₂, runs_decodeSkippedHdrEntry_alg (by decide) rfl h₂, _, ctx',
      runs_decodeSkippedHdrEntry_kid (hlen hkid) h₃, rfl, rfl⟩
  · rw [entriesBytes_cons, entriesBytes_nil, List.append_nil] at h₂
    simp only [List.length_cons, List.length_nil, runs_repeatM_succ, runs_repeatM_zero]
    exact ⟨_, ctx', runs_decodeSkippedHdrEntry_alg (by decide) rfl h₂, rfl, rfl⟩

/-- A direct recipient is skipped, and its algorithm is found. -/
theorem runs_decodeSkippedHeaderEntryRecipient_direct {kid : Pointer}
    (hlen : hasKid kid → kid.bytes.length < 2 ^ 64) {ctx ctx' : DecCtx}
    (h : ctx.Consumes (directRecipientBytes kid) ctx') :
  Runs (decodeSkippedHeaderEntryRecipient 4) ctx (3, ⟨algDirect, true, false⟩) ctx'
  := by
  have hf := decodeFlagsValid_zero
  have hempty : BstrValue 0 (stringBytes .bstr []) [] := bstrValue_stringBytes (by decide)
  obtain ⟨c₁, h₁, h₂⟩ := h.split
  obtain ⟨c₂, h₂, h₃⟩ := h₂.split
  obtain ⟨c₃, h₃, h₄⟩ := h₃.split
  have hhead : Accepted 0 (Token.ofHead .array 3) := accepted_ofHead rfl (by decide) (by decide)
  have hroom : (Token.ofHead .array 3).children ≤ c₁.rest.length := by
    have l₂ := List.length_pos_iff.mpr hempty.ne_nil
    have l₃ := (Token.ofHead .map (directEntries kid).length).one_le_length_bytes
    have hchildren : (Token.ofHead .array 3).children = 3 := rfl
    rw [hchildren, h₂.length_rest_eq, h₃.length_rest_eq, h₄.length_rest_eq, directBucket, mapBytes,
      List.length_append]
    omega
  simp only [decodeSkippedHeaderEntryRecipient, runs_bind]
  refine ⟨3, c₁, ?_, (), c₁, (runs_failIf _ _ _ _ _).mpr ⟨by decide, rfl⟩, [], c₂, ?_, ?_⟩
  · rw [decodeArrayStart, runs_decodeArrayStartEx]
    exact ⟨hf, _, hhead, h₁, rfl, rfl, hroom⟩
  · rw [decodeBstr, reads_decodeBstrEx hf _ _ _]
    exact ⟨_, hempty, h₂⟩
  rw [List.length_nil, if_neg (Nat.lt_irrefl 0)]
  simp only [runs_bind]
  refine ⟨.init, c₂, (runs_pure _ _ _ _).mpr ⟨rfl, rfl⟩, _, c₃, runs_decodeSkippedHdrAlg_direct hlen h₃, (), c₃,
    (runs_failIf _ _ _ _ _).mpr ⟨by decide, rfl⟩, (), ctx', ?_, (runs_pure _ _ _ _).mpr ⟨rfl, rfl⟩⟩
  obtain ⟨t, ht, ⟨hm, hd⟩, hbytes⟩ := hempty
  rw [hbytes] at h₄
  rw [decodeSkippedRecipientValue, if_pos rfl, runs_bind]
  refine ⟨tokenItem t, ctx', ?_, (runs_failIf _ _ _ _ _).mpr ⟨?_, rfl⟩⟩
  · rw [decodeHead, runs_decodeHeadEx]
    exact ⟨hf, t, ht, h₄, rfl⟩
  · simp [tokenItem, hm, hd]

/-- Skipping a direct recipient reports its algorithm. -/
theorem runs_decodeSkippedRecipient_direct {kid : Pointer} (hlen : hasKid kid → kid.bytes.length < 2 ^ 64)
    {ctx ctx' : DecCtx} (h : ctx.Consumes (directRecipientBytes kid) ctx') :
  Runs decodeSkippedRecipient ctx algDirect ctx'
  := by
  have hstep : Runs (skippedRecipientStep ⟨1, [], none⟩) ctx ⟨0, [], some algDirect⟩ ctx' := by
    rw [skippedRecipientStep, runs_bind]
    refine ⟨_, ctx', runs_decodeSkippedHeaderEntryRecipient_direct hlen h, ?_⟩
    have halg : ¬ (hpke0KeDecrypt = true ∧ true = false ∧ false = true) := by
      rintro ⟨-, ⟨⟩, -⟩
    simp only [runs_bind, if_neg halg]
    refine ⟨(), ctx', (runs_failIf _ _ _ _ _).mpr ⟨?_, rfl⟩, (runs_pure _ _ _ _).mpr ⟨rfl, rfl⟩⟩
    rintro ⟨h, -⟩
    cases h
  have hpos : 0 < ctx.bufSz := by
    have hrest := h.length_rest_eq
    have hle := ctx.length_rest_le
    have hne := (Token.ofHead .array 3).one_le_length_bytes
    rw [directRecipientBytes, ← Token.bytes_ofHead, List.length_append] at hrest
    omega
  obtain ⟨n, hn⟩ : ∃ n, ctx.bufSz = n + 1 := ⟨ctx.bufSz - 1, by omega⟩
  rw [decodeSkippedRecipient, runs_bind]
  refine ⟨ctx, ctx, (runs_get _ _ _).mpr ⟨rfl, rfl⟩, ?_⟩
  rw [hn, skippedRecipientLoop, if_neg (by decide), runs_bind]
  refine ⟨_, ctx', hstep, ?_⟩
  have hunwind : unwind 0 [] = (0, []) := rfl
  rw [hunwind, skippedRecipientLoop, if_pos rfl]
  exact (runs_pure _ _ _ _).mpr ⟨rfl, rfl⟩

/-- A list of direct recipients is skipped. -/
theorem runs_decodeSkippedRecipients_direct {kids : List Pointer}
    (hlen : ∀ kid ∈ kids, hasKid kid → kid.bytes.length < 2 ^ 64) {mode : Option RecipientMode}
    (hmode : mode = none ∨ mode = some .directEncryption) {ctx ctx' : DecCtx}
    (h : ctx.Consumes (kids.flatMap directRecipientBytes) ctx') :
  ∃ mode', Runs (decodeSkippedRecipients kids.length mode) ctx mode' ctx'
    ∧ (mode' = none ∨ mode' = some .directEncryption)
  := by
  induction kids generalizing ctx mode with
  | nil =>
      refine ⟨mode, ?_, hmode⟩
      rw [decodeSkippedRecipients, List.length_nil, runs_repeatM_zero]
      exact ⟨rfl, ctx.consumes_nil.unique h⟩
  | cons kid kids ih =>
      obtain ⟨hkid, hkids⟩ := List.forall_mem_cons.mp hlen
      rw [List.flatMap_cons] at h
      obtain ⟨c₁, h₁, h₂⟩ := h.split
      obtain ⟨mode', hrest, hmode'⟩ := ih hkids (.inr rfl) h₂
      refine ⟨mode', ?_, hmode'⟩
      rw [decodeSkippedRecipients, List.length_cons, runs_repeatM_succ]
      refine ⟨some .directEncryption, c₁, ?_, hrest⟩
      rw [runs_bind]
      exact ⟨algDirect, c₁, runs_decodeSkippedRecipient_direct hkid h₁,
        (runs_ofExcept _ _ _ _).mpr ⟨updateRecipientMode_direct hmode, rfl⟩⟩

end

end WolfCose
