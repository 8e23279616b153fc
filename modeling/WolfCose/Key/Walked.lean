import WolfCose.Codec.Tree
import WolfCose.Key.EncodeSpec
import WolfCose.Key.Reorder

/-!
# The walk through an encoded key

The walk of `wc_CoseKey_Decode` through a key that `wc_CoseKey_Encode_ex` has written finds the components
that have been exported, each under its label.  It fails only where the encoder has written more entries
than the walk admits, or has used a reserved head for a string that is so short that its head is not a
preferred one.
-/

namespace WolfCose

open Program Cbor Settings KeySettings WolfCrypt RecipientCrypt RecipientSettings KeyCrypt

/-! ### Values -/

namespace KeyValue

/-- The token of a value. -/
def token : KeyValue → Token
  | int v => intToken v
  | bytes bs => .ofString .bstr bs
  | reserved bs => ⟨reservedWidth bs.length, .bstr, bs.length, bs⟩

/-- The value can be encoded: an integer of 32 bits, or a string that is not too long for its head. -/
def InRange : KeyValue → Prop
  | int v => inInt32Range v = true
  | bytes bs => bs.length < 2 ^ 64
  | reserved bs => bs.length ≤ 65535

/-- The head of the value is the preferred one. -/
def Preferred : KeyValue → Prop
  | reserved bs => 24 ≤ bs.length
  | _ => True

variable {value : KeyValue}

theorem bytes_token (value : KeyValue) :
  value.token.bytes = value.encoded
  := by
  cases value with
  | int v => exact (intHead_eq v).symm
  | bytes bs => rfl
  | reserved bs => rfl

/-- A reserved head is that of a string that is not too long. -/
theorem lt_bound_reservedWidth {len : Nat} (h : len ≤ 65535) :
  len < (reservedWidth len).bound
  := by
  unfold reservedWidth
  split
  · assumption
  · exact Nat.lt_succ_of_le h

/-- A reserved head is preferred if the string is not too short. -/
theorem reservedWidth_eq_preferred {len : Nat} (h : len ≤ 65535) :
  reservedWidth len = Width.preferred len ↔ 24 ≤ len
  := by
  unfold reservedWidth Width.preferred
  constructor
  · intro heq
    by_contra hlt
    rw [if_pos (by omega), if_pos (by omega)] at heq
    cases heq
  · intro hle
    by_cases hone : len < 256
    · rw [if_pos hone, if_neg (by omega), if_pos (by omega)]
    · rw [if_neg hone, if_neg (by omega), if_neg (by omega), if_pos h]

variable [Settings]

theorem wellFormed_token (h : value.InRange) :
  value.token.WellFormed
  := by
  cases value with
  | int v =>
      obtain ⟨hlow, hhigh⟩ := range_of_inInt32Range h
      exact (@accepted_intToken _ 0 _ hlow hhigh).wellFormed
  | bytes bs => exact Token.wellFormed_ofString rfl h
  | reserved bs =>
      constructor
      · exact lt_bound_reservedWidth h
      · rfl

/-- The walk accepts the values with preferred heads. -/
theorem accepted_token (h : value.InRange) :
  Accepted 0 value.token ↔ value.Preferred
  := by
  cases value with
  | int v =>
      apply iff_of_true _ trivial
      apply accepted_intToken (range_of_inInt32Range h).1 (range_of_inInt32Range h).2
  | bytes bs =>
      apply iff_of_true _ trivial
      apply accepted_ofString rfl h
      rintro ⟨⟩
  | reserved bs =>
      constructor
      · intro hacc
        exact (reservedWidth_eq_preferred h).mp (hacc.preferred allowsNonpreferred_zero (by rintro ⟨⟩))
      · intro hle
        refine ⟨wellFormed_token h, by rintro ⟨⟩, ?_, by rintro ⟨⟩⟩
        intro _ _
        exact (reservedWidth_eq_preferred h).mpr hle

/-- A value that the walk passes over has a preferred head. -/
theorem preferred_of_skipped (h : value.InRange) (hskipped : SkippedValue 0 value.encoded) :
  value.Preferred
  := by
  obtain ⟨t, r, ht, he⟩ := hskipped.head
  rw [← bytes_token, ← List.append_nil value.token.bytes] at he
  obtain ⟨rfl, -⟩ := Token.bytes_append_cancel (wellFormed_token h) ht.wellFormed he
  exact (accepted_token h).mp ht

/-- A value is a single data item. -/
theorem dataItems_encoded (h : value.InRange) :
  DataItems 1 value.encoded
  := by
  have hnested : value.token.nested = 0 := by
    cases value with
    | int v =>
        change (intToken v).nested = 0
        unfold intToken
        split
        · rfl
        · rfl
    | bytes bs => rfl
    | reserved bs => rfl
  rw [← bytes_token, ← List.append_nil value.token.bytes]
  apply DataItems.of_token (wellFormed_token h)
  rw [hnested]
  apply DataItems.nil

theorem bstrValue_bytes {bs : Bytes} (h : (bytes bs).InRange) :
  BstrValue 0 (bytes bs).encoded bs
  := ⟨_, (accepted_token h).mpr trivial, ⟨rfl, rfl⟩, (bytes_token _).symm⟩

theorem bstrValue_reserved {bs : Bytes} (h : (reserved bs).InRange) (hpreferred : (reserved bs).Preferred) :
  BstrValue 0 (reserved bs).encoded bs
  := ⟨_, (accepted_token h).mpr hpreferred, ⟨rfl, rfl⟩, (bytes_token _).symm⟩

theorem int32Value_int {v : Int} (h : (int v).InRange) :
  Int32Value (int v).encoded v
  := by
  obtain ⟨hlow, hhigh⟩ := range_of_inInt32Range h
  exact ⟨_, (accepted_token h).mpr trivial, ⟨intOf_intToken hlow hhigh, h⟩, (bytes_token _).symm⟩

theorem ktyValue_int {v : Int} (h : (int v).InRange) (hv : 0 ≤ v) :
  KtyValue (int v).encoded v
  := by
  have htoken : (int v).token = .ofHead .uint v.toNat := if_pos hv
  have hhigh : v ≤ 2 ^ 31 - 1 := by
    simp only [InRange, inInt32Range, Bool.and_eq_true, decide_eq_true_eq] at h
    exact h.2
  refine ⟨_, (accepted_token h).mpr trivial, ?_, (bytes_token _).symm⟩
  rw [htoken]
  exact ⟨rfl, by simp only [Token.ofHead]; omega, (Int.toNat_of_nonneg hv).symm⟩

end KeyValue

/-! ### Entries -/

section

variable [Settings]

/-- An entry that the encoder writes, as one that the walk reads. -/
def keyEntryOf (entry : Int × KeyValue) : Entry := ⟨intToken entry.1, .int entry.1, entry.2.encoded⟩

/-- An entry that the encoder writes, as it stands. -/
def rawKeyEntry (entry : Int × KeyValue) : RawEntry := ⟨intHead entry.1, entry.2.encoded⟩

omit [Settings] in
theorem bytes_keyEntryOf (entry : Int × KeyValue) :
  (keyEntryOf entry).bytes = keyEntry entry
  := by
  rw [keyEntry, intHead_eq]
  rfl

omit [Settings] in
theorem mapBytes_keyEntryOf (entries : List (Int × KeyValue)) :
  mapBytes (.ofHead .map entries.length) (entries.map keyEntryOf) = keyMap entries
  := by
  rw [mapBytes, keyMap, Token.bytes_ofHead, entriesBytes, List.flatMap_map]
  simp only [bytes_keyEntryOf]

/-- The entries have different labels, and can be encoded. -/
structure KeyEntriesOk (entries : List (Int × KeyValue)) : Prop where
  length_lt : entries.length < 2 ^ 64
  nodup : (entries.map Prod.fst).Nodup
  label : ∀ e ∈ entries, inInt32Range e.1 = true
  value : ∀ e ∈ entries, e.2.InRange

namespace KeyEntriesOk

variable {entries : List (Int × KeyValue)}

theorem wellFormed (h : KeyEntriesOk entries) {r : RawEntry} (hr : r ∈ entries.map rawKeyEntry) :
  r.WellFormed
  := by
  obtain ⟨e, he, rfl⟩ := List.mem_map.mp hr
  constructor
  · exact @KeyValue.dataItems_encoded (.int e.1) _ (h.label e he)
  · exact KeyValue.dataItems_encoded (h.value e he)

/-- The map of the entries. -/
def rawMap (h : KeyEntriesOk entries) : RawMap :=
  .ofEntries (entries.map rawKeyEntry) (by rw [List.length_map]; exact h.length_lt) (fun _ hr => h.wellFormed hr)

theorem bytes_rawMap (h : KeyEntriesOk entries) :
  h.rawMap.bytes = keyMap entries
  := by
  change preferredHead .map (entries.map rawKeyEntry).length ++ ((entries.map rawKeyEntry).flatMap RawEntry.bytes ++ [])
    = keyMap entries
  rw [List.length_map, List.flatMap_map, List.append_nil]
  rfl

/-- The walk admits the labels. -/
theorem headerMap (h : KeyEntriesOk entries) (hlen : entries.length ≤ maxMapItems) :
  HeaderMap 0 IsInteger (.ofHead .map entries.length) (entries.map keyEntryOf)
  := by
  have hlabels : labelsOf (entries.map keyEntryOf) = (entries.map Prod.fst).map .int := by
    rw [labelsOf, List.map_map, List.map_map]
    rfl
  refine ⟨⟨accepted_ofHead rfl (by rintro ⟨⟩) h.length_lt, rfl, ?_⟩, ?_, ⟨?_, ?_, ?_, ?_⟩, ?_⟩
  · rw [List.length_map]
    rfl
  · intro e he
    obtain ⟨entry, hentry, rfl⟩ := List.mem_map.mp he
    obtain ⟨hlow, hhigh⟩ := range_of_inInt32Range (h.label entry hentry)
    refine ⟨accepted_intToken hlow hhigh, ?_⟩
    rcases intToken_major entry.1 with hm | hm
    · simp only [keyEntryOf, labelOf, hm, intOf_intToken hlow hhigh, Option.map_some]
    · simp only [keyEntryOf, labelOf, hm, intOf_intToken hlow hhigh, Option.map_some]
  · rw [hlabels]
    exact List.Pairwise.map Label.int (fun _ _ hne heq => hne (Label.int.inj heq)) h.nodup
  · intro e _ hmem
    cases hmem
  · intro e he
    obtain ⟨entry, -, rfl⟩ := List.mem_map.mp he
    exact ⟨entry.1, rfl⟩
  · intro e he
    obtain ⟨entry, -, rfl⟩ := List.mem_map.mp he
    rintro text ⟨⟩
  · rw [List.length_map]
    exact hlen

/-- What the walk makes of entries that it accepts. -/
theorem scans [KeySettings] {us : List KeyUpdate} (h : List.Forall₂ (fun e u => KeyWrites e.1 e.2.encoded u) entries us)
    (idx : Nat) (vars : KeyVars) :
  Scans (OfInteger KeyEntryValue) idx (entries.map keyEntryOf) vars (us.foldl KeyUpdate.apply vars)
  := by
  induction h generalizing idx vars with
  | nil => apply Scans.nil
  | cons hu _ ih =>
      apply Scans.cons
      · exact ⟨_, rfl, _, hu, rfl⟩
      · apply ih

/-- The walk through entries that it accepts makes their updates. -/
theorem walkKey_eq [KeySettings] (hok : KeyEntriesOk entries) {us : List KeyUpdate}
    (h : List.Forall₂ (fun e u => KeyWrites e.1 e.2.encoded u) entries us) (hlen : entries.length ≤ maxMapItems)
    {input : Buffer} (hin : input.bytes = keyMap entries) :
  ∃ ctx, walkKey decodeKeyValue .init input = (.ok ctx, us.foldl KeyUpdate.apply .init) ∧ ctx.idx = ctx.bufSz
  := by
  have hrest : (DecCtx.init input).rest = mapBytes (.ofHead .map entries.length) (entries.map keyEntryOf) ++ [] := by
    rw [DecCtx.rest_init, hin, mapBytes_keyEntryOf, List.append_nil]
  have hc := DecCtx.consumes_of_rest hrest
  refine ⟨_, walkKey_decodeKeyValue.mpr ⟨_, _, hok.headerMap hlen, hc, scans h _ _⟩, hc.end_of_rest ?_⟩
  exact List.append_cancel_left (hc.rest_eq.symm.trans hrest)

/-- The walk accepts entries only if there are not too many of them and their values have preferred heads. -/
theorem of_walkKey [KeySettings] (hok : KeyEntriesOk entries) {input : Buffer} (hin : input.bytes = keyMap entries)
    {ctx : DecCtx} {vars : KeyVars} (h : walkKey decodeKeyValue .init input = (.ok ctx, vars)) :
  entries.length ≤ maxMapItems ∧ ∀ e ∈ entries, e.2.Preferred
  := by
  rw [walkKey_decodeKeyValue] at h
  obtain ⟨head, es, hmap, hc, hs⟩ := h
  have hvalue : ∀ l i bs s s', OfInteger KeyEntryValue l i bs s s' → SkippedValue 0 bs := by
    rintro l i bs s s' ⟨v, -, u, hu, -⟩
    exact hu.entry.skipped
  have hskipped : ∀ e ∈ es, SkippedValue 0 e.value := hs.forall hvalue
  have he : mapBytes head es ++ ctx.rest = hok.rawMap.bytes ++ [] := by
    rw [← hc.rest_eq, DecCtx.rest_init, hin, hok.bytes_rawMap, List.append_nil]
  obtain ⟨-, -, hraw, -⟩ := hmap.of_raw (fun e hmem => (hskipped e hmem).dataItems) he
  change es.map Entry.raw = entries.map rawKeyEntry at hraw
  constructor
  · rw [← List.length_map (f := rawKeyEntry), ← hraw, List.length_map]
    exact hmap.length_le
  · intro e hmem
    have hmem' : rawKeyEntry e ∈ es.map Entry.raw := by
      rw [hraw]
      exact List.mem_map_of_mem hmem
    obtain ⟨e', he', heq⟩ := List.mem_map.mp hmem'
    apply KeyValue.preferred_of_skipped (hok.value e hmem)
    have hvalue : e'.value = e.2.encoded := congrArg RawEntry.value heq
    rw [← hvalue]
    exact hskipped e' he'

end KeyEntriesOk

end

/-! ### What the walk finds -/

/-- The updates of the entries that are common to all keys. -/
def Key.commonUpdates [WolfCrypt] (key : Key) : List KeyUpdate :=
  .kty key.kty :: ((if hasKid key.kid then [.kid key.kid.bytes] else [])
    ++ if key.alg ≠ algUnset then [.alg key.alg] else [])

/-- The updates of the entries of the components of a key. -/
def Material.updates : Material → List KeyUpdate
  | ec2 crv x y d => [.crv crv, .x x, .y y] ++ d.toList.map .d
  | rsa n e priv =>
      [.n n, .x e] ++ priv.toList.flatMap fun priv =>
        [.y priv.d, .d priv.p, .q priv.q, .dp priv.dP, .dq priv.dQ, .qi priv.qInv]
  | akp pub seed => .n pub :: seed.toList.map .x
  | lms pub => [.n pub]
  | okp crv x d => [.crv crv, .x x] ++ d.toList.map .d
  | symmetric k => [.n k]

/-- The variables of the walk with the components of a key. -/
def Material.store (material : Material) (vars : KeyVars) : KeyVars :=
  match material with
  | ec2 crv x y d => { vars with crv, x := some x, y := some y, d }
  | rsa n e none => { vars with n := some n, x := some e }
  | rsa n e (some priv) =>
      { vars with
        n := some n
        x := some e
        y := some priv.d
        d := some priv.p
        q := some priv.q
        dp := some priv.dP
        dq := some priv.dQ
        qi := some priv.qInv }
  | akp pub seed => { vars with n := some pub, x := seed }
  | lms pub => { vars with n := some pub }
  | okp crv x d => { vars with crv, x := some x, d }
  | symmetric k => { vars with n := some k }

/-- What the walk finds in an encoded key. -/
def Key.found [WolfCrypt] (key : Key) (material : Material) : KeyVars :=
  material.store
    { KeyVars.init with
      kty := key.kty
      alg := key.alg
      kid := if hasKid key.kid then some key.kid.bytes else none }

theorem foldl_updates [WolfCrypt] (key : Key) (material : Material) :
  (key.commonUpdates ++ material.updates).foldl KeyUpdate.apply .init = key.found material
  := by
  have hcommon : key.commonUpdates.foldl KeyUpdate.apply .init =
      { KeyVars.init with
        kty := key.kty
        alg := key.alg
        kid := if hasKid key.kid then some key.kid.bytes else none } := by
    unfold Key.commonUpdates
    by_cases halg : key.alg = algUnset
    · rw [if_neg (not_not.mpr halg), halg]
      split
      · rfl
      · rfl
    · rw [if_pos halg]
      split
      · rfl
      · rfl
  rw [List.foldl_append, hcommon]
  cases material with
  | ec2 crv x y d => cases d <;> rfl
  | rsa n e priv => cases priv <;> rfl
  | akp pub seed => cases seed <;> rfl
  | lms pub => rfl
  | okp crv x d => cases d <;> rfl
  | symmetric k => rfl

section

variable [Settings] [KeySettings]

/-! ### The entries of a key -/

theorem keyWrites_kty {v : Int} (h : (KeyValue.int v).InRange) (hv : 0 ≤ v) :
  KeyWrites keyLabelKty (KeyValue.int v).encoded (.kty v)
  := by
  unfold KeyWrites
  rw [if_pos rfl]
  exact ⟨v, KeyValue.ktyValue_int h hv, rfl⟩

theorem keyWrites_kid {bs data : Bytes} (h : BstrValue 0 bs data) :
  KeyWrites keyLabelKid bs (.kid data)
  := by
  unfold KeyWrites
  rw [if_neg (by decide), if_pos rfl]
  exact ⟨data, h, rfl⟩

theorem keyWrites_alg {v : Int} (h : (KeyValue.int v).InRange) :
  KeyWrites keyLabelAlg (KeyValue.int v).encoded (.alg v)
  := by
  unfold KeyWrites
  rw [if_neg (by decide), if_neg (by decide), if_pos rfl]
  exact ⟨v, KeyValue.int32Value_int h, rfl⟩

theorem keyWrites_crv {v : Int} (h : (KeyValue.int v).InRange) :
  KeyWrites keyLabelCrv (KeyValue.int v).encoded (.crv v)
  := by
  unfold KeyWrites
  rw [if_neg (by decide), if_neg (by decide), if_neg (by decide), if_neg (by decide), if_pos rfl]
  exact .inr ⟨v, KeyValue.int32Value_int h, rfl⟩

theorem keyWrites_n {bs data : Bytes} (h : BstrValue 0 bs data) :
  KeyWrites keyLabelCrv bs (.n data)
  := by
  unfold KeyWrites
  rw [if_neg (by decide), if_neg (by decide), if_neg (by decide), if_neg (by decide), if_pos rfl]
  exact .inl ⟨data, h, rfl⟩

theorem keyWrites_x {bs data : Bytes} (h : BstrValue 0 bs data) :
  KeyWrites keyLabelX bs (.x data)
  := by
  unfold KeyWrites
  rw [if_neg (by decide), if_neg (by decide), if_neg (by decide), if_neg (by decide), if_neg (by decide), if_pos rfl]
  exact ⟨data, h, rfl⟩

theorem keyWrites_y {bs data : Bytes} (h : BstrValue 0 bs data) :
  KeyWrites keyLabelY bs (.y data)
  := by
  unfold KeyWrites
  rw [if_neg (by decide), if_neg (by decide), if_neg (by decide), if_neg (by decide), if_neg (by decide),
    if_neg (by decide), if_pos rfl]
  exact ⟨data, h, rfl⟩

theorem keyWrites_d {bs data : Bytes} (h : BstrValue 0 bs data) :
  KeyWrites keyLabelD bs (.d data)
  := by
  unfold KeyWrites
  rw [if_neg (by decide), if_neg (by decide), if_neg (by decide), if_neg (by decide), if_neg (by decide),
    if_neg (by decide), if_neg (by decide), if_pos rfl]
  exact ⟨data, h, rfl⟩

/-- The private components of an RSA key that have labels of their own. -/
theorem keyWrites_rsa (hdecode : haveRsaPrivateKeyDecode = true) {bs data : Bytes} (h : BstrValue 0 bs data) :
  KeyWrites keyLabelRsaQ bs (.q data) ∧ KeyWrites keyLabelRsaDp bs (.dp data)
    ∧ KeyWrites keyLabelRsaDq bs (.dq data) ∧ KeyWrites keyLabelRsaQinv bs (.qi data)
  := by
  have hwrites : ∀ store : Bytes → KeyUpdate, RsaWrites store bs (store data) := by
    intro store
    exact .inl ⟨data, h, rfl⟩
  simp [KeyWrites, hdecode, hwrites, keyLabelKty, keyLabelKid, keyLabelAlg, keyLabelKeyOps, keyLabelCrv, keyLabelX,
    keyLabelY, keyLabelD, keyLabelRsaQ, keyLabelRsaDp, keyLabelRsaDq, keyLabelRsaQinv]

end

end WolfCose
