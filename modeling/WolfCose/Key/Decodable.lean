import Mathlib.Data.List.Forall2
import WolfCose.Key.Walked

/-!
# Keys that can be decoded again

`wc_CoseKey_Decode` accepts a key that `wc_CoseKey_Encode_ex` has written, and imports the components as they
have been exported, unless the key is one of a few kinds that the decoder does not take: one with more entries
than the walk admits, an RSA key with a modulus of less than 24 bytes or with the exponent zero, an ML-DSA key
of another algorithm.
-/

namespace WolfCose

open Program Cbor Settings KeySettings WolfCrypt RecipientCrypt RecipientSettings KeyCrypt

section

variable [Settings] [KeySettings] [WolfCrypt] [RecipientCrypt] [KeyCrypt] {key : Key} {flags : UInt32}
  {material : Material}

/-! ### The ranges of the components -/

omit [Settings] [KeySettings] [WolfCrypt] [RecipientCrypt] [KeyCrypt] in
theorem length_le_keyMap {entries : List (Int × KeyValue)} {e : Int × KeyValue} (he : e ∈ entries) :
  e.2.encoded.length ≤ (keyMap entries).length
  := by
  have hentry : (keyEntry e).length ≤ (entries.flatMap keyEntry).length := by
    obtain ⟨before, after, rfl⟩ := List.append_of_mem he
    simp only [List.flatMap_append, List.flatMap_cons, List.length_append]
    omega
  rw [keyEntry, List.length_append] at hentry
  rw [keyMap, List.length_append]
  omega

omit [KeySettings] [WolfCrypt] [RecipientCrypt] [KeyCrypt] in
/-- What is in a buffer is in range, if the integers and the reserved heads are. -/
theorem inRange_of_keyMap {entries : List (Int × KeyValue)} (hle : (keyMap entries).length ≤ sizeMax)
    {e : Int × KeyValue} (he : e ∈ entries) (hint : ∀ v, e.2 = .int v → inInt32Range v = true)
    (hreserved : ∀ bs, e.2 = .reserved bs → bs.length ≤ 65535) :
  e.2.InRange
  := by
  have hlen := length_le_keyMap he
  have hmax := sizeMax_lt
  cases hvalue : e.2 with
  | int v => exact hint v hvalue
  | reserved bs => exact hreserved bs hvalue
  | bytes bs =>
      rw [hvalue, KeyValue.encoded, stringBytes, List.length_append] at hlen
      change bs.length < 2 ^ 64
      omega

omit [Settings] [KeySettings] [WolfCrypt] [RecipientCrypt] [KeyCrypt] in
/-- A curve that has a size. -/
theorem crv_of_crvKeySize {crv : Int} {n : Nat} (h : crvKeySize crv = .ok n) :
  crv ∈ [crvP256, crvP384, crvP521, crvEd25519, crvEd448]
  := by
  unfold crvKeySize at h
  simp only [List.mem_cons]
  split at h
  · exact .inl (by assumption)
  split at h
  · exact .inr (.inl (by assumption))
  split at h
  · exact .inr (.inr (.inl (by assumption)))
  split at h
  · exact .inr (.inr (.inr (.inl (by assumption))))
  split at h
  · exact .inr (.inr (.inr (.inr (.inl (by assumption)))))
  · cases h

omit [Settings] [KeySettings] [WolfCrypt] [RecipientCrypt] [KeyCrypt] in
theorem inInt32Range_crv {crv : Int} (h : crv ∈ [crvP256, crvP384, crvP521, crvEd25519, crvEd448]) :
  inInt32Range crv = true
  := by
  simp only [List.mem_cons, List.not_mem_nil, or_false] at h
  rcases h with rfl | rfl | rfl | rfl | rfl
  all_goals rfl

/-- The integers among the components of a key. -/
theorem KeyHas.int_inRange (h : KeyHas key flags material) {e : Int × KeyValue} (he : e ∈ material.entries) {v : Int}
    (hv : e.2 = .int v) :
  inInt32Range v = true
  := by
  have hbytes : ∀ {label : Int} {data : Option Bytes}, e ∈ optionalEntry label data → False := by
    intro label data hmem
    obtain ⟨bs, -, rfl⟩ := List.mem_map.mp hmem
    cases hv
  cases h with
  | ec2 _ _ _ hcoord =>
      simp only [Material.entries, List.mem_append, List.mem_cons, List.not_mem_nil, or_false] at he
      rcases he with (rfl | rfl | rfl) | he
      · obtain rfl := KeyValue.int.inj hv
        exact inInt32Range_crv (crv_of_crvKeySize hcoord)
      · cases hv
      · cases hv
      · exact (hbytes he).elim
  | rsa =>
      simp only [Material.entries, List.mem_append, List.mem_cons, List.not_mem_nil, or_false, List.mem_flatMap,
        RsaPrivate.entries] at he
      rcases he with (rfl | rfl) | ⟨priv, -, rfl | rfl | rfl | rfl | rfl | rfl⟩
      all_goals cases hv
  | akp =>
      simp only [Material.entries, List.mem_cons] at he
      rcases he with rfl | he
      · cases hv
      · exact (hbytes he).elim
  | lms =>
      simp only [Material.entries, List.mem_singleton] at he
      subst he
      cases hv
  | okp _ hpublic =>
      simp only [Material.entries, List.mem_append, List.mem_cons, List.not_mem_nil, or_false] at he
      rcases he with (rfl | rfl) | he
      · obtain rfl := KeyValue.int.inj hv
        rcases exportOkpPublic_eq_ok.mp hpublic with ⟨-, hcrv, -⟩ | ⟨-, hcrv, -⟩
        · rw [hcrv]
          rfl
        · rw [hcrv]
          rfl
      · cases hv
      · exact (hbytes he).elim
  | symmetric =>
      simp only [Material.entries, List.mem_singleton] at he
      subst he
      cases hv

omit [Settings] [KeySettings] in
/-- The private exponent of an RSA key is as wide as the modulus, and the other integers are half as wide. -/
theorem RsaExports.widths [Settings] [KeySettings] (hdoc : DocumentedExports) {rsaKey : RsaKey} {priv : RsaPrivate} {e n : Bytes}
    {nSz : Nat} (h : RsaExports rsaKey priv) (hn : rsaFlattenPublicKey rsaKey rsaEMaxSz nSz = some (e, n)) :
  priv.d.length = n.length ∧ ∀ data ∈ [priv.p, priv.q, priv.dP, priv.dQ, priv.qInv], data.length = (n.length + 1) / 2
  := by
  have hmod := (hdoc.rsaPublic hn).1
  have htoNat : (rsaEncryptSize rsaKey).toNat = n.length := by
    rw [← hmod]
    rfl
  constructor
  · obtain ⟨d, modSz, hmodSz, hd, -, -, hpadded⟩ := h.d
    have hdlen := hdoc.rsaPrivate hd
    rw [hpadded, List.length_append, List.length_replicate, ← htoNat, ← hmodSz]
    omega
  · have hcrt := h.crt
    rw [htoNat] at hcrt
    simp only [List.mem_cons, List.not_mem_nil, or_false, forall_eq_or_imp, forall_eq] at hcrt ⊢
    obtain ⟨⟨-, hp⟩, ⟨-, hq⟩, ⟨-, hdP⟩, ⟨-, hdQ⟩, -, hu⟩ := hcrt
    exact ⟨hp, hq, hdP, hdQ, hu⟩

/-- The strings with reserved heads among the components of a key. -/
theorem KeyHas.reserved_le (hdoc : DocumentedExports) (h : KeyHas key flags material) {e : Int × KeyValue}
    (he : e ∈ material.entries) {bs : Bytes} (hbs : e.2 = .reserved bs) :
  bs.length ≤ 65535
  := by
  have hbytes : ∀ {label : Int} {data : Option Bytes}, e ∈ optionalEntry label data → False := by
    intro label data hmem
    obtain ⟨bs, -, rfl⟩ := List.mem_map.mp hmem
    cases hbs
  cases h with
  | ec2 =>
      simp only [Material.entries, List.mem_append, List.mem_cons, List.not_mem_nil, or_false] at he
      rcases he with (rfl | rfl | rfl) | he
      · cases hbs
      · cases hbs
      · cases hbs
      · exact (hbytes he).elim
  | @rsa _ n _ _ priv _ _ _ hn _ hle hprivate =>
      simp only [Material.entries, List.mem_append, List.mem_cons, List.not_mem_nil, or_false, List.mem_flatMap,
        RsaPrivate.entries, Option.mem_toList] at he
      rcases he with (rfl | rfl) | ⟨priv, hpriv, rfl | rfl | rfl | rfl | rfl | rfl⟩
      · obtain rfl := KeyValue.reserved.inj hbs
        exact hle
      · cases hbs
      · obtain rfl := KeyValue.reserved.inj hbs
        rw [((hprivate.of_eq_some hpriv).widths hdoc hn).1]
        exact hle
      all_goals cases hbs
  | akp _ _ _ _ _ _ hle =>
      simp only [Material.entries, List.mem_cons] at he
      rcases he with rfl | he
      · obtain rfl := KeyValue.reserved.inj hbs
        exact hle
      · exact (hbytes he).elim
  | lms =>
      simp only [Material.entries, List.mem_singleton] at he
      subst he
      cases hbs
  | okp =>
      simp only [Material.entries, List.mem_append, List.mem_cons, List.not_mem_nil, or_false] at he
      rcases he with (rfl | rfl) | he
      · cases hbs
      · cases hbs
      · exact (hbytes he).elim
  | symmetric =>
      simp only [Material.entries, List.mem_singleton] at he
      subst he
      cases hbs

/-! ### The entries of a key -/

omit [Settings] [KeySettings] [RecipientCrypt] [KeyCrypt] in
theorem labels_commonEntries (key : Key) :
  key.commonEntries.map Prod.fst ∈
    [[keyLabelKty], [keyLabelKty, keyLabelKid], [keyLabelKty, keyLabelAlg], [keyLabelKty, keyLabelKid, keyLabelAlg]]
  := by
  unfold Key.commonEntries
  split
  · split
    all_goals simp
  · split
    all_goals simp

omit [Settings] [KeySettings] [WolfCrypt] [RecipientCrypt] [KeyCrypt] in
theorem labels_materialEntries (material : Material) :
  material.entries.map Prod.fst ∈
    [[keyLabelK], [keyLabelCrv, keyLabelX], [keyLabelCrv, keyLabelX, keyLabelY], [keyLabelCrv, keyLabelX, keyLabelD],
      [keyLabelCrv, keyLabelX, keyLabelY, keyLabelD],
      [keyLabelCrv, keyLabelX, keyLabelY, keyLabelRsaP, keyLabelRsaQ, keyLabelRsaDp, keyLabelRsaDq, keyLabelRsaQinv]]
  := by
  have hpub : keyLabelPub = keyLabelCrv := rfl
  have hpriv : keyLabelPriv = keyLabelX := rfl
  have hk : keyLabelK = keyLabelCrv := rfl
  cases material with
  | ec2 crv x y d => cases d <;> simp [Material.entries, optionalEntry]
  | rsa n e priv => cases priv <;> simp [Material.entries, RsaPrivate.entries]
  | akp pub seed => cases seed <;> simp [Material.entries, optionalEntry, hpub, hpriv, hk]
  | lms pub => simp [Material.entries, hpub, hk]
  | okp crv x d => cases d <;> simp [Material.entries, optionalEntry]
  | symmetric k => simp [Material.entries]

omit [Settings] [KeySettings] [RecipientCrypt] [KeyCrypt] in
/-- The labels of a key are different integers of 32 bits. -/
theorem labels_key (key : Key) (material : Material) :
  ((key.commonEntries ++ material.entries).map Prod.fst).Nodup
    ∧ (key.commonEntries ++ material.entries).length < 2 ^ 64
    ∧ ∀ l ∈ (key.commonEntries ++ material.entries).map Prod.fst, inInt32Range l = true
  := by
  rw [← List.length_map Prod.fst, List.map_append]
  generalize hcommon : key.commonEntries.map Prod.fst = common
  generalize hown : material.entries.map Prod.fst = own
  have hc := labels_commonEntries key
  have hm := labels_materialEntries material
  rw [hcommon] at hc
  rw [hown] at hm
  simp only [List.mem_cons, List.not_mem_nil, or_false] at hc hm
  rcases hc with rfl | rfl | rfl | rfl
  all_goals
    rcases hm with rfl | rfl | rfl | rfl | rfl | rfl
    all_goals decide

/-- The type of a key that has components. -/
theorem KeyHas.kty_mem (h : KeyHas key flags material) :
  key.kty ∈ [ktyEc2, ktyRsa, ktyAkp, ktyHssLms, ktyOkp, ktySymmetric]
  := by
  cases h with
  | ec2 _ hkty => simp [hkty]
  | rsa _ hkty => simp [hkty]
  | akp _ hkty => simp [hkty]
  | lms _ hkty => simp [hkty]
  | okp hkty => simp [hkty]
  | symmetric hkty => simp [hkty]

theorem KeyHas.kty_inRange (h : KeyHas key flags material) :
  0 < key.kty ∧ inInt32Range key.kty = true
  := by
  have hall : ∀ kty ∈ [ktyEc2, ktyRsa, ktyAkp, ktyHssLms, ktyOkp, ktySymmetric],
      0 < kty ∧ inInt32Range kty = true := by decide
  exact hall _ h.kty_mem

/-- The entries of a key can be walked through. -/
theorem KeyHas.keyEntriesOk (hdoc : DocumentedExports) (h : KeyHas key flags material) (halg : inInt32Range key.alg = true)
    (hle : (key.encoding material).length ≤ sizeMax) :
  KeyEntriesOk (key.commonEntries ++ material.entries)
  := by
  obtain ⟨hnodup, hlen, hlabels⟩ := labels_key key material
  refine ⟨hlen, hnodup, fun e he => hlabels _ (List.mem_map_of_mem he), ?_⟩
  intro e he
  apply inRange_of_keyMap hle he
  · intro v hv
    rcases List.mem_append.mp he with hcommon | hown
    · simp only [Key.commonEntries, List.mem_cons, List.mem_append, List.mem_ite_nil_right] at hcommon
      rcases hcommon with rfl | ⟨-, rfl | hnil⟩ | ⟨-, rfl | hnil⟩
      · obtain rfl := KeyValue.int.inj hv
        exact h.kty_inRange.2
      · cases hv
      · cases hnil
      · obtain rfl := KeyValue.int.inj hv
        exact halg
      · cases hnil
    · exact h.int_inRange hown hv
  · intro bs hbs
    rcases List.mem_append.mp he with hcommon | hown
    · simp only [Key.commonEntries, List.mem_cons, List.mem_append, List.mem_ite_nil_right] at hcommon
      rcases hcommon with rfl | ⟨-, rfl | hnil⟩ | ⟨-, rfl | hnil⟩
      · cases hbs
      · cases hbs
      · cases hnil
      · cases hbs
      · cases hnil
    · exact h.reserved_le hdoc hown hbs

/-! ### The walk through a key -/

omit [WolfCrypt] [RecipientCrypt] [KeyCrypt] in
/-- An entry that is there or not makes an update if it is there. -/
theorem writes_optionalEntry {label : Int} {store : Bytes → KeyUpdate} {data : Option Bytes}
    (h : ∀ bs, data = some bs → KeyWrites label (KeyValue.bytes bs).encoded (store bs)) :
  List.Forall₂ (fun e u => KeyWrites e.1 e.2.encoded u) (optionalEntry label data) (data.toList.map store)
  := by
  cases data with
  | none => exact .nil
  | some bs => exact .cons (h bs rfl) .nil

omit [RecipientCrypt] [KeyCrypt] in
/-- The entries that are common to all keys. -/
theorem writes_commonEntries {key : Key} (hkty : 0 ≤ key.kty) (hvalue : ∀ e ∈ key.commonEntries, e.2.InRange) :
  List.Forall₂ (fun e u => KeyWrites e.1 e.2.encoded u) key.commonEntries key.commonUpdates
  := by
  unfold Key.commonEntries Key.commonUpdates
  unfold Key.commonEntries at hvalue
  apply List.Forall₂.cons
  · exact keyWrites_kty (hvalue _ List.mem_cons_self) hkty
  apply List.rel_append
  · by_cases hkid : hasKid key.kid
    · rw [if_pos hkid, if_pos hkid]
      refine .cons (keyWrites_kid (KeyValue.bstrValue_bytes ?_)) .nil
      apply hvalue (keyLabelKid, .bytes key.kid.bytes)
      simp [hkid]
    · rw [if_neg hkid, if_neg hkid]
      exact .nil
  · by_cases halg : key.alg = algUnset
    · rw [if_neg (not_not.mpr halg), if_neg (not_not.mpr halg)]
      exact .nil
    · rw [if_pos halg, if_pos halg]
      refine .cons (keyWrites_alg ?_) .nil
      apply hvalue (keyLabelAlg, .int key.alg)
      simp [halg]

/-- The entries of the components of a key. -/
theorem KeyHas.writes_entries (h : KeyHas key flags material) (hvalue : ∀ e ∈ material.entries, e.2.InRange)
    (hpreferred : ∀ e ∈ material.entries, e.2.Preferred) :
  List.Forall₂ (fun e u => KeyWrites e.1 e.2.encoded u) material.entries material.updates
  := by
  have hbytes : ∀ (label : Int) {bs : Bytes}, (label, .bytes bs) ∈ material.entries →
      BstrValue 0 (KeyValue.bytes bs).encoded bs :=
    fun _ _ he => KeyValue.bstrValue_bytes (hvalue _ he)
  have hreserved : ∀ (label : Int) {bs : Bytes}, (label, .reserved bs) ∈ material.entries →
      BstrValue 0 (KeyValue.reserved bs).encoded bs :=
    fun _ _ he => KeyValue.bstrValue_reserved (hvalue _ he) (hpreferred _ he)
  cases h with
  | ec2 =>
      refine .cons (keyWrites_crv (hvalue (keyLabelCrv, _) ?_)) (.cons (keyWrites_x (hbytes keyLabelX ?_)) (.cons
        (keyWrites_y (hbytes keyLabelY ?_)) (writes_optionalEntry ?_)))
      · simp [Material.entries]
      · simp [Material.entries]
      · simp [Material.entries]
      · rintro d rfl
        apply keyWrites_d
        apply hbytes keyLabelD
        simp [Material.entries, optionalEntry]
  | @rsa _ n e _ priv _ _ _ _ _ _ hprivate =>
      refine .cons (keyWrites_n (hreserved keyLabelCrv ?_)) (.cons (keyWrites_x (hbytes keyLabelX ?_)) ?_)
      · simp [Material.entries]
      · simp [Material.entries]
      · cases priv with
        | none => exact .nil
        | some priv =>
            have hhave : haveRsaPrivateKey = true := by
              have hemits := hprivate.1
              simp only [Bool.and_eq_true] at hemits
              exact hemits.1.1
            have hdecode := (decode_of_haveRsaPrivateKey hhave).1
            refine .cons (keyWrites_y (hreserved keyLabelY ?_)) (.cons (keyWrites_d (hbytes keyLabelRsaP ?_)) (.cons
              (keyWrites_rsa hdecode (hbytes keyLabelRsaQ ?_)).1 (.cons (keyWrites_rsa hdecode (hbytes keyLabelRsaDp ?_)).2.1 (.cons
              (keyWrites_rsa hdecode (hbytes keyLabelRsaDq ?_)).2.2.1 (.cons (keyWrites_rsa hdecode (hbytes keyLabelRsaQinv ?_)).2.2.2 .nil)))))
            all_goals simp [Material.entries, RsaPrivate.entries]
  | akp =>
      refine .cons (keyWrites_n (hreserved keyLabelPub ?_)) (writes_optionalEntry ?_)
      · simp [Material.entries]
      · rintro seed rfl
        apply keyWrites_x
        apply hbytes keyLabelPriv
        simp [Material.entries, optionalEntry]
  | lms =>
      refine .cons (keyWrites_n (hbytes keyLabelPub ?_)) .nil
      simp [Material.entries]
  | okp =>
      refine .cons (keyWrites_crv (hvalue (keyLabelCrv, _) ?_)) (.cons (keyWrites_x (hbytes keyLabelX ?_)) (writes_optionalEntry ?_))
      · simp [Material.entries]
      · simp [Material.entries]
      · rintro d rfl
        apply keyWrites_d
        apply hbytes keyLabelD
        simp [Material.entries, optionalEntry]
  | symmetric =>
      refine .cons (keyWrites_n (hbytes keyLabelK ?_)) .nil
      simp [Material.entries]

/-- The walk finds the components of a key, if it admits the entries. -/
theorem KeyHas.walked (hdoc : DocumentedExports) (h : KeyHas key flags material) (halg : inInt32Range key.alg = true)
    {input : Buffer} (hin : input.bytes = key.encoding material)
    (hlen : (key.commonEntries ++ material.entries).length ≤ maxMapItems)
    (hpreferred : ∀ e ∈ material.entries, e.2.Preferred) :
  ∃ ctx, walkKey decodeKeyValue .init input = (.ok ctx, key.found material) ∧ ctx.idx = ctx.bufSz
  := by
  have hok := h.keyEntriesOk hdoc halg (hin ▸ input.length_le)
  have hcommon := writes_commonEntries h.kty_inRange.1.le
    (fun e he => hok.value e (List.mem_append_left _ he))
  have hown := h.writes_entries (fun e he => hok.value e (List.mem_append_right _ he)) hpreferred
  rw [← foldl_updates]
  exact KeyEntriesOk.walkKey_eq hok (List.rel_append hcommon hown) hlen hin

/-- The walk admits the entries of a key only if there are not too many and their heads are preferred. -/
theorem KeyHas.of_walked (hdoc : DocumentedExports) (h : KeyHas key flags material)
    (halg : inInt32Range key.alg = true) {input : Buffer} (hin : input.bytes = key.encoding material) {ctx : DecCtx}
    {vars : KeyVars} (hwalk : walkKey decodeKeyValue .init input = (.ok ctx, vars)) :
  (key.commonEntries ++ material.entries).length ≤ maxMapItems ∧ ∀ e ∈ material.entries, e.2.Preferred
  := by
  have hok := h.keyEntriesOk hdoc halg (hin ▸ input.length_le)
  obtain ⟨hlen, hpreferred⟩ := KeyEntriesOk.of_walkKey hok hin hwalk
  exact ⟨hlen, fun e he => hpreferred e (List.mem_append_right _ he)⟩

end

end WolfCose
