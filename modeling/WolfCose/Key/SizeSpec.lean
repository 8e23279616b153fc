import WolfCose.Key.EncodeSpec
import WolfCose.Key.Size
import WolfCose.Sign1.Size

/-!
# The size of an encoded key

The sums of `wc_CoseKey_EncodeSize_ex` do not wrap: it computes a sum of natural numbers or fails.
The sum is the length of the encoding of each key that `wc_CoseKey_Encode_ex` encodes, except for an
RSA key whose exponent is zero.
-/

namespace WolfCose

open Program Cbor Settings KeySettings WolfCrypt RecipientCrypt KeyCrypt

/-! ### Sums of sizes -/

/-- The size of an entry that is a string, with a label of one byte. -/
def entrySize (len : Nat) : Nat := 1 + stringSize len

/-- The size of an entry whose string has a reserved head. -/
def reservedEntrySize (len : Nat) : Nat := 1 + (reservedHeadSize len + len)

/-- The size of the entry for the curve. -/
def crvEntrySize (crv : Int) : Nat := 1 + cborHeadSize crv.toNat

/-- The size of an entry that is there or not. -/
def sizeIf (c : Bool) (n : Nat) : Nat := if c then n else 0

section

variable [Settings]

/-- The program adds the number to a sum that fits into a `size_t`, and fails if the result does
not. -/
def Adds (p : Nat → Except Err Nat) (n : Nat) : Prop :=
  ∀ total size, total ≤ sizeMax → (p total = .ok size ↔ size = total + n ∧ size ≤ sizeMax)

namespace Adds

variable {p q : Nat → Except Err Nat} {a b : Nat}

theorem pure :
  Adds (fun total => Pure.pure total) 0
  := by
  intro total size h
  rw [pure_eq_ok]
  omega

theorem bind (hp : Adds p a) (hq : Adds q b) :
  Adds (fun total => p total >>= q) (a + b)
  := by
  intro total size h
  rw [bind_eq_ok]
  constructor
  · rintro ⟨mid, hmid, hsize⟩
    obtain ⟨rfl, hle⟩ := (hp _ _ h).mp hmid
    obtain ⟨rfl, hle'⟩ := (hq _ _ hle).mp hsize
    omega
  · rintro ⟨rfl, hle⟩
    exact ⟨total + a, (hp _ _ h).mpr ⟨rfl, by omega⟩, (hq _ _ (by omega)).mpr ⟨by omega, hle⟩⟩

theorem ite {c : Prop} [Decidable c] (hp : Adds p a) (hq : Adds q b) :
  Adds (fun total => if c then p total else q total) (if c then a else b)
  := by
  intro total size h
  split
  · exact hp _ _ h
  · exact hq _ _ h

theorem foldlM {α : Type} {f : Nat → α → Except Err Nat} (h : ∀ x, Adds (fun total => f total x) a) (xs : List α) :
  Adds (fun total => xs.foldlM f total) (xs.length * a)
  := by
  induction xs with
  | nil =>
      rw [List.length_nil, Nat.zero_mul]
      exact pure
  | cons x xs ih =>
      have hbind := (h x).bind ih
      rw [List.length_cons, Nat.succ_mul, Nat.add_comm]
      exact hbind

end Adds

theorem adds_sizeAdd (n : Nat) :
  Adds (fun total => sizeAdd total n) n
  := by
  intro total size h
  rw [sizeAdd_eq_ok]
  omega

theorem adds_keyBstrEntrySize (len : Nat) :
  Adds (keyBstrEntrySize len) (entrySize len)
  := (adds_sizeAdd 1).bind fun _ _ h => sizeAddString_iff h

theorem adds_keyReservedEntrySize (len : Nat) :
  Adds (keyReservedEntrySize len) (reservedEntrySize len)
  := by
  apply (adds_sizeAdd 1).bind
  intro total size h
  have hhead : reservedHeadSize len ≤ 3 := by
    unfold reservedHeadSize
    split <;> omega
  simp only [reservedBstrSize, bind_eq_ok, sizeAdd_eq_ok]
  constructor
  · rintro ⟨_, ⟨h₁, rfl⟩, h₂, rfl⟩
    exact ⟨rfl, by omega⟩
  · rintro ⟨rfl, hle⟩
    exact ⟨_, ⟨by omega, rfl⟩, by omega, rfl⟩

theorem adds_keyCrvEntrySize (crv : Int) :
  Adds (keyCrvEntrySize crv) (crvEntrySize crv)
  := (adds_sizeAdd 1).bind (adds_sizeAdd _)

end

/-! ### The size of a key -/

section

variable [Settings] [KeySettings] [WolfCrypt] [RecipientCrypt] [KeyCrypt]

omit [Settings] [KeySettings] [RecipientCrypt] [KeyCrypt] in
/-- The size of the head of the map and the common entries. -/
def keyStartSize (key : Key) (entries : Nat) : Nat :=
  cborHeadSize (entries + keyOptionalEntries key) + (1 + cborHeadSize key.kty.toNat)
    + (if hasKid key.kid then entrySize key.kid.len else 0)
    + (if key.alg ≠ algUnset then 1 + cborIntSize key.alg else 0)

omit [KeySettings] [RecipientCrypt] [KeyCrypt] in
theorem keyCommonSize_eq_ok {key : Key} {entries size : Nat} (h : entries ≤ 9) :
  keyCommonSize key entries = .ok size ↔ size = keyStartSize key entries ∧ size ≤ sizeMax
  := by
  have hoptional : keyOptionalEntries key ≤ 2 := by
    unfold keyOptionalEntries
    split <;> split <;> omega
  have hmax := lt_sizeMax
  have hkid : Adds (keyKidSize key) (if hasKid key.kid then entrySize key.kid.len else 0) :=
    (adds_keyBstrEntrySize _).ite .pure
  have halg : Adds (keyAlgSize key) (if key.alg ≠ algUnset then 1 + cborIntSize key.alg else 0) :=
    ((adds_sizeAdd 1).bind (adds_sizeAdd _)).ite .pure
  have hadds := (((adds_sizeAdd (cborHeadSize (entries + keyOptionalEntries key))).bind
    ((adds_sizeAdd 1).bind (adds_sizeAdd (cborHeadSize key.kty.toNat)))).bind hkid).bind halg
  have hstart := hadds 0 size (Nat.zero_le _)
  rw [Nat.zero_add] at hstart
  rw [keyStartSize, ← hstart]
  simp only [keyCommonSize, bind_eq_ok]
  constructor
  · rintro ⟨_, hentries, sz, hhead, sz₁, h₁, sz₂, h₂, sz₃, h₃, h₄⟩
    rw [sizeAdd_eq_ok] at hentries
    rw [← hentries.2] at hhead
    exact ⟨sz₃, ⟨sz₂, ⟨sz, hhead, sz₁, h₁, h₂⟩, h₃⟩, h₄⟩
  · rintro ⟨sz₃, ⟨sz₂, ⟨sz, hhead, sz₁, h₁, h₂⟩, h₃⟩, h₄⟩
    refine ⟨_, ?_, sz, hhead, sz₁, h₁, sz₂, h₂, sz₃, h₃, h₄⟩
    rw [sizeAdd_eq_ok]
    exact ⟨by omega, rfl⟩

omit [RecipientCrypt] in
/-- Whether the private components of an RSA key are emitted. -/
def rsaEmits (key : Key) (rsaKey : RsaKey) (flags : UInt32) : Bool :=
  haveRsaPrivateKey && keyEmitsPrivate key flags && !rsaHasDevice rsaKey

omit [RecipientCrypt] in
/-- The size of a key for the lengths that wolfCrypt reports, as a sum of natural numbers. -/
inductive KeySizes (key : Key) (flags : UInt32) : Nat → Prop
  | ec2 {eccKey : EccKey} {coordSz : Nat} : haveEcc = true → key.kty = ktyEc2 → key.object = .ecc eccKey →
      crvKeySize key.crv = .ok coordSz → eccSize eccKey = coordSz →
      KeySizes key flags (keyStartSize key (if keyEmitsPrivate key flags then 5 else 4)
        + (crvEntrySize key.crv + (entrySize coordSz + (entrySize coordSz
          + sizeIf (keyEmitsPrivate key flags) (entrySize coordSz)))))
  | rsa {rsaKey : RsaKey} {modSz eSz : Nat} : haveRsapss = true → key.kty = ktyRsa → key.object = .rsa rsaKey →
      0 < modSz → rsaEncryptSize rsaKey = modSz → rsaExponentSize rsaKey = .ok eSz →
      KeySizes key flags (keyStartSize key (if rsaEmits key rsaKey flags then 9 else 3)
        + (reservedEntrySize modSz + (entrySize eSz
          + sizeIf (rsaEmits key rsaKey flags) (reservedEntrySize modSz + 5 * entrySize ((modSz + 1) / 2)))))
  | akp {mldsaKey : MlDsaKey} {pubLen : Nat} : haveMldsa = true → key.kty = ktyAkp → key.object = .mldsa mldsaKey →
      key.alg ≠ algUnset → mlDsaGetPubLen mldsaKey = some (pubLen : Int) → 256 ≤ pubLen → pubLen ≤ 65535 →
      KeySizes key flags (keyStartSize key (if mlDsaEmitsPrivate key flags then 3 else 2)
        + (reservedEntrySize pubLen + sizeIf (mlDsaEmitsPrivate key flags) (entrySize mlDsaSeedSz)))
  | lms {lmsKey : LmsKey} {pubLen : Nat} : haveLms = true → key.kty = ktyHssLms →
      lmsKeyCheckEncode key = .ok lmsKey → lmsGetPubLen lmsKey = some pubLen →
      KeySizes key flags (keyStartSize key 2 + entrySize pubLen)
  | okp {okpSz : Nat} : key.kty = ktyOkp → okpSize key = .ok okpSz →
      KeySizes key flags (keyStartSize key (if keyEmitsPrivate key flags then 4 else 3)
        + (crvEntrySize key.crv + (entrySize okpSz + sizeIf (keyEmitsPrivate key flags) (entrySize okpSz))))
  | symmetric : key.kty = ktySymmetric → symmetricKeyCheckEncode key flags = .ok () →
      KeySizes key flags (keyStartSize key 2 + entrySize key.symmKeyLen)

variable {key : Key} {flags : UInt32} {size : Nat}

omit [KeySettings] [RecipientCrypt] [KeyCrypt] in
/-- The start of a key and what is added to it. -/
theorem keyCommonSize_bind {entries n : Nat} {p : Nat → Except Err Nat} (hentries : entries ≤ 9) (hp : Adds p n) :
  (do let total ← keyCommonSize key entries; p total) = .ok size
    ↔ size = keyStartSize key entries + n ∧ size ≤ sizeMax
  := by
  rw [bind_eq_ok]
  constructor
  · rintro ⟨total, htotal, hsize⟩
    obtain ⟨rfl, hle⟩ := (keyCommonSize_eq_ok hentries).mp htotal
    exact (hp _ _ hle).mp hsize
  · rintro ⟨rfl, hle⟩
    exact ⟨_, (keyCommonSize_eq_ok hentries).mpr ⟨rfl, by omega⟩, (hp _ _ (by omega)).mpr ⟨rfl, hle⟩⟩

omit [KeySettings] [WolfCrypt] [RecipientCrypt] [KeyCrypt] in
theorem adds_if (c : Bool) {p : Nat → Except Err Nat} {n : Nat} (hp : Adds p n) :
  Adds (fun total => if c = true then p total else Pure.pure total) (sizeIf c n)
  := by
  unfold sizeIf
  exact hp.ite .pure

omit [Settings] [KeySettings] [WolfCrypt] [RecipientCrypt] [KeyCrypt] in
theorem entries_le {c : Bool} {a b : Nat} (ha : a ≤ 9) (hb : b ≤ 9) :
  (if c then a else b) ≤ 9
  := by
  split
  · exact ha
  · exact hb

omit [KeySettings] [RecipientCrypt] [KeyCrypt] in
theorem keyTotalEc2_eq_ok {emits : Bool} {coordSz : Nat} :
  keyTotalEc2 key emits coordSz = .ok size
    ↔ size = keyStartSize key (if emits then 5 else 4) + (crvEntrySize key.crv + (entrySize coordSz
        + (entrySize coordSz + sizeIf emits (entrySize coordSz)))) ∧ size ≤ sizeMax
  := by
  apply keyCommonSize_bind (entries_le (by decide) (by decide))
  apply (adds_keyCrvEntrySize key.crv).bind
  apply (adds_keyBstrEntrySize coordSz).bind
  apply (adds_keyBstrEntrySize coordSz).bind
  exact adds_if _ (adds_keyBstrEntrySize coordSz)

omit [KeySettings] [RecipientCrypt] [KeyCrypt] in
theorem keyTotalRsa_eq_ok {rsaPriv : Bool} {modSz eSz : Nat} :
  keyTotalRsa key rsaPriv modSz eSz = .ok size
    ↔ size = keyStartSize key (if rsaPriv then 9 else 3) + (reservedEntrySize modSz + (entrySize eSz
        + sizeIf rsaPriv (reservedEntrySize modSz + 5 * entrySize ((modSz + 1) / 2)))) ∧ size ≤ sizeMax
  := by
  apply keyCommonSize_bind (entries_le (by decide) (by decide))
  apply (adds_keyReservedEntrySize modSz).bind
  apply (adds_keyBstrEntrySize eSz).bind
  apply adds_if
  apply (adds_keyReservedEntrySize modSz).bind
  exact Adds.foldlM (fun _ => adds_keyBstrEntrySize ((modSz + 1) / 2)) rsaCrtFields

omit [KeySettings] [RecipientCrypt] [KeyCrypt] in
theorem keyTotalAkp_eq_ok {emits : Bool} {pubSz : Nat} :
  keyTotalAkp key emits pubSz = .ok size
    ↔ size = keyStartSize key (if emits then 3 else 2)
        + (reservedEntrySize pubSz + sizeIf emits (entrySize mlDsaSeedSz)) ∧ size ≤ sizeMax
  := by
  apply keyCommonSize_bind (entries_le (by decide) (by decide))
  apply (adds_keyReservedEntrySize pubSz).bind
  exact adds_if _ (adds_keyBstrEntrySize mlDsaSeedSz)

omit [KeySettings] [RecipientCrypt] [KeyCrypt] in
theorem keyTotalSingle_eq_ok {len : Nat} :
  keyTotalSingle key len = .ok size ↔ size = keyStartSize key 2 + entrySize len ∧ size ≤ sizeMax
  := keyCommonSize_bind (by decide) (adds_keyBstrEntrySize len)

omit [KeySettings] [RecipientCrypt] [KeyCrypt] in
theorem keyTotalOkp_eq_ok {emits : Bool} {okpSz : Nat} :
  keyTotalOkp key emits okpSz = .ok size
    ↔ size = keyStartSize key (if emits then 4 else 3) + (crvEntrySize key.crv + (entrySize okpSz
        + sizeIf emits (entrySize okpSz))) ∧ size ≤ sizeMax
  := by
  apply keyCommonSize_bind (entries_le (by decide) (by decide))
  apply (adds_keyCrvEntrySize key.crv).bind
  apply (adds_keyBstrEntrySize okpSz).bind
  exact adds_if _ (adds_keyBstrEntrySize okpSz)

omit [KeySettings] [RecipientCrypt] [KeyCrypt] in
/-- The curve of an OKP key decides the width of its components. -/
theorem okpSize_eq_ok {okpSz : Nat} :
  okpSize key = .ok okpSz
    ↔ key.object.isNull = false ∧ ((haveEddsa = true ∧ key.crv = crvEd25519 ∧ okpSz = 32)
      ∨ (haveEd448 = true ∧ key.crv = crvEd448 ∧ okpSz = 57))
  := by
  have hne : crvEd25519 ≠ crvEd448 := by decide
  unfold okpSize
  constructor
  · intro h
    split at h
    · rename_i hcrv
      simp only [bind_eq_ok, failWhen_eq_ok, pure_eq_ok, exists_const, Bool.not_eq_true] at h
      exact ⟨h.1, .inl ⟨hcrv.1, hcrv.2, h.2.symm⟩⟩
    · split at h
      · rename_i hcrv
        simp only [bind_eq_ok, failWhen_eq_ok, pure_eq_ok, exists_const, Bool.not_eq_true] at h
        exact ⟨h.1, .inr ⟨hcrv.1, hcrv.2, h.2.symm⟩⟩
      · cases h
  · rintro ⟨hnull, ⟨hed, hcrv, rfl⟩ | ⟨hed, hcrv, rfl⟩⟩
    · rw [if_pos ⟨hed, hcrv⟩]
      simp only [bind_eq_ok, failWhen_eq_ok, pure_eq_ok, exists_const, Bool.not_eq_true, and_true]
      exact hnull
    · rw [if_neg (fun h => hne (h.2.symm.trans hcrv)), if_pos ⟨hed, hcrv⟩]
      simp only [bind_eq_ok, failWhen_eq_ok, pure_eq_ok, exists_const, Bool.not_eq_true, and_true]
      exact hnull

omit [KeySettings] [RecipientCrypt] [KeyCrypt] in
theorem okpSize_have {okpSz : Nat} (h : okpSize key = .ok okpSz) :
  haveEddsa = true ∨ haveEd448 = true
  := (okpSize_eq_ok.mp h).2.imp And.left And.left

omit [RecipientCrypt] in
/-- The size that is computed is a sum of natural numbers that fits into a `size_t`. -/
theorem keySizes_of_keySizeMap (h : keySizeMap key flags = .ok size) :
  KeySizes key flags size ∧ size ≤ sizeMax
  := by
  unfold keySizeMap at h
  split at h
  · rename_i hfamily
    simp only [keySizeEc2, bind_eq_ok, failWhen_eq_ok, lift_eq_ok, KeyObject.asEcc_eq_ok, exists_const, not_not,
      keyTotalEc2_eq_ok] at h
    obtain ⟨-, coordSz, hcoord, eccKey, hobject, hsize, rfl, hle⟩ := h
    exact ⟨.ec2 hfamily.1 hfamily.2 hobject hcoord hsize, hle⟩
  split at h
  · rename_i hfamily
    simp only [keySizeRsa, bind_eq_ok, failWhen_eq_ok, lift_eq_ok, KeyObject.asRsa_eq_ok, exists_const, not_le,
      keyTotalRsa_eq_ok] at h
    obtain ⟨-, rsaKey, hobject, hpos, eSz, heSz, rsaPriv, hemits, rfl, hle⟩ := h
    rw [rsaEmitsPrivate_eq_ok hobject] at hemits
    subst hemits
    exact ⟨.rsa hfamily.1 hfamily.2 hobject (by omega) (by omega) heSz, hle⟩
  split at h
  · rename_i hfamily
    simp only [keySizeAkp, bind_eq_ok, failWhen_eq_ok, lift_eq_ok, KeyObject.asMldsa_eq_ok, orCrypto_eq_ok,
      exists_const, keyTotalAkp_eq_ok] at h
    obtain ⟨-, halg, mldsaKey, hobject, pubLen, hpubLen, hrange, rfl, hle⟩ := h
    refine ⟨.akp hfamily.1 hfamily.2 hobject halg ?_ (by omega) (by omega), hle⟩
    rw [hpubLen]
    congr 1
    omega
  split at h
  · rename_i hfamily
    simp only [keySizeLms, bind_eq_ok, lift_eq_ok, orCrypto_eq_ok, keyTotalSingle_eq_ok] at h
    obtain ⟨lmsKey, hcheck, pubLen, hpubLen, rfl, hle⟩ := h
    exact ⟨.lms hfamily.1 hfamily.2 hcheck hpubLen, hle⟩
  split at h
  · rename_i hfamily
    simp only [keySizeOkp, bind_eq_ok, lift_eq_ok, keyTotalOkp_eq_ok] at h
    obtain ⟨okpSz, hokp, rfl, hle⟩ := h
    exact ⟨.okp hfamily.2 hokp, hle⟩
  split at h
  · rename_i hfamily
    simp only [keySizeSymmetric, bind_eq_ok, lift_eq_ok, keyTotalSingle_eq_ok] at h
    obtain ⟨_, hcheck, rfl, hle⟩ := h
    exact ⟨.symmetric hfamily hcheck, hle⟩
  · cases h

omit [RecipientCrypt] in
/-- A sum that fits into a `size_t` is computed. -/
theorem keySizeMap_of_keySizes (h : KeySizes key flags size) (hle : size ≤ sizeMax) :
  keySizeMap key flags = .ok size
  := by
  unfold keySizeMap
  cases h with
  | @ec2 eccKey coordSz hecc hkty hobject hcoord hsize =>
      rw [if_pos ⟨hecc, hkty⟩]
      simp only [keySizeEc2, bind_eq_ok, failWhen_eq_ok, lift_eq_ok, KeyObject.asEcc_eq_ok, exists_const, not_not,
        keyTotalEc2_eq_ok]
      exact ⟨by rw [hobject]; exact Bool.false_ne_true, coordSz, hcoord, eccKey, hobject, hsize, rfl, hle⟩
  | @rsa rsaKey modSz eSz hpss hkty hobject hpos hmod heSz =>
      rw [hkty, if_neg (fun h => absurd h.2 (by decide)), if_pos ⟨hpss, rfl⟩]
      simp only [keySizeRsa, bind_eq_ok, failWhen_eq_ok, lift_eq_ok, KeyObject.asRsa_eq_ok, exists_const, not_le,
        keyTotalRsa_eq_ok]
      have hmodNat : (rsaEncryptSize rsaKey).toNat = modSz := by omega
      refine ⟨by rw [hobject]; exact Bool.false_ne_true, rsaKey, hobject, by omega, eSz, heSz, _,
        (rsaEmitsPrivate_eq_ok hobject).mpr rfl, ?_, hle⟩
      rw [hmodNat]
      rfl
  | @akp mldsaKey pubLen hmldsa hkty hobject halg hpubLen hpos hmax =>
      rw [hkty, if_neg (fun h => absurd h.2 (by decide)), if_neg (fun h => absurd h.2 (by decide)), if_pos ⟨hmldsa, rfl⟩]
      simp only [keySizeAkp, bind_eq_ok, failWhen_eq_ok, lift_eq_ok, KeyObject.asMldsa_eq_ok, orCrypto_eq_ok,
        exists_const, keyTotalAkp_eq_ok]
      refine ⟨by rw [hobject]; exact Bool.false_ne_true, halg, mldsaKey, hobject, _, hpubLen, by omega, ?_, hle⟩
      rw [Int.toNat_natCast]
  | @lms lmsKey pubLen hlms hkty hcheck hpubLen =>
      rw [hkty, if_neg (fun h => absurd h.2 (by decide)), if_neg (fun h => absurd h.2 (by decide)),
        if_neg (fun h => absurd h.2 (by decide)), if_pos ⟨hlms, rfl⟩]
      simp only [keySizeLms, bind_eq_ok, lift_eq_ok, orCrypto_eq_ok, keyTotalSingle_eq_ok]
      exact ⟨lmsKey, hcheck, pubLen, hpubLen, rfl, hle⟩
  | @okp okpSz hkty hokp =>
      rw [hkty, if_neg (fun h => absurd h.2 (by decide)), if_neg (fun h => absurd h.2 (by decide)),
        if_neg (fun h => absurd h.2 (by decide)), if_neg (fun h => absurd h.2 (by decide)),
        if_pos ⟨okpSize_have hokp, rfl⟩]
      simp only [keySizeOkp, bind_eq_ok, lift_eq_ok, keyTotalOkp_eq_ok]
      exact ⟨okpSz, hokp, rfl, hle⟩
  | symmetric hkty hcheck =>
      rw [hkty, if_neg (fun h => absurd h.2 (by decide)), if_neg (fun h => absurd h.2 (by decide)),
        if_neg (fun h => absurd h.2 (by decide)), if_neg (fun h => absurd h.2 (by decide)),
        if_neg (fun h => absurd h.2 (by decide)), if_pos rfl]
      simp only [keySizeSymmetric, bind_eq_ok, lift_eq_ok, keyTotalSingle_eq_ok]
      exact ⟨(), hcheck, trivial, hle⟩

/-! ### The length of an encoding -/

omit [Settings] [KeySettings] [WolfCrypt] [RecipientCrypt] [KeyCrypt] in
theorem length_intHead (v : Int) :
  (intHead v).length = cborIntSize v
  := by
  unfold intHead cborIntSize
  split <;> rw [length_preferredHead]

omit [Settings] [KeySettings] [WolfCrypt] [RecipientCrypt] [KeyCrypt] in
/-- The length of an entry whose label takes one byte. -/
theorem length_keyEntry_bytes {label : Int} (hlabel : cborIntSize label = 1) (data : Bytes) :
  (keyEntry (label, .bytes data)).length = entrySize data.length
  := by
  change (intHead label ++ stringBytes .bstr data).length = _
  rw [List.length_append, length_intHead, hlabel, length_stringBytes]
  rfl

omit [Settings] [KeySettings] [WolfCrypt] [RecipientCrypt] [KeyCrypt] in
theorem length_keyEntry_reserved {label : Int} (hlabel : cborIntSize label = 1) (data : Bytes) :
  (keyEntry (label, .reserved data)).length = reservedEntrySize data.length
  := by
  change (intHead label ++ reservedBstr data).length = _
  rw [List.length_append, length_intHead, hlabel, length_reservedBstr]
  rfl

omit [Settings] [KeySettings] [WolfCrypt] [RecipientCrypt] [KeyCrypt] in
theorem length_keyEntry_int {label v : Int} (hlabel : cborIntSize label = 1) (hv : 0 ≤ v) :
  (keyEntry (label, .int v)).length = 1 + cborHeadSize v.toNat
  := by
  change (intHead label ++ intHead v).length = _
  rw [List.length_append, length_intHead, length_intHead, hlabel, cborIntSize, if_pos hv]

omit [Settings] [KeySettings] [WolfCrypt] [RecipientCrypt] [KeyCrypt] in
/-- The length of an entry that is there exactly if it is emitted. -/
theorem Emitted.length_entry {label : Int} (hlabel : cborIntSize label = 1) {emits : Bool} {p : Bytes → Prop}
    {data : Option Bytes} {n : Nat} (h : Emitted emits p data) (hp : emits = true → ∀ bs, p bs → bs.length = n) :
  ((optionalEntry label data).flatMap keyEntry).length = sizeIf emits (entrySize n)
  := by
  rw [← h.isSome_eq]
  cases data with
  | none => rfl
  | some bs =>
      rw [← hp h.1 bs h.2, ← length_keyEntry_bytes hlabel bs]
      simp [optionalEntry, sizeIf]

omit [Settings] [KeySettings] [RecipientCrypt] [KeyCrypt] in
theorem length_keyStart {entries : Nat} (hkty : 0 ≤ key.kty) :
  (keyStart key entries).length = keyStartSize key entries
  := by
  have hktyLen : (keyEntry (keyLabelKty, .int key.kty)).length = 1 + cborHeadSize key.kty.toNat :=
    length_keyEntry_int (by decide) hkty
  have hkid : ((if hasKid key.kid then [(keyLabelKid, KeyValue.bytes key.kid.bytes)] else []).flatMap keyEntry).length
      = if hasKid key.kid then entrySize key.kid.len else 0 := by
    split
    · rename_i hhas
      have hvalid : key.kid.Valid := fun hnull => absurd hnull (by rw [hhas.1]; exact Bool.false_ne_true)
      rw [List.flatMap_cons, List.flatMap_nil, List.append_nil, length_keyEntry_bytes (by decide), hvalid.len_eq]
    · rfl
  have halg : ((if key.alg ≠ algUnset then [(keyLabelAlg, KeyValue.int key.alg)] else []).flatMap keyEntry).length
      = if key.alg ≠ algUnset then 1 + cborIntSize key.alg else 0 := by
    split
    · change (intHead keyLabelAlg ++ intHead key.alg ++ []).length = _
      rw [List.append_nil, List.length_append, length_intHead, length_intHead]
      rfl
    · rfl
  rw [keyStart, keyStartSize, Key.commonEntries, List.flatMap_cons, List.flatMap_append, List.length_append,
    List.length_append, List.length_append, length_preferredHead, hktyLen, hkid, halg]
  omega

omit [Settings] [KeySettings] [RecipientCrypt] [KeyCrypt] in
theorem Key.length_encoding {material : Material} (hkty : 0 ≤ key.kty) :
  (key.encoding material).length
    = keyStartSize key (material.entries.length + 1) + (material.entries.flatMap keyEntry).length
  := by
  rw [Key.encoding_eq, List.length_append, length_keyStart hkty]

/-- The exponent of an RSA key takes as many bytes as it has without leading zeros. -/
theorem rsaExponentSize_eq_ok (hdoc : DocumentedExports) {rsaKey : RsaKey} {nSz eSz : Nat} {n e : Bytes}
    (hn : rsaFlattenPublicKey rsaKey rsaEMaxSz nSz = some (e, n)) :
  rsaExponentSize rsaKey = .ok eSz ↔ eSz = e.length ∧ e ≠ []
  := by
  obtain ⟨-, heLen, -, hflatten⟩ := hdoc.rsaPublic hn
  obtain ⟨hnLen, hhead, hexport⟩ := hdoc.rsaExponent hn
  have hdrop : e.dropWhile (· = 0) = e := by
    cases e with
    | nil => rfl
    | cons b e =>
        rw [List.head?_cons, ne_eq, Option.some.injEq] at hhead
        rw [List.dropWhile_cons_of_neg (by simpa using hhead)]
  have hzeros (k : Nat) : (List.replicate k (0 : UInt8) ++ e).dropWhile (· = 0) = e := by
    induction k with
    | zero => exact hdrop
    | succ k ih =>
        rw [List.replicate_succ, List.cons_append, List.dropWhile_cons_of_pos (by simp)]
        exact ih
  have hread : ∃ bytes, (if haveExportInt = true then rsaExportInt rsaKey .e rsaEMaxSz
      else (rsaFlattenPublicKey rsaKey rsaEMaxSz ((rsaMaxSize + 7) / 8)).map Prod.fst) = some bytes
      ∧ bytes.dropWhile (· = 0) = e := by
    split
    · exact ⟨_, hexport _ heLen, hzeros _⟩
    · rw [hflatten _ hnLen]
      exact ⟨e, rfl, hdrop⟩
  obtain ⟨bytes, hbytes, hstripped⟩ := hread
  have hnil : e.length = 0 ↔ e = [] := List.length_eq_zero_iff
  unfold rsaExponentSize
  rw [hbytes]
  simp only [bind_eq_ok, orCrypto_eq_ok, Option.some.injEq, failWhen_eq_ok, pure_eq_ok, exists_const, exists_eq_left',
    hstripped, hnil]
  constructor
  · rintro ⟨hne, rfl⟩
    exact ⟨rfl, hne⟩
  · rintro ⟨rfl, hne⟩
    exact ⟨hne, rfl⟩

/-- The length of the private components of an RSA key. -/
theorem length_rsaPrivate (hdoc : DocumentedExports) {rsaKey : RsaKey} {priv : RsaPrivate}
    (h : RsaExports rsaKey priv) {modSz : Nat} (hmod : rsaEncryptSize rsaKey = modSz) :
  (priv.entries.flatMap keyEntry).length = reservedEntrySize modSz + 5 * entrySize ((modSz + 1) / 2)
  := by
  have hmodNat : (rsaEncryptSize rsaKey).toNat = modSz := by omega
  obtain ⟨d, n, hsize, hdExport, -, -, hpadded⟩ := h.d
  have hdlen := hdoc.rsaPrivate hdExport
  have hcrt := h.crt
  simp only [List.forall_mem_cons, List.not_mem_nil, false_imp_iff, implies_true, and_true, hmodNat] at hcrt
  obtain ⟨⟨-, hp⟩, ⟨-, hq⟩, ⟨-, hdp⟩, ⟨-, hdq⟩, -, hu⟩ := hcrt
  have hpaddedLen : priv.d.length = modSz := by
    rw [hpadded, List.length_append, List.length_replicate]
    omega
  have hentry {label : Int} (hlabel : cborIntSize label = 1) {data : Bytes} (hlen : data.length = (modSz + 1) / 2) :
      (keyEntry (label, .bytes data)).length = entrySize ((modSz + 1) / 2) := by
    rw [length_keyEntry_bytes hlabel, hlen]
  simp only [RsaPrivate.entries, List.flatMap_cons, List.flatMap_nil, List.append_nil, List.length_append]
  rw [length_keyEntry_reserved (by decide), hpaddedLen, hentry (by decide) hp, hentry (by decide) hq,
    hentry (by decide) hdp, hentry (by decide) hdq, hentry (by decide) hu]
  omega

/-- The components of an OKP key that are exported have the width of its curve. -/
theorem okpSize_of_export (hdoc : DocumentedExports) {x : Bytes} (h : exportOkpPublic key = .ok x) :
  okpSize key = .ok x.length ∧ ∀ d, exportOkpPrivate key = .ok d → d.length = x.length
  := by
  have hne : crvEd25519 ≠ crvEd448 := by decide
  rcases exportOkpPublic_eq_ok.mp h with ⟨hed, hcrv, edKey, hobject, hexport⟩ | ⟨hed, hcrv, edKey, hobject, hexport⟩
  · have hx := hdoc.ed25519Public hexport
    constructor
    · rw [okpSize_eq_ok, hobject]
      exact ⟨rfl, .inl ⟨hed, hcrv, hx⟩⟩
    · intro d hd
      unfold exportOkpPrivate at hd
      rw [if_pos ⟨hed, hcrv⟩] at hd
      simp only [bind_eq_ok, KeyObject.asEd25519_eq_ok, orCrypto_eq_ok] at hd
      obtain ⟨_, -, hd⟩ := hd
      rw [hdoc.ed25519Private hd, hx]
  · have hx := hdoc.ed448Public hexport
    constructor
    · rw [okpSize_eq_ok, hobject]
      exact ⟨rfl, .inr ⟨hed, hcrv, hx⟩⟩
    · intro d hd
      unfold exportOkpPrivate at hd
      rw [if_neg (fun h => hne (h.2.symm.trans hcrv)), if_pos ⟨hed, hcrv⟩] at hd
      simp only [bind_eq_ok, KeyObject.asEd448_eq_ok, orCrypto_eq_ok] at hd
      obtain ⟨_, -, hd⟩ := hd
      rw [hdoc.ed448Private hd, hx]

/-! ### The length of an encoding -/

section

variable {emits : Bool} {p : Bytes → Prop} {x y : Bytes} {d : Option Bytes} {n : Nat}

omit [Settings] [KeySettings] [RecipientCrypt] [KeyCrypt] in
theorem length_encoding_ec2 (hkty : 0 ≤ key.kty) (hcrv : 0 ≤ key.crv) (hx : x.length = n) (hy : y.length = n)
    (hd : Emitted emits p d) (hp : ∀ bs, p bs → bs.length = n) :
  (key.encoding (.ec2 key.crv x y d)).length = keyStartSize key (if emits then 5 else 4)
    + (crvEntrySize key.crv + (entrySize n + (entrySize n + sizeIf emits (entrySize n))))
  := by
  have hdLen := hd.length_entry (show cborIntSize keyLabelD = 1 by decide) fun _ => hp
  have hcrvLen : (keyEntry (keyLabelCrv, .int key.crv)).length = crvEntrySize key.crv :=
    length_keyEntry_int (by decide) hcrv
  have hxLen : (keyEntry (keyLabelX, .bytes x)).length = entrySize n := by
    rw [length_keyEntry_bytes (by decide), hx]
  have hyLen : (keyEntry (keyLabelY, .bytes y)).length = entrySize n := by
    rw [length_keyEntry_bytes (by decide), hy]
  have hcount : (Material.ec2 key.crv x y d).entries.length + 1 = if emits then 5 else 4 := by
    rw [← hd.isSome_eq]
    cases d <;> rfl
  rw [Key.length_encoding hkty, hcount]
  simp only [Material.entries, List.cons_append, List.nil_append, List.flatMap_cons, List.length_append, hcrvLen, hxLen,
    hyLen, hdLen]

theorem length_encoding_rsa (hdoc : DocumentedExports) {rsaKey : RsaKey} {e : Bytes} {priv : Option RsaPrivate}
    (hkty : 0 ≤ key.kty) (hmod : rsaEncryptSize rsaKey = x.length) (hpriv : Emitted emits (RsaExports rsaKey) priv) :
  (key.encoding (.rsa x e priv)).length = keyStartSize key (if emits then 9 else 3) + (reservedEntrySize x.length
    + (entrySize e.length + sizeIf emits (reservedEntrySize x.length + 5 * entrySize ((x.length + 1) / 2))))
  := by
  have hxLen : (keyEntry (keyLabelCrv, .reserved x)).length = reservedEntrySize x.length :=
    length_keyEntry_reserved (by decide) x
  have heLen : (keyEntry (keyLabelX, .bytes e)).length = entrySize e.length := length_keyEntry_bytes (by decide) e
  have hprivLen : ((priv.toList.flatMap RsaPrivate.entries).flatMap keyEntry).length
      = sizeIf emits (reservedEntrySize x.length + 5 * entrySize ((x.length + 1) / 2)) := by
    rw [← hpriv.isSome_eq]
    cases priv with
    | none => rfl
    | some priv =>
        have hlen := length_rsaPrivate hdoc hpriv.2 hmod
        rw [Option.toList_some, List.flatMap_cons, List.flatMap_nil, List.append_nil, hlen]
        rfl
  have hcount : (Material.rsa x e priv).entries.length + 1 = if emits then 9 else 3 := by
    rw [← hpriv.isSome_eq]
    cases priv <;> rfl
  rw [Key.length_encoding hkty, hcount]
  simp only [Material.entries, List.cons_append, List.nil_append, List.flatMap_cons, List.length_append, hxLen, heLen,
    hprivLen]

omit [Settings] [KeySettings] [RecipientCrypt] [KeyCrypt] in
theorem length_encoding_akp (hkty : 0 ≤ key.kty) (hd : Emitted emits p d)
    (hp : emits = true → ∀ bs, p bs → bs.length = n) :
  (key.encoding (.akp x d)).length = keyStartSize key (if emits then 3 else 2)
    + (reservedEntrySize x.length + sizeIf emits (entrySize n))
  := by
  have hdLen := hd.length_entry (show cborIntSize keyLabelPriv = 1 by decide) hp
  have hxLen : (keyEntry (keyLabelPub, .reserved x)).length = reservedEntrySize x.length :=
    length_keyEntry_reserved (by decide) x
  have hcount : (Material.akp x d).entries.length + 1 = if emits then 3 else 2 := by
    rw [← hd.isSome_eq]
    cases d <;> rfl
  rw [Key.length_encoding hkty, hcount]
  simp only [Material.entries, List.flatMap_cons, List.length_append, hxLen, hdLen]

omit [Settings] [KeySettings] [RecipientCrypt] [KeyCrypt] in
theorem length_encoding_okp (hkty : 0 ≤ key.kty) (hcrv : 0 ≤ key.crv) (hd : Emitted emits p d)
    (hp : ∀ bs, p bs → bs.length = x.length) :
  (key.encoding (.okp key.crv x d)).length = keyStartSize key (if emits then 4 else 3)
    + (crvEntrySize key.crv + (entrySize x.length + sizeIf emits (entrySize x.length)))
  := by
  have hdLen := hd.length_entry (show cborIntSize keyLabelD = 1 by decide) fun _ => hp
  have hcrvLen : (keyEntry (keyLabelCrv, .int key.crv)).length = crvEntrySize key.crv :=
    length_keyEntry_int (by decide) hcrv
  have hxLen : (keyEntry (keyLabelX, .bytes x)).length = entrySize x.length := length_keyEntry_bytes (by decide) x
  have hcount : (Material.okp key.crv x d).entries.length + 1 = if emits then 4 else 3 := by
    rw [← hd.isSome_eq]
    cases d <;> rfl
  rw [Key.length_encoding hkty, hcount]
  simp only [Material.entries, List.cons_append, List.nil_append, List.flatMap_cons, List.length_append, hcrvLen, hxLen,
    hdLen]

omit [Settings] [KeySettings] [RecipientCrypt] [KeyCrypt] in
/-- A key whose only component is a byte string. -/
theorem length_encoding_single {material : Material} {label : Int} (hkty : 0 ≤ key.kty)
    (hlabel : cborIntSize label = 1) (h : material.entries = [(label, .bytes x)]) :
  (key.encoding material).length = keyStartSize key 2 + entrySize x.length
  := by
  rw [Key.length_encoding hkty, h, List.flatMap_singleton, length_keyEntry_bytes hlabel]
  rfl

end

/-- The sizes that are added up are those of the components of the key, unless the key is an RSA key
whose exponent is zero. -/
theorem keySizes_of_keyHas (hdoc : DocumentedExports) {material : Material} (h : KeyHas key flags material)
    (hexponent : ∀ n priv, material ≠ .rsa n [] priv) :
  KeySizes key flags (key.encoding material).length
  := by
  cases h with
  | @ec2 eccKey coordSz _ _ _ hecc hkty hobject hcoord hpublic hx hy hprivate =>
      have hsize : eccSize eccKey = coordSz := by rw [← hdoc.eccPublic hpublic, hx]
      rw [length_encoding_ec2 (kty_nonneg hkty (by decide)) (crv_nonneg hcoord) hx hy hprivate fun _ h => h.2]
      exact .ec2 hecc hkty hobject hcoord hsize
  | @rsa rsaKey n _ _ priv hpss hkty hobject hn hpos hle hprivate =>
      have hmod : rsaEncryptSize rsaKey = n.length := (hdoc.rsaPublic hn).1.symm
      have heSz := (rsaExponentSize_eq_ok hdoc hn).mpr ⟨rfl, fun he => hexponent n priv (by rw [he])⟩
      rw [length_encoding_rsa hdoc (kty_nonneg hkty (by decide)) hmod hprivate]
      exact .rsa hpss hkty hobject hpos hmod heSz
  | akp hmldsa hkty hobject halg hpub hpos hle hseed =>
      rw [length_encoding_akp (kty_nonneg hkty (by decide)) hseed fun hemits _ => length_mldsaSeed hemits]
      exact .akp hmldsa hkty hobject halg (hdoc.mlDsaPublic hpub).1 hpos hle
  | lms hlms hkty hcheck hpub =>
      rw [length_encoding_single (kty_nonneg hkty (by decide)) (by decide) rfl]
      exact .lms hlms hkty hcheck (hdoc.lmsPublic hpub)
  | okp hkty hpublic hprivate =>
      obtain ⟨hsize, hlen⟩ := okpSize_of_export hdoc hpublic
      rw [length_encoding_okp (kty_nonneg hkty (by decide)) (okpCrv_nonneg hpublic) hprivate hlen]
      exact .okp hkty hsize
  | symmetric hkty hcheck hk =>
      have hlen : List.length _ = key.symmKeyLen := len_symmKey hk
      rw [length_encoding_single (kty_nonneg hkty (by decide)) (by decide) rfl, hlen]
      exact .symmetric hkty hcheck

end

end WolfCose
