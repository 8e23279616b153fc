import WolfCose.Key.SizeSpec

/-!
# The size query and the encoder

`wc_CoseKey_EncodeSize_ex` is documented to compute the exact size that `wc_CoseKey_Encode_ex`
produces.  It does for every key but one kind: it refuses an RSA key whose public exponent is zero,
which the encoder encodes with an empty exponent.
-/

namespace WolfCose

open Program Cbor Settings KeySettings WolfCrypt RecipientCrypt KeyCrypt

/-! ### Keys that are encoded are defined -/

section

variable [Settings] [KeySettings] [WolfCrypt] [RecipientCrypt] [KeyCrypt] {key : Key} {flags : UInt32}

omit [KeySettings] [WolfCrypt] [RecipientCrypt] [KeyCrypt] in
theorem defined_encodeAt (p : Enc Unit) (ctx : EncCtx) :
  Defined (encodeAt p ctx)
  := by
  unfold encodeAt
  split
  · exact Avoids.ok _
  · exact Avoids.error (by rintro ⟨⟩)

omit [Settings] [KeySettings] [WolfCrypt] [RecipientCrypt] [KeyCrypt] in
theorem defined_orCrypto {α : Type} (x : Option α) :
  Defined (orCrypto x)
  := by
  cases x with
  | none => exact Avoids.error (by rintro ⟨⟩)
  | some a => exact Avoids.ok a

omit [KeySettings] [WolfCrypt] [RecipientCrypt] [KeyCrypt] in
theorem defined_reserveHead (ctx : EncCtx) :
  Defined (reserveHead ctx)
  := defined_failWhen.bind fun _ _ => Avoids.pure _

omit [KeySettings] [WolfCrypt] [RecipientCrypt] [KeyCrypt] in
/-- The head of a string in the buffer is in the buffer. -/
theorem defined_finalizeRsaBstr {ctx : EncCtx} {hdrPos payloadLen : Nat} (hfit : hdrPos + 3 + payloadLen ≤ ctx.bufSz) :
  Defined (finalizeRsaBstr ctx hdrPos payloadLen)
  := by
  unfold finalizeRsaBstr
  rw [rejectIf, if_neg (not_lt.mpr hfit)]
  apply Avoids.bind (Avoids.ok _)
  intro _ _
  apply Avoids.ite
  · intro _
    exact Avoids.pure _
  · intro _
    exact Avoids.pure _

omit [KeySettings] [WolfCrypt] [RecipientCrypt] [KeyCrypt] in
/-- A string that is exported into the space behind a reserved head is in the buffer, where the place
behind the head does not wrap. -/
theorem defined_export {ctx : EncCtx} {pos : Nat} {payload : Bytes} (hpos : reserveHead ctx = .ok pos)
    (hwrap : ctx.idx + 3 ≤ sizeMax) (hlen : payload.length ≤ ctx.bufSz - pos) :
  Defined (finalizeRsaBstr (ctx.store pos payload) ctx.idx payload.length)
  := by
  rw [reserveHead_eq_ok] at hpos
  obtain ⟨hroom, rfl⟩ := hpos
  rw [sizeSum_eq hwrap] at hroom hlen
  have hsz : (ctx.store (sizeSum ctx.idx 3) payload).bufSz = ctx.bufSz := Bytes.length_overwrite ..
  apply defined_finalizeRsaBstr
  rw [hsz]
  omega

omit [Settings] [WolfCrypt] [RecipientCrypt] [KeyCrypt] [KeySettings] in
theorem toWord32_le (n : Nat) :
  toWord32 n ≤ n
  := Nat.mod_le _ _

theorem defined_exportRsaPublic (hdoc : DocumentedExports) {rsaKey : RsaKey} {ctx : EncCtx}
    (hwrap : ctx.idx + 3 ≤ sizeMax) :
  Defined (exportRsaPublic rsaKey ctx)
  := by
  apply (defined_reserveHead ctx).bind
  intro pos hpos
  apply (defined_orCrypto _).bind
  rintro ⟨e, n⟩ hn
  apply defined_failWhen.bind
  intro _ _
  rw [orCrypto_eq_ok] at hn
  have hle := (hdoc.rsaPublic hn).2.2.1
  have hword := toWord32_le (ctx.bufSz - pos)
  apply (defined_export hpos hwrap (by omega)).bind
  intro _ _
  exact Avoids.pure _

theorem defined_exportMlDsaPublic (hdoc : DocumentedExports) {mldsaKey : MlDsaKey} {ctx : EncCtx}
    (hwrap : ctx.idx + 3 ≤ sizeMax) :
  Defined (exportMlDsaPublic mldsaKey ctx)
  := by
  apply (defined_reserveHead ctx).bind
  intro pos hpos
  apply (defined_orCrypto _).bind
  intro pub hpub
  apply defined_failWhen.bind
  intro _ _
  rw [orCrypto_eq_ok] at hpub
  have hle := (hdoc.mlDsaPublic hpub).2.1
  have hword := toWord32_le (ctx.bufSz - pos)
  exact defined_export hpos hwrap (by omega)

theorem defined_exportRsaPrivate (hdoc : DocumentedExports) {rsaKey : RsaKey} {ctx : EncCtx}
    (hwrap : ctx.idx + 3 + 3 * (rsaEncryptSize rsaKey).toNat + 8 ≤ sizeMax) :
  Defined (exportRsaPrivate rsaKey ctx)
  := by
  apply (defined_reserveHead ctx).bind
  intro pos hpos
  apply defined_failWhen.bind
  intro _ hmod
  apply defined_failWhen.bind
  intro _ hneeded
  have hpos' := hpos
  rw [failWhen_eq_ok] at hmod hneeded
  rw [reserveHead_eq_ok] at hpos'
  obtain ⟨hroom, rfl⟩ := hpos'
  -- nothing wraps, so the space that is needed is there
  have hsum : sizeSum ctx.idx 3 = ctx.idx + 3 := sizeSum_eq (by omega)
  have hscr := sizeSum_eq (a := ctx.idx + 3) (b := (rsaEncryptSize rsaKey).toNat) (by omega)
  have hscrE := sizeSum_eq (a := ctx.idx + 3 + (rsaEncryptSize rsaKey).toNat) (b := 8) (by omega)
  have hscrN := sizeSum_eq (a := ctx.idx + 3 + (rsaEncryptSize rsaKey).toNat + 8)
    (b := (rsaEncryptSize rsaKey).toNat) (by omega)
  have hscrP := sizeSum_eq (a := ctx.idx + 3 + (rsaEncryptSize rsaKey).toNat + 8 + (rsaEncryptSize rsaKey).toNat)
    (b := (rsaEncryptSize rsaKey).toNat) (by omega)
  rw [hsum, hscr, hscrE, hscrN, hscrP] at hneeded
  have hfit : ctx.idx + 3 + (rsaEncryptSize rsaKey).toNat + 8 + (rsaEncryptSize rsaKey).toNat
      + (rsaEncryptSize rsaKey).toNat ≤ ctx.bufSz := not_lt.mp hneeded
  rw [rejectIf, if_neg (not_lt.mpr hfit)]
  apply Avoids.bind (Avoids.ok _)
  intro _ _
  apply (defined_orCrypto _).bind
  intro d hd
  apply defined_failWhen.bind
  intro _ _
  rw [orCrypto_eq_ok] at hd
  have hdlen := hdoc.rsaPrivate hd
  apply Avoids.bind
  · apply defined_export hpos (by omega)
    rw [hsum, List.length_append, List.length_replicate]
    omega
  · intro _ _
    exact Avoids.pure _

omit [RecipientCrypt] [KeySettings] in
theorem defined_encodeRsaMp {label : Int} {rsaKey : RsaKey} {a : RsaInt} {keySz sz : Nat} {ctx : EncCtx} {bs : Bytes}
    (h : ctx.Wrote sz bs) (hlabel : cborIntSize label = 1) (hwrap : bs.length + entrySize keySz ≤ sizeMax) :
  Defined (encodeRsaMp label rsaKey a keySz ctx)
  := by
  apply defined_failWhen.bind
  intro _ _
  apply (defined_encodeAt _ _).bind
  intro ctx₁ hhead
  have hwrote := h.encodeAt_ok ((emits_encodeInt label).bind (emits_encodeHead .bstr keySz)) hhead
  have hidx := hwrote.idx
  rw [List.length_append, List.length_append, length_intHead, hlabel, length_preferredHead] at hidx
  unfold entrySize stringSize at hwrap
  apply defined_failWhen.bind
  intro _ hroom
  rw [failWhen_eq_ok, sizeSum_eq (by omega)] at hroom
  rw [rejectIf, if_neg hroom]
  apply Avoids.bind (Avoids.ok _)
  intro _ _
  apply (defined_orCrypto _).bind
  intro _ _
  apply defined_failWhen.bind
  intro _ _
  exact Avoids.pure _

omit [RecipientCrypt] [KeySettings] in
/-- The integers of an RSA key are encoded one after the other. -/
theorem defined_encodeRsaInts {rsaKey : RsaKey} {keySz sz : Nat} {fields : List (Int × RsaInt)}
    (hlabels : ∀ field ∈ fields, cborIntSize field.1 = 1) {ctx : EncCtx} {bs : Bytes} (h : ctx.Wrote sz bs)
    (hwrap : bs.length + fields.length * entrySize keySz ≤ sizeMax) :
  Defined (fields.foldlM (fun ctx field => encodeRsaMp field.1 rsaKey field.2 keySz ctx) ctx)
  := by
  induction fields generalizing ctx bs with
  | nil => exact Avoids.pure _
  | cons field fields ih =>
      rw [List.length_cons, Nat.succ_mul] at hwrap
      obtain ⟨hlabel, hlabels⟩ := List.forall_mem_cons.mp hlabels
      rw [List.foldlM_cons]
      apply (defined_encodeRsaMp h hlabel (by omega)).bind
      intro ctx₁ hentry
      obtain ⟨data, ⟨-, hlen⟩, hwrote⟩ := encodeRsaMp_ok h hentry
      apply ih hlabels hwrote
      rw [List.length_append, length_keyEntry_bytes hlabel, hlen]
      omega

theorem defined_encodeRsaPrivate (hdoc : DocumentedExports) {rsaKey : RsaKey} {modSz sz : Nat} {ctx : EncCtx}
    {bs : Bytes} (h : ctx.Wrote sz bs) (hmod : rsaEncryptSize rsaKey = modSz)
    (hwrap : bs.length + reservedEntrySize modSz + 5 * entrySize ((modSz + 1) / 2) ≤ sizeMax) :
  Defined (encodeRsaPrivate rsaKey ctx)
  := by
  have hmodNat : (rsaEncryptSize rsaKey).toNat = modSz := by omega
  have hhead := one_le_cborHeadSize ((modSz + 1) / 2)
  unfold reservedEntrySize reservedHeadSize entrySize stringSize at hwrap
  apply (defined_encodeAt _ _).bind
  intro ctx₁ hlabel
  have h₁ := h.encodeAt_ok (emits_encodeInt keyLabelY) hlabel
  have hidx := h₁.idx
  have hone : (intHead keyLabelY).length = 1 := by decide
  rw [List.length_append, hone] at hidx
  apply Avoids.bind
  · apply defined_exportRsaPrivate hdoc
    rw [hmodNat]
    split at hwrap <;> omega
  intro ctx₂ hd
  obtain ⟨d, _, padded, -, rfl, hdExport, -, -, hpadded, h₂⟩ := exportRsaPrivate_ok hdoc h₁ hd
  have hdlen := hdoc.rsaPrivate hdExport
  have hpaddedLen : padded.length = modSz := by
    rw [hpadded, List.length_append, List.length_replicate]
    omega
  apply defined_failWhen.bind
  intro _ _
  rw [hmodNat]
  apply defined_encodeRsaInts (by decide) h₂
  have hfields : rsaCrtFields.length = 5 := rfl
  rw [List.length_append, List.length_append, hone, length_reservedBstr, hpaddedLen, hfields]
  unfold entrySize stringSize
  omega

/-! ### All keys -/

omit [KeySettings] [RecipientCrypt] in
/-- The private key of an OKP key is exported from the object of its public key. -/
theorem defined_exportOkpPrivate {x : Bytes} (h : exportOkpPublic key = .ok x) :
  Defined (exportOkpPrivate key)
  := by
  have hne : crvEd25519 ≠ crvEd448 := by decide
  unfold exportOkpPrivate
  rcases exportOkpPublic_eq_ok.mp h with ⟨hed, hcrv, edKey, hobject, -⟩ | ⟨hed, hcrv, edKey, hobject, -⟩
  · rw [if_pos ⟨hed, hcrv⟩, hobject]
    exact (Avoids.ok _).bind fun _ _ => defined_orCrypto _
  · rw [if_neg (fun h => hne (h.2.symm.trans hcrv)), if_pos ⟨hed, hcrv⟩, hobject]
    exact (Avoids.ok _).bind fun _ _ => defined_orCrypto _

theorem defined_keyEncodeRsa (hdoc : DocumentedExports) {rsaKey : RsaKey} {n e : Bytes} {nSz : Nat}
    {priv : Option RsaPrivate} (hkty : key.kty = ktyRsa) (hobject : key.object = .rsa rsaKey)
    (hn : rsaFlattenPublicKey rsaKey rsaEMaxSz nSz = some (e, n)) (hpos : 0 < n.length)
    (hprivate : Emitted (haveRsaPrivateKey && keyEmitsPrivate key flags && !rsaHasDevice rsaKey)
      (RsaExports rsaKey) priv)
    (hle : (key.encoding (.rsa n e priv)).length ≤ sizeMax) (out : Buffer) :
  Defined (keyEncodeRsa key out flags)
  := by
  have hmod : rsaEncryptSize rsaKey = n.length := (hdoc.rsaPublic hn).1.symm
  have hemits : rsaEmitsPrivate key flags = .ok priv.isSome :=
    (rsaEmitsPrivate_eq_ok hobject).mpr hprivate.isSome_eq.symm
  have hnLen := length_reservedBstr n
  rw [Key.encoding_rsa] at hle
  simp only [List.length_append] at hle
  unfold keyEncodeRsa
  apply defined_failWhen.bind
  intro _ _
  rw [hemits]
  apply Avoids.bind (Avoids.ok _)
  intro rsaPriv hrsaPriv
  obtain rfl := Except.ok.inj hrsaPriv
  apply (defined_encodeAt _ _).bind
  intro ctx₁ hstart
  have h₁ := wrote_encodeAt_init
    ((emits_encodeKeyStart (kty_nonneg hkty (by decide))).bind (emits_encodeInt _)) hstart
  have hidx := h₁.idx
  rw [List.length_append] at hidx
  rw [hobject]
  apply Avoids.bind (Avoids.ok _)
  intro rsaKey' hrsaKey
  obtain rfl := Except.ok.inj hrsaKey
  apply Avoids.bind
  · apply defined_exportRsaPublic hdoc
    split at hnLen <;> omega
  rintro ⟨ctx₂, e'⟩ hpublic
  obtain ⟨n', nSz', hn', -, -, h₂⟩ := exportRsaPublic_ok h₁ hpublic
  have hsame : (e', n') = (e, n) := by
    have hbig := (hdoc.rsaPublic hn).2.2.2 (n.length + n'.length) (by omega)
    have hbig' := (hdoc.rsaPublic hn').2.2.2 (n.length + n'.length) (by omega)
    rw [hbig'] at hbig
    exact Option.some.inj hbig
  obtain ⟨rfl, rfl⟩ := Prod.mk.inj hsame
  apply (defined_encodeAt _ _).bind
  intro ctx₃ hexponent
  have hentry : Emits (encodeKeyBstr keyLabelX (.mem e')) (keyEntry (keyLabelX, .bytes e')) := emits_encodeKeyBstr rfl
  have h₃ := h₂.encodeAt_ok hentry hexponent
  cases priv with
  | none => exact Avoids.pure _
  | some priv =>
      apply defined_encodeRsaPrivate hdoc h₃ hmod
      rw [Option.elim_some, length_rsaPrivate hdoc hprivate.2 hmod] at hle
      simp only [List.length_append]
      omega

theorem defined_keyEncodeAkp (hdoc : DocumentedExports) {mldsaKey : MlDsaKey} {pub : Bytes} {seed : Option Bytes}
    (hkty : key.kty = ktyAkp) (hobject : key.object = .mldsa mldsaKey) (hpos : 256 ≤ pub.length)
    (hseed : Emitted (mlDsaEmitsPrivate key flags) (fun seed => seed = key.mldsaSeed.bytes) seed)
    (hle : (key.encoding (.akp pub seed)).length ≤ sizeMax) (out : Buffer) :
  Defined (keyEncodeAkp key out flags)
  := by
  have hpubLen := length_reservedBstr pub
  rw [Key.encoding_akp, hseed.isSome_eq] at hle
  simp only [List.length_append] at hle
  unfold keyEncodeAkp
  apply defined_failWhen.bind
  intro _ _
  apply defined_failWhen.bind
  intro _ _
  apply (defined_encodeAt _ _).bind
  intro ctx₁ hstart
  have h₁ := wrote_encodeAt_init
    ((emits_encodeKeyStart (kty_nonneg hkty (by decide))).bind (emits_encodeInt _)) hstart
  have hidx := h₁.idx
  rw [List.length_append] at hidx
  rw [hobject]
  apply Avoids.bind (Avoids.ok _)
  intro mldsaKey' hmldsaKey
  obtain rfl := Except.ok.inj hmldsaKey
  apply Avoids.bind
  · apply defined_exportMlDsaPublic hdoc
    split at hpubLen <;> omega
  intro _ _
  exact defined_encodeAt _ _

/-- A key whose encoding fits into some buffer is encoded into any buffer without undefined
behaviour. -/
theorem defined_keyEncodeMap (hdoc : DocumentedExports) {material : Material} (h : KeyHas key flags material)
    (hle : (key.encoding material).length ≤ sizeMax) (out : Buffer) :
  Defined (keyEncodeMap key out flags)
  := by
  unfold keyEncodeMap
  cases h with
  | @ec2 eccKey coordSz x y d hecc hkty hobject hcoord hpublic hx hy hprivate =>
      rw [if_pos ⟨hecc, hkty⟩]
      have hexport := exportEc2_eq_ok.mpr ⟨coordSz, eccKey, hcoord, hobject, hpublic, hx, hy, hprivate⟩
      unfold keyEncodeEc2
      rw [hexport]
      exact defined_encodeAt _ _
  | @rsa rsaKey n e nSz priv hpss hkty hobject hn hpos hlen hprivate =>
      rw [hkty, if_neg (fun h => absurd h.2 (by decide)), if_pos ⟨hpss, rfl⟩]
      exact defined_keyEncodeRsa hdoc hkty hobject hn hpos hprivate hle out
  | @akp mldsaKey pub pubSz seed hmldsa hkty hobject halg hpub hpos hlen hseed =>
      rw [hkty, if_neg (fun h => absurd h.2 (by decide)), if_neg (fun h => absurd h.2 (by decide)), if_pos ⟨hmldsa, rfl⟩]
      exact defined_keyEncodeAkp hdoc hkty hobject hpos hseed hle out
  | @lms lmsKey pub hlms hkty hcheck hpub =>
      rw [hkty, if_neg (fun h => absurd h.2 (by decide)), if_neg (fun h => absurd h.2 (by decide)),
        if_neg (fun h => absurd h.2 (by decide)), if_pos ⟨hlms, rfl⟩]
      unfold keyEncodeLms
      rw [hcheck]
      exact (defined_orCrypto _).bind fun _ _ => defined_encodeAt _ _
  | @okp x d hkty hpublic hprivate =>
      have hhave : haveEddsa = true ∨ haveEd448 = true :=
        (exportOkpPublic_eq_ok.mp hpublic).imp And.left And.left
      rw [hkty, if_neg (fun h => absurd h.2 (by decide)), if_neg (fun h => absurd h.2 (by decide)),
        if_neg (fun h => absurd h.2 (by decide)), if_neg (fun h => absurd h.2 (by decide)), if_pos ⟨hhave, rfl⟩]
      unfold keyEncodeOkp
      rw [hpublic]
      apply Avoids.bind (Avoids.ok _)
      intro _ _
      apply (defined_encodeAt _ _).bind
      intro _ _
      apply Avoids.ite
      · intro _
        exact (defined_exportOkpPrivate hpublic).bind fun _ _ => defined_encodeAt _ _
      · intro _
        exact Avoids.pure _
  | @symmetric k hkty hcheck hk =>
      rw [hkty, if_neg (fun h => absurd h.2 (by decide)), if_neg (fun h => absurd h.2 (by decide)),
        if_neg (fun h => absurd h.2 (by decide)), if_neg (fun h => absurd h.2 (by decide)),
        if_neg (fun h => absurd h.2 (by decide)), if_pos rfl]
      unfold keyEncodeSymmetric
      rw [hcheck, hk]
      exact (defined_encodeAt _ _).bind fun _ _ => defined_encodeAt _ _

/-! ### Agreement -/

/-- If the key is encoded into some buffer, the size query returns the length that is written, a
buffer of that size suffices, and in a smaller one the encoder fails and clears its results. -/
def KeySizeAgrees (key : Key) (flags : UInt32) : Prop :=
  ∀ (out : Buffer) (len : Nat), (keyEncodeEx (some key) (some out) (some len) flags).ret = .ok () →
    ∃ size, (keyEncodeEx (some key) (some out) (some len) flags).outLen = some size
      ∧ (∀ len, keyEncodeSizeEx (some key) (some len) flags = (.ok (), some size))
      ∧ (∀ (out : Buffer) (len : Nat), out.bytes.length = size →
          (keyEncodeEx (some key) (some out) (some len) flags).ret = .ok ())
      ∧ ∀ (out : Buffer) (len : Nat), out.bytes.length < size →
          ∃ e, keyEncodeEx (some key) (some out) (some len) flags
            = ⟨.error (.err e), some (List.replicate out.bytes.length 0), some 0⟩

/-- An RSA key that is encoded with the given flags although its public exponent is zero. -/
def KeyHasZeroExponent (key : Key) (flags : UInt32) : Prop :=
  flags &&& ~~~keyPublicOnly = 0 ∧ ∃ n priv, KeyHas key flags (.rsa n [] priv)
    ∧ (key.encoding (.rsa n [] priv)).length ≤ sizeMax

/-- The encoder in terms of its steps after the checks of its arguments. -/
theorem keyEncodeEx_eq {out : Buffer} {len : Nat} (hflags : flags &&& ~~~keyPublicOnly = 0) :
  keyEncodeEx (some key) (some out) (some len) flags
    = keyEncodeFinish (some out) (some len) (keyEncodeMap key out flags)
  := by
  unfold keyEncodeEx
  dsimp only
  rw [failWhen, rejectIf, if_neg (not_not.mpr hflags)]
  rfl

/-- The flags of a key that is encoded, and what is written. -/
theorem keyEncodeEx_ok {out : Buffer} {len : Nat}
    (h : (keyEncodeEx (some key) (some out) (some len) flags).ret = .ok ()) :
  flags &&& ~~~keyPublicOnly = 0 ∧ ∃ ctx, keyEncodeMap key out flags = .ok ctx
    ∧ (keyEncodeEx (some key) (some out) (some len) flags).out = some ctx.buf.bytes
    ∧ (keyEncodeEx (some key) (some out) (some len) flags).outLen = some ctx.idx
  := by
  by_cases hflags : flags &&& ~~~keyPublicOnly = 0
  · refine ⟨hflags, ?_⟩
    rw [keyEncodeEx_eq hflags] at h ⊢
    cases hmap : keyEncodeMap key out flags with
    | ok ctx => exact ⟨ctx, rfl, rfl, rfl⟩
    | error fault =>
        rw [hmap] at h
        cases h
  · unfold keyEncodeEx at h
    dsimp only at h
    rw [failWhen, rejectIf, if_pos hflags] at h
    cases h

omit [RecipientCrypt] in
/-- The size query in terms of its steps after the checks of its arguments. -/
theorem keyEncodeSizeEx_eq_ok {len size : Nat} :
  keyEncodeSizeEx (some key) (some len) flags = (.ok (), some size)
    ↔ flags &&& ~~~keyPublicOnly = 0 ∧ keySizeMap key flags = .ok size
  := by
  unfold keyEncodeSizeEx
  dsimp only
  split
  · rename_i hflags
    constructor
    · intro h
      cases (Prod.mk.inj h).1
    · intro h
      exact absurd h.1 hflags
  · rename_i hflags
    rw [not_not] at hflags
    split
    · rename_i total htotal
      rw [htotal, Except.ok.injEq, Prod.mk.injEq, Option.some.injEq]
      exact ⟨fun h => ⟨hflags, h.2⟩, fun h => ⟨rfl, h.2⟩⟩
    · rename_i fault hfault
      rw [hfault]
      constructor
      · intro h
        cases (Prod.mk.inj h).1
      · intro h
        cases h.2

/-- A key that has components is encoded into a buffer that suffices for their encoding. -/
theorem keyEncodeEx_of_keyHas (hdoc : DocumentedExports) {material : Material} (h : KeyHas key flags material)
    (hflags : flags &&& ~~~keyPublicOnly = 0) {out : Buffer} {len : Nat}
    (hfit : out.Suffices (key.encoding material).length) :
  (keyEncodeEx (some key) (some out) (some len) flags).ret = .ok ()
  := by
  obtain ⟨ctx, hmap⟩ := keyEncodeMap_fits hdoc h hfit
  rw [keyEncodeEx_eq hflags, hmap]
  rfl

/-- A key that is encoded, and whose exponent is not zero, has the size that is computed. -/
theorem keySizeMap_of_encoded (hdoc : DocumentedExports) (hexponent : ¬ KeyHasZeroExponent key flags)
    (hflags : flags &&& ~~~keyPublicOnly = 0) {out : Buffer} {ctx : EncCtx} (h : keyEncodeMap key out flags = .ok ctx) :
  ∃ material, KeyHas key flags material ∧ ctx.idx = (key.encoding material).length
    ∧ ctx.idx ≤ out.bytes.length ∧ keySizeMap key flags = .ok ctx.idx
  := by
  obtain ⟨material, hhas, hwrote⟩ := keyEncodeMap_ok hdoc h
  have hle := hwrote.le
  have hmax := out.length_le
  refine ⟨material, hhas, hwrote.idx, ?_, ?_⟩
  · rw [hwrote.idx]
    exact hle
  · rw [hwrote.idx]
    apply keySizeMap_of_keySizes
    · apply keySizes_of_keyHas hdoc hhas
      rintro n priv rfl
      exact hexponent ⟨hflags, n, priv, hhas, hle.trans hmax⟩
    · exact hle.trans hmax

/-- The size of an RSA key whose exponent is zero is not computed. -/
theorem not_keySizes_of_zeroExponent (hdoc : DocumentedExports) {n : Bytes} {priv : Option RsaPrivate} {size : Nat}
    (hhas : KeyHas key flags (.rsa n [] priv)) :
  ¬ KeySizes key flags size
  := by
  intro h
  cases hhas with
  | rsa hpss hkty hobject hn hpos hle hprivate =>
      cases h with
      | rsa _ _ hobject' _ _ heSz =>
          rw [hobject, KeyObject.rsa.injEq] at hobject'
          subst hobject'
          exact ((rsaExponentSize_eq_ok hdoc hn).mp heSz).2 rfl
      | ec2 _ hkty' => exact absurd (hkty.symm.trans hkty') (by decide)
      | akp _ hkty' => exact absurd (hkty.symm.trans hkty') (by decide)
      | lms _ hkty' => exact absurd (hkty.symm.trans hkty') (by decide)
      | okp hkty' => exact absurd (hkty.symm.trans hkty') (by decide)
      | symmetric hkty' => exact absurd (hkty.symm.trans hkty') (by decide)

/-- The size query agrees with the encoder on a key exactly if the key is not an RSA key that is
encoded although its exponent is zero; and the size that is computed is a sum of natural numbers. -/
theorem key_size_exact_iff (hdoc : DocumentedExports) :
  (∀ (key : Key) (flags : UInt32), KeySizeAgrees key flags ↔ ¬ KeyHasZeroExponent key flags)
    ∧ ∀ (key : Key) (len size : Nat) (flags : UInt32),
      keyEncodeSizeEx (some key) (some len) flags = (.ok (), some size)
        ↔ flags &&& ~~~keyPublicOnly = 0 ∧ KeySizes key flags size ∧ size ≤ sizeMax
  := by
  constructor
  · intro key flags
    constructor
    · rintro hagrees ⟨hflags, n, priv, hhas, hle⟩
      let out : Buffer := ⟨List.replicate (key.encoding (.rsa n [] priv)).length 0, by rwa [List.length_replicate]⟩
      have hfit : out.Suffices (key.encoding (.rsa n [] priv)).length := .inl List.length_replicate
      obtain ⟨size, -, hsize, -⟩ := hagrees out 0 (keyEncodeEx_of_keyHas hdoc hhas hflags hfit)
      obtain ⟨hsizes, -⟩ := keySizes_of_keySizeMap (keyEncodeSizeEx_eq_ok.mp (hsize 0)).2
      exact not_keySizes_of_zeroExponent hdoc hhas hsizes
    · intro hexponent out len h
      obtain ⟨hflags, ctx, hmap, -, houtLen⟩ := keyEncodeEx_ok h
      obtain ⟨material, hhas, hidx, hfits, hsize⟩ := keySizeMap_of_encoded hdoc hexponent hflags hmap
      have hmax := out.length_le
      refine ⟨ctx.idx, houtLen, fun _ => keyEncodeSizeEx_eq_ok.mpr ⟨hflags, hsize⟩, ?_, ?_⟩
      · intro out' len' hlen
        apply keyEncodeEx_of_keyHas hdoc hhas hflags
        left
        rw [hlen, hidx]
      · intro out' len' hlt
        have hdefined := defined_keyEncodeMap hdoc hhas (by omega) out'
        rw [keyEncodeEx_eq hflags]
        cases hmap' : keyEncodeMap key out' flags with
        | ok ctx' =>
            obtain ⟨-, -, -, hfits', hsize'⟩ := keySizeMap_of_encoded hdoc hexponent hflags hmap'
            have hsame := Except.ok.inj (hsize.symm.trans hsize')
            omega
        | error fault =>
            cases fault with
            | err e => exact ⟨e, rfl⟩
            | undefined => exact absurd hmap' hdefined
  · intro key len size flags
    rw [keyEncodeSizeEx_eq_ok]
    constructor
    · rintro ⟨hflags, hsize⟩
      exact ⟨hflags, keySizes_of_keySizeMap hsize⟩
    · rintro ⟨hflags, hsizes, hle⟩
      exact ⟨hflags, keySizeMap_of_keySizes hsizes hle⟩

end

/-! ### Examples -/

section Instances

attribute [local instance] defaultSettings sampleKeyWolfCrypt sampleKeySettings failingRecipientCrypt sampleKeyCrypt

/-- A key pair of Ed25519. -/
def sampleEd25519Key : Key :=
  { Key.ofEd25519 (ed25519Public ++ ed25519Secret) true with alg := algEddsa, kid := .mem [0x31, 0x31] }

/-- The query and the encoder agree on a key pair of Ed25519. -/
theorem key_size_exact_ed25519 :
  KeySizeAgrees sampleEd25519Key 0
  := by
  apply ((key_size_exact_iff documentedExports_sample).1 sampleEd25519Key 0).mpr
  rintro ⟨-, n, priv, hhas, -⟩
  cases hhas with
  | rsa _ hkty => exact absurd hkty (by decide)

/-- A public RSA key of 2048 bits with the exponent zero. -/
def zeroExponentKey : Key where
  kty := ktyRsa
  alg := algPs256
  crv := 0
  kid := .null 0
  object := .rsa (0 :: List.replicate 256 0xC5 : Bytes)
  symmKeyLen := 0
  mldsaSeed := .null 0
  hasPrivate := false
  attachedType := .rsa
  signCb := none

/-- The encoder encodes an RSA key with the exponent zero, the size query refuses it. -/
theorem zeroExponent_size_disagrees :
  ¬ ∀ (key : Key) (flags : UInt32), KeySizeAgrees key flags
  := by
  intro h
  let out : Buffer := ⟨List.replicate 268 0, List.length_replicate.trans_le (by decide)⟩
  have hencode : (keyEncodeEx (some zeroExponentKey) (some out) (some 0) 0).ret = .ok () := by decide +kernel
  have hquery : (keyEncodeSizeEx (some zeroExponentKey) (some 0) 0).1 = .error (.err .crypto) := by decide +kernel
  obtain ⟨size, -, hsize, -⟩ := h zeroExponentKey 0 _ _ hencode
  rw [hsize 0] at hquery
  cases hquery

end Instances

end WolfCose
