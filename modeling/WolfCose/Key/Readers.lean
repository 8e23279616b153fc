import WolfCose.Key.Coherent
import WolfCose.Key.SizeExact
import WolfCose.Lib.Avoiding
import WolfCose.Sign1.Sign
import WolfCose.Mac.Mac
import WolfCose.Encrypt.Opened

/-!
# Reading the union of a key

Where the union of a key holds what its type says, none of the functions that use the key reads the union as
what it is not: not those that export it, and not those that sign, verify or encrypt with it.
-/

namespace WolfCose

open Program Cbor Settings KeySettings WolfCrypt RecipientCrypt RecipientSettings KeyCrypt

/-! ### Exporting a key -/

section

variable [Settings] [KeySettings] [WolfCrypt] [RecipientCrypt] [KeyCrypt] {key : Key} {flags : UInt32}

omit [Settings] [KeySettings] [RecipientCrypt] [KeyCrypt] in
/-- The object of a key that is not null. -/
theorem isNull_of_failWhen {e : Err} {u : Unit} (h : failWhen (key.object.isNull = true) e = .ok u) :
  key.object.isNull = false
  := by
  rw [failWhen_eq_ok] at h
  exact Bool.eq_false_of_not_eq_true h

omit [KeySettings] in
theorem defined_keyEncodeEc2_of_holds (h : key.Holds) (hkty : key.kty = ktyEc2) (out : Buffer) :
  Defined (keyEncodeEc2 key out flags)
  := by
  apply Avoids.bind
  · apply defined_failWhen.bind
    intro _ hnull
    apply (defined_lift _).bind
    intro _ _
    apply (h.defined_asEcc hkty (isNull_of_failWhen hnull)).bind
    intro _ _
    apply (defined_orCrypto _).bind
    intro _ _
    apply defined_failWhen.bind
    intro _ _
    apply Avoids.ite
    · intro _
      apply (defined_orCrypto _).bind
      intro _ _
      apply defined_failWhen.bind
      intro _ _
      apply Avoids.pure
    · intro _
      apply Avoids.pure
  · intro _ _
    apply defined_encodeAt

omit [RecipientCrypt] in
theorem defined_rsaEmitsPrivate_of_holds (h : key.Holds) (hkty : key.kty = ktyRsa) (hnull : key.object.isNull = false) :
  Defined (rsaEmitsPrivate key flags)
  := by
  apply Avoids.ite
  · intro _
    apply (h.defined_asRsa hkty hnull).bind
    intro _ _
    apply Avoids.pure
  · intro _
    apply Avoids.pure

/-- An RSA key is encoded into a buffer that is not so large that the sums of its places wrap. -/
theorem defined_keyEncodeRsa_of_holds (hdoc : DocumentedExports) (h : key.Holds) (hkty : key.kty = ktyRsa) {out : Buffer}
    (hroom : 8 * out.bytes.length ≤ sizeMax) :
  Defined (keyEncodeRsa key out flags)
  := by
  have hmax := lt_sizeMax
  apply defined_failWhen.bind
  intro _ hnull
  apply (defined_rsaEmitsPrivate_of_holds h hkty (isNull_of_failWhen hnull)).bind
  intro rsaPriv _
  apply (defined_encodeAt _ _).bind
  intro ctx₁ hstart
  have h₁ := wrote_encodeAt_init
    ((emits_encodeKeyStart (kty_nonneg hkty (by decide))).bind (emits_encodeInt _)) hstart
  apply (h.defined_asRsa hkty (isNull_of_failWhen hnull)).bind
  intro rsaKey _
  apply Avoids.bind
  · apply defined_exportRsaPublic hdoc
    have hidx := h₁.idx
    have hle := h₁.le
    omega
  rintro ⟨ctx₂, e⟩ hpublic
  obtain ⟨n, nSz, hn, -, -, h₂⟩ := exportRsaPublic_ok h₁ hpublic
  apply (defined_encodeAt _ _).bind
  intro ctx₃ hexponent
  have hentry : Emits (encodeKeyBstr keyLabelX (.mem e)) (keyEntry (keyLabelX, .bytes e)) := emits_encodeKeyBstr rfl
  have h₃ := h₂.encodeAt_ok hentry hexponent
  apply Avoids.ite
  · intro _
    apply defined_encodeRsaPrivate hdoc h₃ (hdoc.rsaPublic hn).1.symm
    have hle := h₃.le
    have hnLe := h₂.le
    have hhead : cborHeadSize ((n.length + 1) / 2) ≤ 9 := (cborHeadSize_le _).trans (by split <;> decide)
    have hreserved : reservedHeadSize n.length ≤ 3 := by
      unfold reservedHeadSize
      split <;> decide
    rw [List.length_append, length_reservedBstr] at hnLe
    unfold reservedEntrySize entrySize stringSize
    split at hnLe <;> omega
  · intro _
    apply Avoids.pure

/-- An AKP key is encoded into a buffer that is not so large that the sums of its places wrap. -/
theorem defined_keyEncodeAkp_of_holds (hdoc : DocumentedExports) (h : key.Holds) (hkty : key.kty = ktyAkp) {out : Buffer}
    (hroom : 8 * out.bytes.length ≤ sizeMax) :
  Defined (keyEncodeAkp key out flags)
  := by
  have hmax := lt_sizeMax
  apply defined_failWhen.bind
  intro _ hnull
  apply defined_failWhen.bind
  intro _ _
  apply (defined_encodeAt _ _).bind
  intro ctx₁ hstart
  have h₁ := wrote_encodeAt_init
    ((emits_encodeKeyStart (kty_nonneg hkty (by decide))).bind (emits_encodeInt _)) hstart
  apply (h.defined_asMldsa hkty (isNull_of_failWhen hnull)).bind
  intro mldsaKey _
  apply Avoids.bind
  · apply defined_exportMlDsaPublic hdoc
    have hidx := h₁.idx
    have hle := h₁.le
    omega
  · intro _ _
    apply defined_encodeAt

omit [Settings] [KeySettings] [RecipientCrypt] [KeyCrypt] in
theorem defined_lmsKeyCheckEncode_of_holds (h : key.Holds) (hkty : key.kty = ktyHssLms) :
  Defined (lmsKeyCheckEncode key)
  := by
  apply defined_failWhen.bind
  intro _ _
  apply defined_failWhen.bind
  intro _ hnull
  apply defined_failWhen.bind
  intro _ _
  apply (h.defined_asLms hkty (isNull_of_failWhen hnull)).bind
  intro _ _
  apply defined_failWhen.bind
  intro _ _
  apply Avoids.pure

omit [KeySettings] [RecipientCrypt] in
theorem defined_keyEncodeLms_of_holds (h : key.Holds) (hkty : key.kty = ktyHssLms) (out : Buffer) :
  Defined (keyEncodeLms key out)
  := by
  apply (defined_lmsKeyCheckEncode_of_holds h hkty).bind
  intro _ _
  apply (defined_orCrypto _).bind
  intro _ _
  apply defined_encodeAt

omit [KeySettings] [RecipientCrypt] in
theorem defined_exportOkpPublic_of_holds (h : key.Holds) (hkty : key.kty = ktyOkp) :
  Defined (exportOkpPublic key)
  := by
  apply Avoids.ite
  · intro hcrv
    apply defined_failWhen.bind
    intro _ hnull
    apply (h.defined_asEd25519 hkty hcrv.2 (isNull_of_failWhen hnull)).bind
    intro _ _
    apply defined_orCrypto
  intro _
  apply Avoids.ite
  · intro hcrv
    apply defined_failWhen.bind
    intro _ hnull
    apply (h.defined_asEd448 hkty hcrv.2 (isNull_of_failWhen hnull)).bind
    intro _ _
    apply defined_orCrypto
  · intro _
    apply Avoids.error
    rintro ⟨⟩

omit [KeySettings] [RecipientCrypt] in
theorem defined_keyEncodeOkp_of_holds (h : key.Holds) (hkty : key.kty = ktyOkp) (out : Buffer) :
  Defined (keyEncodeOkp key out flags)
  := by
  apply (defined_exportOkpPublic_of_holds h hkty).bind
  intro x hx
  apply (defined_encodeAt _ _).bind
  intro _ _
  apply Avoids.ite
  · intro _
    apply (defined_exportOkpPrivate hx).bind
    intro _ _
    apply defined_encodeAt
  · intro _
    apply Avoids.pure

omit [KeySettings] [RecipientCrypt] [KeyCrypt] in
theorem defined_symmetricKeyCheckEncode :
  Defined (symmetricKeyCheckEncode key flags)
  := by
  apply defined_failWhen.bind
  intro _ _
  apply defined_failWhen.bind
  intro _ _
  apply defined_failWhen

omit [KeySettings] [RecipientCrypt] [KeyCrypt] in
theorem defined_keyEncodeSymmetric_of_holds (h : key.Holds) (hkty : key.kty = ktySymmetric) (out : Buffer) :
  Defined (keyEncodeSymmetric key out flags)
  := by
  apply defined_symmetricKeyCheckEncode.bind
  intro _ _
  apply (defined_encodeAt _ _).bind
  intro _ _
  apply (h.defined_symmKey hkty).bind
  intro _ _
  apply defined_encodeAt

/-- A key whose union holds what its type says is encoded without undefined behaviour. -/
theorem defined_keyEncodeMap_of_holds (hdoc : DocumentedExports) (h : key.Holds) {out : Buffer}
    (hroom : 8 * out.bytes.length ≤ sizeMax) :
  Defined (keyEncodeMap key out flags)
  := by
  apply Avoids.ite
  · rintro ⟨-, hkty⟩
    apply defined_keyEncodeEc2_of_holds h hkty
  intro _
  apply Avoids.ite
  · rintro ⟨-, hkty⟩
    apply defined_keyEncodeRsa_of_holds hdoc h hkty hroom
  intro _
  apply Avoids.ite
  · rintro ⟨-, hkty⟩
    apply defined_keyEncodeAkp_of_holds hdoc h hkty hroom
  intro _
  apply Avoids.ite
  · rintro ⟨-, hkty⟩
    apply defined_keyEncodeLms_of_holds h hkty
  intro _
  apply Avoids.ite
  · rintro ⟨-, hkty⟩
    apply defined_keyEncodeOkp_of_holds h hkty
  intro _
  apply Avoids.ite
  · intro hkty
    apply defined_keyEncodeSymmetric_of_holds h hkty
  · intro _
    apply Avoids.error
    rintro ⟨⟩

omit [RecipientCrypt] in
/-- The size of a key whose union holds what its type says is computed without undefined behaviour. -/
theorem defined_keySizeMap_of_holds (h : key.Holds) :
  Defined (keySizeMap key flags)
  := by
  apply Avoids.ite
  · rintro ⟨-, hkty⟩
    apply defined_failWhen.bind
    intro _ hnull
    apply (defined_lift _).bind
    intro _ _
    apply (h.defined_asEcc hkty (isNull_of_failWhen hnull)).bind
    intro _ _
    apply defined_failWhen.bind
    intro _ _
    apply defined_lift
  intro _
  apply Avoids.ite
  · rintro ⟨-, hkty⟩
    apply defined_failWhen.bind
    intro _ hnull
    apply (h.defined_asRsa hkty (isNull_of_failWhen hnull)).bind
    intro _ _
    apply defined_failWhen.bind
    intro _ _
    apply Avoids.bind
    · apply (defined_orCrypto _).bind
      intro _ _
      apply defined_failWhen.bind
      intro _ _
      apply Avoids.pure
    intro _ _
    apply (defined_rsaEmitsPrivate_of_holds h hkty (isNull_of_failWhen hnull)).bind
    intro _ _
    apply defined_lift
  intro _
  apply Avoids.ite
  · rintro ⟨-, hkty⟩
    apply defined_failWhen.bind
    intro _ hnull
    apply defined_failWhen.bind
    intro _ _
    apply (h.defined_asMldsa hkty (isNull_of_failWhen hnull)).bind
    intro _ _
    apply (defined_orCrypto _).bind
    intro _ _
    apply defined_failWhen.bind
    intro _ _
    apply defined_lift
  intro _
  apply Avoids.ite
  · rintro ⟨-, hkty⟩
    apply (defined_lmsKeyCheckEncode_of_holds h hkty).bind
    intro _ _
    apply (defined_orCrypto _).bind
    intro _ _
    apply defined_lift
  intro _
  apply Avoids.ite
  · rintro ⟨-, hkty⟩
    apply Avoids.bind
    · apply Avoids.ite
      · intro _
        apply defined_failWhen.bind
        intro _ _
        apply Avoids.pure
      intro _
      apply Avoids.ite
      · intro _
        apply defined_failWhen.bind
        intro _ _
        apply Avoids.pure
      · intro _
        apply Avoids.error
        rintro ⟨⟩
    intro _ _
    apply defined_lift
  intro _
  apply Avoids.ite
  · intro hkty
    apply defined_symmetricKeyCheckEncode.bind
    intro _ _
    apply defined_lift
  · intro _
    apply Avoids.error
    rintro ⟨⟩

end

/-! ### Verifying signatures -/

section

variable [WolfCrypt] {key : Key}

theorem defined_eccKeyCheckCurve_of_holds (h : key.Holds) (hkty : key.kty = ktyEc2) (crv : Int) :
  Defined (eccKeyCheckCurve crv key.object)
  := by
  apply defined_failWhen.bind
  intro _ hnull
  apply (defined_lift _).bind
  intro _ _
  apply (defined_lift _).bind
  intro _ _
  apply (h.defined_asEcc hkty (isNull_of_failWhen hnull)).bind
  intro _ _
  apply defined_failWhen.bind
  intro _ _
  apply defined_failWhen

theorem defined_mlDsaCheckKey_of_holds (h : key.Holds) (alg : Int) :
  Defined (mlDsaCheckKey key alg)
  := by
  apply defined_failWhen.bind
  intro _ hcheck
  rw [failWhen_eq_ok, not_or, not_or, Decidable.not_not, Bool.not_eq_true] at hcheck
  apply (defined_lift _).bind
  intro _ _
  apply (h.defined_asMldsa hcheck.1 hcheck.2.2).bind
  intro _ _
  apply defined_failWhen

theorem defined_rsaPssCheckKey_of_holds (h : key.Holds) :
  Defined (rsaPssCheckKey key)
  := by
  apply defined_failWhen.bind
  intro _ hcheck
  rw [failWhen_eq_ok, not_or, not_or, Decidable.not_not, Bool.not_eq_true] at hcheck
  apply (h.defined_asRsa hcheck.1 hcheck.2.2).bind
  intro _ _
  apply defined_failWhen.bind
  intro _ _
  apply defined_failWhen.bind
  intro _ _
  apply Avoids.pure

/-- The object of an OKP key that a check of its attached type admits. -/
theorem isNull_of_attachedCheck {attached : AttachedType} {e : Err} {u : Unit}
    (h : failWhen (key.attachedType ≠ attached ∨ key.object.isNull = true) e = .ok u) :
  key.object.isNull = false
  := by
  rw [failWhen_eq_ok, not_or, Bool.not_eq_true] at h
  exact h.2

/-- A key that the check of ML-DSA keys accepts refers to an ML-DSA key. -/
theorem asMldsa_of_check (h : key.Holds) {alg : Int} {u : Unit} (hcheck : mlDsaCheckKey key alg = .ok u) :
  Defined key.object.asMldsa
  := by
  simp only [mlDsaCheckKey, bind_eq_ok, failWhen_eq_ok, not_or, Decidable.not_not, Bool.not_eq_true] at hcheck
  obtain ⟨_, ⟨hkty, -, hnull⟩, -⟩ := hcheck
  apply h.defined_asMldsa hkty hnull

/-- A key that the check of RSA keys accepts refers to an RSA key. -/
theorem asRsa_of_check (h : key.Holds) {n : Nat} (hcheck : rsaPssCheckKey key = .ok n) :
  Defined key.object.asRsa
  := by
  simp only [rsaPssCheckKey, bind_eq_ok, failWhen_eq_ok, not_or, ne_eq, Decidable.not_not, Bool.not_eq_true] at hcheck
  obtain ⟨_, ⟨hkty, -, hnull⟩, -⟩ := hcheck
  apply h.defined_asRsa hkty hnull

/-- A key that the check of HSS-LMS keys accepts refers to an HSS-LMS key. -/
theorem asLms_of_check (h : key.Holds) {u : Unit} (hcheck : lmsCheckKey key = .ok u) :
  Defined key.object.asLms
  := by
  rw [lmsCheckKey, failWhen_eq_ok, not_or, not_or, Decidable.not_not, Bool.not_eq_true] at hcheck
  apply h.defined_asLms hcheck.1 hcheck.2.2

variable [Settings]

theorem defined_hashFor (alg : Int) (tbs : Bytes) :
  Defined (hashFor alg tbs)
  := by
  apply (defined_lift _).bind
  intro _ _
  apply Avoids.bind
  · apply defined_failWhen.bind
    intro _ _
    apply defined_orCrypto
  · intro _ _
    apply Avoids.pure

theorem defined_verifyEddsa_of_holds (h : key.Holds) (alg : Int) (tbs sig : Bytes) :
  Defined (verifyEddsa key alg tbs sig)
  := by
  apply defined_failWhen.bind
  intro _ hkty
  rw [failWhen_eq_ok, Decidable.not_not] at hkty
  apply (defined_lift _).bind
  intro _ _
  apply Avoids.ite
  · intro hcrv
    apply defined_failWhen.bind
    intro _ hnull
    apply (h.defined_asEd25519 hkty hcrv.2 (isNull_of_attachedCheck hnull)).bind
    intro _ _
    apply (defined_orCrypto _).bind
    intro _ _
    apply defined_failWhen
  intro _
  apply Avoids.ite
  · intro hcrv
    apply defined_failWhen.bind
    intro _ hnull
    apply (h.defined_asEd448 hkty hcrv.2 (isNull_of_attachedCheck hnull)).bind
    intro _ _
    apply (defined_orCrypto _).bind
    intro _ _
    apply defined_failWhen
  · intro _
    apply Avoids.error
    rintro ⟨⟩

theorem defined_verifyEcdsa_of_holds (h : key.Holds) {checkAttached : Bool} (alg : Int)
    {digest : Checked (HashType × Bytes)} (hdigest : Defined digest) (sig : Bytes) :
  Defined (verifyEcdsa checkAttached key alg digest sig)
  := by
  apply defined_failWhen.bind
  intro _ hkty
  rw [failWhen_eq_ok, not_or, Decidable.not_not] at hkty
  apply (defined_lift _).bind
  intro _ _
  apply (defined_eccKeyCheckCurve_of_holds h hkty.1 _).bind
  intro _ _
  apply hdigest.bind
  intro _ _
  apply (defined_lift _).bind
  intro _ _
  apply Avoids.bind
  · apply defined_failWhen.bind
    intro _ hnull
    have hecc := h.defined_asEcc hkty.1 (isNull_of_failWhen hnull)
    apply defined_failWhen.bind
    intro _ _
    apply Avoids.ite
    · intro _
      apply hecc.bind
      intro _ _
      apply defined_orCrypto
    · intro _
      apply (defined_orCrypto _).bind
      intro _ _
      apply hecc.bind
      intro _ _
      apply defined_orCrypto
  · intro _ _
    apply defined_failWhen

theorem defined_verifyPss_of_holds (h : key.Holds) {digest : Checked (HashType × Bytes)}
    (hdigest : Defined digest) (sig : Bytes) (scratchSz : Nat) :
  Defined (verifyPss key digest sig scratchSz)
  := by
  apply (defined_rsaPssCheckKey_of_holds h).bind
  intro _ hcheck
  apply hdigest.bind
  intro _ _
  apply (defined_lift _).bind
  intro _ _
  apply defined_failWhen.bind
  intro _ _
  apply (asRsa_of_check h hcheck).bind
  intro _ _
  apply defined_failWhen

omit [Settings] in
theorem defined_verifyMlDsa_of_holds (h : key.Holds) (alg : Int) (tbs sig : Bytes) :
  Defined (verifyMlDsa key alg tbs sig)
  := by
  apply (defined_mlDsaCheckKey_of_holds h alg).bind
  intro _ hcheck
  apply (asMldsa_of_check h hcheck).bind
  intro _ _
  apply (defined_orCrypto _).bind
  intro _ _
  apply defined_failWhen

omit [Settings] in
theorem defined_verifyLms_of_holds (h : key.Holds) (tbs sig : Bytes) :
  Defined (verifyLms key tbs sig)
  := by
  apply defined_failWhen.bind
  intro _ hcheck
  apply defined_failWhen.bind
  intro _ _
  apply (asLms_of_check h hcheck).bind
  intro lms _
  cases lmsVerify lms sig tbs with
  | ok => apply Avoids.pure
  | sigVerifyE =>
      apply Avoids.error
      rintro ⟨⟩
  | error =>
      apply Avoids.error
      rintro ⟨⟩

theorem defined_sign1VerifyTbs_of_holds (h : key.Holds) (alg : Int) (tbs sig : Bytes) (scratchSz : Nat) :
  Defined (sign1VerifyTbs key alg tbs sig scratchSz)
  := by
  apply Avoids.ite
  · intro _
    apply defined_verifyEddsa_of_holds h
  intro _
  apply Avoids.ite
  · intro _
    apply defined_verifyEcdsa_of_holds h _ (defined_hashFor _ _)
  intro _
  apply Avoids.ite
  · intro _
    apply defined_verifyPss_of_holds h (defined_hashFor _ _)
  intro _
  apply Avoids.ite
  · intro _
    apply defined_verifyMlDsa_of_holds h
  intro _
  apply Avoids.ite
  · intro _
    apply defined_verifyLms_of_holds h
  · intro _
    apply Avoids.error
    rintro ⟨⟩

end

/-! ### Symmetric keys -/

section

variable [Settings] [WolfCrypt] {key : Key}

omit [Settings] [WolfCrypt] in
theorem avoiding_cbcMacBlock [MacCrypt] (key : Bytes) (s : MacCrypt.Aes × Block 16) (inBlock : Block 16) :
  Avoiding .undefined (cbcMacBlock key s inBlock)
  := by
  apply Avoiding.bindOfExcept (defined_orCrypto _)
  intro _ _
  apply Avoiding.bind (Avoiding.modify _)
  intro _
  apply Avoiding.ofExcept (defined_orCrypto _)

omit [Settings] [WolfCrypt] in
theorem avoiding_aesCbcMac [MacCrypt] (key data : Pointer) (hasTag : Bool) (tagLen : Nat) :
  Avoiding .undefined (aesCbcMac key data hasTag tagLen)
  := by
  apply Avoiding.bind
  · apply Avoiding.ite
    · intro _
      apply Avoiding.throw
      rintro ⟨⟩
    · intro _
      apply Avoiding.pure
  intro _
  apply Avoiding.bindOfExcept (defined_orCrypto _)
  intro _ _
  apply Avoiding.bind
  · apply Avoiding.foldlM
    intro _ _
    apply avoiding_cbcMacBlock
  intro _
  apply Avoiding.bind
  · apply Avoiding.ite
    · intro _
      apply avoiding_cbcMacBlock
    · intro _
      apply Avoiding.pure
  · rintro ⟨_, outBlock⟩
    apply Avoiding.pure

omit [Settings] in
theorem defined_computeMac_of_holds [MacSettings] [MacCrypt] (h : key.Holds) (hkty : key.kty = ktySymmetric) (alg : Int)
    (toMac : Bytes) (tagSz : Nat) :
  Defined (computeMac key alg toMac tagSz)
  := by
  apply Avoids.ite
  · intro _
    apply Avoids.bind
    · apply (defined_lift _).bind
      intro _ _
      apply (defined_orCrypto _).bind
      intro _ _
      apply (defined_lift _).bind
      intro _ _
      apply (h.defined_symmKey hkty).bind
      intro _ _
      apply (defined_orCrypto _).bind
      intro _ _
      apply (defined_orCrypto _).bind
      intro _ _
      apply defined_orCrypto
    · intro _ _
      apply Avoids.pure
  intro _
  apply Avoids.ite
  · intro _
    apply (defined_lift _).bind
    intro _ _
    apply defined_failWhen.bind
    intro _ _
    apply (h.defined_symmKey hkty).bind
    intro symmKey _
    cases hmac : aesCbcMac symmKey (.mem toMac) true tagSz [] with
    | ok tag _ => apply Avoids.ok
    | error fault _ =>
        apply Avoids.error
        apply (avoiding_aesCbcMac symmKey (.mem toMac) true tagSz).ne_error hmac
  · intro _
    apply Avoids.error
    rintro ⟨⟩

theorem defined_mac0CreateMessage_of_holds [MacSettings] [MacCrypt] (h : key.Holds) (alg : Int) (kid : Pointer)
    (args : MacArgs) (scratch out : Buffer) :
  Defined (mac0CreateMessage key alg kid args scratch out)
  := by
  apply defined_failWhen.bind
  intro _ _
  apply defined_failWhen.bind
  intro _ _
  apply defined_failWhen.bind
  intro _ _
  apply defined_failWhen.bind
  intro _ _
  apply defined_failWhen.bind
  intro _ hkty
  rw [failWhen_eq_ok, Decidable.not_not] at hkty
  apply defined_failWhen.bind
  intro _ _
  apply Avoids.bind
  · apply (defined_lift _).bind
    intro _ _
    apply (defined_lift _).bind
    intro _ _
    apply (defined_lift _).bind
    intro _ _
    apply (defined_computeMac_of_holds h hkty _ _ _).bind
    intro _ _
    apply Avoids.pure
  · intro _ _
    apply defined_encodeAt

theorem defined_mac0VerifyMessage_of_holds [MacSettings] [MacCrypt] (h : key.Holds) (input : Buffer)
    (detached extAad : Pointer) (scratch : Buffer) (flags : UInt32) :
  Defined (mac0VerifyMessage key input detached extAad scratch flags)
  := by
  apply defined_failWhen.bind
  intro _ hkty
  rw [failWhen_eq_ok, Decidable.not_not] at hkty
  apply (defined_decodeBuffer _ _).bind
  intro _ _
  apply defined_failWhen.bind
  intro _ _
  apply defined_failWhen.bind
  intro _ _
  apply Avoids.bind
  · apply (defined_lift _).bind
    intro _ _
    apply defined_failWhen.bind
    intro _ _
    apply (defined_lift _).bind
    intro _ _
    apply (defined_computeMac_of_holds h hkty _ _ _).bind
    intro _ _
    apply defined_failWhen
  · intro _ _
    apply Avoids.pure

omit [Settings] [WolfCrypt] in
theorem defined_aeadSetKey [AeadSettings] [AeadCrypt] (alg : Int) (key : Pointer) :
  Defined (aeadSetKey alg key)
  := by
  apply Avoids.ite
  · intro _
    apply (defined_orCrypto _).bind
    intro _ _
    apply (defined_orCrypto _).bind
    intro _ _
    apply Avoids.pure
  intro _
  apply Avoids.ite
  · intro _
    apply (defined_orCrypto _).bind
    intro _ _
    apply (defined_orCrypto _).bind
    intro _ _
    apply Avoids.pure
  intro _
  apply Avoids.ite
  · intro _
    apply Avoids.pure
  · intro _
    apply Avoids.error
    rintro ⟨⟩

omit [Settings] [WolfCrypt] in
theorem defined_aeadDecrypt [AeadCrypt] (cipher : AeadCipher) (iv aad ciphertext tag : Bytes) :
  Defined (aeadDecrypt cipher iv aad ciphertext tag)
  := by
  have hfail : ∀ {n : Nat} (payload : Option (Block n)), Defined (orDecryptFail payload) := by
    intro n payload
    cases payload with
    | none =>
        apply Avoids.error
        rintro ⟨⟩
    | some payload => apply Avoids.ok
  cases cipher with
  | aesGcm aes => apply hfail
  | aesCcm aes => apply hfail
  | chacha20Poly1305 key => apply hfail

theorem defined_encrypt0DecryptMessage_of_holds [AeadSettings] [AeadCrypt] (h : key.Holds) (input : Buffer)
    (detachedCt extAad : Pointer) (scratch : Buffer) (plaintextSz : Nat) :
  Defined (encrypt0DecryptMessage key input detachedCt extAad scratch plaintextSz)
  := by
  apply defined_failWhen.bind
  intro _ hkty
  rw [failWhen_eq_ok, Decidable.not_not] at hkty
  apply (defined_decodeBuffer _ _).bind
  intro _ _
  apply defined_failWhen.bind
  intro _ _
  apply defined_failWhen.bind
  intro _ _
  apply (defined_lift _).bind
  intro _ _
  apply (defined_lift _).bind
  intro _ _
  apply defined_failWhen.bind
  intro _ _
  apply defined_failWhen.bind
  intro _ _
  apply (defined_failAs (defined_lift _)).bind
  intro _ _
  apply defined_failWhen.bind
  intro _ _
  apply defined_failWhen.bind
  intro _ _
  apply (defined_lift _).bind
  intro _ _
  apply defined_failWhen.bind
  intro _ _
  apply (defined_lift _).bind
  intro _ _
  apply (h.defined_symmKey hkty).bind
  intro _ _
  apply (defined_aeadSetKey _ _).bind
  intro _ _
  apply (defined_aeadDecrypt _ _ _ _ _).bind
  intro _ _
  apply Avoids.pure

end

/-! ### Signing -/

section

variable [WolfCrypt] {key : Key}

theorem avoiding_withEnv {α : Type} (f : Env → α × Env) :
  Avoiding .undefined (withEnv f)
  := fun _ => trivial

variable [Settings]

theorem defined_signSigLen_of_holds (h : key.Holds) (alg : Int) :
  Defined (signSigLen (some key) alg)
  := by
  have hfault : ∀ {α : Type} (e : Err), Defined (.error (.err e) : Checked α) := by
    intro _ e
    apply Avoids.error
    rintro ⟨⟩
  apply Avoids.ite
  · intro _
    apply Avoids.ite
    · intro _
      apply hfault
    intro _
    apply Avoids.ite
    · intro _
      apply Avoids.ok
    intro _
    apply Avoids.ite
    · intro _
      apply Avoids.ok
    · intro _
      apply hfault
  intro _
  apply Avoids.ite
  · intro _
    apply defined_rsaPssCheckKey_of_holds h
  intro _
  apply Avoids.ite
  · intro _
    apply defined_failWhen.bind
    intro _ hcheck
    apply (asLms_of_check h hcheck).bind
    intro lms _
    cases lmsGetSigLen lms with
    | none => apply hfault
    | some sigLen => apply Avoids.pure
  · intro _
    apply (defined_lift _).bind
    intro _ _
    apply Avoids.bind
    · unfold declaredCurveCheck
      split
      · apply Avoids.ite
        · intro _
          apply defined_failWhen.bind
          intro _ _
          apply defined_failWhen
        · intro _
          apply Avoids.pure
      · apply Avoids.pure
    · intro _ _
      apply Avoids.pure

theorem avoiding_signEcdsa_of_holds (h : key.Holds) (hkty : key.kty = ktyEc2) {digest : Checked (HashType × Bytes)}
    (hdigest : Defined digest) (sigSz : Nat → Nat) (rng : Option Rng) :
  Avoiding .undefined (signEcdsa key digest sigSz rng)
  := by
  apply Avoiding.bindOfExcept hdigest
  intro _ _
  apply Avoiding.bindOfExcept (defined_lift _)
  intro _ _
  cases rng with
  | none =>
      apply Avoiding.throw
      rintro ⟨⟩
  | some rng =>
      apply Avoiding.bindOfExcept defined_failWhen
      intro _ hnull
      apply Avoiding.bindOfExcept defined_failWhen
      intro _ _
      apply Avoiding.bindOfExcept (h.defined_asEcc hkty (isNull_of_failWhen hnull))
      intro ecc _
      apply Avoiding.bindOfExcept
      · apply Avoids.ite
        · intro _
          apply defined_orCrypto
        · intro _
          apply Avoids.ok
      intro _ _
      apply Avoiding.bind (avoiding_withEnv _)
      intro _
      apply Avoiding.bindOfExcept (defined_orCrypto _)
      intro _ _
      apply Avoiding.bindOfExcept (defined_orCrypto _)
      rintro ⟨r, s⟩ _
      apply Avoiding.bindOfExcept defined_failWhen
      intro _ _
      apply Avoiding.pure

theorem avoiding_signEddsa_of_holds (h : key.Holds) (hkty : key.kty = ktyOkp) (tbs : Bytes) :
  Avoiding .undefined (signEddsa key tbs)
  := by
  apply Avoiding.ofExcept
  apply Avoids.ite
  · intro hcrv
    apply defined_failWhen.bind
    intro _ hnull
    apply (h.defined_asEd25519 hkty hcrv.2 (isNull_of_attachedCheck hnull)).bind
    intro _ _
    apply defined_orCrypto
  intro _
  apply Avoids.ite
  · intro hcrv
    apply defined_failWhen.bind
    intro _ hnull
    apply (h.defined_asEd448 hkty hcrv.2 (isNull_of_attachedCheck hnull)).bind
    intro _ _
    apply defined_orCrypto
  · intro _
    apply Avoids.error
    rintro ⟨⟩

theorem avoiding_signPss_of_holds (h : key.Holds) {digest : Checked (HashType × Bytes)} (hdigest : Defined digest)
    (scratchSz : Nat) (rng : Option Rng) :
  Avoiding .undefined (signPss key digest scratchSz rng)
  := by
  apply Avoiding.bindOfExcept (defined_rsaPssCheckKey_of_holds h)
  intro _ hcheck
  apply Avoiding.bindOfExcept hdigest
  intro _ _
  apply Avoiding.bindOfExcept (defined_lift _)
  intro _ _
  apply Avoiding.bindOfExcept (asRsa_of_check h hcheck)
  intro _ _
  apply Avoiding.bind (avoiding_withEnv _)
  intro _
  apply Avoiding.bindOfExcept (defined_orCrypto _)
  intro _ _
  apply Avoiding.bindOfExcept defined_failWhen
  intro _ _
  apply Avoiding.pure

theorem avoiding_signMlDsa_of_holds (h : key.Holds) (alg : Int) (tbs : Bytes) (scratchSz : Nat) (rng : Option Rng) :
  Avoiding .undefined (signMlDsa key alg tbs scratchSz rng)
  := by
  apply Avoiding.bindOfExcept (defined_mlDsaCheckKey_of_holds h alg)
  intro _ hcheck
  apply Avoiding.bindOfExcept (defined_lift _)
  intro _ _
  apply Avoiding.bindOfExcept defined_failWhen
  intro _ _
  apply Avoiding.bindOfExcept (asMldsa_of_check h hcheck)
  intro _ _
  apply Avoiding.bind (avoiding_withEnv _)
  intro _
  apply Avoiding.ofExcept (defined_orCrypto _)

omit [Settings] in
theorem avoiding_signLms_of_holds (h : key.Holds) (checkState : Bool) (tbs : Bytes) (scratchSz : Nat) :
  Avoiding .undefined (signLms checkState key tbs scratchSz)
  := by
  apply Avoiding.bindOfExcept defined_failWhen
  intro _ hcheck
  apply Avoiding.bindOfExcept (asLms_of_check h hcheck)
  intro lms _
  apply Avoiding.bindOfExcept defined_failWhen
  intro _ _
  cases lmsGetSigLen lms with
  | none =>
      apply Avoiding.throw
      rintro ⟨⟩
  | some expectedSigSz =>
      apply Avoiding.bindOfExcept defined_failWhen
      intro _ _
      apply Avoiding.bindOfExcept defined_failWhen
      intro _ _
      apply Avoiding.bind Avoiding.get
      intro _
      apply Avoiding.bind (Avoiding.set _)
      intro _
      apply Avoiding.ofExcept (defined_orCrypto _)

theorem avoiding_signDelegated_of_holds (h : key.Holds) (alg : Int) (sigStruct : Bytes) (scratchSz : Nat) :
  Avoiding .undefined (signDelegated key alg sigStruct scratchSz)
  := by
  apply Avoiding.bindOfExcept (defined_lift _)
  intro _ _
  apply Avoiding.bindOfExcept defined_failWhen
  intro _ _
  unfold extSignTbs
  cases key.signCb with
  | none =>
      apply Avoiding.throw
      rintro ⟨⟩
  | some cb =>
      apply Avoiding.bindOfExcept defined_failWhen
      intro _ _
      apply Avoiding.bindOfExcept (defined_lift _)
      intro _ _
      apply Avoiding.bindOfExcept
      · apply Avoids.ite
        · intro _
          apply (defined_hashFor _ _).bind
          intro _ _
          apply Avoids.pure
        · intro _
          apply Avoids.pure
      intro _ _
      apply Avoiding.bindOfExcept (defined_signSigLen_of_holds h alg)
      intro _ _
      apply Avoiding.bindOfExcept defined_failWhen
      intro _ _
      apply Avoiding.bind
      · apply Avoiding.bind Avoiding.get
        intro _
        apply Avoiding.bind (Avoiding.set _)
        intro _
        apply Avoiding.ofExcept (defined_orCrypto _)
      rintro ⟨sig, sigLen⟩
      apply Avoiding.bindOfExcept defined_failWhen
      intro _ _
      apply Avoiding.bindOfExcept defined_failWhen
      intro _ _
      apply Avoiding.pure

theorem avoiding_sign1SignTbs_of_holds (h : key.Holds) (alg : Int) (tbs : Bytes) (scratchSz : Nat) (rng : Option Rng) :
  Avoiding .undefined (sign1SignTbs key alg tbs scratchSz rng)
  := by
  apply Avoiding.ite
  · intro _
    apply avoiding_signDelegated_of_holds h
  intro _
  apply Avoiding.ite
  · intro _
    apply Avoiding.bindOfExcept defined_failWhen
    intro _ hkty
    rw [failWhen_eq_ok, Decidable.not_not] at hkty
    apply Avoiding.bindOfExcept (defined_lift _)
    intro _ _
    apply avoiding_signEddsa_of_holds h hkty
  intro _
  apply Avoiding.ite
  · intro _
    apply Avoiding.bindOfExcept defined_failWhen
    intro _ hkty
    rw [failWhen_eq_ok, Decidable.not_not] at hkty
    apply Avoiding.bindOfExcept (defined_lift _)
    intro _ _
    apply Avoiding.bindOfExcept (defined_eccKeyCheckCurve_of_holds h hkty _)
    intro _ _
    apply avoiding_signEcdsa_of_holds h hkty (defined_hashFor _ _)
  intro _
  apply Avoiding.ite
  · intro _
    apply avoiding_signPss_of_holds h (defined_hashFor _ _)
  intro _
  apply Avoiding.ite
  · intro _
    apply avoiding_signMlDsa_of_holds h
  intro _
  apply Avoiding.ite
  · intro _
    apply avoiding_signLms_of_holds h
  · intro _
    apply Avoiding.throw
    rintro ⟨⟩

theorem defined_sign1SignSizeEx_of_holds (h : key.Holds) (alg : Int) (kidLen payloadLen detachedLen : Nat)
    (flags : UInt32) :
  Defined (sign1SignSizeEx (some key) alg kidLen payloadLen detachedLen flags)
  := by
  apply defined_failWhen.bind
  intro _ _
  apply defined_failWhen.bind
  intro _ _
  apply defined_failWhen.bind
  intro _ _
  apply defined_failWhen.bind
  intro _ _
  apply (defined_signSigLen_of_holds h alg).bind
  intro _ _
  apply (defined_lift _).bind
  intro _ _
  apply (defined_lift _).bind
  intro _ _
  apply (defined_lift _).bind
  intro _ _
  apply (defined_lift _).bind
  intro _ _
  apply (defined_lift _).bind
  intro _ _
  apply (defined_lift _).bind
  intro _ _
  apply defined_lift

theorem avoiding_sign1SignMessage_of_holds (h : key.Holds) (alg : Int) (kid : Pointer) (args : SignArgs)
    (scratch out : Buffer) (flags : UInt32) :
  Avoiding .undefined (sign1SignMessage key alg kid args scratch out flags)
  := by
  apply Avoiding.bindOfExcept
  · apply defined_failWhen.bind
    intro _ _
    apply defined_failWhen.bind
    intro _ _
    apply defined_failWhen.bind
    intro _ _
    apply defined_failWhen.bind
    intro _ _
    apply defined_failWhen.bind
    intro _ _
    apply defined_failWhen.bind
    intro _ _
    apply defined_failWhen.bind
    intro _ _
    apply defined_failWhen.bind
    intro _ _
    apply (defined_lift _).bind
    intro _ _
    apply (defined_lift _).bind
    intro _ _
    apply Avoids.ite
    · intro _
      apply (defined_sign1SignSizeEx_of_holds h _ _ _ _ _).bind
      intro _ _
      apply defined_failWhen.bind
      intro _ _
      apply Avoids.pure
    · intro _
      apply Avoids.pure
  rintro ⟨protectedHdr, tbs⟩ _
  apply Avoiding.bind (avoiding_sign1SignTbs_of_holds h _ _ _ _)
  intro _
  apply Avoiding.ofExcept (defined_encodeAt _ _)

end

/-! ### Results -/

section

theorem defined_invalidArg {α : Type} :
  Defined (throw (.err .invalidArg) : Checked α)
  := by
  apply Avoids.error
  rintro ⟨⟩

/-- The last steps of a signing function return what its steps do. -/
theorem defined_signFinish [WolfCrypt] [Settings] {args : SignArgs} {p : Signing EncCtx}
    (h : Avoiding .undefined p) (env : Env) :
  Defined (signFinish args p env).ret
  := by
  unfold signFinish
  cases hp : p ⟨env, []⟩ with
  | ok ctx s => apply Avoids.ok
  | error fault s =>
      apply Avoids.error
      apply h.ne_error hp

/-- The last steps of a verification function return what its steps do. -/
theorem defined_verifyFinish {out : VerifyOut} {ret : Checked (Hdr × Option Bytes)} (h : Defined ret) :
  Defined (out.finish ret).1
  := by
  unfold VerifyOut.finish
  cases ret with
  | ok r => apply Avoids.ok
  | error fault =>
      have hne : (Except.error fault : Checked Unit) ≠ .error .undefined := by
        rintro ⟨⟩
        exact h rfl
      by_cases hcleared : out.payload.isSome = true ∧ out.payloadLen.isSome = true
      · simp only [if_pos hcleared]
        exact hne
      · simp only [if_neg hcleared]
        exact hne

theorem defined_decryptFinish {out : DecryptOut} {ret : Checked (Hdr × Bytes)} (h : Defined ret) :
  Defined (out.finish ret).1
  := by
  cases ret with
  | ok r => apply Avoids.ok
  | error fault =>
      apply Avoids.error
      rintro rfl
      exact h rfl

theorem defined_macFinish [Settings] {args : MacArgs} {ret : Checked EncCtx} (h : Defined ret) :
  Defined (macFinish args ret).ret
  := by
  cases ret with
  | ok ctx => apply Avoids.ok
  | error fault =>
      apply Avoids.error
      rintro rfl
      exact h rfl

theorem defined_keyEncodeFinish [Settings] {out : Option Buffer} {outLen : Option Nat} {ret : Checked EncCtx}
    (h : Defined ret) :
  Defined (keyEncodeFinish out outLen ret).ret
  := by
  cases ret with
  | ok ctx => apply Avoids.ok
  | error fault =>
      apply Avoids.error
      rintro rfl
      exact h rfl

end

/-! ### The functions -/

section

variable [Settings] [KeySettings] [RecipientSettings] [WolfCrypt] [RecipientCrypt] [KeyCrypt] [MacSettings] [MacCrypt]
  [AeadSettings] [AeadCrypt]

/-- None of the functions that use a single key reads the union of a key as what it is not; a key is
encoded into a buffer that is not so large that the sums of its places wrap. -/
structure Key.ReadSafely (key : Key) : Prop where
  encode : ∀ (out : Buffer) (outLen : Option Nat) (flags : UInt32), 8 * out.bytes.length ≤ sizeMax →
    Defined (keyEncodeEx (some key) (some out) outLen flags).ret
  encodeSize : ∀ (outLen : Option Nat) (flags : UInt32), Defined (keyEncodeSizeEx (some key) outLen flags).1
  sign1 : ∀ (alg : Int) (kid : Pointer) (args : SignArgs) (flags : UInt32) (env : Env),
    Defined (sign1SignEx (some key) alg kid args flags env).ret
  sign1Size : ∀ (alg : Int) (kidLen payloadLen detachedLen : Nat) (flags : UInt32),
    Defined (sign1SignSizeEx (some key) alg kidLen payloadLen detachedLen flags)
  sign1Verify : ∀ (args : VerifyArgs) (out : VerifyOut) (flags : UInt32),
    Defined (sign1VerifyEx { args with key := some key } out flags).1
  mac0 : ∀ (alg : Int) (kid : Pointer) (args : MacArgs), Defined (mac0Create (some key) alg kid args).ret
  mac0Verify : ∀ (args : VerifyArgs) (out : VerifyOut) (flags : UInt32),
    Defined (mac0VerifyEx { args with key := some key } out flags).1
  encrypt0Decrypt : ∀ (args : DecryptArgs) (out : DecryptOut), Defined (encrypt0Decrypt (some key) args out).1

omit [RecipientSettings] in
/-- A key whose union holds what its type says is read safely. -/
theorem Key.Holds.readSafely {key : Key} (hdoc : DocumentedExports) (h : key.Holds) :
  key.ReadSafely
  := by
  constructor
  · intro out outLen flags hroom
    apply defined_keyEncodeFinish
    cases outLen with
    | none => apply defined_invalidArg
    | some len =>
        apply defined_failWhen.bind
        intro _ _
        apply defined_keyEncodeMap_of_holds hdoc h hroom
  · intro outLen flags
    cases outLen with
    | none => apply defined_invalidArg
    | some len =>
        unfold keyEncodeSizeEx
        by_cases hflags : flags &&& ~~~keyPublicOnly ≠ 0
        · simp only [if_pos hflags]
          apply defined_invalidArg
        · simp only [if_neg hflags]
          have hsize : Defined (keySizeMap key flags) := defined_keySizeMap_of_holds h
          cases hmap : keySizeMap key flags with
          | ok total => apply Avoids.ok
          | error fault =>
              apply Avoids.error
              rintro rfl
              exact hsize hmap
  · intro alg kid args flags env
    apply defined_signFinish
    split
    · rename_i key' scratch out hkey _ _
      obtain rfl := Option.some.inj hkey
      apply avoiding_sign1SignMessage_of_holds h
    · apply Avoiding.throw
      rintro ⟨⟩
  · intro alg kidLen payloadLen detachedLen flags
    apply defined_sign1SignSizeEx_of_holds h
  · intro args out flags
    apply defined_verifyFinish
    split
    · rename_i key' input scratch _ _ _ hkey _ _ _ _ _
      obtain rfl := Option.some.inj hkey
      apply defined_failWhen.bind
      intro _ _
      apply defined_failWhen.bind
      intro _ _
      apply (defined_decodeBuffer _ _).bind
      intro _ _
      apply defined_failWhen.bind
      intro _ _
      apply defined_failWhen.bind
      intro _ _
      apply (defined_lift _).bind
      intro _ _
      apply (defined_sign1VerifyTbs_of_holds h _ _ _ _).bind
      intro _ _
      apply Avoids.pure
    · apply defined_invalidArg
  · intro alg kid args
    apply defined_macFinish
    split
    · rename_i key' scratch out _ hkey _ _ _
      obtain rfl := Option.some.inj hkey
      apply defined_mac0CreateMessage_of_holds h
    · apply defined_invalidArg
  · intro args out flags
    apply defined_verifyFinish
    split
    · rename_i key' input scratch _ _ _ hkey _ _ _ _ _
      obtain rfl := Option.some.inj hkey
      apply defined_failWhen.bind
      intro _ _
      apply defined_failWhen.bind
      intro _ _
      apply defined_mac0VerifyMessage_of_holds h
    · apply defined_invalidArg
  · intro args out
    apply defined_decryptFinish
    split
    · rename_i key' input scratch _ plaintext _ hkey _ _ _ _ _
      obtain rfl := Option.some.inj hkey
      apply defined_failWhen.bind
      intro _ _
      apply defined_encrypt0DecryptMessage_of_holds h
    · apply defined_invalidArg

/-- After every run of calls that set up a key, decode it or clear it, the functions that use the key read
its union only as what it is, unless the last call that was to write the type of the key is a decoding that
has failed. -/
theorem key_read_safely (hdoc : DocumentedExports) (calls : List KeyCall)
    (h : Key.zero.settledAfter true calls = true) :
  (keyAfter calls).ReadSafely
  := by
  have hcoherent := coherent_run typed_zero (fun _ => rfl) h
  exact hcoherent.holds.readSafely hdoc

end

/-! ### Examples -/

section Instances

attribute [local instance] defaultSettings defaultMacSettings defaultAeadSettings defaultRecipientSettings
attribute [local instance] sampleKeyWolfCrypt sampleKeySettings hmac256Crypt sumAeadCrypt failingRecipientCrypt
attribute [local instance] sampleKeyCrypt

/-- A key that is set up with an RSA key and then decoded from the type and the curve of another. -/
def confusedCalls : List KeyCall :=
  [.setRsa (some (3 :: List.replicate 256 0xC5 : Bytes)), .decode (some ⟨[0xA2, 0x01, 0x02, 0x20, 0x01], by decide⟩)]

/-- A key that is set up again after a decoding that has failed is read safely. -/
theorem key_read_safely_again :
  Key.zero.settledAfter true (confusedCalls ++ [.setSymmetric (.mem [1, 2])]) = true
    ∧ (keyAfter (confusedCalls ++ [.setSymmetric (.mem [1, 2])])).ReadSafely
  := by
  have h : Key.zero.settledAfter true (confusedCalls ++ [.setSymmetric (.mem [1, 2])]) = true := by
    decide +kernel
  exact ⟨h, key_read_safely documentedExports_sample _ h⟩

/-- The decoding fails, and the encoder reads the RSA key that is still attached as a key of an elliptic curve. -/
example :
  (keyAfter confusedCalls).kty = ktyEc2 ∧ (keyAfter confusedCalls).attachedType = .rsa
    ∧ (keyEncodeEx (some (keyAfter confusedCalls)) (some (.ofBytes (List.replicate 300 0))) (some 0) 0).ret
      = .error .undefined
  := by decide +kernel

end Instances

end WolfCose
