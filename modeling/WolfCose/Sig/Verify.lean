import WolfCose.Key.Basic

/-!
# Verifying a signature

The checks of a key against an algorithm, and the branches of the verification functions for
the families of signature algorithms.  `Key.Compatible` says that a key fits an algorithm and
`Accepts` that the primitive for a key object accepted a signature; every branch that
succeeds establishes both.
-/

namespace WolfCose

open Program Settings WolfCrypt

/-- A result of wolfCrypt; every error is reported as `WOLFCOSE_E_CRYPTO`. -/
def orCrypto {α : Type} : Option α → Checked α
  | some a => .ok a
  | none => .error (.err .crypto)

@[simp]
theorem orCrypto_eq_ok {α : Type} {x : Option α} {a : α} :
  orCrypto x = .ok a ↔ x = some a
  := by cases x <;> simp [orCrypto]

section

variable [WolfCrypt]

/-! ### Checks of keys -/

/-- `wolfCose_MlDsaAlgLevel` -/
def mlDsaAlgLevel (alg : Int) : Except Err Nat :=
  if alg = algMlDsa44 then .ok 2
  else if alg = algMlDsa65 then .ok 3
  else if alg = algMlDsa87 then .ok 5
  else .error .coseBadAlg

/-- `wolfCose_MlDsaCheckKey` -/
def mlDsaCheckKey (key : Key) (alg : Int) : Checked Unit := do
  failWhen (key.kty ≠ ktyAkp ∨ key.attachedType ≠ .mldsa ∨ key.object.isNull = true) .coseKeyType
  let reqLevel ← lift (mlDsaAlgLevel alg)
  let mldsaKey ← key.object.asMldsa
  failWhen (mlDsaLevel mldsaKey ≠ reqLevel) .coseKeyType

/-- `wolfCose_LmsCheckKey` -/
def lmsCheckKey (key : Key) : Checked Unit :=
  failWhen (key.kty ≠ ktyHssLms ∨ key.attachedType ≠ .lms ∨ key.object.isNull = true) .coseKeyType

/-- `WOLFCOSE_RSA_PSS_MIN_SZ` -/
def rsaPssMinSz : Nat := 256

/-- The check of `wolfCose_RsaPssCheckKey` on the modulus of a key of the least size: one that
is available has its top bit set, and only a backend may hide it. -/
def modulusOfMinSz (modulus : Option Bytes) (heldByBackend : Bool) : Bool :=
  match modulus with
  | some bs =>
      if bs.length > rsaPssMinSz ∨ bs.any (· != 0) = true then
        bs.length == rsaPssMinSz && bs.head?.any (· &&& 0x80 != 0)
      else heldByBackend
  | none => heldByBackend

/-- `wolfCose_RsaPssCheckKey`; the result is the length of the modulus. -/
def rsaPssCheckKey (key : Key) : Checked Nat := do
  failWhen (key.kty ≠ ktyRsa ∨ key.attachedType ≠ .rsa ∨ key.object.isNull = true) .coseKeyType
  let rsaKey ← key.object.asRsa
  let modulusSz := rsaEncryptSize rsaKey
  failWhen (modulusSz < rsaPssMinSz) .coseKeyType
  failWhen (modulusSz = rsaPssMinSz ∧
    modulusOfMinSz (rsaExportModulus rsaKey) (rsaHeldByBackend rsaKey) = false) .coseKeyType
  return modulusSz.toNat

/-- The curve of a key, by its index or else by its parameters. -/
def eccActualCurve (eccKey : EccKey) : WcCurve :=
  let byIdx := if eccIdx eccKey ≥ 0 then eccGetCurveId (eccIdx eccKey) else .invalid
  if byIdx = .invalid then eccGetCurveIdFromDpParams eccKey else byIdx

/-- `wolfCose_EccKeyCheckCurve` -/
def eccKeyCheckCurve (crv : Int) (eccKey : KeyObject) : Checked Unit := do
  failWhen (eccKey.isNull = true) .invalidArg
  let expectedCrv ← lift (crvToWcCurve crv)
  let expectedSz ← lift (crvKeySize crv)
  let eccKey ← eccKey.asEcc
  let actualSz := eccSize eccKey
  failWhen (actualSz ≠ 0 ∧ (actualSz < 0 ∨ actualSz ≠ expectedSz)) .coseBadAlg
  failWhen (actualSz ≠ 0 ∧ eccHasDp eccKey = true ∧
    (eccActualCurve eccKey = .invalid ∨ eccActualCurve eccKey ≠ expectedCrv)) .coseBadAlg

/-! ### Primitives -/

/-- The steps that hash the bytes to be signed. -/
def hashTbs (hashType : HashType) (tbs : Bytes) : Checked Bytes := do
  let digestSz := hashGetDigestSize hashType
  failWhen (digestSz ≤ 0) .crypto
  orCrypto (hash hashType tbs digestSz.toNat)

variable [Settings]

/-- `wolfCose_EccVerifyRaw` -/
def eccVerifyRaw (sigBuf digest : Bytes) (coordSz : Nat) (eccKey : KeyObject) : Checked Bool := do
  failWhen (eccKey.isNull = true) .invalidArg
  failWhen (sigBuf.length ≠ coordSz * 2) .coseSigFail
  if noAsn then do
    let eccKey ← eccKey.asEcc
    orCrypto (eccVerifyHash sigBuf digest eccKey)
  else do
    let derSig ← orCrypto (eccRsRawToSig (sigBuf.take coordSz) (sigBuf.drop coordSz))
    let eccKey ← eccKey.asEcc
    orCrypto (eccVerifyHash derSig digest eccKey)

/-- The steps that find the hash function of an algorithm and hash the bytes to be signed. -/
def hashFor (alg : Int) (tbs : Bytes) : Checked (HashType × Bytes) := do
  let hashType ← lift (algToHashType alg)
  let digest ← hashTbs hashType tbs
  return (hashType, digest)

/-! ### The families of algorithms -/

/-- The branch of a verification function for EdDSA. -/
def verifyEddsa (key : Key) (alg : Int) (tbs sig : Bytes) : Checked Unit := do
  failWhen (key.kty ≠ ktyOkp) .coseKeyType
  lift (algCheckCrv alg key.crv)
  if haveEddsa = true ∧ key.crv = crvEd25519 then do
    failWhen (key.attachedType ≠ .ed25519 ∨ key.object.isNull = true) .coseKeyType
    let ed25519Key ← key.object.asEd25519
    let verified ← orCrypto (ed25519VerifyMsg sig tbs ed25519Key)
    failWhen (verified = false) .coseSigFail
  else if haveEd448 = true ∧ key.crv = crvEd448 then do
    failWhen (key.attachedType ≠ .ed448 ∨ key.object.isNull = true) .coseKeyType
    let ed448Key ← key.object.asEd448
    let verified ← orCrypto (ed448VerifyMsg sig tbs ed448Key)
    failWhen (verified = false) .coseSigFail
  else
    throw (.err .coseBadAlg)

/-- The branch of a verification function for ECDSA.  The functions differ in when they hash,
so the digest is a parameter, and in whether they look at the attached type. -/
def verifyEcdsa (checkAttached : Bool) (key : Key) (alg : Int)
    (digest : Checked (HashType × Bytes)) (sig : Bytes) : Checked Unit := do
  failWhen (key.kty ≠ ktyEc2 ∨ (checkAttached = true ∧ key.attachedType ≠ .ecc)) .coseKeyType
  lift (algCheckCrv alg key.crv)
  eccKeyCheckCurve key.crv key.object
  let (_, digest) ← digest
  let coordSz ← lift (crvKeySize key.crv)
  let verified ← eccVerifyRaw sig digest coordSz key.object
  failWhen (verified = false) .coseSigFail

/-- The branch of a verification function for RSASSA-PSS; the signature is copied into the
scratch buffer of the given size, which also takes the output. -/
def verifyPss (key : Key) (digest : Checked (HashType × Bytes)) (sig : Bytes) (scratchSz : Nat) :
    Checked Unit := do
  let _ ← rsaPssCheckKey key
  let (hashType, digest) ← digest
  let mgf ← lift (hashToMgf hashType)
  failWhen (sig.length > scratchSz) .bufferTooSmall
  let rsaKey ← key.object.asRsa
  failWhen (rsaPssVerifyCheck sig scratchSz digest hashType mgf rsaKey < 0) .coseSigFail

/-- The branch of a verification function for ML-DSA. -/
def verifyMlDsa (key : Key) (alg : Int) (tbs sig : Bytes) : Checked Unit := do
  mlDsaCheckKey key alg
  let mldsaKey ← key.object.asMldsa
  let verified ← orCrypto (mlDsaVerifyCtx mldsaKey sig tbs)
  failWhen (verified = false) .coseSigFail

/-- `INT_MAX` -/
def intMax : Nat := 2 ^ 31 - 1

/-- The branch of a verification function for HSS-LMS. -/
def verifyLms (key : Key) (tbs sig : Bytes) : Checked Unit := do
  lmsCheckKey key
  failWhen (tbs.length > intMax) .invalidArg
  let lmsKey ← key.object.asLms
  match lmsVerify lmsKey sig tbs with
  | .ok => return ()
  | .sigVerifyE => throw (.err .coseSigFail)
  | .error => throw (.err .crypto)

/-! ### What verification establishes -/

/-- An elliptic curve key that is not empty has the size and the parameters of a curve. -/
def EccFits (crv : Int) (eccKey : EccKey) : Prop :=
  eccSize eccKey ≠ 0 →
    crvKeySize crv = .ok (eccSize eccKey).toNat ∧ 0 ≤ eccSize eccKey
    ∧ (eccHasDp eccKey = true → crvToWcCurve crv = .ok (eccActualCurve eccKey))

/-- The key type, the curve and the object of a key fit an algorithm. -/
inductive Key.Compatible (key : Key) (alg : Int) : Prop where
  | ecdsa {eccKey : EccKey} : algIsEcdsa alg = true → key.kty = ktyEc2 → algToCrv alg = .ok key.crv →
      key.object = .ecc eccKey → EccFits key.crv eccKey → Compatible key alg
  | ed25519 {ed25519Key : Ed25519Key} : algIsEddsa alg = true → key.kty = ktyOkp →
      key.crv = crvEd25519 → (algToCrv alg = .ok 0 ∨ algToCrv alg = .ok key.crv) →
      key.attachedType = .ed25519 → key.object = .ed25519 ed25519Key → Compatible key alg
  | ed448 {ed448Key : Ed448Key} : algIsEddsa alg = true → key.kty = ktyOkp →
      key.crv = crvEd448 → (algToCrv alg = .ok 0 ∨ algToCrv alg = .ok key.crv) →
      key.attachedType = .ed448 → key.object = .ed448 ed448Key → Compatible key alg
  | pss {rsaKey : RsaKey} : algIsPss alg = true → key.kty = ktyRsa → key.attachedType = .rsa →
      key.object = .rsa rsaKey → rsaPssMinSz ≤ rsaEncryptSize rsaKey → Compatible key alg
  | mldsa {mldsaKey : MlDsaKey} : key.kty = ktyAkp → key.attachedType = .mldsa →
      key.object = .mldsa mldsaKey → mlDsaAlgLevel alg = .ok (mlDsaLevel mldsaKey) → Compatible key alg
  | lms {lmsKey : LmsKey} : alg = algHssLms → key.kty = ktyHssLms → key.attachedType = .lms →
      key.object = .lms lmsKey → Compatible key alg

/-- The digest that the algorithms with a hash function sign. -/
def Digest (alg : Int) (tbs : Bytes) (hashType : HashType) (digest : Bytes) : Prop :=
  algToHashType alg = .ok hashType ∧ 0 < hashGetDigestSize hashType
    ∧ hash hashType tbs (hashGetDigestSize hashType).toNat = some digest

/-- The signature that `wc_ecc_verify_hash` takes for a raw signature of two coordinates. -/
def EccSignature (crv : Int) (sig eccSig : Bytes) : Prop :=
  ∃ coordSz, crvKeySize crv = .ok coordSz ∧ sig.length = coordSz * 2
    ∧ if noAsn = true then eccSig = sig
      else eccRsRawToSig (sig.take coordSz) (sig.drop coordSz) = some eccSig

/-- The primitive for the object of a key accepted a signature over the bytes to be signed. -/
inductive Key.Accepts (key : Key) (alg : Int) (tbs sig : Bytes) : Prop where
  | ecdsa {eccKey : EccKey} {hashType : HashType} {digest eccSig : Bytes} :
      key.object = .ecc eccKey → Digest alg tbs hashType digest → EccSignature key.crv sig eccSig →
      eccVerifyHash eccSig digest eccKey = some true → Accepts key alg tbs sig
  | ed25519 {ed25519Key : Ed25519Key} : key.object = .ed25519 ed25519Key →
      ed25519VerifyMsg sig tbs ed25519Key = some true → Accepts key alg tbs sig
  | ed448 {ed448Key : Ed448Key} : key.object = .ed448 ed448Key →
      ed448VerifyMsg sig tbs ed448Key = some true → Accepts key alg tbs sig
  | pss {rsaKey : RsaKey} {hashType : HashType} {digest : Bytes} {mgf : Mgf} {outSz : Nat} :
      key.object = .rsa rsaKey → Digest alg tbs hashType digest → hashToMgf hashType = .ok mgf →
      0 ≤ rsaPssVerifyCheck sig outSz digest hashType mgf rsaKey → Accepts key alg tbs sig
  | mldsa {mldsaKey : MlDsaKey} : key.object = .mldsa mldsaKey →
      mlDsaVerifyCtx mldsaKey sig tbs = some true → Accepts key alg tbs sig
  | lms {lmsKey : LmsKey} : key.object = .lms lmsKey →
      lmsVerify lmsKey sig tbs = .ok → Accepts key alg tbs sig

/-- A signature that is verified: the key fits the algorithm and the primitive accepted. -/
def Key.Verified (key : Key) (alg : Int) (tbs sig : Bytes) : Prop :=
  key.Compatible alg ∧ key.Accepts alg tbs sig

variable {key : Key} {alg : Int} {tbs sig : Bytes}

omit [Settings] in
/-- A key object that passes the check of its curve is an elliptic curve key that fits. -/
theorem eccKeyCheckCurve_ok {crv : Int} {object : KeyObject}
    (h : eccKeyCheckCurve crv object = .ok ()) :
  ∃ eccKey, object = .ecc eccKey ∧ EccFits crv eccKey
  := by
  simp only [eccKeyCheckCurve, bind_eq_ok, failWhen_eq_ok, lift_eq_ok, KeyObject.asEcc_eq_ok] at h
  obtain ⟨_, -, wc, hwc, sz, hsz, eccKey, rfl, _, hsize, hcurve⟩ := h
  refine ⟨eccKey, rfl, fun hne => ?_⟩
  have hfit : 0 ≤ eccSize eccKey ∧ eccSize eccKey = sz := by
    constructor
    · by_contra hlt
      apply hsize
      exact ⟨hne, .inl (by omega)⟩
    · by_contra hneq
      apply hsize
      exact ⟨hne, .inr hneq⟩
  refine ⟨?_, hfit.1, fun hdp => ?_⟩
  · rw [hsz, hfit.2, Int.toNat_natCast]
  · rw [hwc]
    congr 1
    by_contra hneq
    apply hcurve
    exact ⟨hne, hdp, .inr (Ne.symm hneq)⟩

theorem hashFor_ok {r : HashType × Bytes} (h : hashFor alg tbs = .ok r) :
  Digest alg tbs r.1 r.2
  := by
  simp only [hashFor, hashTbs, bind_eq_ok, lift_eq_ok, failWhen_eq_ok, orCrypto_eq_ok, pure_eq_ok] at h
  obtain ⟨hashType, ht, digest, ⟨_, hpos, hd⟩, rfl⟩ := h
  exact ⟨ht, by simpa using hpos, hd⟩

theorem eccVerifyRaw_ok {digest : Bytes} {coordSz : Nat} {eccKey : EccKey} {crv : Int}
    (hsz : crvKeySize crv = .ok coordSz)
    (h : eccVerifyRaw sig digest coordSz (.ecc eccKey) = .ok true) :
  ∃ eccSig, EccSignature crv sig eccSig ∧ eccVerifyHash eccSig digest eccKey = some true
  := by
  simp only [eccVerifyRaw, bind_eq_ok, failWhen_eq_ok, ne_eq, Decidable.not_not] at h
  obtain ⟨_, -, _, hlen, h⟩ := h
  by_cases hasn : noAsn = true
  · simp only [hasn, if_true, bind_eq_ok, KeyObject.asEcc, orCrypto_eq_ok, Except.ok.injEq,
      exists_eq_left'] at h
    refine ⟨sig, ⟨coordSz, hsz, hlen, ?_⟩, h⟩
    rw [if_pos hasn]
  · simp only [hasn, bind_eq_ok, KeyObject.asEcc, orCrypto_eq_ok, Except.ok.injEq,
      exists_eq_left', Bool.false_eq_true, if_false] at h
    obtain ⟨eccSig, hder, hver⟩ := h
    refine ⟨eccSig, ⟨coordSz, hsz, hlen, ?_⟩, hver⟩
    rw [if_neg hasn]
    exact hder

omit [WolfCrypt] in
/-- A curve that passes the check is the curve of the algorithm, unless it leaves the choice
to the key. -/
theorem algCheckCrv_ok {crv : Int} (h : algCheckCrv alg crv = .ok ()) :
  algToCrv alg = .ok 0 ∨ algToCrv alg = .ok crv
  := by
  unfold algCheckCrv at h
  split at h
  · rename_i expected he
    by_cases hz : expected = 0
    · left
      rw [he, hz]
    · right
      split at h
      · cases h
      · rename_i hc
        rw [he]
        congr 1
        by_contra hne
        apply hc
        exact ⟨hz, Ne.symm hne⟩
  · cases h

omit [WolfCrypt] in
theorem algToCrv_of_ecdsa (h : algIsEcdsa alg = true) :
  algToCrv alg ≠ .ok 0
  := by
  intro h0
  simp [algIsEcdsa, h0, crvP256, crvP384, crvP521] at h

theorem verifyEcdsa_ok {checkAttached : Bool} {digest : Checked (HashType × Bytes)}
    (halg : algIsEcdsa alg = true) (hd : ∀ r, digest = .ok r → Digest alg tbs r.1 r.2)
    (h : verifyEcdsa checkAttached key alg digest sig = .ok ()) :
  key.Verified alg tbs sig
  := by
  simp only [verifyEcdsa, bind_eq_ok, failWhen_eq_ok, lift_eq_ok, Bool.not_eq_false] at h
  obtain ⟨_, hty, _, hcrv, _, hcheck, ⟨hashType, digest⟩, hdig, coordSz, hsz, verified, hver, rfl⟩ := h
  obtain ⟨eccKey, hobj, hfits⟩ := eccKeyCheckCurve_ok hcheck
  rw [hobj] at hver
  obtain ⟨eccSig, hsig, hver⟩ := eccVerifyRaw_ok hsz hver
  have hkty : key.kty = ktyEc2 := by
    by_contra hne
    apply hty
    exact .inl hne
  have hc : algToCrv alg = .ok key.crv := (algCheckCrv_ok hcrv).resolve_left (algToCrv_of_ecdsa halg)
  constructor
  · apply Key.Compatible.ecdsa halg hkty hc hobj hfits
  · apply Key.Accepts.ecdsa hobj (hd _ hdig) hsig hver

theorem verifyEddsa_ok (halg : algIsEddsa alg = true) (h : verifyEddsa key alg tbs sig = .ok ()) :
  key.Verified alg tbs sig
  := by
  simp only [verifyEddsa, bind_eq_ok, failWhen_eq_ok, lift_eq_ok, ne_eq, Decidable.not_not] at h
  obtain ⟨_, hkty, _, hcrv, h⟩ := h
  have hc := algCheckCrv_ok hcrv
  by_cases h₁ : haveEddsa = true ∧ key.crv = crvEd25519
  · rw [if_pos h₁] at h
    simp only [bind_eq_ok, failWhen_eq_ok, KeyObject.asEd25519_eq_ok, orCrypto_eq_ok, not_or,
      Decidable.not_not, Bool.not_eq_false] at h
    obtain ⟨_, ⟨hatt, -⟩, k, hobj, _, hver, rfl⟩ := h
    constructor
    · apply Key.Compatible.ed25519 halg hkty h₁.2 hc hatt hobj
    · apply Key.Accepts.ed25519 hobj hver
  rw [if_neg h₁] at h
  by_cases h₂ : haveEd448 = true ∧ key.crv = crvEd448
  · rw [if_pos h₂] at h
    simp only [bind_eq_ok, failWhen_eq_ok, KeyObject.asEd448_eq_ok, orCrypto_eq_ok, not_or,
      Decidable.not_not, Bool.not_eq_false] at h
    obtain ⟨_, ⟨hatt, -⟩, k, hobj, _, hver, rfl⟩ := h
    constructor
    · apply Key.Compatible.ed448 halg hkty h₂.2 hc hatt hobj
    · apply Key.Accepts.ed448 hobj hver
  · rw [if_neg h₂] at h
    cases h

theorem verifyPss_ok {digest : Checked (HashType × Bytes)} {scratchSz : Nat}
    (halg : algIsPss alg = true) (hd : ∀ r, digest = .ok r → Digest alg tbs r.1 r.2)
    (h : verifyPss key digest sig scratchSz = .ok ()) :
  key.Verified alg tbs sig
  := by
  simp only [verifyPss, rsaPssCheckKey, bind_eq_ok, failWhen_eq_ok, lift_eq_ok, pure_eq_ok,
    KeyObject.asRsa_eq_ok, not_or, ne_eq, Decidable.not_not, Int.not_lt] at h
  obtain ⟨_, ⟨_, ⟨hkty, hatt, -⟩, k, hobj, _, hmin, _, -, -⟩, ⟨hashType, digest⟩, hdig, mgf, hmgf, _, -,
    _, hobj', hver⟩ := h
  rw [hobj] at hobj'
  cases hobj'
  constructor
  · apply Key.Compatible.pss halg hkty hatt hobj hmin
  · apply Key.Accepts.pss hobj (hd _ hdig) hmgf hver

theorem verifyMlDsa_ok (h : verifyMlDsa key alg tbs sig = .ok ()) :
  key.Verified alg tbs sig
  := by
  simp only [verifyMlDsa, mlDsaCheckKey, bind_eq_ok, failWhen_eq_ok, lift_eq_ok, orCrypto_eq_ok,
    KeyObject.asMldsa_eq_ok, not_or, ne_eq, Decidable.not_not, Bool.not_eq_false] at h
  obtain ⟨_, ⟨_, ⟨hkty, hatt, -⟩, level, hlevel, k, hobj, rfl⟩, _, hobj', _, hver, rfl⟩ := h
  rw [hobj] at hobj'
  cases hobj'
  constructor
  · apply Key.Compatible.mldsa hkty hatt hobj hlevel
  · apply Key.Accepts.mldsa hobj hver

theorem verifyLms_ok (halg : alg = algHssLms) (h : verifyLms key tbs sig = .ok ()) :
  key.Verified alg tbs sig
  := by
  simp only [verifyLms, lmsCheckKey, bind_eq_ok, failWhen_eq_ok, KeyObject.asLms_eq_ok, not_or,
    ne_eq, Decidable.not_not] at h
  obtain ⟨_, ⟨hkty, hatt, -⟩, _, -, k, hobj, h⟩ := h
  have hver : lmsVerify k sig tbs = .ok := by
    split at h
    · assumption
    · cases h
    · cases h
  constructor
  · apply Key.Compatible.lms halg hkty hatt hobj
  · apply Key.Accepts.lms hobj hver

end

end WolfCose
