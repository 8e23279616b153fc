import WolfCose.Sig.Output

/-!
# Correct signature schemes

What a signing function asks of the primitive for a key, or of the callback of a delegated
signer, is a signature of its input: the digest of the bytes to be signed for ECDSA and
RSASSA-PSS, and these bytes themselves otherwise.  A scheme is correct if what it makes is
accepted with the public key.  The branches of the verification functions then accept it too,
whichever branch of the signing functions made it.
-/

namespace WolfCose

open Program Settings WolfCrypt

variable [Settings]

/-! ### Families of algorithms -/

theorem algIsEcdsa_values {alg : Int} (h : algIsEcdsa alg = true) :
  alg = -7 ∨ alg = -9 ∨ alg = -35 ∨ alg = -51 ∨ alg = -36 ∨ alg = -52
  := by
  rcases algIsEcdsa_cases h with h | h | h
  · have := h.values
    omega
  · have := h.values
    omega
  · have := h.values
    omega

theorem algIsEddsa_values {alg : Int} (h : algIsEddsa alg = true) :
  alg = -8 ∨ alg = -19 ∨ alg = -53
  := by
  rcases algIsEddsa_cases h with h | ⟨-, h⟩ | ⟨-, h⟩
  · exact .inl h.value
  · exact .inr (.inl h)
  · exact .inr (.inr h)

omit [Settings] in
theorem algIsPss_values {alg : Int} (h : algIsPss alg = true) :
  alg = -37 ∨ alg = -38 ∨ alg = -39
  := of_decide_eq_true h

omit [Settings] in
theorem algIsMlDsa_values {alg : Int} (h : algIsMlDsa alg = true) :
  alg = -48 ∨ alg = -49 ∨ alg = -50
  := of_decide_eq_true h

theorem algIsEcdsa_eq_false {alg : Int}
    (h : ¬ (alg = -7 ∨ alg = -9 ∨ alg = -35 ∨ alg = -51 ∨ alg = -36 ∨ alg = -52)) :
  algIsEcdsa alg = false
  := by
  rw [← Bool.not_eq_true]
  exact fun he => h (algIsEcdsa_values he)

theorem algIsEddsa_eq_false {alg : Int} (h : ¬ (alg = -8 ∨ alg = -19 ∨ alg = -53)) :
  algIsEddsa alg = false
  := by
  rw [← Bool.not_eq_true]
  exact fun he => h (algIsEddsa_values he)

omit [Settings] in
theorem algIsPss_eq_false {alg : Int} (h : ¬ (alg = -37 ∨ alg = -38 ∨ alg = -39)) :
  algIsPss alg = false
  := decide_eq_false h

omit [Settings] in
theorem algIsMlDsa_eq_false {alg : Int} (h : ¬ (alg = -48 ∨ alg = -49 ∨ alg = -50)) :
  algIsMlDsa alg = false
  := decide_eq_false h

/-- The algorithms of the build that are bound to a curve of ECDSA. -/
theorem algIsEcdsa_of_isEs {alg : Int} (h : isEs256 alg ∨ isEs384 alg ∨ isEs512 alg) :
  algIsEcdsa alg = true
  := by
  unfold algIsEcdsa algToCrv
  by_cases h₁ : isEs256 alg
  · rw [if_pos h₁]
    decide
  rw [if_neg h₁]
  by_cases h₂ : isEs384 alg
  · rw [if_pos h₂]
    decide
  rw [if_neg h₂, if_pos ((h.resolve_left h₁).resolve_left h₂)]
  decide

/-- Whether an algorithm signs a digest of the bytes to be signed. -/
def Hashes (alg : Int) : Prop :=
  algIsEcdsa alg = true ∨ algIsPss alg = true

instance (alg : Int) : Decidable (Hashes alg) := inferInstanceAs (Decidable (_ ∨ _))

/-- The table of the delegated signers says which algorithms sign a digest. -/
theorem extSignAlg_ok {alg : Int} {preHashes : Bool} (h : extSignAlg alg = .ok preHashes) :
  preHashes = decide (Hashes alg)
  := by
  unfold extSignAlg at h
  split at h
  · rename_i halg
    rw [← Except.ok.inj h, eq_comm, decide_eq_true_iff]
    rcases halg with halg | halg | halg | halg
    · exact .inl (algIsEcdsa_of_isEs (.inl halg))
    · exact .inl (algIsEcdsa_of_isEs (.inr (.inl halg)))
    · exact .inl (algIsEcdsa_of_isEs (.inr (.inr halg)))
    · exact .inr (decide_eq_true halg.values)
  have none (hval : alg = -8 ∨ alg = -19 ∨ alg = -53 ∨ alg = -48 ∨ alg = -49 ∨ alg = -50 ∨ alg = -46) :
      decide (Hashes alg) = false := by
    rw [decide_eq_false_iff_not]
    rintro (he | he)
    · have := algIsEcdsa_values he
      omega
    · have := algIsPss_values he
      omega
  split at h
  · rename_i halg
    rw [← Except.ok.inj h, none]
    rcases halg with halg | ⟨-, halg⟩ | ⟨-, halg⟩
    · exact .inl halg.value
    · exact .inr (.inl halg)
    · exact .inr (.inr (.inl halg))
  split at h
  · rename_i halg
    have := algIsMlDsa_values halg.2
    rw [← Except.ok.inj h, none]
    omega
  split at h
  · rename_i halg
    rw [← Except.ok.inj h, none]
    exact .inr (.inr (.inr (.inr (.inr (.inr halg.2)))))
  · cases h

/-! ### What is verified -/

section

variable [WolfCrypt]

theorem hashFor_eq_ok {alg : Int} {tbs : Bytes} {r : HashType × Bytes} :
  hashFor alg tbs = .ok r ↔ Digest alg tbs r.1 r.2
  := by
  constructor
  · exact hashFor_ok
  · rintro ⟨hty, hpos, hd⟩
    simp only [hashFor, hashTbs, bind_eq_ok, lift_eq_ok, failWhen_eq_ok, orCrypto_eq_ok, pure_eq_ok]
    exact ⟨r.1, hty, r.2, ⟨(), by simpa using hpos, hd⟩, rfl⟩

/-- The input of the primitive that signs the bytes `tbs`: their digest, or they themselves. -/
def SignedInput (alg : Int) (tbs input : Bytes) : Prop :=
  if Hashes alg then ∃ hashType, Digest alg tbs hashType input else input = tbs

/-- The primitive for a key object accepts a signature of an input; that of RSASSA-PSS has to
be given enough room for its output. -/
inductive KeyObject.Accepts (alg : Int) (input sig : Bytes) : KeyObject → Prop where
  | ecdsa {eccKey : EccKey} {crv : Int} {eccSig : Bytes} : algToCrv alg = .ok crv →
      EccSignature crv sig eccSig → eccVerifyHash eccSig input eccKey = some true →
      Accepts alg input sig (.ecc eccKey)
  | ed25519 {ed25519Key : Ed25519Key} : ed25519VerifyMsg sig input ed25519Key = some true →
      Accepts alg input sig (.ed25519 ed25519Key)
  | ed448 {ed448Key : Ed448Key} : ed448VerifyMsg sig input ed448Key = some true →
      Accepts alg input sig (.ed448 ed448Key)
  | pss {rsaKey : RsaKey} {hashType : HashType} {mgf : Mgf} : algToHashType alg = .ok hashType →
      hashToMgf hashType = .ok mgf →
      (∀ outSz, sig.length ≤ outSz → 0 ≤ rsaPssVerifyCheck sig outSz input hashType mgf rsaKey) →
      Accepts alg input sig (.rsa rsaKey)
  | mldsa {mldsaKey : MlDsaKey} : mlDsaVerifyCtx mldsaKey sig input = some true →
      Accepts alg input sig (.mldsa mldsaKey)
  | lms {lmsKey : LmsKey} : lmsVerify lmsKey sig input = .ok → Accepts alg input sig (.lms lmsKey)

/-- The key matches an algorithm of the build: it passes the checks of the verification
functions. -/
inductive Key.Matches (key : Key) (alg : Int) : Prop where
  | ecdsa {eccKey : EccKey} : algIsEcdsa alg = true → key.kty = ktyEc2 → key.attachedType = .ecc →
      algCheckCrv alg key.crv = .ok () → key.object = .ecc eccKey →
      eccKeyCheckCurve key.crv key.object = .ok () → Matches key alg
  | ed25519 {ed25519Key : Ed25519Key} : algIsEddsa alg = true → haveEddsa = true → key.kty = ktyOkp →
      key.crv = crvEd25519 → algCheckCrv alg key.crv = .ok () → key.attachedType = .ed25519 →
      key.object = .ed25519 ed25519Key → Matches key alg
  | ed448 {ed448Key : Ed448Key} : algIsEddsa alg = true → haveEd448 = true → key.kty = ktyOkp →
      key.crv = crvEd448 → algCheckCrv alg key.crv = .ok () → key.attachedType = .ed448 →
      key.object = .ed448 ed448Key → Matches key alg
  | pss {rsaKey : RsaKey} {modulusSz : Nat} : haveRsapss = true → algIsPss alg = true →
      key.object = .rsa rsaKey → rsaPssCheckKey key = .ok modulusSz → Matches key alg
  | mldsa {mldsaKey : MlDsaKey} : haveMldsa = true → algIsMlDsa alg = true → key.object = .mldsa mldsaKey →
      mlDsaCheckKey key alg = .ok () → Matches key alg
  | lms {lmsKey : LmsKey} : haveLms = true → alg = algHssLms → key.object = .lms lmsKey →
      lmsCheckKey key = .ok () → Matches key alg

/-- The algorithms that keys match are integers of 32 bits. -/
theorem Key.Matches.inInt32Range {key : Key} {alg : Int} (h : key.Matches alg) :
  inInt32Range alg = true
  := by
  have range (hval : -53 ≤ alg ∧ alg ≤ -7) : WolfCose.inInt32Range alg = true := by
    simp only [WolfCose.inInt32Range, Bool.and_eq_true, decide_eq_true_eq]
    omega
  apply range
  cases h with
  | ecdsa halg => have := algIsEcdsa_values halg; omega
  | ed25519 halg => have := algIsEddsa_values halg; omega
  | ed448 halg => have := algIsEddsa_values halg; omega
  | pss _ halg => have := algIsPss_values halg; omega
  | mldsa _ halg => have := algIsMlDsa_values halg; omega
  | lms _ halg =>
      rw [halg]
      decide

/-- The structure may be verified with HSS-LMS only if its length is an `int`. -/
def VerifiableLength (alg : Int) (tbs : Bytes) : Prop :=
  alg = algHssLms → tbs.length ≤ intMax

section Verify

variable {key : Key} {alg : Int} {tbs input sig : Bytes}

theorem eccVerifyRaw_of_accepts {crv : Int} {coordSz : Nat} {eccKey : EccKey} (halg : algIsEcdsa alg = true)
    (hcrv : algCheckCrv alg crv = .ok ()) (hsz : crvKeySize crv = .ok coordSz)
    (hacc : (KeyObject.ecc eccKey).Accepts alg input sig) :
  eccVerifyRaw sig input coordSz (.ecc eccKey) = .ok true
  := by
  cases hacc with
  | @ecdsa _ crv' eccSig hcrv' hsig hver =>
      have hcc := (algCheckCrv_ok hcrv).resolve_left (algToCrv_of_ecdsa halg)
      rw [hcrv'] at hcc
      obtain rfl := Except.ok.inj hcc
      obtain ⟨coordSz', hsz', hlen, hraw⟩ := hsig
      rw [hsz] at hsz'
      obtain rfl := Except.ok.inj hsz'
      unfold eccVerifyRaw
      simp only [bind_eq_ok, failWhen_eq_ok]
      refine ⟨(), Bool.false_ne_true, (), fun h => h hlen, ?_⟩
      split at hraw
      · rename_i hasn
        rw [hraw] at hver
        rw [if_pos hasn]
        simp only [bind_eq_ok, KeyObject.asEcc_eq_ok, orCrypto_eq_ok]
        exact ⟨eccKey, rfl, hver⟩
      · rename_i hasn
        rw [if_neg hasn]
        simp only [bind_eq_ok, KeyObject.asEcc_eq_ok, orCrypto_eq_ok]
        exact ⟨eccSig, hraw, eccKey, rfl, hver⟩

theorem verifyEcdsa_of_accepts {eccKey : EccKey} (halg : algIsEcdsa alg = true) (hkty : key.kty = ktyEc2)
    (hatt : key.attachedType = .ecc) (hcrv : algCheckCrv alg key.crv = .ok ())
    (hobj : key.object = .ecc eccKey) (hcheck : eccKeyCheckCurve key.crv key.object = .ok ())
    {digest : Checked (HashType × Bytes)} {hashType : HashType} (hd : digest = .ok (hashType, input))
    (hacc : key.object.Accepts alg input sig) :
  verifyEcdsa true key alg digest sig = .ok ()
  := by
  obtain ⟨coordSz, hsz⟩ : ∃ coordSz, crvKeySize key.crv = .ok coordSz := by
    simp only [eccKeyCheckCurve, bind_eq_ok, lift_eq_ok] at hcheck
    obtain ⟨_, -, _, -, sz, hsz, -⟩ := hcheck
    exact ⟨sz, hsz⟩
  rw [hobj] at hacc
  have hver := eccVerifyRaw_of_accepts halg hcrv hsz hacc
  rw [← hobj] at hver
  simp only [verifyEcdsa, bind_eq_ok, failWhen_eq_ok, lift_eq_ok]
  refine ⟨(), ?_, (), hcrv, (), hcheck, _, hd, coordSz, hsz, true, hver, Bool.true_eq_false.mp⟩
  rintro (h | ⟨-, h⟩)
  · exact h hkty
  · exact h hatt

theorem verifyEd25519_of_accepts {ed25519Key : Ed25519Key} (hed : haveEddsa = true) (hkty : key.kty = ktyOkp)
    (hcc : key.crv = crvEd25519) (hcrv : algCheckCrv alg key.crv = .ok ()) (hatt : key.attachedType = .ed25519)
    (hobj : key.object = .ed25519 ed25519Key) (hacc : key.object.Accepts alg tbs sig) :
  verifyEddsa key alg tbs sig = .ok ()
  := by
  rw [hobj] at hacc
  cases hacc with
  | ed25519 hver =>
      simp only [verifyEddsa, bind_eq_ok, failWhen_eq_ok, lift_eq_ok]
      refine ⟨(), fun h => h hkty, (), hcrv, ?_⟩
      rw [if_pos ⟨hed, hcc⟩]
      simp only [bind_eq_ok, failWhen_eq_ok, KeyObject.asEd25519_eq_ok, orCrypto_eq_ok]
      refine ⟨(), ?_, ed25519Key, hobj, true, hver, Bool.true_eq_false.mp⟩
      rintro (h | h)
      · exact h hatt
      · rw [hobj] at h
        cases h

theorem verifyEd448_of_accepts {ed448Key : Ed448Key} (hed : haveEd448 = true) (hkty : key.kty = ktyOkp)
    (hcc : key.crv = crvEd448) (hcrv : algCheckCrv alg key.crv = .ok ()) (hatt : key.attachedType = .ed448)
    (hobj : key.object = .ed448 ed448Key) (hacc : key.object.Accepts alg tbs sig) :
  verifyEddsa key alg tbs sig = .ok ()
  := by
  have hne : key.crv ≠ crvEd25519 := by
    rw [hcc]
    decide
  rw [hobj] at hacc
  cases hacc with
  | ed448 hver =>
      simp only [verifyEddsa, bind_eq_ok, failWhen_eq_ok, lift_eq_ok]
      refine ⟨(), fun h => h hkty, (), hcrv, ?_⟩
      rw [if_neg fun h => hne h.2, if_pos ⟨hed, hcc⟩]
      simp only [bind_eq_ok, failWhen_eq_ok, KeyObject.asEd448_eq_ok, orCrypto_eq_ok]
      refine ⟨(), ?_, ed448Key, hobj, true, hver, Bool.true_eq_false.mp⟩
      rintro (h | h)
      · exact h hatt
      · rw [hobj] at h
        cases h

theorem verifyPss_of_accepts {rsaKey : RsaKey} {modulusSz scratchSz : Nat} (hobj : key.object = .rsa rsaKey)
    (hcheck : rsaPssCheckKey key = .ok modulusSz) {digest : Checked (HashType × Bytes)} {hashType : HashType}
    (hd : digest = .ok (hashType, input)) (halg : algToHashType alg = .ok hashType)
    (hacc : key.object.Accepts alg input sig) (hroom : sig.length ≤ scratchSz) :
  verifyPss key digest sig scratchSz = .ok ()
  := by
  rw [hobj] at hacc
  cases hacc with
  | @pss _ hashType' mgf halg' hmgf hver =>
      rw [halg] at halg'
      obtain rfl := Except.ok.inj halg'
      simp only [verifyPss, bind_eq_ok, failWhen_eq_ok, lift_eq_ok, KeyObject.asRsa_eq_ok]
      refine ⟨modulusSz, hcheck, _, hd, mgf, hmgf, (), Nat.not_lt.mpr hroom, rsaKey, hobj, ?_⟩
      exact Int.not_lt.mpr (hver scratchSz hroom)

theorem verifyMlDsa_of_accepts {mldsaKey : MlDsaKey} (hobj : key.object = .mldsa mldsaKey)
    (hcheck : mlDsaCheckKey key alg = .ok ()) (hacc : key.object.Accepts alg tbs sig) :
  verifyMlDsa key alg tbs sig = .ok ()
  := by
  rw [hobj] at hacc
  cases hacc with
  | mldsa hver =>
      simp only [verifyMlDsa, bind_eq_ok, failWhen_eq_ok, KeyObject.asMldsa_eq_ok, orCrypto_eq_ok]
      exact ⟨(), hcheck, mldsaKey, hobj, true, hver, Bool.true_eq_false.mp⟩

theorem verifyLms_of_accepts {lmsKey : LmsKey} (hobj : key.object = .lms lmsKey)
    (hcheck : lmsCheckKey key = .ok ()) (hlen : tbs.length ≤ intMax)
    (hacc : key.object.Accepts alg tbs sig) :
  verifyLms key tbs sig = .ok ()
  := by
  rw [hobj] at hacc
  cases hacc with
  | lms hver =>
      simp only [verifyLms, bind_eq_ok, failWhen_eq_ok, KeyObject.asLms_eq_ok]
      refine ⟨(), hcheck, (), Nat.not_lt.mpr hlen, lmsKey, hobj, ?_⟩
      rw [hver]
      rfl

/-- The branch of a verification function for the family of the algorithm succeeds, given the
digest that it computes. -/
inductive Key.Verifies (key : Key) (alg : Int) (tbs sig : Bytes) (scratchSz : Nat)
    (digest : Checked (HashType × Bytes)) : Prop where
  | ecdsa : algIsEcdsa alg = true → algIsEddsa alg = false → verifyEcdsa true key alg digest sig = .ok () →
      Verifies key alg tbs sig scratchSz digest
  | eddsa : algIsEcdsa alg = false → algIsEddsa alg = true → verifyEddsa key alg tbs sig = .ok () →
      Verifies key alg tbs sig scratchSz digest
  | pss : algIsEcdsa alg = false → algIsEddsa alg = false → (haveRsapss = true ∧ algIsPss alg = true) →
      verifyPss key digest sig scratchSz = .ok () → Verifies key alg tbs sig scratchSz digest
  | mldsa : algIsEcdsa alg = false → algIsEddsa alg = false → ¬ (haveRsapss = true ∧ algIsPss alg = true) →
      (haveMldsa = true ∧ algIsMlDsa alg = true) → verifyMlDsa key alg tbs sig = .ok () →
      Verifies key alg tbs sig scratchSz digest
  | lms : algIsEcdsa alg = false → algIsEddsa alg = false → ¬ (haveRsapss = true ∧ algIsPss alg = true) →
      ¬ (haveMldsa = true ∧ algIsMlDsa alg = true) → (haveLms = true ∧ alg = algHssLms) →
      verifyLms key tbs sig = .ok () → Verifies key alg tbs sig scratchSz digest

/-- A signature that is accepted with a key that matches the algorithm is verified. -/
theorem Key.Matches.verifies {scratchSz : Nat} {digest : Checked (HashType × Bytes)}
    (hmatch : key.Matches alg) (hlen : VerifiableLength alg tbs) (hinput : SignedInput alg tbs input)
    (hdigest : Hashes alg → ∀ hashType, Digest alg tbs hashType input → digest = .ok (hashType, input))
    (hacc : key.object.Accepts alg input sig) (hroom : sig.length ≤ scratchSz) :
  key.Verifies alg tbs sig scratchSz digest
  := by
  have hself (hno : ¬ Hashes alg) : key.object.Accepts alg tbs sig := by
    rw [SignedInput, if_neg hno] at hinput
    rwa [hinput] at hacc
  have hhashed (hh : Hashes alg) : ∃ hashType, algToHashType alg = .ok hashType
      ∧ digest = .ok (hashType, input) := by
    rw [SignedInput, if_pos hh] at hinput
    obtain ⟨hashType, hd⟩ := hinput
    exact ⟨hashType, hd.1, hdigest hh hashType hd⟩
  have hno (hecdsa : algIsEcdsa alg = false) (hpss : algIsPss alg = false) : ¬ Hashes alg := by
    rintro (h | h)
    · exact Bool.false_ne_true (hecdsa.symm.trans h)
    · exact Bool.false_ne_true (hpss.symm.trans h)
  cases hmatch with
  | ecdsa halg hkty hatt hcrv hobj hcheck =>
      have hval := algIsEcdsa_values halg
      obtain ⟨hashType, -, hd⟩ := hhashed (.inl halg)
      apply Verifies.ecdsa halg (algIsEddsa_eq_false (by omega))
      apply verifyEcdsa_of_accepts halg hkty hatt hcrv hobj hcheck hd hacc
  | ed25519 halg hed hkty hcc hcrv hatt hobj =>
      have hval := algIsEddsa_values halg
      have hecdsa : algIsEcdsa alg = false := algIsEcdsa_eq_false (by omega)
      apply Verifies.eddsa hecdsa halg
      apply verifyEd25519_of_accepts hed hkty hcc hcrv hatt hobj
      apply hself (hno hecdsa (algIsPss_eq_false (by omega)))
  | ed448 halg hed hkty hcc hcrv hatt hobj =>
      have hval := algIsEddsa_values halg
      have hecdsa : algIsEcdsa alg = false := algIsEcdsa_eq_false (by omega)
      apply Verifies.eddsa hecdsa halg
      apply verifyEd448_of_accepts hed hkty hcc hcrv hatt hobj
      apply hself (hno hecdsa (algIsPss_eq_false (by omega)))
  | pss hpss halg hobj hcheck =>
      have hval := algIsPss_values halg
      obtain ⟨hashType, hty, hd⟩ := hhashed (.inr halg)
      apply Verifies.pss (algIsEcdsa_eq_false (by omega)) (algIsEddsa_eq_false (by omega)) ⟨hpss, halg⟩
      apply verifyPss_of_accepts hobj hcheck hd hty hacc hroom
  | mldsa hmldsa halg hobj hcheck =>
      have hval := algIsMlDsa_values halg
      have hpss : algIsPss alg = false := algIsPss_eq_false (by omega)
      have hecdsa : algIsEcdsa alg = false := algIsEcdsa_eq_false (by omega)
      apply Verifies.mldsa hecdsa (algIsEddsa_eq_false (by omega)) _ ⟨hmldsa, halg⟩
      · apply verifyMlDsa_of_accepts hobj hcheck (hself (hno hecdsa hpss))
      · rintro ⟨-, h⟩
        exact Bool.false_ne_true (hpss.symm.trans h)
  | lms hlms halg hobj hcheck =>
      have hval : alg = -46 := halg
      have hpss : algIsPss alg = false := algIsPss_eq_false (by omega)
      have hecdsa : algIsEcdsa alg = false := algIsEcdsa_eq_false (by omega)
      have hmldsa : algIsMlDsa alg = false := algIsMlDsa_eq_false (by omega)
      apply Verifies.lms hecdsa (algIsEddsa_eq_false (by omega)) _ _ ⟨hlms, halg⟩
      · apply verifyLms_of_accepts hobj hcheck (hlen halg) (hself (hno hecdsa hpss))
      · rintro ⟨-, h⟩
        exact Bool.false_ne_true (hpss.symm.trans h)
      · rintro ⟨-, h⟩
        exact Bool.false_ne_true (hmldsa.symm.trans h)

end Verify

/-! ### What is signed -/

/-- The primitive for a key object makes a signature of an input, with the given generator, room
for its output and environment, and leaves the environment `env'`. -/
inductive KeyObject.Makes (alg : Int) (rng : Option Rng) (scratchSz : Nat) (env : Env)
    (input sig : Bytes) (env' : Env) : KeyObject → Prop where
  | ecdsa {eccKey signKey : EccKey} {hashType : HashType} {generator : Rng} {derSig r s : Bytes} {crv : Int}
      {coordSz : Nat} : algToHashType alg = .ok hashType → eccSigningKey eccKey hashType = .ok signKey →
      rng = some generator → eccSignHash input generator signKey env = (some derSig, env') →
      eccSigToRs derSig = some (r, s) → algToCrv alg = .ok crv → crvKeySize crv = .ok coordSz →
      r.length ≤ coordSz → s.length ≤ coordSz → sig = leftPad coordSz r ++ leftPad coordSz s →
      Makes alg rng scratchSz env input sig env' (.ecc eccKey)
  | ed25519 {ed25519Key : Ed25519Key} : ed25519SignMsg input ed25519Key = some sig → env' = env →
      Makes alg rng scratchSz env input sig env' (.ed25519 ed25519Key)
  | ed448 {ed448Key : Ed448Key} : ed448SignMsg input ed448Key = some sig → env' = env →
      Makes alg rng scratchSz env input sig env' (.ed448 ed448Key)
  | pss {rsaKey : RsaKey} {hashType : HashType} {mgf : Mgf} : algToHashType alg = .ok hashType →
      hashToMgf hashType = .ok mgf →
      rsaPssSignEx input scratchSz hashType mgf input.length rsaKey rng env = (some sig, env') →
      Makes alg rng scratchSz env input sig env' (.rsa rsaKey)
  | mldsa {mldsaKey : MlDsaKey} {sigSz : Nat} : sigSize alg = .ok sigSz →
      mlDsaSignCtx mldsaKey sigSz input rng env = (some sig, env') →
      Makes alg rng scratchSz env input sig env' (.mldsa mldsaKey)
  | lms {lmsKey after : LmsKey} {sigSz : Nat} : lmsGetSigLen lmsKey = some sigSz →
      lmsSign lmsKey sigSz input env = ((some sig, after), env') →
      Makes alg rng scratchSz env input sig env' (.lms lmsKey)

/-- Which key objects hold the public key of a key object. -/
structure PublicOf where
  ecc : EccKey → EccKey → Prop
  ed25519 : Ed25519Key → Ed25519Key → Prop
  ed448 : Ed448Key → Ed448Key → Prop
  rsa : RsaKey → RsaKey → Prop
  mldsa : MlDsaKey → MlDsaKey → Prop
  lms : LmsKey → LmsKey → Prop

/-- The second object holds the public key of the first. -/
inductive PublicOf.Object (pub : PublicOf) : KeyObject → KeyObject → Prop where
  | ecc {key key' : EccKey} : pub.ecc key key' → Object pub (.ecc key) (.ecc key')
  | ed25519 {key key' : Ed25519Key} : pub.ed25519 key key' → Object pub (.ed25519 key) (.ed25519 key')
  | ed448 {key key' : Ed448Key} : pub.ed448 key key' → Object pub (.ed448 key) (.ed448 key')
  | rsa {key key' : RsaKey} : pub.rsa key key' → Object pub (.rsa key) (.rsa key')
  | mldsa {key key' : MlDsaKey} : pub.mldsa key key' → Object pub (.mldsa key) (.mldsa key')
  | lms {key key' : LmsKey} : pub.lms key key' → Object pub (.lms key) (.lms key')

/-- The signature schemes of wolfCrypt are correct: what is signed with a key is verified with
its public key. -/
structure CorrectScheme (pub : PublicOf) : Prop where
  eccDeterministic : ∀ key key' signKey hashType, pub.ecc key key' →
    eccSetDeterministicEx key hashType = some signKey → pub.ecc signKey key'
  ecdsa : ∀ key key' digest rng env derSig r s coordSz, pub.ecc key key' →
    (eccSignHash digest rng key env).1 = some derSig → eccSigToRs derSig = some (r, s) →
    r.length ≤ coordSz → s.length ≤ coordSz →
    if noAsn = true then eccVerifyHash (leftPad coordSz r ++ leftPad coordSz s) digest key' = some true
    else ∃ derSig', eccRsRawToSig (leftPad coordSz r) (leftPad coordSz s) = some derSig'
      ∧ eccVerifyHash derSig' digest key' = some true
  ed25519 : ∀ key key' tbs sig, pub.ed25519 key key' → ed25519SignMsg tbs key = some sig →
    ed25519VerifyMsg sig tbs key' = some true
  ed448 : ∀ key key' tbs sig, pub.ed448 key key' → ed448SignMsg tbs key = some sig →
    ed448VerifyMsg sig tbs key' = some true
  rsaPss : ∀ key key' digest n hashType mgf rng env sig outSz, pub.rsa key key' →
    (rsaPssSignEx digest n hashType mgf digest.length key rng env).1 = some sig → sig.length ≤ outSz →
    0 ≤ rsaPssVerifyCheck sig outSz digest hashType mgf key'
  mldsa : ∀ key key' n tbs rng env sig, pub.mldsa key key' → (mlDsaSignCtx key n tbs rng env).1 = some sig →
    mlDsaVerifyCtx key' sig tbs = some true
  lms : ∀ key key' n tbs env sig, pub.lms key key' → (lmsSign key n tbs env).1.1 = some sig →
    lmsVerify key' sig tbs = .ok

/-- A raw signature made of two coordinates is taken apart into them. -/
theorem eccSignature_leftPad {crv : Int} {coordSz : Nat} {r s eccSig : Bytes}
    (hsz : crvKeySize crv = .ok coordSz) (hr : r.length ≤ coordSz) (hs : s.length ≤ coordSz)
    (h : if noAsn = true then eccSig = leftPad coordSz r ++ leftPad coordSz s
      else eccRsRawToSig (leftPad coordSz r) (leftPad coordSz s) = some eccSig) :
  EccSignature crv (leftPad coordSz r ++ leftPad coordSz s) eccSig
  := by
  have hlr := length_leftPad hr
  have hls := length_leftPad hs
  refine ⟨coordSz, hsz, ?_, ?_⟩
  · rw [List.length_append, hlr, hls, Nat.mul_two]
  · rwa [List.take_left' hlr, List.drop_left' hlr]

/-- What the primitive for a key object makes is accepted with the public key. -/
theorem KeyObject.Makes.accepts {pub : PublicOf} (hscheme : CorrectScheme pub) {object object' : KeyObject}
    (hpub : pub.Object object object') {alg : Int} {rng : Option Rng} {scratchSz : Nat} {env : Env}
    {input sig : Bytes} {env' : Env} (h : object.Makes alg rng scratchSz env input sig env') :
  object'.Accepts alg input sig
  := by
  cases h with
  | @ecdsa eccKey signKey hashType generator derSig r s crv coordSz _ hkey _ hsign hrs hcrv hsz hr hs hsig =>
      cases hpub with
      | @ecc _ key' hpub =>
          have hpub' : pub.ecc signKey key' := by
            unfold eccSigningKey at hkey
            split at hkey
            · rw [orCrypto_eq_ok] at hkey
              apply hscheme.eccDeterministic _ _ _ _ hpub hkey
            · rwa [← Except.ok.inj hkey]
          have hver := hscheme.ecdsa _ _ _ _ _ _ _ _ _ hpub' (congrArg Prod.fst hsign) hrs hr hs
          rw [hsig]
          by_cases hasn : noAsn = true
          · rw [if_pos hasn] at hver
            apply Accepts.ecdsa hcrv (eccSignature_leftPad hsz hr hs _) hver
            rw [if_pos hasn]
          · rw [if_neg hasn] at hver
            obtain ⟨derSig', hraw, hver⟩ := hver
            apply Accepts.ecdsa hcrv (eccSignature_leftPad hsz hr hs _) hver
            rw [if_neg hasn]
            exact hraw
  | ed25519 hsign _ =>
      cases hpub with
      | ed25519 hpub => apply Accepts.ed25519 (hscheme.ed25519 _ _ _ _ hpub hsign)
  | ed448 hsign _ =>
      cases hpub with
      | ed448 hpub => apply Accepts.ed448 (hscheme.ed448 _ _ _ _ hpub hsign)
  | pss hty hmgf hsign =>
      cases hpub with
      | rsa hpub =>
          apply Accepts.pss hty hmgf
          intro outSz hroom
          apply hscheme.rsaPss _ _ _ _ _ _ _ _ _ _ hpub (congrArg Prod.fst hsign) hroom
  | mldsa _ hsign =>
      cases hpub with
      | mldsa hpub => apply Accepts.mldsa (hscheme.mldsa _ _ _ _ _ _ _ hpub (congrArg Prod.fst hsign))
  | lms _ hsign =>
      cases hpub with
      | lms hpub => apply Accepts.lms (hscheme.lms _ _ _ _ _ _ hpub (congrArg (·.1.1) hsign))

end

section Instances

variable {answers : List Ed25519Answer}

omit [Settings] in
theorem ed25519SignatureOf_eq_some {secret msg sig : Bytes} (h : ed25519SignatureOf answers secret msg = some sig) :
  ∃ a ∈ answers, a.secret = secret ∧ a.msg = msg ∧ a.sig = sig
  := by
  obtain ⟨a, ha, rfl⟩ := Option.map_eq_some_iff.mp h
  have heq := List.find?_some ha
  rw [Bool.and_eq_true, beq_iff_eq, beq_iff_eq] at heq
  exact ⟨a, List.mem_of_find?_eq_some ha, heq.1, heq.2, rfl⟩

omit [Settings] in
theorem documentedLengths_ed25519 (answers : List Ed25519Answer) (h : ∀ a ∈ answers, a.sig.length = 64) :
  @DocumentedLengths (ed25519Crypt answers)
  := by
  let := ed25519Crypt answers
  constructor
  · rintro _ _ ⟨⟩
  · intro tbs key sig hsig
    obtain ⟨a, ha, -, -, rfl⟩ := ed25519SignatureOf_eq_some hsig
    exact h a ha
  · rintro _ _ _ ⟨⟩
  · rintro _ _ _ _ _ _ _ _ _ ⟨⟩
  · rintro _ _ _ _ _ _ ⟨⟩
  · rintro _ _ _ _ _ _ ⟨⟩
  · rintro _ _ _ _ _ _ ⟨⟩

/-- The key pairs of the answers. -/
def ed25519Pub (answers : List Ed25519Answer) : @PublicOf (ed25519Crypt answers) :=
  @PublicOf.mk (ed25519Crypt answers) (fun _ _ => False)
    (fun key key' => ∃ a ∈ answers, a.secret = key ∧ a.publicKey = key') (fun _ _ => False) (fun _ _ => False)
    (fun _ _ => False) fun _ _ => False

/-- The answers verify, if a secret key has one public key only. -/
theorem correctScheme_ed25519Pub (answers : List Ed25519Answer)
    (h : ∀ a ∈ answers, ∀ b ∈ answers, a.secret = b.secret → a.publicKey = b.publicKey) :
  @CorrectScheme _ (ed25519Crypt answers) (ed25519Pub answers)
  := by
  let := ed25519Crypt answers
  constructor
  · rintro _ _ _ _ ⟨⟩
  · rintro _ _ _ _ _ _ _ _ _ ⟨⟩
  · rintro key key' tbs sig ⟨b, hb, rfl, rfl⟩ hsig
    obtain ⟨a, ha, hsecret, rfl, rfl⟩ := ed25519SignatureOf_eq_some hsig
    have hany : (answers.any fun c => c.publicKey == b.publicKey && c.msg == a.msg && c.sig == a.sig) = true := by
      refine List.any_eq_true.mpr ⟨a, ha, ?_⟩
      rw [h a ha b hb hsecret, beq_self_eq_true, beq_self_eq_true, beq_self_eq_true]
      rfl
    exact congrArg some hany
  · rintro _ _ _ _ ⟨⟩
  · rintro _ _ _ _ _ _ _ _ _ _ ⟨⟩
  · rintro _ _ _ _ _ _ _ ⟨⟩
  · rintro _ _ _ _ _ _ ⟨⟩

end Instances

end WolfCose
