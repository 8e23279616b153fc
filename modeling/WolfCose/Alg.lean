import WolfCose.Settings

/-!
# Algorithm identifiers

The COSE algorithm identifiers `WOLFCOSE_ALG_*`, key types `WOLFCOSE_KTY_*` and curves
`WOLFCOSE_CRV_*` of `wolfcose.h`, and what `wolfcose_alg.c` knows about them.
-/

namespace WolfCose

open Settings

/-! ### Algorithms -/

/-- `WOLFCOSE_ALG_UNSET` -/
def algUnset : Int := 0

/-- `WOLFCOSE_ALG_ESP256` -/
def algEsp256 : Int := -9

/-- `WOLFCOSE_ALG_ESP384` -/
def algEsp384 : Int := -51

/-- `WOLFCOSE_ALG_ESP512` -/
def algEsp512 : Int := -52

/-- `WOLFCOSE_ALG_ED25519` -/
def algEd25519 : Int := -19

/-- `WOLFCOSE_ALG_ED448` -/
def algEd448 : Int := -53

/-- `WOLFCOSE_ALG_ES256` -/
def algEs256 : Int := -7

/-- `WOLFCOSE_ALG_ES384` -/
def algEs384 : Int := -35

/-- `WOLFCOSE_ALG_ES512` -/
def algEs512 : Int := -36

/-- `WOLFCOSE_ALG_EDDSA` -/
def algEddsa : Int := -8

/-- `WOLFCOSE_ALG_PS256` -/
def algPs256 : Int := -37

/-- `WOLFCOSE_ALG_PS384` -/
def algPs384 : Int := -38

/-- `WOLFCOSE_ALG_PS512` -/
def algPs512 : Int := -39

/-- `WOLFCOSE_ALG_ML_DSA_44` -/
def algMlDsa44 : Int := -48

/-- `WOLFCOSE_ALG_ML_DSA_65` -/
def algMlDsa65 : Int := -49

/-- `WOLFCOSE_ALG_ML_DSA_87` -/
def algMlDsa87 : Int := -50

/-- `WOLFCOSE_ALG_HSS_LMS` -/
def algHssLms : Int := -46

/-- `WOLFCOSE_ALG_DIRECT` -/
def algDirect : Int := -6

/-- `WOLFCOSE_ALG_HPKE_0_KE` -/
def algHpke0Ke : Int := 46

/-! ### Key types and curves -/

/-- `WOLFCOSE_KTY_OKP` -/
def ktyOkp : Int := 1

/-- `WOLFCOSE_KTY_EC2` -/
def ktyEc2 : Int := 2

/-- `WOLFCOSE_KTY_RSA` -/
def ktyRsa : Int := 3

/-- `WOLFCOSE_KTY_SYMMETRIC` -/
def ktySymmetric : Int := 4

/-- `WOLFCOSE_KTY_HSS_LMS` -/
def ktyHssLms : Int := 5

/-- `WOLFCOSE_KTY_AKP` -/
def ktyAkp : Int := 7

/-- `WOLFCOSE_CRV_P256` -/
def crvP256 : Int := 1

/-- `WOLFCOSE_CRV_P384` -/
def crvP384 : Int := 2

/-- `WOLFCOSE_CRV_P521` -/
def crvP521 : Int := 3

/-- `WOLFCOSE_CRV_ED25519` -/
def crvEd25519 : Int := 6

/-- `WOLFCOSE_CRV_ED448` -/
def crvEd448 : Int := 7

/-! ### Tags -/

/-- `WOLFCOSE_TAG_ENCRYPT0` -/
def tagEncrypt0 : Nat := 16

/-- `WOLFCOSE_TAG_MAC0` -/
def tagMac0 : Nat := 17

/-- `WOLFCOSE_TAG_SIGN1` -/
def tagSign1 : Nat := 18

/-- `WOLFCOSE_TAG_ENCRYPT` -/
def tagEncrypt : Nat := 96

/-- `WOLFCOSE_TAG_MAC` -/
def tagMac : Nat := 97

/-- `WOLFCOSE_TAG_SIGN` -/
def tagSign : Nat := 98

/-! ### Hash functions -/

/-- The hash functions `WC_HASH_TYPE_*` that the library uses. -/
inductive HashType where
  | sha256
  | sha384
  | sha512
  deriving DecidableEq, Repr

/-- The mask generation functions `WC_MGF1SHA*`, named by their hash functions. -/
abbrev Mgf := HashType

/-- The curves `ECC_SECP*` of wolfCrypt, by their identifiers; no other curve is used, and
`invalid` is `ECC_CURVE_INVALID`. -/
inductive WcCurve where
  | invalid
  | secp256r1
  | secp384r1
  | secp521r1
  | other (id : Int)
  deriving DecidableEq, Repr

variable [Settings]

/-- The algorithms with P-256 that the build has. -/
def isEs256 (alg : Int) : Prop :=
  haveEs256 = true ∧ (haveDeprecatedAlgs = true ∧ alg = algEs256 ∨ alg = algEsp256)

/-- The algorithms with P-384 that the build has. -/
def isEs384 (alg : Int) : Prop :=
  haveEs384 = true ∧ (haveDeprecatedAlgs = true ∧ alg = algEs384 ∨ alg = algEsp384)

/-- The algorithms with P-521 that the build has. -/
def isEs512 (alg : Int) : Prop :=
  haveEs512 = true ∧ (haveDeprecatedAlgs = true ∧ alg = algEs512 ∨ alg = algEsp512)

/-- The polymorphic EdDSA algorithm, if the build has it. -/
def isEddsa (alg : Int) : Prop :=
  (haveEddsa = true ∨ haveEd448 = true) ∧ haveDeprecatedAlgs = true ∧ alg = algEddsa

instance (alg : Int) : Decidable (isEs256 alg) := inferInstanceAs (Decidable (_ ∧ _))

instance (alg : Int) : Decidable (isEs384 alg) := inferInstanceAs (Decidable (_ ∧ _))

instance (alg : Int) : Decidable (isEs512 alg) := inferInstanceAs (Decidable (_ ∧ _))

instance (alg : Int) : Decidable (isEddsa alg) := inferInstanceAs (Decidable (_ ∧ _))

/-- `wolfCose_AlgToHashType` -/
def algToHashType (alg : Int) : Except Err HashType :=
  if isEs256 alg then .ok .sha256
  else if isEs384 alg then .ok .sha384
  else if isEs512 alg then .ok .sha512
  else if isEddsa alg ∨ (haveEddsa = true ∧ alg = algEd25519) ∨ (haveEd448 = true ∧ alg = algEd448) then
    .ok .sha512
  else if havePs256 = true ∧ alg = algPs256 then .ok .sha256
  else if havePs384 = true ∧ alg = algPs384 then .ok .sha384
  else if havePs512 = true ∧ alg = algPs512 then .ok .sha512
  else .error .coseBadAlg

/-- `wolfCose_SigSize` -/
def sigSize (alg : Int) : Except Err Nat :=
  if isEs256 alg then .ok 64
  else if isEs384 alg then .ok 96
  else if isEs512 alg then .ok 132
  else if isEddsa alg then .ok (if haveEd448 then 114 else 64)
  else if haveEddsa = true ∧ alg = algEd25519 then .ok 64
  else if haveEd448 = true ∧ alg = algEd448 then .ok 114
  else if haveMldsa = true ∧ alg = algMlDsa44 then .ok 2420
  else if haveMldsa = true ∧ alg = algMlDsa65 then .ok 3309
  else if haveMldsa = true ∧ alg = algMlDsa87 then .ok 4627
  else .error .coseBadAlg

/-- `wolfCose_AlgToCrv`; the polymorphic algorithm has curve 0, and the key's curve
selects. -/
def algToCrv (alg : Int) : Except Err Int :=
  if isEs256 alg then .ok crvP256
  else if isEs384 alg then .ok crvP384
  else if isEs512 alg then .ok crvP521
  else if isEddsa alg then .ok 0
  else if haveEddsa = true ∧ alg = algEd25519 then .ok crvEd25519
  else if haveEd448 = true ∧ alg = algEd448 then .ok crvEd448
  else .error .coseBadAlg

/-- `wolfCose_AlgIsEcdsa` -/
def algIsEcdsa (alg : Int) : Bool :=
  match algToCrv alg with
  | .ok crv => crv = crvP256 ∨ crv = crvP384 ∨ crv = crvP521
  | .error _ => false

/-- `wolfCose_AlgIsEddsa` -/
def algIsEddsa (alg : Int) : Bool :=
  match algToCrv alg with
  | .ok crv => crv = crvEd25519 ∨ crv = crvEd448 ∨ crv = 0
  | .error _ => false

/-- `WOLFCOSE_HAVE_RSAPSS` -/
def haveRsapss : Bool := havePs256 || havePs384 || havePs512

omit [Settings]

/-- The algorithms of RSASSA-PSS. -/
def algIsPss (alg : Int) : Bool :=
  alg = algPs256 ∨ alg = algPs384 ∨ alg = algPs512

/-- The algorithms of ML-DSA. -/
def algIsMlDsa (alg : Int) : Bool :=
  alg = algMlDsa44 ∨ alg = algMlDsa65 ∨ alg = algMlDsa87

theorem sigSize_mlDsa [Settings] (h : haveMldsa = true) :
  sigSize algMlDsa44 = .ok 2420 ∧ sigSize algMlDsa65 = .ok 3309 ∧ sigSize algMlDsa87 = .ok 4627
  := by
  simp [sigSize, isEs256, isEs384, isEs512, isEddsa, algMlDsa44, algMlDsa65, algMlDsa87, algEs256,
    algEsp256, algEs384, algEsp384, algEs512, algEsp512, algEddsa, algEd25519, algEd448, h]

theorem sigSize_hssLms [Settings] :
  sigSize algHssLms = .error .coseBadAlg
  := by
  simp [sigSize, isEs256, isEs384, isEs512, isEddsa, algMlDsa44, algMlDsa65, algMlDsa87, algEs256,
    algEsp256, algEs384, algEsp384, algEs512, algEsp512, algEddsa, algEd25519, algEd448, algHssLms]

theorem sigSize_pss [Settings] {alg : Int} (h : algIsPss alg = true) :
  sigSize alg = .error .coseBadAlg
  := by
  simp only [algIsPss, decide_eq_true_eq] at h
  rcases h with rfl | rfl | rfl
  all_goals
    simp [sigSize, isEs256, isEs384, isEs512, isEddsa, algMlDsa44, algMlDsa65, algMlDsa87, algEs256,
      algEsp256, algEs384, algEsp384, algEs512, algEsp512, algEddsa, algEd25519, algEd448, algPs256,
      algPs384, algPs512]

/-- `wolfCose_AlgCheckCrv` -/
def algCheckCrv (alg crv : Int) : Except Err Unit :=
  match algToCrv alg with
  | .ok expectedCrv =>
      if expectedCrv ≠ 0 ∧ crv ≠ expectedCrv then .error .coseBadAlg else .ok ()
  | .error e => .error e

/-- `wolfCose_CrvKeySize` -/
def crvKeySize (crv : Int) : Except Err Nat :=
  if crv = crvP256 then .ok 32
  else if crv = crvP384 then .ok 48
  else if crv = crvP521 then .ok 66
  else if crv = crvEd25519 then .ok 32
  else if crv = crvEd448 then .ok 57
  else .error .coseBadAlg

/-- `wolfCose_CrvToWcCurve` -/
def crvToWcCurve (crv : Int) : Except Err WcCurve :=
  if crv = crvP256 then .ok .secp256r1
  else if crv = crvP384 then .ok .secp384r1
  else if crv = crvP521 then .ok .secp521r1
  else .error .coseBadAlg

/-- `wolfCose_HashToMgf` for the hash functions of the build. -/
def hashToMgf (hashType : HashType) : Except Err Mgf :=
  match hashType with
  | .sha256 => .ok .sha256
  | .sha384 => if havePs384 = true then .ok .sha384 else .error .coseBadAlg
  | .sha512 => if havePs512 = true then .ok .sha512 else .error .coseBadAlg

end WolfCose
