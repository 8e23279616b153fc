import WolfCose.Codec.Encode
import WolfCose.Alg
import WolfCose.Mac.Compute

/-!
# PSA attestation tokens

The data of `eat_psa.h`: the claims an attester hands over, the token a verifier gets back, and
the rules of `wolfcose_eat_psa.c` on single claims, which the encoder and the decoder share.  A
span is a pointer and length; the null pointer stands for an absent claim.
-/

namespace WolfCose

open Settings MacSettings

/-- The settings of a build that verifies PSA tokens. -/
class EatPsaSettings [Settings] where
  /-- Whether `WOLFCOSE_EAT_PSA_CURRENT` is defined: the profile of RFC 9783. -/
  eatPsaCurrent : Bool
  /-- Whether `WOLFCOSE_EAT_PSA_LEGACY` is defined: `PSA_IOT_PROFILE_1`. -/
  eatPsaLegacy : Bool
  /-- Whether `WOLFCOSE_EAT_PSA_SIGN1` is defined. -/
  eatPsaSign1 : Bool
  /-- Whether `WOLFCOSE_EAT_PSA_MAC0` is defined. -/
  eatPsaMac0 : Bool
  /-- `WOLFCOSE_EAT_PSA_VERIFY` is defined. -/
  eatPsaVerify_eq : eatPsaVerify = true
  /-- `WOLFCOSE_EAT_PSA_MAX_COMPONENTS` -/
  maxComponents : Nat
  /-- `WOLFCOSE_EAT_PSA_MAX_CLAIMS` -/
  maxClaims : Nat
  /-- The floor check of `settings.h` on `WOLFCOSE_EAT_PSA_MAX_CLAIMS`. -/
  ten_le_maxClaims : 10 ≤ maxClaims
  /-- `WOLFCOSE_EAT_PSA_MAX_COMPONENT_CLAIMS` -/
  maxComponentClaims : Nat
  /-- The floor check of `settings.h` on `WOLFCOSE_EAT_PSA_MAX_COMPONENT_CLAIMS`. -/
  five_le_maxComponentClaims : 5 ≤ maxComponentClaims

open EatPsaSettings

/-- Whether `WOLFCOSE_EAT_PSA_TFM_FULL` is defined: the current profile with every algorithm and
envelope that a receiver of it has to accept. -/
def eatPsaTfmFull [Settings] [MacSettings] [EatPsaSettings] : Bool :=
  eatPsaCurrent && eatPsaSign1 && eatPsaMac0 && haveDeprecatedAlgs && haveEs256 && haveEs384 &&
    haveEs512 && haveHmac256 && haveHmac384 && haveHmac512

/-! ### Data -/

/-- `WOLFCOSE_EAT_PSA_PROFILE` -/
inductive EatPsaProfile where
  | none | current | old
  deriving DecidableEq, Repr

/-- `WOLFCOSE_EAT_PSA_PROTECTION` -/
inductive EatPsaProtection where
  | none | sign1 | mac0
  deriving DecidableEq, Repr

/-- `WOLFCOSE_EAT_PSA_COMPONENT` -/
structure EatPsaComponent where
  measurementType : Pointer
  measurementValue : Pointer
  version : Pointer
  signerId : Pointer
  measurementDesc : Pointer
  deriving DecidableEq, Repr

/-- The component with all bytes zero. -/
def EatPsaComponent.zero : EatPsaComponent := ⟨.null 0, .null 0, .null 0, .null 0, .null 0⟩

/-- `WOLFCOSE_EAT_PSA_CLAIMS`; the component array with its count may be null. -/
structure EatPsaClaims where
  nonce : Pointer
  ueid : Pointer
  implementationId : Pointer
  bootSeed : Pointer
  certificationReference : Pointer
  verificationServiceIndicator : Pointer
  clientId : Int32
  lifecycle : UInt16
  components : Option (List EatPsaComponent)

/-- `WOLFCOSE_EAT_PSA_TOKEN` -/
structure EatPsaToken where
  profile : EatPsaProfile
  protection : EatPsaProtection
  nonce : Pointer
  ueid : Pointer
  implementationId : Pointer
  bootSeed : Pointer
  certificationReference : Pointer
  verificationServiceIndicator : Pointer
  clientId : Int32
  lifecycle : UInt16
  components : Pointer
  componentCount : Nat
  noSoftwareMeasurements : UInt8
  deriving DecidableEq, Repr

/-- The token with all bytes zero. -/
def EatPsaToken.zero : EatPsaToken where
  profile := .none
  protection := .none
  nonce := .null 0
  ueid := .null 0
  implementationId := .null 0
  bootSeed := .null 0
  certificationReference := .null 0
  verificationServiceIndicator := .null 0
  clientId := 0
  lifecycle := 0
  components := .null 0
  componentCount := 0
  noSoftwareMeasurements := 0

/-- `WOLFCOSE_EAT_PSA_PROFILE_TFM`: the text "tag:psacertified.org,2023:psa#tfm". -/
def eatPsaTfmProfile : Bytes :=
  [0x74, 0x61, 0x67, 0x3A, 0x70, 0x73, 0x61, 0x63, 0x65, 0x72, 0x74, 0x69, 0x66, 0x69, 0x65, 0x64, 0x2E,
    0x6F, 0x72, 0x67, 0x2C, 0x32, 0x30, 0x32, 0x33, 0x3A, 0x70, 0x73, 0x61, 0x23, 0x74, 0x66, 0x6D]

/-- `WOLFCOSE_EAT_PSA_PROFILE_LEGACY`: the text "PSA_IOT_PROFILE_1". -/
def eatPsaLegacyProfile : Bytes :=
  [0x50, 0x53, 0x41, 0x5F, 0x49, 0x4F, 0x54, 0x5F, 0x50, 0x52, 0x4F, 0x46, 0x49, 0x4C, 0x45, 0x5F, 0x31]

/-! ### Rules on single claims -/

/-- `wolfCose_EatPsaConstantCompare` for two byte strings of one length: zero if they agree. -/
def eatPsaConstantCompare (a b : Bytes) : UInt8 :=
  (a.zip b).foldl (fun result p => result ||| (p.1 ^^^ p.2)) 0

/-- `wolfCose_EatPsaIsHash` -/
def eatPsaIsHash (span : Pointer) : Bool :=
  !span.isNull && (span.len == 32 || span.len == 48 || span.len == 64)

/-- `wolfCose_EatPsaIsOptionalSpan` -/
def eatPsaIsOptionalSpan (span : Pointer) : Bool :=
  (span.isNull && span.len == 0) || !span.isNull

/-- `wolfCose_EatPsaLifecycleValid` -/
def eatPsaLifecycleValid (lifecycle : UInt16) : Bool :=
  let major := lifecycle &&& 0xFF00
  major == 0x0000 || major == 0x1000 || major == 0x2000 || major == 0x3000 || major == 0x4000 ||
    major == 0x5000 || major == 0x6000

/-- `wolfCose_EatPsaCertRefValid`: decimal digits, with a dash at position 13 where there is a
version. -/
def eatPsaCertRefValid (span : Pointer) (digits : Nat) (hasVersion : Bool) : Bool :=
  !span.isNull && span.len == digits + (if hasVersion then 1 else 0) &&
    span.bytes.zipIdx.all fun (b, i) =>
      if hasVersion && i == 13 then b == 0x2D else 0x30 ≤ b && b ≤ 0x39

theorem eatPsaConstantCompare_foldl (r : UInt8) {a b : Bytes} (h : a.length = b.length) :
  (a.zip b).foldl (fun result p => result ||| (p.1 ^^^ p.2)) r = 0 ↔ r = 0 ∧ a = b
  := by
  induction a generalizing b r with
  | nil =>
      obtain rfl := List.eq_nil_of_length_eq_zero h.symm
      simp
  | cons x a ih =>
      obtain _ | ⟨y, b⟩ := b
      · cases h
      rw [List.zip_cons_cons, List.foldl_cons, ih _ (Nat.succ.inj h), UInt8.or_eq_zero_iff,
        UInt8.xor_eq_zero_iff, List.cons.injEq, and_assoc]

/-- Two byte strings of one length compare as equal exactly if they are. -/
theorem eatPsaConstantCompare_eq_zero {a b : Bytes} (h : a.length = b.length) :
  eatPsaConstantCompare a b = 0 ↔ a = b
  := by
  rw [eatPsaConstantCompare, eatPsaConstantCompare_foldl 0 h]
  simp

section Instances

attribute [local instance] defaultSettings

/-- A build with the default limits and both profiles. -/
@[reducible]
def defaultEatPsaSettings : EatPsaSettings where
  eatPsaCurrent := true
  eatPsaLegacy := true
  eatPsaSign1 := true
  eatPsaMac0 := true
  eatPsaVerify_eq := rfl
  maxComponents := 32
  maxClaims := 64
  ten_le_maxClaims := by decide
  maxComponentClaims := 16
  five_le_maxComponentClaims := by decide

end Instances

end WolfCose
