import WolfCose.Lib.StateError
import WolfCose.Lib.Bytes

/-!
# Settings, error codes and memory objects

What a build of the library fixes: the limits of `settings.h`, the width of `size_t`, and
the optional features that change how headers are decoded.  Everything else is developed
over an arbitrary build.
-/

namespace WolfCose

/-- The error codes `WOLFCOSE_E_*`. -/
inductive Err where
  | invalidArg
  | bufferTooSmall
  | cborMalformed
  | cborType
  | cborOverflow
  | cborDepth
  | coseBadTag
  | coseBadAlg
  | coseSigFail
  | coseDecryptFail
  | coseBadHdr
  | coseKeyType
  | coseMacFail
  | crypto
  | unsupported
  | macFail
  | detachedPayload
  | eatPsaClaim
  | eatPsaProfile
  | eatPsaNonce
  deriving DecidableEq, Repr

/-- The settings of a build. -/
class Settings where
  /-- `WOLFCOSE_CBOR_MAX_DEPTH` -/
  maxDepth : Nat
  /-- The floor check of `settings.h` on `WOLFCOSE_CBOR_MAX_DEPTH`. -/
  four_le_maxDepth : 4 ≤ maxDepth
  /-- `WOLFCOSE_MAX_MAP_ITEMS` -/
  maxMapItems : Nat
  /-- The floor check of `settings.h` on `WOLFCOSE_MAX_MAP_ITEMS`. -/
  four_le_maxMapItems : 4 ≤ maxMapItems
  /-- `SIZE_MAX` -/
  sizeMax : Nat
  /-- `size_t` has 32 or 64 bits. -/
  sizeMax_eq : sizeMax = 2 ^ 32 - 1 ∨ sizeMax = 2 ^ 64 - 1
  /-- Whether `WOLFCOSE_COSE_TEXT_LABELS` is defined. -/
  textLabels : Bool
  /-- Whether `WOLFCOSE_EAT_PSA_VERIFY` is defined. -/
  eatPsaVerify : Bool
  /-- Whether `WOLFCOSE_HAVE_HPKE_0` is defined. -/
  haveHpke0 : Bool
  /-- Whether `WOLFCOSE_HPKE_0_KE_DECRYPT` is defined. -/
  hpke0KeDecrypt : Bool
  /-- Every HPKE-0 operation defines `WOLFCOSE_HAVE_HPKE_0`. -/
  haveHpke0_of_keDecrypt : hpke0KeDecrypt = true → haveHpke0 = true
  /-- Whether `WOLFCOSE_HAVE_DEPRECATED_ALGS` is defined. -/
  haveDeprecatedAlgs : Bool
  /-- Whether `WOLFCOSE_HAVE_ES256` is defined. -/
  haveEs256 : Bool
  /-- Whether `WOLFCOSE_HAVE_ES384` is defined. -/
  haveEs384 : Bool
  /-- Whether `WOLFCOSE_HAVE_ES512` is defined. -/
  haveEs512 : Bool
  /-- Whether `WOLFCOSE_HAVE_EDDSA` is defined: signatures with Ed25519. -/
  haveEddsa : Bool
  /-- Whether `WOLFCOSE_HAVE_ED448` is defined. -/
  haveEd448 : Bool
  /-- Whether `WOLFCOSE_HAVE_PS256` is defined. -/
  havePs256 : Bool
  /-- Whether `WOLFCOSE_HAVE_PS384` is defined. -/
  havePs384 : Bool
  /-- Whether `WOLFCOSE_HAVE_PS512` is defined. -/
  havePs512 : Bool
  /-- Whether `WOLFCOSE_HAVE_MLDSA` is defined. -/
  haveMldsa : Bool
  /-- Whether `WOLFCOSE_HAVE_LMS` is defined. -/
  haveLms : Bool
  /-- Whether `NO_ASN` is defined: wolfCrypt then takes raw ECDSA signatures. -/
  noAsn : Bool
  /-- Whether `WOLFCOSE_HAVE_DETERMINISTIC_ECDSA` is defined. -/
  haveDeterministicEcdsa : Bool
  /-- Whether `WOLFSSL_LMS_VERIFY_ONLY` is defined: wolfCrypt then has no HSS-LMS signing. -/
  lmsVerifyOnly : Bool
  /-- Whether `WOLFCOSE_EXT_SIGN` is defined: signing can be delegated to a callback. -/
  extSign : Bool
  /-- `WOLFCOSE_PROTECTED_HDR_MAX` -/
  protectedHdrMax : Nat
  /-- The protected header is a buffer in memory. -/
  protectedHdrMax_le : protectedHdrMax ≤ sizeMax

open Settings

theorem sizeMax_lt [Settings] :
  sizeMax < 2 ^ 64
  := by
  rcases sizeMax_eq with h | h
  · rw [h]
    decide
  · rw [h]
    decide

theorem lt_sizeMax [Settings] :
  2 ^ 31 < sizeMax
  := by
  rcases sizeMax_eq with h | h
  · rw [h]
    decide
  · rw [h]
    decide

/-- A build with the default limits, a 64-bit `size_t` and every feature. -/
@[reducible]
def defaultSettings : Settings where
  maxDepth := 8
  four_le_maxDepth := by decide
  maxMapItems := 16
  four_le_maxMapItems := by decide
  sizeMax := 2 ^ 64 - 1
  sizeMax_eq := .inr rfl
  textLabels := true
  eatPsaVerify := true
  haveHpke0 := true
  hpke0KeDecrypt := true
  haveHpke0_of_keDecrypt := fun _ => rfl
  haveDeprecatedAlgs := true
  haveEs256 := true
  haveEs384 := true
  haveEs512 := true
  haveEddsa := true
  haveEd448 := true
  havePs256 := true
  havePs384 := true
  havePs512 := true
  haveMldsa := true
  haveLms := true
  noAsn := false
  haveDeterministicEcdsa := true
  lmsVerifyOnly := false
  extSign := true
  protectedHdrMax := 64
  protectedHdrMax_le := by decide

/-- `wolfCose_LenFitsWord32`, which all lengths pass where `size_t` has 32 bits. -/
def lenFitsWord32 (n : Nat) : Bool := n ≤ 0xFFFFFFFF

/-- The content of a memory object, whose size is a `size_t`. -/
structure Buffer [Settings] where
  bytes : Bytes
  length_le : bytes.length ≤ sizeMax

/-- The memory object with the given content.  A program has no longer ones. -/
def Buffer.ofBytes [Settings] (bs : Bytes) : Buffer :=
  ⟨bs.take sizeMax, List.length_take_le sizeMax bs⟩

theorem Buffer.bytes_ofBytes [Settings] {bs : Bytes} (h : bs.length ≤ sizeMax) :
  (ofBytes bs).bytes = bs
  := List.take_of_length_le h

/-- A memory object is that of its content. -/
theorem Buffer.eq_ofBytes [Settings] {b : Buffer} {bs : Bytes} (h : b.bytes = bs) :
  b = .ofBytes bs
  := by
  subst h
  cases b with
  | mk bytes hle =>
      unfold ofBytes
      congr 1
      exact (List.take_of_length_le hle).symm

/-- A pointer and length an API receives: the null pointer with whatever length the caller
passed beside it, or the bytes it points to. -/
inductive Pointer where
  | null (len : Nat)
  | mem (bytes : Bytes)
  deriving DecidableEq, Repr

namespace Pointer

/-- The length passed beside a pointer. -/
def len : Pointer → Nat
  | .null n => n
  | .mem bs => bs.length

/-- Whether a pointer is the null pointer. -/
def isNull : Pointer → Bool
  | .null _ => true
  | .mem _ => false

/-- The bytes a pointer denotes; the null pointer denotes none. -/
def bytes : Pointer → Bytes
  | .null _ => []
  | .mem bs => bs

/-- The null pointer comes with length zero only. -/
def Valid (p : Pointer) : Prop :=
  p.isNull = true → p.len = 0

instance (p : Pointer) : Decidable p.Valid := inferInstanceAs (Decidable (_ → _))

theorem valid_mem (bs : Bytes) :
  (mem bs).Valid
  := by
  rintro ⟨⟩

theorem Valid.len_eq {p : Pointer} (h : p.Valid) :
  p.len = p.bytes.length
  := by
  cases p with
  | null n => exact h rfl
  | mem bs => rfl

end Pointer

end WolfCose
