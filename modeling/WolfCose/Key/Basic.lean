import WolfCose.Crypto
import WolfCose.Fault

/-!
# Keys

A `WOLFCOSE_KEY` refers to a key object of the caller through a union of pointers.  Two
fields say which member of the union is meant: the key type `kty`, which is part of the COSE
key, and `attachedType`, which the functions that attach an object set.  Following the
pointer as one of another type is undefined.
-/

namespace WolfCose

open Program Settings WolfCrypt

/-- What a pointer in the key union points to. -/
inductive KeyObject [WolfCrypt] where
  | null
  | ecc (key : EccKey)
  | ed25519 (key : Ed25519Key)
  | ed448 (key : Ed448Key)
  | rsa (key : RsaKey)
  | mldsa (key : MlDsaKey)
  | lms (key : LmsKey)
  | symm (key : Bytes)

namespace KeyObject

variable [WolfCrypt]

/-- The comparison of a pointer with `NULL`. -/
def isNull : KeyObject → Bool
  | null => true
  | _ => false

/-- The object at a pointer `ecc_key*`. -/
def asEcc : KeyObject → Checked EccKey
  | ecc key => .ok key
  | _ => .error .undefined

/-- The object at a pointer `ed25519_key*`. -/
def asEd25519 : KeyObject → Checked Ed25519Key
  | ed25519 key => .ok key
  | _ => .error .undefined

/-- The object at a pointer `ed448_key*`. -/
def asEd448 : KeyObject → Checked Ed448Key
  | ed448 key => .ok key
  | _ => .error .undefined

/-- The object at a pointer `RsaKey*`. -/
def asRsa : KeyObject → Checked RsaKey
  | rsa key => .ok key
  | _ => .error .undefined

/-- The object at a pointer `wc_MlDsaKey*`. -/
def asMldsa : KeyObject → Checked MlDsaKey
  | mldsa key => .ok key
  | _ => .error .undefined

/-- The object at a pointer `LmsKey*`. -/
def asLms : KeyObject → Checked LmsKey
  | lms key => .ok key
  | _ => .error .undefined

/-- The first `len` bytes at a pointer `const uint8_t*`. -/
def asSymm (len : Nat) : KeyObject → Checked Bytes
  | symm key => if len ≤ key.length then .ok (key.take len) else .error .undefined
  | _ => .error .undefined

variable {object : KeyObject}

@[simp]
theorem asEcc_eq_ok {key : EccKey} :
  object.asEcc = .ok key ↔ object = .ecc key
  := by cases object <;> simp [asEcc]

@[simp]
theorem asEd25519_eq_ok {key : Ed25519Key} :
  object.asEd25519 = .ok key ↔ object = .ed25519 key
  := by cases object <;> simp [asEd25519]

@[simp]
theorem asEd448_eq_ok {key : Ed448Key} :
  object.asEd448 = .ok key ↔ object = .ed448 key
  := by cases object <;> simp [asEd448]

@[simp]
theorem asRsa_eq_ok {key : RsaKey} :
  object.asRsa = .ok key ↔ object = .rsa key
  := by cases object <;> simp [asRsa]

@[simp]
theorem asMldsa_eq_ok {key : MlDsaKey} :
  object.asMldsa = .ok key ↔ object = .mldsa key
  := by cases object <;> simp [asMldsa]

@[simp]
theorem asLms_eq_ok {key : LmsKey} :
  object.asLms = .ok key ↔ object = .lms key
  := by cases object <;> simp [asLms]

end KeyObject

/-- The values `WOLFCOSE_ATT_*` of the field `attachedType`. -/
inductive AttachedType where
  | none
  | ecc
  | ed25519
  | ed448
  | rsa
  | mldsa
  | symmetric
  | lms
  deriving DecidableEq, Repr

/-- A key `WOLFCOSE_KEY`.  The union is its first word, a pointer, and the length `symm.keyLen`
beside it; `signCb` is the callback of a delegated signer with its context. -/
structure Key [WolfCrypt] where
  kty : Int
  alg : Int
  crv : Int
  kid : Pointer
  object : KeyObject
  symmKeyLen : Nat
  mldsaSeed : Pointer
  hasPrivate : Bool
  attachedType : AttachedType
  signCb : Option SignCb

section

variable [WolfCrypt]

/-- A key with all bytes zero. -/
def Key.zero : Key where
  kty := 0
  alg := 0
  crv := 0
  kid := .null 0
  object := .null
  symmKeyLen := 0
  mldsaSeed := .null 0
  hasPrivate := false
  attachedType := .none
  signCb := none

/-- A symmetric key that is not restricted to an algorithm. -/
def Key.ofSymmetric (data : Bytes) : Key :=
  ⟨ktySymmetric, algUnset, 0, .null 0, .symm data, data.length, .null 0, true, .symmetric, none⟩

/-- A key for Ed25519 that is not restricted to an algorithm. -/
def Key.ofEd25519 (ed25519Key : Ed25519Key) (hasPrivate : Bool) : Key :=
  ⟨ktyOkp, algUnset, crvEd25519, .null 0, .ed25519 ed25519Key, 0, .null 0, hasPrivate, .ed25519, none⟩

/-- A key for P-256 that is not restricted to an algorithm. -/
def Key.ofP256 (eccKey : EccKey) (hasPrivate : Bool) : Key :=
  ⟨ktyEc2, algUnset, crvP256, .null 0, .ecc eccKey, 0, .null 0, hasPrivate, .ecc, none⟩

/-- The pointer `symm.key` of a key and the length beside it. -/
def Key.symmKey (key : Key) : Checked Pointer :=
  match key.object with
  | .null => .ok (.null key.symmKeyLen)
  | object => do
      let symmKey ← object.asSymm key.symmKeyLen
      return .mem symmKey

theorem KeyObject.asSymm_eq_ok {object : KeyObject} {len : Nat} {bytes : Bytes} :
  object.asSymm len = .ok bytes ↔ ∃ key, object = .symm key ∧ len ≤ key.length ∧ bytes = key.take len
  := by
  cases object with
  | symm key =>
      by_cases hle : len ≤ key.length
      · simp [KeyObject.asSymm, hle, eq_comm]
      · simp [KeyObject.asSymm, hle]
  | _ => simp [KeyObject.asSymm]

/-- The pointer to a key comes with the length of the key. -/
theorem len_symmKey {key : Key} {p : Pointer} (h : key.symmKey = .ok p) :
  p.len = key.symmKeyLen
  := by
  unfold Key.symmKey at h
  split at h
  · cases h
    rfl
  · simp only [bind_eq_ok, pure_eq_ok, KeyObject.asSymm_eq_ok] at h
    obtain ⟨_, ⟨bytes, -, hle, rfl⟩, rfl⟩ := h
    exact List.length_take_of_le hle

end

end WolfCose
