import WolfCose.Key.Decode

/-!
# Setting up keys

The functions that initialise a `WOLFCOSE_KEY`, attach an object of wolfCrypt or a delegated signer to
it, and clear it.  Each of them leaves the key as it is when it reports an error.
-/

namespace WolfCose

open Program Settings WolfCrypt KeyCrypt

variable [WolfCrypt]

/-- The result of a function on a key, and the key that it leaves behind. -/
abbrev KeyResult := Checked Unit × Option Key

/-- The frame of the functions that set up a key: the key is there, the checks pass, and the fields are
written. -/
def setKey (key : Option Key) (checks : Checked Unit) (write : Key → Key) : KeyResult :=
  match key, checks with
  | none, _ => (.error (.err .invalidArg), none)
  | some key, .ok () => (.ok (), some (write key))
  | some key, .error fault => (.error fault, some key)

/-- `wc_CoseKey_Init` -/
def keyInit (key : Option Key) : KeyResult := setKey key (.ok ()) fun _ => .zero

/-- `wc_CoseKey_Free` -/
def keyFree (key : Option Key) : Option Key := key.map fun _ => .zero

/-- The fields of a key that an attached object sets. -/
def Key.attach (key : Key) (kty alg crv : Int) (object : KeyObject) (attachedType : AttachedType)
    (hasPrivate : Bool) : Key :=
  { key with kty, alg, crv, object, attachedType, hasPrivate, signCb := none }

variable [KeyCrypt]

/-- `ECC_PRIVATEKEY` -/
def eccPrivateKey : Nat := 2

/-- `wc_CoseKey_SetEcc` -/
def keySetEcc (key : Option Key) (crv : Int) (eccKey : Option EccKey) : KeyResult :=
  match eccKey with
  | none => (.error (.err .invalidArg), key)
  | some eccKey =>
      setKey key (do
          failWhen (crv ≠ crvP256 ∧ crv ≠ crvP384 ∧ crv ≠ crvP521) .invalidArg
          failAs .invalidArg (eccKeyCheckCurve crv (.ecc eccKey)))
        fun key => key.attach ktyEc2 algUnset crv (.ecc eccKey) .ecc
          (decide (eccSize eccKey > 0) && decide (eccType eccKey = eccPrivateKey))

/-- `wc_CoseKey_SetEd25519` -/
def keySetEd25519 (key : Option Key) (edKey : Option Ed25519Key) : KeyResult :=
  match edKey with
  | none => (.error (.err .invalidArg), key)
  | some edKey =>
      setKey key (.ok ()) fun key =>
        key.attach ktyOkp algUnset crvEd25519 (.ed25519 edKey) .ed25519 (ed25519PrivKeySet edKey)

/-- `wc_CoseKey_SetEd448` -/
def keySetEd448 (key : Option Key) (edKey : Option Ed448Key) : KeyResult :=
  match edKey with
  | none => (.error (.err .invalidArg), key)
  | some edKey =>
      setKey key (.ok ()) fun key =>
        key.attach ktyOkp algUnset crvEd448 (.ed448 edKey) .ed448 (ed448PrivKeySet edKey)

/-- `wc_CoseKey_SetMlDsa_ex`; the seed is kept with the key. -/
def keySetMlDsaEx (key : Option Key) (alg : Int) (mlDsaKey : Option MlDsaKey) (seed : Pointer) : KeyResult :=
  match mlDsaKey with
  | none => (.error (.err .invalidArg), key)
  | some mlDsaKey =>
      setKey key (do
          failWhen (¬ isMlDsaAlg alg) .coseBadAlg
          failWhen (seed.isNull = false ∧ seed.len ≠ mlDsaSeedSz) .invalidArg)
        fun key =>
          { key.attach ktyAkp alg 0 (.mldsa mlDsaKey) .mldsa (mlDsaPrvKeySet mlDsaKey) with
            mldsaSeed := if seed.isNull = false then seed else .null 0 }

/-- `wc_CoseKey_SetMlDsa` -/
def keySetMlDsa (key : Option Key) (alg : Int) (mlDsaKey : Option MlDsaKey) : KeyResult :=
  keySetMlDsaEx key alg mlDsaKey (.null 0)

omit [KeyCrypt] in
/-- `wc_CoseKey_SetLms` -/
def keySetLms (key : Option Key) (lmsKey : Option LmsKey) : KeyResult :=
  match lmsKey with
  | none => (.error (.err .invalidArg), key)
  | some lmsKey =>
      setKey key (.ok ()) fun key =>
        key.attach ktyHssLms algHssLms 0 (.lms lmsKey) .lms (decide (lmsState lmsKey = .ok))

/-- `wc_CoseKey_SetRsa`, which leaves the curve of the key as it is. -/
def keySetRsa (key : Option Key) (rsaKey : Option RsaKey) : KeyResult :=
  match rsaKey with
  | none => (.error (.err .invalidArg), key)
  | some rsaKey =>
      setKey key (.ok ()) fun key =>
        key.attach ktyRsa algUnset key.crv (.rsa rsaKey) .rsa
          (decide (rsaEncryptSize rsaKey > 0) && rsaIsPrivate rsaKey)

omit [KeyCrypt] in
/-- `wc_CoseKey_SetSymmetric`, which leaves the curve of the key as it is. -/
def keySetSymmetric (key : Option Key) (data : Pointer) : KeyResult :=
  setKey key (failWhen (data.isNull = true ∨ data.len = 0) .invalidArg) fun key =>
    { key.attach ktySymmetric algUnset key.crv (.symm data.bytes) .symmetric true with symmKeyLen := data.len }

omit [KeyCrypt] in
/-- `wc_CoseKey_SetExtSigner` -/
def keySetExtSigner (key : Option Key) (cb : Option SignCb) : KeyResult :=
  setKey key (.ok ()) fun key => { key with signCb := cb }

end WolfCose
