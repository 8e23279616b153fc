import WolfCose.Alg
import WolfCose.Lib.Bytes

/-!
# wolfCrypt

The key objects and primitives of wolfCrypt that the library calls are parameters of this
development.  Nothing is assumed of them here; where a result relies on what a primitive
does, it says so.
-/

namespace WolfCose

/-- What `wc_LmsKey_Verify` returns: success, `SIG_VERIFY_E`, or another error. -/
inductive LmsVerifyResult where
  | ok
  | sigVerifyE
  | error
  deriving DecidableEq, Repr

/-- The field `state` of an `LmsKey`, with the values `WC_LMS_STATE_*` that the library tells
apart. -/
inductive LmsState where
  | ok
  | verifyOnly
  | noSigs
  | bad
  | other
  deriving DecidableEq, Repr

/-- The parts of wolfCrypt that the library uses.  A function that reports errors returns
nothing then, and a verification returns whether the signature is verified.  A function that
may depend on more than its arguments takes and returns the environment. -/
class WolfCrypt where
  EccKey : Type
  Ed25519Key : Type
  Ed448Key : Type
  RsaKey : Type
  MlDsaKey : Type
  LmsKey : Type
  /-- The callbacks of delegated signers, each with its context. -/
  SignCb : Type
  /-- Random number generators `WC_RNG`. -/
  Rng : Type
  /-- What the functions of the environment depend on: the states of random number generators
  and whatever the callbacks of the caller see. -/
  Env : Type
  /-- `wc_HashGetDigestSize` -/
  hashGetDigestSize : HashType → Int
  /-- `wc_Hash` into a buffer of the given size. -/
  hash : HashType → Bytes → Nat → Option Bytes
  /-- `wc_ecc_size` -/
  eccSize : EccKey → Int
  /-- Whether the parameters `dp` of a key are set. -/
  eccHasDp : EccKey → Bool
  /-- The curve index `idx` of a key. -/
  eccIdx : EccKey → Int
  /-- `wc_ecc_get_curve_id` -/
  eccGetCurveId : Int → WcCurve
  /-- `wc_ecc_get_curve_id_from_dp_params` for the parameters of a key. -/
  eccGetCurveIdFromDpParams : EccKey → WcCurve
  /-- `wc_ecc_rs_raw_to_sig` -/
  eccRsRawToSig : Bytes → Bytes → Option Bytes
  /-- `wc_ecc_verify_hash` for a signature, a hash and a key. -/
  eccVerifyHash : Bytes → Bytes → EccKey → Option Bool
  /-- `wc_ed25519_verify_msg` for a signature, a message and a key. -/
  ed25519VerifyMsg : Bytes → Bytes → Ed25519Key → Option Bool
  /-- `wc_ed448_verify_msg` without context. -/
  ed448VerifyMsg : Bytes → Bytes → Ed448Key → Option Bool
  /-- `wc_RsaEncryptSize` -/
  rsaEncryptSize : RsaKey → Int
  /-- The modulus of a key as `wc_export_int` or `wc_RsaFlattenPublicKey` gives it. -/
  rsaExportModulus : RsaKey → Option Bytes
  /-- Whether a key is held by a hardware backend. -/
  rsaHeldByBackend : RsaKey → Bool
  /-- `wc_RsaPSS_VerifyCheck` for a signature, the size of the output, a digest, the hash and
  mask generation functions and a key. -/
  rsaPssVerifyCheck : Bytes → Nat → Bytes → HashType → Mgf → RsaKey → Int
  /-- The field `level` of a key. -/
  mlDsaLevel : MlDsaKey → Nat
  /-- `wc_MlDsaKey_VerifyCtx` without context, for a key, a signature and a message. -/
  mlDsaVerifyCtx : MlDsaKey → Bytes → Bytes → Option Bool
  /-- `wc_LmsKey_Verify` for a key, a signature and a message. -/
  lmsVerify : LmsKey → Bytes → Bytes → LmsVerifyResult
  /-- `wc_ecc_set_deterministic_ex` with the flag set. -/
  eccSetDeterministicEx : EccKey → HashType → Option EccKey
  /-- `wc_ecc_sign_hash` for a hash, a generator and a key. -/
  eccSignHash : Bytes → Rng → EccKey → Env → Option Bytes × Env
  /-- `wc_ecc_sig_to_rs` -/
  eccSigToRs : Bytes → Option (Bytes × Bytes)
  /-- `wc_ed25519_sign_msg` for a message and a key. -/
  ed25519SignMsg : Bytes → Ed25519Key → Option Bytes
  /-- `wc_ed448_sign_msg` without context. -/
  ed448SignMsg : Bytes → Ed448Key → Option Bytes
  /-- `wc_RsaPSS_Sign_ex` for a digest, the size of the output, the hash and mask generation
  functions, the length of the salt, a key and a generator. -/
  rsaPssSignEx : Bytes → Nat → HashType → Mgf → Nat → RsaKey → Option Rng → Env → Option Bytes × Env
  /-- `wc_MlDsaKey_SignCtx` without context, for a key, the size of the output, a message and
  a generator. -/
  mlDsaSignCtx : MlDsaKey → Nat → Bytes → Option Rng → Env → Option Bytes × Env
  /-- `wc_LmsKey_GetSigLen` -/
  lmsGetSigLen : LmsKey → Option Nat
  /-- `wc_LmsKey_SigsLeft` -/
  lmsSigsLeft : LmsKey → Int
  /-- The field `state` of a key. -/
  lmsState : LmsKey → LmsState
  /-- The key with its field `state` set. -/
  lmsSetState : LmsKey → LmsState → LmsKey
  /-- `wc_LmsKey_Sign` for a key, the size of the output and a message; it changes the key. -/
  lmsSign : LmsKey → Nat → Bytes → Env → (Option Bytes × LmsKey) × Env
  /-- The callback of a delegated signer for an algorithm, the bytes to be signed and the size
  of the output; the result is what it writes to the output and the length it reports. -/
  signCb : SignCb → Int → Bytes → Nat → Env → Option (Bytes × Nat) × Env

/-- A wolfCrypt whose keys are byte strings and in which every primitive fails.  The examples
of this development replace the primitives they use. -/
@[reducible]
def failingCrypt : WolfCrypt where
  EccKey := Bytes
  Ed25519Key := Bytes
  Ed448Key := Bytes
  RsaKey := Bytes
  MlDsaKey := Bytes
  LmsKey := Bytes
  SignCb := Unit
  Rng := Unit
  Env := Unit
  hashGetDigestSize
    | .sha256 => 32
    | .sha384 => 48
    | .sha512 => 64
  hash _ _ _ := none
  eccSize _ := 0
  eccHasDp _ := false
  eccIdx _ := -1
  eccGetCurveId _ := .invalid
  eccGetCurveIdFromDpParams _ := .invalid
  eccRsRawToSig _ _ := none
  eccVerifyHash _ _ _ := none
  ed25519VerifyMsg _ _ _ := none
  ed448VerifyMsg _ _ _ := none
  rsaEncryptSize _ := 0
  rsaExportModulus _ := none
  rsaHeldByBackend _ := false
  rsaPssVerifyCheck _ _ _ _ _ _ := -1
  mlDsaLevel _ := 0
  mlDsaVerifyCtx _ _ _ := none
  lmsVerify _ _ _ := .error
  eccSetDeterministicEx _ _ := none
  eccSignHash _ _ _ env := (none, env)
  eccSigToRs _ := none
  ed25519SignMsg _ _ := none
  ed448SignMsg _ _ := none
  rsaPssSignEx _ _ _ _ _ _ _ env := (none, env)
  mlDsaSignCtx _ _ _ _ env := (none, env)
  lmsGetSigLen _ := none
  lmsSigsLeft _ := 0
  lmsState _ := .other
  lmsSetState key _ := key
  lmsSign key _ _ env := ((none, key), env)
  signCb _ _ _ _ env := (none, env)

/-! ### Known answers -/

/-- A private key for P-256. -/
def p256Private : Bytes :=
  [0xC9, 0xAF, 0xA9, 0xD8, 0x45, 0xBA, 0x75, 0x16, 0x6B, 0x5C, 0x21, 0x57, 0x67, 0xB1, 0xD6, 0x93,
    0x4E, 0x50, 0xC3, 0xDB, 0x36, 0xE8, 0x9B, 0x12, 0x7B, 0x8A, 0x62, 0x2B, 0x12, 0x0F, 0x67, 0x21]

/-- A secret key of Ed25519. -/
def ed25519Secret : Bytes :=
  [0x9D, 0x61, 0xB1, 0x9D, 0xEF, 0xFD, 0x5A, 0x60, 0xBA, 0x84, 0x4A, 0xF4, 0x92, 0xEC, 0x2C, 0xC4,
    0x44, 0x49, 0xC5, 0x69, 0x7B, 0x32, 0x69, 0x19, 0x70, 0x3B, 0xAC, 0x03, 0x1C, 0xAE, 0x7F, 0x60]

/-- Its public key. -/
def ed25519Public : Bytes :=
  [0xD7, 0x5A, 0x98, 0x01, 0x82, 0xB1, 0x0A, 0xB7, 0xD5, 0x4B, 0xFE, 0xD3, 0xC9, 0x64, 0x07, 0x3A,
    0x0E, 0xE1, 0x72, 0xF3, 0xDA, 0xA6, 0x23, 0x25, 0xAF, 0x02, 0x1A, 0x68, 0xF7, 0x07, 0x51, 0x1A]

/-- Another secret key of Ed25519. -/
def otherEd25519Secret : Bytes :=
  [0x4C, 0xCD, 0x08, 0x9B, 0x28, 0xFF, 0x96, 0xDA, 0x9D, 0xB6, 0xC3, 0x46, 0xEC, 0x11, 0x4E, 0x0F,
    0x5B, 0x8A, 0x31, 0x9F, 0x35, 0xAB, 0xA6, 0x24, 0xDA, 0x8C, 0xF6, 0xED, 0x4F, 0xB8, 0xA6, 0xFB]

/-- Its public key. -/
def otherEd25519Public : Bytes :=
  [0x3D, 0x40, 0x17, 0xC3, 0xE8, 0x43, 0x89, 0x5A, 0x92, 0xB7, 0x0A, 0xA7, 0x4D, 0x1B, 0x7E, 0xBC,
    0x9C, 0x98, 0x2C, 0xCF, 0x2E, 0xC4, 0x96, 0x8C, 0xC0, 0xCD, 0x55, 0xF1, 0x2A, 0xF4, 0x66, 0x0C]

/-- A key pair of Ed25519 and the signature that it makes of a message. -/
structure Ed25519Answer where
  secret : Bytes
  publicKey : Bytes
  msg : Bytes
  sig : Bytes

/-- The signature that a secret key makes of a message, as far as the answers go. -/
def ed25519SignatureOf (answers : List Ed25519Answer) (secret msg : Bytes) : Option Bytes :=
  (answers.find? fun a => a.secret == secret && a.msg == msg).map Ed25519Answer.sig

/-- A wolfCrypt that makes and verifies the signatures of the answers, and whose callbacks sign with the secret key that
they hold. -/
@[reducible]
def ed25519Crypt (answers : List Ed25519Answer) : WolfCrypt :=
  { failingCrypt with
    SignCb := Bytes
    ed25519SignMsg := fun msg (secret : Bytes) => ed25519SignatureOf answers secret msg
    ed25519VerifyMsg := fun sig msg (publicKey : Bytes) =>
      some (answers.any fun a => a.publicKey == publicKey && a.msg == msg && a.sig == sig)
    signCb := fun (secret : Bytes) _ msg _ env =>
      ((ed25519SignatureOf answers secret msg).map fun sig => (sig, sig.length), env) }

end WolfCose
