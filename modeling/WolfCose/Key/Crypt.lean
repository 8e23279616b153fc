import WolfCose.Encrypt.Distribution
import WolfCose.Key.Basic

/-!
# Exporting and importing keys

The settings of a build that select the families of COSE keys, and the functions of wolfCrypt that
export key objects and import into them.
-/

namespace WolfCose

open Settings WolfCrypt

/-- The settings of a build that select the families of keys. -/
class KeySettings [Settings] where
  /-- Whether `HAVE_ECC` is defined. -/
  haveEcc : Bool
  /-- The algorithms ES256, ES384 and ES512 need `HAVE_ECC`. -/
  haveEcc_of_ecdsa : haveEs256 = true ∨ haveEs384 = true ∨ haveEs512 = true → haveEcc = true
  /-- Whether `HAVE_ECC` or `WOLFSSL_EXPORT_INT` is defined: wolfCrypt then has `wc_export_int`. -/
  haveExportInt : Bool
  haveExportInt_of_ecc : haveEcc = true → haveExportInt = true
  /-- `RSA_MAX_SIZE`, in bits. -/
  rsaMaxSize : Nat
  /-- Whether `WOLFCOSE_HAVE_RSA_PRIVATE_KEY_DECODE` is defined. -/
  haveRsaPrivateKeyDecode : Bool
  haveRsapss_of_decode : haveRsaPrivateKeyDecode = true → haveRsapss = true
  /-- Whether `WOLFCOSE_HAVE_RSA_PRIVATE_KEY` is defined. -/
  haveRsaPrivateKey : Bool
  /-- Private RSA keys are encoded where they can be decoded and `wc_export_int` is there. -/
  decode_of_haveRsaPrivateKey : haveRsaPrivateKey = true →
    haveRsaPrivateKeyDecode = true ∧ haveExportInt = true
  /-- Whether `WOLFSSL_MLDSA_NO_MAKE_KEY` is defined. -/
  mlDsaNoMakeKey : Bool

/-- The integers of an RSA key that `wc_export_int` exports: the public exponent `e`, and the
factors `p` and `q` with the values `dP`, `dQ` and `u` of the Chinese remainder theorem. -/
inductive RsaInt where
  | e
  | p
  | q
  | dP
  | dQ
  | u
  deriving DecidableEq, Repr

/-- The functions of wolfCrypt that export key objects and import into them, and the fields of
the objects that the library reads for that.  An export is into a buffer of the given size; one
that reports an error returns nothing.  An import returns whether it succeeds, and the object it
leaves behind. -/
class KeyCrypt [WolfCrypt] where
  /-- The field `type` of a key. -/
  eccType : EccKey → Nat
  /-- The field `state` of a key. -/
  eccState : EccKey → Int
  /-- Whether the field `deallocSet` of a key is zero and its private values are stored in the
  key itself. -/
  eccOwnsStorage : EccKey → Bool
  /-- Whether the private values of a key are zero. -/
  eccPrivateValuesAreZero : EccKey → Bool
  /-- Whether private keys can be imported into a key: not into one of a device. -/
  eccPrivateImportSupported : EccKey → Bool
  /-- A key with its private values cleared and the fields `type`, `idx`, `state` and `dp` of
  another one. -/
  eccPrivateImportRollback : (key saved : EccKey) → EccKey
  /-- `wc_ecc_export_private_only` -/
  eccExportPrivateOnly : EccKey → (bufSz : Nat) → Option Bytes
  /-- `wc_ecc_import_private_key_ex` of a private key without a public one. -/
  eccImportPrivateKeyEx : EccKey → (d : Bytes) → WcCurve → Bool × EccKey
  /-- `wc_ecc_import_unsigned` of a public key, and the private key if there is one. -/
  eccImportUnsignedEx : EccKey → (x y : Bytes) → (d : Option Bytes) → WcCurve → Bool × EccKey
  /-- The field `privKeySet` of a key. -/
  ed25519PrivKeySet : Ed25519Key → Bool
  /-- `wc_ed25519_export_public` -/
  ed25519ExportPublic : Ed25519Key → (bufSz : Nat) → Option Bytes
  /-- `wc_ed25519_export_private_only` -/
  ed25519ExportPrivateOnly : Ed25519Key → (bufSz : Nat) → Option Bytes
  /-- `wc_ed25519_import_public` -/
  ed25519ImportPublic : Ed25519Key → (x : Bytes) → Bool × Ed25519Key
  /-- `wc_ed25519_import_private_key` -/
  ed25519ImportPrivateKey : Ed25519Key → (d x : Bytes) → Bool × Ed25519Key
  /-- `wc_ed25519_import_private_only` -/
  ed25519ImportPrivateOnly : Ed25519Key → (d : Bytes) → Bool × Ed25519Key
  /-- `wc_ed25519_make_public` into the key itself. -/
  ed25519MakePublic : Ed25519Key → Bool × Ed25519Key
  /-- A key with its private key cleared and `privKeySet` zero. -/
  ed25519ClearPrivate : Ed25519Key → Ed25519Key
  /-- The field `privKeySet` of a key. -/
  ed448PrivKeySet : Ed448Key → Bool
  /-- `wc_ed448_export_public` -/
  ed448ExportPublic : Ed448Key → (bufSz : Nat) → Option Bytes
  /-- `wc_ed448_export_private_only` -/
  ed448ExportPrivateOnly : Ed448Key → (bufSz : Nat) → Option Bytes
  /-- `wc_ed448_import_public` -/
  ed448ImportPublic : Ed448Key → (x : Bytes) → Bool × Ed448Key
  /-- `wc_ed448_import_private_key` -/
  ed448ImportPrivateKey : Ed448Key → (d x : Bytes) → Bool × Ed448Key
  /-- `wc_ed448_import_private_only` -/
  ed448ImportPrivateOnly : Ed448Key → (d : Bytes) → Bool × Ed448Key
  /-- `wc_ed448_make_public` into the key itself. -/
  ed448MakePublic : Ed448Key → Bool × Ed448Key
  /-- A key with its private key cleared and `privKeySet` zero. -/
  ed448ClearPrivate : Ed448Key → Ed448Key
  /-- Whether the field `type` of a key is `RSA_PRIVATE`. -/
  rsaIsPrivate : RsaKey → Bool
  /-- Whether `WOLF_CRYPTO_CB` is defined and the field `devId` of a key names a device. -/
  rsaHasDevice : RsaKey → Bool
  /-- `wc_RsaFlattenPublicKey`: the exponent and the modulus, each in a buffer of the given size. -/
  rsaFlattenPublicKey : RsaKey → (eSz nSz : Nat) → Option (Bytes × Bytes)
  /-- `wc_RsaExportKey` into a buffer of the given size for each of `e`, `n`, `d`, `p` and `q`; the
  result is the private exponent. -/
  rsaExportKey : RsaKey → (eSz nSz dSz pSz qSz : Nat) → Option Bytes
  /-- `wc_export_int` of an integer of a key as an unsigned binary of the given width. -/
  rsaExportInt : RsaKey → RsaInt → (keySz : Nat) → Option Bytes
  /-- `wc_RsaPublicKeyDecodeRaw` -/
  rsaPublicKeyDecodeRaw : RsaKey → (n e : Bytes) → Bool × RsaKey
  /-- `wc_RsaPrivateKeyDecodeRaw` -/
  rsaPrivateKeyDecodeRaw : RsaKey → (n e d u p q dP dQ : Bytes) → Bool × RsaKey
  /-- The field `prvKeySet` of a key. -/
  mlDsaPrvKeySet : MlDsaKey → Bool
  /-- `wc_MlDsaKey_GetPubLen` -/
  mlDsaGetPubLen : MlDsaKey → Option Int
  /-- `wc_MlDsaKey_ExportPubRaw` -/
  mlDsaExportPubRaw : MlDsaKey → (bufSz : Nat) → Option Bytes
  /-- `wc_MlDsaKey_SetParams` with a level. -/
  mlDsaSetParams : MlDsaKey → (level : Nat) → Bool × MlDsaKey
  /-- `wc_MlDsaKey_ImportPubRaw` -/
  mlDsaImportPubRaw : MlDsaKey → Bytes → Bool × MlDsaKey
  /-- `wc_MlDsaKey_MakeKeyFromSeed` -/
  mlDsaMakeKeyFromSeed : MlDsaKey → (seed : Bytes) → Bool × MlDsaKey
  /-- The field `p` of a key, its public key. -/
  mlDsaP : MlDsaKey → Bytes
  /-- A key with its private values cleared. -/
  mlDsaClearPrivate : MlDsaKey → MlDsaKey
  /-- `HSS_MAX_PUBLIC_KEY_LEN` -/
  hssMaxPublicKeyLen : Nat
  /-- `wc_LmsKey_GetPubLen` -/
  lmsGetPubLen : LmsKey → Option Nat
  /-- `wc_LmsKey_ExportPubRaw` -/
  lmsExportPubRaw : LmsKey → (bufSz : Nat) → Option Bytes
  /-- `wc_LmsKey_ImportPubRaw` -/
  lmsImportPubRaw : LmsKey → Bytes → Bool × LmsKey

/-! ### Examples -/

/-- A build with every family of keys. -/
@[reducible]
def defaultKeySettings [Settings] (hpss : haveRsapss = true) : KeySettings where
  haveEcc := true
  haveEcc_of_ecdsa _ := rfl
  haveExportInt := true
  haveExportInt_of_ecc _ := rfl
  rsaMaxSize := 4096
  haveRsaPrivateKeyDecode := true
  haveRsapss_of_decode _ := hpss
  haveRsaPrivateKey := true
  decode_of_haveRsaPrivateKey _ := ⟨rfl, rfl⟩
  mlDsaNoMakeKey := false

/-- A wolfCrypt in which every export and every import fails.  The examples of this development
replace the functions they use. -/
@[reducible]
def failingKeyCrypt [WolfCrypt] : KeyCrypt where
  eccType _ := 0
  eccState _ := 0
  eccOwnsStorage _ := true
  eccPrivateValuesAreZero _ := true
  eccPrivateImportSupported _ := true
  eccPrivateImportRollback _ saved := saved
  eccExportPrivateOnly _ _ := none
  eccImportPrivateKeyEx key _ _ := (false, key)
  eccImportUnsignedEx key _ _ _ _ := (false, key)
  ed25519PrivKeySet _ := false
  ed25519ExportPublic _ _ := none
  ed25519ExportPrivateOnly _ _ := none
  ed25519ImportPublic key _ := (false, key)
  ed25519ImportPrivateKey key _ _ := (false, key)
  ed25519ImportPrivateOnly key _ := (false, key)
  ed25519MakePublic key := (false, key)
  ed25519ClearPrivate key := key
  ed448PrivKeySet _ := false
  ed448ExportPublic _ _ := none
  ed448ExportPrivateOnly _ _ := none
  ed448ImportPublic key _ := (false, key)
  ed448ImportPrivateKey key _ _ := (false, key)
  ed448ImportPrivateOnly key _ := (false, key)
  ed448MakePublic key := (false, key)
  ed448ClearPrivate key := key
  rsaIsPrivate _ := false
  rsaHasDevice _ := false
  rsaFlattenPublicKey _ _ _ := none
  rsaExportKey _ _ _ _ _ _ := none
  rsaExportInt _ _ _ := none
  rsaPublicKeyDecodeRaw key _ _ := (false, key)
  rsaPrivateKeyDecodeRaw key _ _ _ _ _ _ _ _ := (false, key)
  mlDsaPrvKeySet _ := false
  mlDsaGetPubLen _ := none
  mlDsaExportPubRaw _ _ := none
  mlDsaSetParams key _ := (false, key)
  mlDsaImportPubRaw key _ := (false, key)
  mlDsaMakeKeyFromSeed key _ := (false, key)
  mlDsaP _ := []
  mlDsaClearPrivate key := key
  hssMaxPublicKeyLen := 60
  lmsGetPubLen _ := none
  lmsExportPubRaw _ _ := none
  lmsImportPubRaw key _ := (false, key)

end WolfCose
