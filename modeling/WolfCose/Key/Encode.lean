import WolfCose.Encrypt.Encrypt0
import WolfCose.Key.Crypt
import WolfCose.Mac.Mac0
import WolfCose.Sig.Output

/-!
# Encoding keys

`wc_CoseKey_Encode_ex` exports the components of a key from its wolfCrypt object and encodes them
as a map.  The large components are exported straight into the output buffer, behind three bytes
that are reserved for the head of the string.
-/

namespace WolfCose

open Program Cbor Settings KeySettings WolfCrypt RecipientCrypt KeyCrypt

/-- `WOLFCOSE_KEY_LABEL_KTY` -/
def keyLabelKty : Int := 1

/-- `WOLFCOSE_KEY_LABEL_KID` -/
def keyLabelKid : Int := 2

/-- `WOLFCOSE_KEY_LABEL_ALG` -/
def keyLabelAlg : Int := 3

/-- `WOLFCOSE_KEY_LABEL_KEY_OPS` -/
def keyLabelKeyOps : Int := 4

/-- `WOLFCOSE_KEY_LABEL_CRV`, which is also the label of the modulus of an RSA key. -/
def keyLabelCrv : Int := -1

/-- `WOLFCOSE_KEY_LABEL_X`, which is also the label of the exponent of an RSA key. -/
def keyLabelX : Int := -2

/-- `WOLFCOSE_KEY_LABEL_Y`, which is also the label of the private exponent of an RSA key. -/
def keyLabelY : Int := -3

/-- `WOLFCOSE_KEY_LABEL_D` -/
def keyLabelD : Int := -4

/-- `WOLFCOSE_KEY_LABEL_K` -/
def keyLabelK : Int := -1

/-- `WOLFCOSE_KEY_LABEL_PUB` -/
def keyLabelPub : Int := -1

/-- `WOLFCOSE_KEY_LABEL_PRIV` -/
def keyLabelPriv : Int := -2

/-- `WOLFCOSE_KEY_LABEL_RSA_P` -/
def keyLabelRsaP : Int := -4

/-- `WOLFCOSE_KEY_LABEL_RSA_Q` -/
def keyLabelRsaQ : Int := -5

/-- `WOLFCOSE_KEY_LABEL_RSA_DP` -/
def keyLabelRsaDp : Int := -6

/-- `WOLFCOSE_KEY_LABEL_RSA_DQ` -/
def keyLabelRsaDq : Int := -7

/-- `WOLFCOSE_KEY_LABEL_RSA_QINV` -/
def keyLabelRsaQinv : Int := -8

/-- `WOLFCOSE_KEY_PUBLIC_ONLY` -/
def keyPublicOnly : UInt32 := 1

/-- `WOLFCOSE_MLDSA_SEED_SZ` -/
def mlDsaSeedSz : Nat := 32

/-- `WOLFCOSE_RSA_E_MAX_SZ` -/
def rsaEMaxSz : Nat := 8

/-- A number that is converted to a `word32`. -/
def toWord32 (n : Nat) : Nat := n % 2 ^ 32

variable [Settings]

/-! ### Writing in place -/

/-- The context with bytes written to its buffer at a place, without moving the cursor. -/
def EncCtx.store (ctx : EncCtx) (pos : Nat) (bs : Bytes) : EncCtx where
  buf :=
    { bytes := Bytes.overwrite ctx.buf.bytes pos bs
      length_le := by
        rw [Bytes.length_overwrite]
        exact ctx.buf.length_le }
  idx := ctx.idx

/-- The context with its cursor set. -/
def EncCtx.seek (ctx : EncCtx) (idx : Nat) : EncCtx := { ctx with idx }

/-- The check that there is room for the reserved head of a string; the result is the place behind
it. -/
def reserveHead (ctx : EncCtx) : Checked Nat := do
  failWhen (sizeSum ctx.idx 3 > ctx.bufSz) .bufferTooSmall
  return sizeSum ctx.idx 3

/-- `wolfCose_FinalizeRsaBstr`: the head of a string that has been written three bytes behind the
given place.  A place outside of the buffer is undefined. -/
def finalizeRsaBstr (ctx : EncCtx) (hdrPos payloadLen : Nat) : Checked EncCtx := do
  rejectIf (hdrPos + 3 + payloadLen > ctx.bufSz) .undefined
  if payloadLen < 256 then
    let payload := (ctx.buf.bytes.drop (hdrPos + 3)).take payloadLen
    return ((ctx.store (hdrPos + 2) payload).store hdrPos [0x58, UInt8.ofNat payloadLen]).seek
      (hdrPos + 2 + payloadLen)
  else
    return (ctx.store hdrPos [0x59, UInt8.ofNat (payloadLen / 256), UInt8.ofNat payloadLen]).seek
      (hdrPos + 3 + payloadLen)

variable [KeySettings] [WolfCrypt] [RecipientCrypt] [KeyCrypt]

/-! ### Common entries -/

omit [KeySettings] [RecipientCrypt] [KeyCrypt] in
/-- `wolfCose_KeyEmitsPrivate` -/
def keyEmitsPrivate (key : Key) (flags : UInt32) : Bool :=
  key.hasPrivate && decide (flags &&& keyPublicOnly = 0) && !key.delegated

omit [Settings] [KeySettings] [RecipientCrypt] [KeyCrypt] in
/-- `wolfCose_KeyOptionalEntries` -/
def keyOptionalEntries (key : Key) : Nat :=
  (if hasKid key.kid then 1 else 0) + (if key.alg ≠ algUnset then 1 else 0)

omit [KeySettings] [RecipientCrypt] [KeyCrypt] in
/-- `wolfCose_EncodeKeyOptionalFields` -/
def encodeKeyOptionalFields (key : Key) : Enc Unit := do
  onlyIf (hasKid key.kid) do
    encodeUint keyLabelKid.toNat
    encodeBstr key.kid
  onlyIf (key.alg ≠ algUnset) do
    encodeUint keyLabelAlg.toNat
    encodeInt key.alg

omit [KeySettings] [RecipientCrypt] [KeyCrypt] in
/-- The steps that encode the start of a map with the given number of entries besides the optional
ones, the key type and the optional entries. -/
def encodeKeyStart (key : Key) (entries : Nat) : Enc Unit := do
  encodeMapStart (entries + keyOptionalEntries key)
  encodeUint keyLabelKty.toNat
  encodeUint key.kty.toNat
  encodeKeyOptionalFields key

omit [KeySettings] [WolfCrypt] [RecipientCrypt] [KeyCrypt] in
/-- The steps that encode a label and a string. -/
def encodeKeyBstr (label : Int) (data : Pointer) : Enc Unit := do
  encodeInt label
  encodeBstr data

/-! ### The families of keys -/

omit [KeySettings] [RecipientCrypt] [KeyCrypt] in
/-- `wolfCose_EncodeEc2Map` -/
def encodeEc2Map (key : Key) (x y : Bytes) (d : Option Bytes) : Enc Unit := do
  encodeKeyStart key (if d.isSome then 5 else 4)
  encodeInt keyLabelCrv
  encodeUint key.crv.toNat
  encodeKeyBstr keyLabelX (.mem x)
  encodeKeyBstr keyLabelY (.mem y)
  onlyIf (d.isSome = true) (encodeKeyBstr keyLabelD (.mem (d.getD [])))

omit [KeySettings] in
/-- The steps of `wc_CoseKey_Encode_ex` that export the coordinates of an EC2 key and its private
key, if it is emitted. -/
def exportEc2 (key : Key) (flags : UInt32) : Checked (Bytes × Bytes × Option Bytes) := do
  failWhen (key.object.isNull = true) .invalidArg
  let coordSz ← lift (crvKeySize key.crv)
  let eccKey ← key.object.asEcc
  let (x, y) ← orCrypto (eccExportPublicRaw eccKey 66)
  failWhen (x.length ≠ coordSz ∨ y.length ≠ coordSz) .coseKeyType
  if keyEmitsPrivate key flags = true then do
    let d ← orCrypto (eccExportPrivateOnly eccKey 66)
    failWhen (d.length ≠ coordSz) .coseKeyType
    return (x, y, some d)
  else return (x, y, none)

omit [KeySettings] in
/-- The steps of `wc_CoseKey_Encode_ex` for an EC2 key. -/
def keyEncodeEc2 (key : Key) (out : Buffer) (flags : UInt32) : Checked EncCtx := do
  let (x, y, d) ← exportEc2 key flags
  encodeAt (encodeEc2Map key x y d) (.init out)

omit [RecipientCrypt] in
/-- Whether the private components of an RSA key are emitted: not those of a key in a device. -/
def rsaEmitsPrivate (key : Key) (flags : UInt32) : Checked Bool :=
  if haveRsaPrivateKey = true ∧ keyEmitsPrivate key flags = true then do
    let rsaKey ← key.object.asRsa
    return !rsaHasDevice rsaKey
  else return false

omit [KeySettings] [RecipientCrypt] in
/-- The steps that export the modulus of an RSA key into the output; the result has the exponent. -/
def exportRsaPublic (rsaKey : RsaKey) (ctx : EncCtx) : Checked (EncCtx × Bytes) := do
  let pos ← reserveHead ctx
  let (e, n) ← orCrypto (rsaFlattenPublicKey rsaKey rsaEMaxSz (toWord32 (ctx.bufSz - pos)))
  failWhen (n.length = 0 ∨ n.length > 65535) .bufferTooSmall
  let ctx ← finalizeRsaBstr (ctx.store pos n) ctx.idx n.length
  return (ctx, e)

omit [KeySettings] [RecipientCrypt] in
/-- The steps that export the private exponent of an RSA key into the output, padded to the width
of the modulus.  The space behind it is used for the other integers of the key, and zeroed. -/
def exportRsaPrivate (rsaKey : RsaKey) (ctx : EncCtx) : Checked EncCtx := do
  let dOff ← reserveHead ctx
  failWhen (rsaEncryptSize rsaKey ≤ 0) .crypto
  let rsaEncSz := (rsaEncryptSize rsaKey).toNat
  let scrOff := sizeSum dOff rsaEncSz
  let needed := sizeSum (sizeSum (sizeSum scrOff 8) rsaEncSz) rsaEncSz
  failWhen (needed > ctx.bufSz) .bufferTooSmall
  rejectIf (ctx.idx + 3 + rsaEncSz + 8 + rsaEncSz + rsaEncSz > ctx.bufSz) .undefined
  let d ← orCrypto (rsaExportKey rsaKey 8 rsaEncSz rsaEncSz (rsaEncSz / 2) (rsaEncSz / 2))
  failWhen (d.length = 0 ∨ d.length > 65535) .bufferTooSmall
  let padded := List.replicate (rsaEncSz - d.length) 0 ++ d
  let ctx ← finalizeRsaBstr (ctx.store dOff padded) ctx.idx padded.length
  return ctx.store scrOff (List.replicate (needed - scrOff) 0)

omit [KeySettings] [RecipientCrypt] in
/-- `wolfCose_EncodeRsaMp` -/
def encodeRsaMp (label : Int) (rsaKey : RsaKey) (a : RsaInt) (keySz : Nat) (ctx : EncCtx) :
    Checked EncCtx := do
  failWhen (keySz = 0) .invalidArg
  let ctx ← encodeAt (do encodeInt label; encodeHead .bstr keySz) ctx
  failWhen (sizeSum ctx.idx keySz > ctx.bufSz) .bufferTooSmall
  rejectIf (ctx.idx + keySz > ctx.bufSz) .undefined
  let bytes ← orCrypto (rsaExportInt rsaKey a keySz)
  failWhen (bytes.length ≠ keySz) .crypto
  return ctx.put bytes

/-- The integers of an RSA key that are emitted behind the private exponent, with their labels. -/
def rsaCrtFields : List (Int × RsaInt) :=
  [(keyLabelRsaP, .p), (keyLabelRsaQ, .q), (keyLabelRsaDp, .dP), (keyLabelRsaDq, .dQ), (keyLabelRsaQinv, .u)]

omit [KeySettings] [RecipientCrypt] in
/-- The steps of `wc_CoseKey_Encode_ex` that encode the private components of an RSA key. -/
def encodeRsaPrivate (rsaKey : RsaKey) (ctx : EncCtx) : Checked EncCtx := do
  let ctx ← encodeAt (encodeInt keyLabelY) ctx
  let ctx ← exportRsaPrivate rsaKey ctx
  failWhen (rsaEncryptSize rsaKey ≤ 0) .crypto
  let halfSz := ((rsaEncryptSize rsaKey).toNat + 1) / 2
  rsaCrtFields.foldlM (fun ctx field => encodeRsaMp field.1 rsaKey field.2 halfSz ctx) ctx

omit [RecipientCrypt] in
/-- The steps of `wc_CoseKey_Encode_ex` for an RSA key. -/
def keyEncodeRsa (key : Key) (out : Buffer) (flags : UInt32) : Checked EncCtx := do
  failWhen (key.object.isNull = true) .invalidArg
  let rsaPriv ← rsaEmitsPrivate key flags
  let ctx ← encodeAt (do encodeKeyStart key (if rsaPriv then 9 else 3); encodeInt keyLabelCrv) (.init out)
  let rsaKey ← key.object.asRsa
  let (ctx, e) ← exportRsaPublic rsaKey ctx
  let ctx ← encodeAt (encodeKeyBstr keyLabelX (.mem e)) ctx
  if rsaPriv = true then encodeRsaPrivate rsaKey ctx else return ctx

omit [KeySettings] [RecipientCrypt] [KeyCrypt] in
/-- Whether the seed of an ML-DSA key is emitted. -/
def mlDsaEmitsPrivate (key : Key) (flags : UInt32) : Bool :=
  keyEmitsPrivate key flags && !key.mldsaSeed.isNull && decide (key.mldsaSeed.len = mlDsaSeedSz)

omit [KeySettings] [RecipientCrypt] in
/-- The steps that export the public key of an ML-DSA key into the output.  Its length takes the
head that `finalizeRsaBstr` writes for long strings. -/
def exportMlDsaPublic (mldsaKey : MlDsaKey) (ctx : EncCtx) : Checked EncCtx := do
  let pos ← reserveHead ctx
  let pub ← orCrypto (mlDsaExportPubRaw mldsaKey (toWord32 (ctx.bufSz - pos)))
  failWhen (pub.length < 256 ∨ pub.length > 65535) .bufferTooSmall
  finalizeRsaBstr (ctx.store pos pub) ctx.idx pub.length

omit [KeySettings] [RecipientCrypt] in
/-- The steps of `wc_CoseKey_Encode_ex` for an AKP key. -/
def keyEncodeAkp (key : Key) (out : Buffer) (flags : UInt32) : Checked EncCtx := do
  failWhen (key.object.isNull = true) .invalidArg
  failWhen (key.alg = algUnset) .coseBadAlg
  let emitPriv := mlDsaEmitsPrivate key flags
  let ctx ← encodeAt (do encodeKeyStart key (if emitPriv then 3 else 2); encodeInt keyLabelPub) (.init out)
  let mldsaKey ← key.object.asMldsa
  let ctx ← exportMlDsaPublic mldsaKey ctx
  encodeAt (onlyIf (emitPriv = true) (encodeKeyBstr keyLabelPriv key.mldsaSeed)) ctx

omit [KeySettings] [RecipientCrypt] [KeyCrypt] [Settings] in
/-- The check of an HSS-LMS key before it is encoded; the result is its object. -/
def lmsKeyCheckEncode (key : Key) : Checked LmsKey := do
  failWhen (key.attachedType ≠ .lms) .coseKeyType
  failWhen (key.object.isNull = true) .invalidArg
  failWhen (key.alg ≠ algUnset ∧ key.alg ≠ algHssLms) .coseBadAlg
  let lmsKey ← key.object.asLms
  failWhen (lmsState lmsKey = .other) .coseKeyType
  return lmsKey

omit [KeySettings] [RecipientCrypt] in
/-- The steps of `wc_CoseKey_Encode_ex` for an HSS-LMS key. -/
def keyEncodeLms (key : Key) (out : Buffer) : Checked EncCtx := do
  let lmsKey ← lmsKeyCheckEncode key
  let pub ← orCrypto (lmsExportPubRaw lmsKey hssMaxPublicKeyLen)
  encodeAt (do encodeKeyStart key 2; encodeKeyBstr keyLabelPub (.mem pub)) (.init out)

omit [KeySettings] [RecipientCrypt] in
/-- The steps of `wc_CoseKey_Encode_ex` that export the public key of an OKP key. -/
def exportOkpPublic (key : Key) : Checked Bytes :=
  if haveEddsa = true ∧ key.crv = crvEd25519 then do
    failWhen (key.object.isNull = true) .invalidArg
    let ed25519Key ← key.object.asEd25519
    orCrypto (ed25519ExportPublic ed25519Key 57)
  else if haveEd448 = true ∧ key.crv = crvEd448 then do
    failWhen (key.object.isNull = true) .invalidArg
    let ed448Key ← key.object.asEd448
    orCrypto (ed448ExportPublic ed448Key 57)
  else throw (.err .coseBadAlg)

omit [KeySettings] [RecipientCrypt] in
/-- The steps of `wc_CoseKey_Encode_ex` that export the private key of an OKP key. -/
def exportOkpPrivate (key : Key) : Checked Bytes :=
  if haveEddsa = true ∧ key.crv = crvEd25519 then do
    let ed25519Key ← key.object.asEd25519
    orCrypto (ed25519ExportPrivateOnly ed25519Key 57)
  else if haveEd448 = true ∧ key.crv = crvEd448 then do
    let ed448Key ← key.object.asEd448
    orCrypto (ed448ExportPrivateOnly ed448Key 57)
  else throw (.err .coseBadAlg)

omit [KeySettings] [RecipientCrypt] [KeyCrypt] in
/-- The steps that encode the public part of an OKP key. -/
def encodeOkpPublic (key : Key) (emitPriv : Bool) (x : Bytes) : Enc Unit := do
  encodeKeyStart key (if emitPriv then 4 else 3)
  encodeInt keyLabelCrv
  encodeUint key.crv.toNat
  encodeKeyBstr keyLabelX (.mem x)

omit [KeySettings] [RecipientCrypt] in
/-- The steps of `wc_CoseKey_Encode_ex` for an OKP key. -/
def keyEncodeOkp (key : Key) (out : Buffer) (flags : UInt32) : Checked EncCtx := do
  let x ← exportOkpPublic key
  let ctx ← encodeAt (encodeOkpPublic key (keyEmitsPrivate key flags) x) (.init out)
  if keyEmitsPrivate key flags = true then do
    let d ← exportOkpPrivate key
    encodeAt (encodeKeyBstr keyLabelD (.mem d)) ctx
  else return ctx

omit [KeySettings] [RecipientCrypt] [KeyCrypt] in
/-- The check of a symmetric key before it is encoded: it has no public part. -/
def symmetricKeyCheckEncode (key : Key) (flags : UInt32) : Checked Unit := do
  failWhen (flags &&& keyPublicOnly ≠ 0) .coseKeyType
  failWhen (key.object.isNull = true ∨ key.symmKeyLen = 0) .coseKeyType
  failWhen (key.delegated = true) .coseKeyType

omit [KeySettings] [RecipientCrypt] [KeyCrypt] in
/-- The steps of `wc_CoseKey_Encode_ex` for a symmetric key. -/
def keyEncodeSymmetric (key : Key) (out : Buffer) (flags : UInt32) : Checked EncCtx := do
  symmetricKeyCheckEncode key flags
  let ctx ← encodeAt (encodeKeyStart key 2) (.init out)
  let k ← key.symmKey
  encodeAt (encodeKeyBstr keyLabelK k) ctx

/-! ### The function -/

/-- The steps of `wc_CoseKey_Encode_ex` after the checks of its arguments. -/
def keyEncodeMap (key : Key) (out : Buffer) (flags : UInt32) : Checked EncCtx :=
  if haveEcc = true ∧ key.kty = ktyEc2 then keyEncodeEc2 key out flags
  else if haveRsapss = true ∧ key.kty = ktyRsa then keyEncodeRsa key out flags
  else if haveMldsa = true ∧ key.kty = ktyAkp then keyEncodeAkp key out flags
  else if haveLms = true ∧ key.kty = ktyHssLms then keyEncodeLms key out
  else if (haveEddsa = true ∨ haveEd448 = true) ∧ key.kty = ktyOkp then keyEncodeOkp key out flags
  else if key.kty = ktySymmetric then keyEncodeSymmetric key out flags
  else throw (.err .coseKeyType)

omit [KeySettings] [WolfCrypt] [RecipientCrypt] [KeyCrypt] in
/-- The last steps of `wc_CoseKey_Encode_ex`: the encoded key is returned, or the output buffer and
its length are cleared. -/
def keyEncodeFinish (out : Option Buffer) (outLen : Option Nat) : Checked EncCtx → CreateOut
  | .ok ctx => ⟨.ok (), some ctx.buf.bytes, some ctx.idx⟩
  | .error fault => ⟨.error fault, out.map fun buf => forceZero buf.bytes, outLen.map fun _ => 0⟩

/-- `wc_CoseKey_Encode_ex` -/
def keyEncodeEx (key : Option Key) (out : Option Buffer) (outLen : Option Nat) (flags : UInt32) : CreateOut :=
  keyEncodeFinish out outLen <|
    match key, out, outLen with
    | some key, some out, some _ => do
        failWhen (flags &&& ~~~keyPublicOnly ≠ 0) .invalidArg
        keyEncodeMap key out flags
    | _, _, _ => throw (.err .invalidArg)

end WolfCose
