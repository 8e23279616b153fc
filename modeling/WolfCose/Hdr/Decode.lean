import WolfCose.Hdr.State
import WolfCose.Codec.Encode

/-!
# Decoding headers

The header decoders of `wolfcose_hdr.c`: `wolfCose_DecodeProtectedHdr_ex` for the content of
the protected bucket, and `wolfCose_DecodeUnprotectedHdrInternal` for the unprotected map.
The loops over the entries of a map differ in which labels they admit and in what they do
with a value; `decodeEntries` is the loop they share.
-/

namespace WolfCose

open Program Cbor Settings

/-- The header `WOLFCOSE_HDR`; a pointer is present or null. -/
structure Hdr where
  alg : Int
  kid : Option Bytes
  iv : Option Bytes
  partialIv : Option Bytes
  contentType : Int
  flags : UInt8
  deriving DecidableEq, Repr

/-- The header with all bytes zero. -/
def Hdr.zero : Hdr := ⟨0, none, none, none, 0, 0⟩

/-- `WOLFCOSE_HDR_FLAG_DETACHED` -/
def hdrFlagDetached : UInt8 := 0x01

/-- `WOLFCOSE_HDR_FLAG_CONTENT_TYPE_UNPROTECTED` -/
def hdrFlagContentTypeUnprotected : UInt8 := 0x02

/-- `WOLFCOSE_HDR_FLAG_X5CHAIN` -/
def hdrFlagX5chain : UInt8 := 0x04

/-- `wolfCose_InInt32Range` -/
def inInt32Range (val : Int) : Bool :=
  -2 ^ 31 ≤ val && val ≤ 2 ^ 31 - 1

variable [Settings]

/-! ### Entries -/

/-- The labels seen so far in a map, and the other variables of a loop over its entries. -/
structure Scan (σ : Type) where
  state : HdrState
  vars : σ

/-- One turn of the loop over the entries of a map: the label is decoded and admitted, then
the value is decoded. -/
def decodeEntry {σ : Type} (decodeFlags : UInt32)
    (allow : HdrState → Label → Bytes → Except Err HdrState) (value : Label → σ → Dec σ)
    (scan : Scan σ) : Dec (Scan σ) := do
  let start ← get
  let label ← decodeLabelEx decodeFlags
  let state ← MonadExcept.ofExcept (allow scan.state label start.rest)
  let vars ← value label scan.vars
  return ⟨state, vars⟩

/-- The loop over the entries of a map of at most `WOLFCOSE_MAX_MAP_ITEMS` entries. -/
def decodeEntries {σ : Type} (decodeFlags : UInt32)
    (allow : HdrState → Label → Bytes → Except Err HdrState) (value : Label → σ → Dec σ)
    (vars : σ) : Dec (Scan σ) := do
  let mapCount ← decodeMapStartEx decodeFlags
  failIf (mapCount > maxMapItems) .cborMalformed
  repeatM mapCount (decodeEntry decodeFlags allow value) ⟨.init, vars⟩

/-- The labels the unprotected bucket admits beside a protected bucket: not crit, and none
that either bucket has already. -/
def HdrState.admitUnprotected (hdrState unprotState : HdrState) (label : Label)
    (encodedLabel : Bytes) : Except Err HdrState :=
  if label = .int hdrCrit then .error .coseBadHdr
  else if unprotState.containsLabel label = true ∨ hdrState.containsLabel label = true then
    .error .cborMalformed
  else unprotState.addLabel label encodedLabel

/-! ### Values -/

/-- The branch of both decoders for the label of the algorithm. -/
def decodeAlgValue (decodeFlags : UInt32) (hdr : Hdr) : Dec Hdr := do
  let ctx ← get
  if ctx.peekType = some .tstr then do
    skipEx decodeFlags
    return hdr
  else do
    let intVal ← decodeIntEx decodeFlags
    failIf (inInt32Range intVal = false) .coseBadAlg
    return { hdr with alg := intVal }

/-- The branch of both decoders for the label of the content type; also whether the content
type is an integer. -/
def decodeContentTypeValue (decodeFlags : UInt32) (hdr : Hdr) : Dec (Hdr × Bool) := do
  let ctx ← get
  if ctx.peekType = some .tstr then do
    skipEx decodeFlags
    return (hdr, false)
  else do
    let contentTypeVal ← decodeUintEx decodeFlags
    failIf (contentTypeVal > 2 ^ 31 - 1) .coseBadHdr
    return ({ hdr with contentType := contentTypeVal }, true)

/-- One turn of the loop over the labels of the crit parameter. -/
def decodeCritLabel (decodeFlags : UInt32) (critLabels : UInt32) : Dec UInt32 := do
  let ctx ← get
  failIf (ctx.idx ≥ ctx.bufSz ∨ ctx.peekType = some .tstr) .coseBadHdr
  let critLabel ← decodeIntEx decodeFlags
  failIf (critLabel < 1 ∨ critLabel > 6) .coseBadHdr
  failIf (labelBit critLabel = 0) .coseBadHdr
  return critLabels ||| labelBit critLabel

/-- The branch of `wolfCose_DecodeProtectedHdr_ex` for the crit parameter. -/
def decodeCritValue (decodeFlags : UInt32) (critLabels : UInt32) : Dec UInt32 := do
  let critCount ← decodeArrayStartEx decodeFlags
  failIf (critCount = 0 ∨ critCount > maxMapItems) .coseBadHdr
  repeatM critCount (decodeCritLabel decodeFlags) critLabels

/-! ### The protected bucket -/

/-- The variables of the loop of `wolfCose_DecodeProtectedHdr_ex`. -/
structure ProtectedVars where
  hdr : Hdr
  critLabels : UInt32
  contentTypeUnderstood : Bool

/-- The value of an entry of the protected bucket. -/
def decodeProtectedValue (decodeFlags : UInt32) (label : Label) (vars : ProtectedVars) :
    Dec ProtectedVars :=
  if label = .int hdrAlg then do
    let hdr ← decodeAlgValue decodeFlags vars.hdr
    return { vars with hdr }
  else if label = .int hdrCrit then do
    let critLabels ← decodeCritValue decodeFlags vars.critLabels
    return { vars with critLabels }
  else if label = .int hdrContentType then do
    let (hdr, understood) ← decodeContentTypeValue decodeFlags vars.hdr
    return { vars with hdr, contentTypeUnderstood := vars.contentTypeUnderstood || understood }
  else if label = .int hdrKid then do
    let kid ← decodeBstrEx decodeFlags
    return { vars with hdr := { vars.hdr with kid := some kid } }
  else if label = .int hdrIv then do
    let iv ← decodeBstrEx decodeFlags
    return { vars with hdr := { vars.hdr with iv := some iv } }
  else if label = .int hdrPartialIv then do
    let partialIv ← decodeBstrEx decodeFlags
    return { vars with hdr := { vars.hdr with partialIv := some partialIv } }
  else if eatPsaVerify = true ∧ label = .int hdrX5chain then do
    skipEx decodeFlags
    return { vars with hdr := { vars.hdr with flags := vars.hdr.flags ||| hdrFlagX5chain } }
  else do
    skipEx decodeFlags
    return vars

/-- Whether a state has a label of a countersignature. -/
def HdrState.containsCountersignature (state : HdrState) : Bool :=
  state.contains hdrCountersignatureV2 || state.contains hdrCountersignature0V2 ||
    state.contains hdrCountersignatureLegacy || state.contains hdrCountersignature0Legacy

/-- The body of `wolfCose_DecodeProtectedHdr_ex` for a bucket that is not empty. -/
def decodeProtectedMap (decodeFlags : UInt32) (hdr : Hdr) : Dec (Hdr × HdrState) := do
  let ⟨hdrState, vars⟩ ← decodeEntries decodeFlags HdrState.checkAndAddLabel
    (decodeProtectedValue decodeFlags) ⟨hdr, 0, false⟩
  failIf (vars.critLabels &&& ~~~ hdrState.labelBits ≠ 0) .coseBadHdr
  failIf (vars.critLabels &&& labelBit hdrContentType ≠ 0 ∧ vars.contentTypeUnderstood = false)
    .coseBadHdr
  failIf (hdrState.containsCountersignature = true) .coseBadHdr
  failIf (vars.hdr.iv.isSome = true ∧ vars.hdr.partialIv.isSome = true) .coseBadHdr
  let ctx ← get
  failIf (ctx.idx ≠ ctx.bufSz) .cborMalformed
  return (vars.hdr, hdrState)

/-- `wolfCose_DecodeProtectedHdr_ex`; a caller that is told of an error does not use the
header and the state. -/
def decodeProtectedHdrEx (data : Pointer) (hdr : Hdr) (decodeFlags : UInt32) :
    Except Err (Hdr × HdrState) :=
  if decodeFlagsValid decodeFlags = false then .error .invalidArg
  else if data.isNull = true ∧ data.len ≠ 0 then .error .invalidArg
  else if data.len = 0 then .ok (hdr, .init)
  else
    match decodeProtectedMap decodeFlags hdr (.init (.ofBytes data.bytes)) with
    | .ok r _ => .ok r
    | .error e _ => .error e

/-- `wolfCose_DecodeProtectedHdr` -/
def decodeProtectedHdr (data : Pointer) (hdr : Hdr) : Except Err (Hdr × HdrState) :=
  decodeProtectedHdrEx data hdr 0

/-! ### The unprotected bucket -/

/-- The variables of the loop of `wolfCose_DecodeUnprotectedHdrInternal`; `hpkeEk` is the
encapsulated key it stores in `WOLFCOSE_HPKE_HDR`. -/
structure UnprotectedVars where
  hdr : Hdr
  hpkeEk : Option Bytes

/-- The value of an entry of the unprotected bucket; `wantEk` says whether the caller passed
a structure for the encapsulated key. -/
def decodeUnprotectedValue (decodeFlags : UInt32) (wantEk : Bool) (label : Label)
    (vars : UnprotectedVars) : Dec UnprotectedVars :=
  if label = .int hdrKid then do
    let kid ← decodeBstrEx decodeFlags
    return { vars with hdr := { vars.hdr with kid := some kid } }
  else if label = .int hdrIv then do
    let iv ← decodeBstrEx decodeFlags
    return { vars with hdr := { vars.hdr with iv := some iv } }
  else if label = .int hdrPartialIv then do
    let partialIv ← decodeBstrEx decodeFlags
    return { vars with hdr := { vars.hdr with partialIv := some partialIv } }
  else if haveHpke0 = true ∧ label = .int hdrHpkeEk then
    if wantEk = false then do
      skip
      return vars
    else do
      let ek ← decodeBstr
      return { vars with hpkeEk := some ek }
  else if label = .int hdrAlg then do
    let hdr ← decodeAlgValue decodeFlags vars.hdr
    return { vars with hdr }
  else if label = .int hdrContentType then do
    let flags := vars.hdr.flags ||| hdrFlagContentTypeUnprotected
    let (hdr, _) ← decodeContentTypeValue decodeFlags { vars.hdr with flags }
    return { vars with hdr }
  else if eatPsaVerify = true ∧ label = .int hdrX5chain then do
    skipEx decodeFlags
    return { vars with hdr := { vars.hdr with flags := vars.hdr.flags ||| hdrFlagX5chain } }
  else do
    skipEx decodeFlags
    return vars

/-- `wolfCose_DecodeUnprotectedHdrInternal` -/
def decodeUnprotectedHdrInternal (decodeFlags : UInt32) (wantEk : Bool) (hdr : Hdr)
    (hdrState : HdrState) : Dec (Hdr × HdrState × Option Bytes) := do
  failIf (decodeFlagsValid decodeFlags = false) .invalidArg
  let ⟨unprotState, vars⟩ ← decodeEntries decodeFlags hdrState.admitUnprotected
    (decodeUnprotectedValue decodeFlags wantEk) ⟨hdr, none⟩
  failIf (vars.hdr.iv.isSome = true ∧ vars.hdr.partialIv.isSome = true) .coseBadHdr
  return (vars.hdr, { hdrState with labelBits := hdrState.labelBits ||| unprotState.labelBits },
    vars.hpkeEk)

/-- `wolfCose_DecodeUnprotectedHdr_ex` -/
def decodeUnprotectedHdrEx (hdr : Hdr) (hdrState : HdrState) (decodeFlags : UInt32) :
    Dec (Hdr × HdrState) := do
  let (hdr, hdrState, _) ← decodeUnprotectedHdrInternal decodeFlags false hdr hdrState
  return (hdr, hdrState)

/-- `wolfCose_DecodeUnprotectedHdrEx` -/
def decodeUnprotectedHdrHpke (hdr : Hdr) (hdrState : HdrState) :
    Dec (Hdr × HdrState × Option Bytes) :=
  decodeUnprotectedHdrInternal 0 true hdr hdrState

/-- `wolfCose_DecodeUnprotectedHdr` -/
def decodeUnprotectedHdr (hdr : Hdr) (hdrState : HdrState) : Dec (Hdr × HdrState) :=
  decodeUnprotectedHdrEx hdr hdrState 0

/-! ### Encoding the protected bucket -/

/-- `wolfCose_EncodeProtectedHdr` -/
def encodeProtectedHdr (alg : Int) : Enc Unit := do
  encodeMapStart 1
  encodeUint hdrAlg.toNat
  encodeInt alg

end WolfCose
