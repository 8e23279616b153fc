import WolfCose.Key.Encode

/-!
# The size of an encoded key

`wc_CoseKey_EncodeSize_ex` computes the size of an encoded key from the lengths that wolfCrypt
reports, without exporting the key.
-/

namespace WolfCose

open Program Cbor Settings KeySettings WolfCrypt KeyCrypt

/-- `wolfCose_CborIntSize` -/
def cborIntSize (val : Int) : Nat :=
  if val ≥ 0 then cborHeadSize val.toNat else cborHeadSize (-(val + 1)).toNat

/-- The size of the head that `wolfCose_FinalizeRsaBstr` writes. -/
def reservedHeadSize (payloadLen : Nat) : Nat := if payloadLen < 256 then 2 else 3

variable [Settings]

/-- `wolfCose_ReservedBstrSize` -/
def reservedBstrSize (payloadLen : Nat) : Except Err Nat :=
  sizeAdd (reservedHeadSize payloadLen) payloadLen

/-- `wolfCose_KeyBstrEntrySize` -/
def keyBstrEntrySize (payloadLen total : Nat) : Except Err Nat := do
  let total ← sizeAdd total 1
  sizeAddString total payloadLen

/-- The steps that add the size of an entry whose string has a reserved head. -/
def keyReservedEntrySize (payloadLen total : Nat) : Except Err Nat := do
  let total ← sizeAdd total 1
  let itemLen ← reservedBstrSize payloadLen
  sizeAdd total itemLen

/-- The steps that add the size of the entry for the curve. -/
def keyCrvEntrySize (crv : Int) (total : Nat) : Except Err Nat := do
  let total ← sizeAdd total 1
  sizeAdd total (cborHeadSize crv.toNat)

variable [KeySettings] [WolfCrypt] [KeyCrypt]

omit [KeySettings] [KeyCrypt] in
/-- The steps of `wolfCose_KeyCommonSize` for the kid. -/
def keyKidSize (key : Key) (sz : Nat) : Except Err Nat :=
  if hasKid key.kid then keyBstrEntrySize key.kid.len sz else return sz

omit [KeySettings] [KeyCrypt] in
/-- The steps of `wolfCose_KeyCommonSize` for the algorithm. -/
def keyAlgSize (key : Key) (sz : Nat) : Except Err Nat :=
  if key.alg ≠ algUnset then do
    let sz ← sizeAdd sz 1
    sizeAdd sz (cborIntSize key.alg)
  else return sz

omit [KeySettings] [KeyCrypt] in
/-- `wolfCose_KeyCommonSize` -/
def keyCommonSize (key : Key) (entries : Nat) : Except Err Nat := do
  let entries ← sizeAdd entries (keyOptionalEntries key)
  let sz ← sizeAdd 0 (cborHeadSize entries)
  let sz ← sizeAdd sz 1
  let sz ← sizeAdd sz (cborHeadSize key.kty.toNat)
  let sz ← keyKidSize key sz
  keyAlgSize key sz

/-- `wolfCose_RsaExponentSize` -/
def rsaExponentSize (rsaKey : RsaKey) : Checked Nat := do
  let e ← orCrypto <|
    if haveExportInt = true then rsaExportInt rsaKey .e rsaEMaxSz
    else (rsaFlattenPublicKey rsaKey rsaEMaxSz ((rsaMaxSize + 7) / 8)).map Prod.fst
  let size := (e.dropWhile (· = 0)).length
  failWhen (size = 0) .crypto
  return size

/-! ### The families of keys -/

omit [KeySettings] [KeyCrypt] in
/-- The sum of the sizes of the entries of an EC2 key. -/
def keyTotalEc2 (key : Key) (emitPriv : Bool) (coordSz : Nat) : Except Err Nat := do
  let total ← keyCommonSize key (if emitPriv then 5 else 4)
  let total ← keyCrvEntrySize key.crv total
  let total ← keyBstrEntrySize coordSz total
  let total ← keyBstrEntrySize coordSz total
  if emitPriv = true then keyBstrEntrySize coordSz total else return total

omit [KeySettings] [KeyCrypt] in
/-- The steps of `wc_CoseKey_EncodeSize_ex` for an EC2 key. -/
def keySizeEc2 (key : Key) (flags : UInt32) : Checked Nat := do
  failWhen (key.object.isNull = true) .invalidArg
  let coordSz ← lift (crvKeySize key.crv)
  let eccKey ← key.object.asEcc
  failWhen (eccSize eccKey ≠ coordSz) .coseKeyType
  lift (keyTotalEc2 key (keyEmitsPrivate key flags) coordSz)

omit [KeySettings] [KeyCrypt] in
/-- The sum of the sizes of the entries of an RSA key. -/
def keyTotalRsa (key : Key) (rsaPriv : Bool) (modSz eSz : Nat) : Except Err Nat := do
  let total ← keyCommonSize key (if rsaPriv then 9 else 3)
  let total ← keyReservedEntrySize modSz total
  let total ← keyBstrEntrySize eSz total
  if rsaPriv = true then do
    let total ← keyReservedEntrySize modSz total
    rsaCrtFields.foldlM (fun total _ => keyBstrEntrySize ((modSz + 1) / 2) total) total
  else return total

/-- The steps of `wc_CoseKey_EncodeSize_ex` for an RSA key. -/
def keySizeRsa (key : Key) (flags : UInt32) : Checked Nat := do
  failWhen (key.object.isNull = true) .invalidArg
  let rsaKey ← key.object.asRsa
  failWhen (rsaEncryptSize rsaKey ≤ 0) .crypto
  let eSz ← rsaExponentSize rsaKey
  let rsaPriv ← rsaEmitsPrivate key flags
  lift (keyTotalRsa key rsaPriv (rsaEncryptSize rsaKey).toNat eSz)

omit [KeySettings] [KeyCrypt] in
/-- The sum of the sizes of the entries of an AKP key. -/
def keyTotalAkp (key : Key) (emitPriv : Bool) (pubSz : Nat) : Except Err Nat := do
  let total ← keyCommonSize key (if emitPriv then 3 else 2)
  let total ← keyReservedEntrySize pubSz total
  if emitPriv = true then keyBstrEntrySize mlDsaSeedSz total else return total

omit [KeySettings] in
/-- The steps of `wc_CoseKey_EncodeSize_ex` for an AKP key. -/
def keySizeAkp (key : Key) (flags : UInt32) : Checked Nat := do
  failWhen (key.object.isNull = true) .invalidArg
  failWhen (key.alg = algUnset) .coseBadAlg
  let mldsaKey ← key.object.asMldsa
  let pubLen ← orCrypto (mlDsaGetPubLen mldsaKey)
  failWhen (pubLen < 256 ∨ pubLen > 65535) .bufferTooSmall
  lift (keyTotalAkp key (mlDsaEmitsPrivate key flags) pubLen.toNat)

omit [KeySettings] [KeyCrypt] in
/-- The sum of the sizes of the entries of a key with one component. -/
def keyTotalSingle (key : Key) (len : Nat) : Except Err Nat := do
  let total ← keyCommonSize key 2
  keyBstrEntrySize len total

omit [KeySettings] in
/-- The steps of `wc_CoseKey_EncodeSize_ex` for an HSS-LMS key. -/
def keySizeLms (key : Key) : Checked Nat := do
  let lmsKey ← lmsKeyCheckEncode key
  let pubLen ← orCrypto (lmsGetPubLen lmsKey)
  lift (keyTotalSingle key pubLen)

omit [KeySettings] [KeyCrypt] in
/-- The width of the public and the private key on the curve of an OKP key. -/
def okpSize (key : Key) : Checked Nat :=
  if haveEddsa = true ∧ key.crv = crvEd25519 then do
    failWhen (key.object.isNull = true) .invalidArg
    return 32
  else if haveEd448 = true ∧ key.crv = crvEd448 then do
    failWhen (key.object.isNull = true) .invalidArg
    return 57
  else throw (.err .coseBadAlg)

omit [KeySettings] [KeyCrypt] in
/-- The sum of the sizes of the entries of an OKP key. -/
def keyTotalOkp (key : Key) (emitPriv : Bool) (okpSz : Nat) : Except Err Nat := do
  let total ← keyCommonSize key (if emitPriv then 4 else 3)
  let total ← keyCrvEntrySize key.crv total
  let total ← keyBstrEntrySize okpSz total
  if emitPriv = true then keyBstrEntrySize okpSz total else return total

omit [KeySettings] [KeyCrypt] in
/-- The steps of `wc_CoseKey_EncodeSize_ex` for an OKP key. -/
def keySizeOkp (key : Key) (flags : UInt32) : Checked Nat := do
  let okpSz ← okpSize key
  lift (keyTotalOkp key (keyEmitsPrivate key flags) okpSz)

omit [KeySettings] [KeyCrypt] in
/-- The steps of `wc_CoseKey_EncodeSize_ex` for a symmetric key. -/
def keySizeSymmetric (key : Key) (flags : UInt32) : Checked Nat := do
  symmetricKeyCheckEncode key flags
  lift (keyTotalSingle key key.symmKeyLen)

/-! ### The function -/

/-- The steps of `wc_CoseKey_EncodeSize_ex` after the checks of its arguments. -/
def keySizeMap (key : Key) (flags : UInt32) : Checked Nat :=
  if haveEcc = true ∧ key.kty = ktyEc2 then keySizeEc2 key flags
  else if haveRsapss = true ∧ key.kty = ktyRsa then keySizeRsa key flags
  else if haveMldsa = true ∧ key.kty = ktyAkp then keySizeAkp key flags
  else if haveLms = true ∧ key.kty = ktyHssLms then keySizeLms key
  else if (haveEddsa = true ∨ haveEd448 = true) ∧ key.kty = ktyOkp then keySizeOkp key flags
  else if key.kty = ktySymmetric then keySizeSymmetric key flags
  else throw (.err .coseKeyType)

/-- `wc_CoseKey_EncodeSize_ex`, with the value of `outLen` that it leaves. -/
def keyEncodeSizeEx (key : Option Key) (outLen : Option Nat) (flags : UInt32) : Checked Unit × Option Nat :=
  match key, outLen with
  | some key, some len =>
      if flags &&& ~~~keyPublicOnly ≠ 0 then (.error (.err .invalidArg), some len)
      else match keySizeMap key flags with
        | .ok total => (.ok (), some total)
        | .error fault => (.error fault, some 0)
  | _, _ => (.error (.err .invalidArg), outLen)

end WolfCose
