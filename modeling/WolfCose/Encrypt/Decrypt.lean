import WolfCose.Encrypt.Encrypt
import WolfCose.Mac.Mac

/-!
# Decrypting COSE_Encrypt

`wc_CoseEncrypt_Decrypt` of `wolfcose_encrypt.c`.  The recipient that the caller selects is decoded
with its key at hand and yields the key of the message; the others are skipped.
-/

namespace WolfCose

open Program Cbor Settings

section

variable [Settings] [RecipientSettings] [WolfCrypt]

/-! ### Ephemeral keys -/

/-- The variables of the loop of `wolfCose_DecodeEphemeralKey`. -/
structure EphemeralVars where
  state : HdrState
  haveKty : Bool
  crv : Option Int
  x : Option Bytes
  y : Option Bytes

/-- The branches of `wolfCose_DecodeEphemeralKey` for a coordinate. -/
def decodeCoordinate : Dec Bytes := do
  let data ← decodeBstr
  failIf (data.length > ephemPubSz) .bufferTooSmall
  return data

/-- One turn of the loop of `wolfCose_DecodeEphemeralKey`. -/
def decodeEphemeralEntry (vars : EphemeralVars) : Dec EphemeralVars := do
  let ctx ← get
  failIf (ctx.idx ≥ ctx.bufSz ∨ ctx.peekType = some .tstr) .cborMalformed
  let label ← decodeInt
  let state ← MonadExcept.ofExcept (vars.state.checkAndAdd label)
  if label = 1 then do
    let intVal ← decodeInt
    failIf (intVal ≠ ktyEc2) .coseKeyType
    return { vars with state, haveKty := true }
  else if label = -1 then do
    let intVal ← decodeInt
    failIf (inInt32Range intVal = false) .coseBadHdr
    return { vars with state, crv := some intVal }
  else if label = -2 then do
    let x ← decodeCoordinate
    return { vars with state, x := some x }
  else if label = -3 then do
    let y ← decodeCoordinate
    return { vars with state, y := some y }
  else do
    skip
    return { vars with state }

/-- An ephemeral key as a message has it: its curve and its coordinates. -/
structure EphemeralKey where
  crv : Int
  pub : EphemeralPub

/-- The checks of `wolfCose_DecodeEphemeralKey` after its loop. -/
def ephemeralKey (vars : EphemeralVars) : Except Err EphemeralKey :=
  match vars.haveKty, vars.crv, vars.x, vars.y with
  | true, some crv, some x, some y => do
      let coordSz ← crvKeySize crv
      if x.length ≠ coordSz ∨ y.length ≠ coordSz then .error .coseBadHdr
      else .ok ⟨crv, x, y⟩
  | _, _, _, _ => .error .coseBadHdr

/-- `wolfCose_DecodeEphemeralKey` -/
def decodeEphemeralKey : Dec EphemeralKey := do
  let mapCount ← decodeMapStart
  failIf (mapCount > maxMapItems) .cborMalformed
  let vars ← repeatM mapCount decodeEphemeralEntry ⟨.init, false, none, none, none⟩
  MonadExcept.ofExcept (ephemeralKey vars)

/-- The labels that the unprotected bucket of a recipient with an ephemeral key admits: none that
either bucket has already. -/
def HdrState.admitAgreement (hdrState unprotState : HdrState) (label : Label) (encodedLabel : Bytes) :
    Except Err HdrState :=
  if unprotState.containsLabel label = true ∨ hdrState.containsLabel label = true then .error .cborMalformed
  else unprotState.addLabel label encodedLabel

/-- The value of an entry of the unprotected bucket of a recipient with an ephemeral key. -/
def decodeAgreementValue (label : Label) (ephem : Option EphemeralKey) : Dec (Option EphemeralKey) :=
  if label = .int hdrEphemeralKey then do
    failIf (ephem.isSome = true) .cborMalformed
    let key ← decodeEphemeralKey
    return some key
  else do
    skip
    return ephem

/-- The branch of `wc_CoseEncrypt_Decrypt` for the unprotected bucket of a recipient with an ephemeral
key, which has the curve of the key of the caller. -/
def decodeAgreementHdr (key : Option Key) (hdrState : HdrState) : Dec EphemeralKey := do
  let ⟨_, ephem⟩ ← decodeEntries 0 hdrState.admitAgreement decodeAgreementValue none
  match ephem with
  | none => throw .coseBadHdr
  | some ephem => do
      failIf (key.any (fun key => ephem.crv ≠ key.crv) = true) .coseBadHdr
      return ephem

/-! ### The selected recipient -/

/-- The algorithms of recipients that the build supports. -/
def recipientAlgSupported (alg : Int) : Prop :=
  alg = algDirect ∨ (hpke0KeDecrypt = true ∧ alg = algHpke0Ke) ∨ isEcdhEsDirectAlg alg ∨ isKeyWrapAlg alg

instance (alg : Int) : Decidable (recipientAlgSupported alg) := inferInstanceAs (Decidable (_ ∨ _))

/-- The protected bucket of a recipient. -/
structure RecipientProtected where
  data : Bytes
  hdr : Hdr
  state : HdrState

/-- The steps of `wc_CoseEncrypt_Decrypt` that decode the protected bucket of the recipient. -/
def decodeRecipientProtected : Dec RecipientProtected := do
  let data ← decodeBstr
  if data.length > 0 then do
    let (hdr, state) ← MonadExcept.ofExcept (decodeProtectedHdr (.mem data) .zero)
    return ⟨data, hdr, state⟩
  else
    return ⟨data, .zero, .init⟩

/-- Whether a recipient is taken for one of HPKE: by its protected algorithm, or if it has none, by the
one that the caller expects. -/
def isHpkeRecipient (prot : RecipientProtected) (expectedAlg : Int) : Prop :=
  hpke0KeDecrypt = true ∧ ((prot.state.contains hdrAlg = true ∧ prot.hdr.alg = algHpke0Ke)
    ∨ (prot.state.contains hdrAlg = false ∧ expectedAlg = algHpke0Ke))

instance (prot : RecipientProtected) (expectedAlg : Int) : Decidable (isHpkeRecipient prot expectedAlg) :=
  inferInstanceAs (Decidable (_ ∧ _))

/-- The checks of the algorithm that the protected bucket of the recipient gives. -/
def checkProtectedAlg (recipient : Recipient) (recipientAlgId contentAlgId : Int) (onlyRecipient : Bool) :
    Except Err Unit := do
  if recipientAlgId ≠ algUnset then validateRecipientKeyAlg recipient.key recipientAlgId contentAlgId
  rejectIf (recipientAlgId ≠ algUnset ∧ ¬ recipientAlgSupported recipientAlgId) .coseBadAlg
  rejectIf (recipientAlgId ≠ algUnset ∧ recipient.algId ≠ algUnset ∧ recipient.algId ≠ recipientAlgId) .coseBadAlg
  rejectIf (isEcdhEsDirectAlg recipientAlgId ∧ onlyRecipient = false) .coseBadHdr

/-- What the unprotected bucket of a recipient contributes: the header, an ephemeral key, and an
encapsulated key. -/
structure RecipientUnprotected where
  hdr : Hdr
  ephem : Option EphemeralKey
  ek : Option Bytes

/-- The checks of the unprotected bucket of a recipient with HPKE. -/
def hpkeHeaderBad (algProtected : Bool) (hdr : Hdr) (state : HdrState) (ek : Option Bytes) : Prop :=
  (algProtected = false ∧ state.contains hdrAlg = true) ∨ hdr.iv.isSome = true ∨ hdr.partialIv.isSome = true
    ∨ ek.isSome = false ∨ (ek.getD []).length ≠ hpke0EncSz ∨ state.contains hpke0PskIdLabel = true

instance (algProtected : Bool) (hdr : Hdr) (state : HdrState) (ek : Option Bytes) :
    Decidable (hpkeHeaderBad algProtected hdr state ek) := inferInstanceAs (Decidable (_ ∨ _))

/-- The steps of `wc_CoseEncrypt_Decrypt` that decode the unprotected bucket of the recipient. -/
def decodeRecipientUnprotected (key : Option Key) (prot : RecipientProtected) (isHpke : Bool) :
    Dec RecipientUnprotected :=
  if isEcdhEsDirectAlg prot.hdr.alg then do
    let ephem ← decodeAgreementHdr key prot.state
    return ⟨prot.hdr, some ephem, none⟩
  else if isHpke = true then do
    let (hdr, state, ek) ← decodeUnprotectedHdrHpke prot.hdr prot.state
    failIf (hpkeHeaderBad (prot.state.contains hdrAlg) hdr state ek) .coseBadHdr
    return ⟨hdr, none, ek⟩
  else do
    let (hdr, _) ← decodeUnprotectedHdr prot.hdr prot.state
    return ⟨hdr, none, none⟩

/-- The checks of the algorithm of the recipient, once both buckets are decoded; the result is the mode
that the recipients have in common. -/
def checkRecipientAlg (recipient : Recipient) (protectedData : Bytes) (recipientAlgId contentAlgId : Int)
    (bodyAlgProtected hasEphem onlyRecipient : Bool) (mode : Option RecipientMode) :
    Except Err (Option RecipientMode) := do
  validateRecipientKeyAlg recipient.key recipientAlgId contentAlgId
  let mode ← updateRecipientMode recipientAlgId mode
  rejectIf (recipientAlgId = algDirect ∧ protectedData.length ≠ 0) .coseBadHdr
  rejectIf (¬ recipientAlgSupported recipientAlgId) .coseBadAlg
  rejectIf (isKeyWrapAlg recipientAlgId ∧ protectedData.length ≠ 0) .coseBadHdr
  rejectIf (isEcdhEsDirectAlg recipientAlgId ∧ hasEphem = false) .coseBadAlg
  rejectIf (recipient.algId ≠ algUnset ∧ recipient.algId ≠ recipientAlgId) .coseBadAlg
  rejectIf (bodyAlgProtected = false ∧ ¬ (hpke0KeDecrypt = true ∧ recipientAlgId = algHpke0Ke) ∧
    (recipientAlgId ≠ algDirect ∨ recipient.key.all (fun key => key.alg ≠ contentAlgId) = true)) .coseBadAlg
  rejectIf (isEcdhEsDirectAlg recipientAlgId ∧ onlyRecipient = false) .coseBadHdr
  return mode

/-- Where the key of a message comes from. -/
inductive CekSource where
  | direct
  | keyWrap (wrapped : Bytes)
  | ecdhEs (ephem : EphemeralKey)
  | hpke (ek : Option Bytes) (wrapped : Bytes)

/-- The steps of `wc_CoseEncrypt_Decrypt` that decode the third field of the recipient. -/
def decodeCekSource (recipientAlgId : Int) (unprot : RecipientUnprotected) : Dec CekSource :=
  if hpke0KeDecrypt = true ∧ recipientAlgId = algHpke0Ke then do
    let wrapped ← decodeBstr
    failIf (wrapped.length < hpke0TagSz) .cborMalformed
    return .hpke unprot.ek wrapped
  else if isKeyWrapAlg recipientAlgId then do
    let wrapped ← decodeBstr
    failIf (wrapped.length < 24) .cborMalformed
    return .keyWrap wrapped
  else do
    let ctx ← get
    let item ← decodeHead
    failIf (recipientAlgId = algDirect ∧ (item.majorType ≠ .bstr ∨ item.data.length ≠ 0)) .coseBadHdr
    failIf (ctx.rest.head? ≠ some cborNull ∧ item.majorType ≠ .bstr) .cborType
    failIf (ctx.rest.head? ≠ some cborNull ∧ item.data.length ≠ 0) .cborMalformed
    return unprot.ephem.elim .direct .ecdhEs

/-- A recipient that is selected. -/
structure SelectedRecipient where
  protectedData : Bytes
  alg : Int
  source : CekSource

/-- The algorithm of a recipient once both buckets are decoded. -/
def recipientAlg (isHpke : Bool) (unprot : RecipientUnprotected) : Int :=
  if isHpke = true then algHpke0Ke else unprot.hdr.alg

/-- The steps of `wc_CoseEncrypt_Decrypt` that decode the selected recipient; the result is also the mode
that it has in common with those before it. -/
def decodeEncryptRecipient (recipient : Recipient) (contentAlgId : Int) (bodyAlgProtected onlyRecipient : Bool)
    (mode : Option RecipientMode) : Dec (SelectedRecipient × Option RecipientMode) := do
  let arrayCount ← decodeArrayStart
  failIf (arrayCount ≠ 3) .cborMalformed
  let prot ← decodeRecipientProtected
  let isHpke := decide (isHpkeRecipient prot recipient.algId)
  failIf (isHpke = true ∧ (prot.state.contains hdrHpkeEk = true ∨ prot.state.contains hpke0PskIdLabel = true))
    .coseBadHdr
  let protectedAlg := if isHpke = true then algHpke0Ke else prot.hdr.alg
  MonadExcept.ofExcept (checkProtectedAlg recipient protectedAlg contentAlgId onlyRecipient)
  let unprot ← decodeRecipientUnprotected recipient.key prot isHpke
  let alg := recipientAlg isHpke unprot
  let mode ← MonadExcept.ofExcept (checkRecipientAlg recipient prot.data alg contentAlgId bodyAlgProtected
    unprot.ephem.isSome onlyRecipient mode)
  let source ← decodeCekSource alg unprot
  return (⟨prot.data, alg, source⟩, mode)

/-! ### The message -/

/-- What `wc_CoseEncrypt_Decrypt` finds in a message. -/
structure EncryptMessage where
  headers : Headers
  hdr : Hdr
  ciphertext : Bytes
  recipient : SelectedRecipient

/-- The steps of `wc_CoseEncrypt_Decrypt` that decode the recipients. -/
def decodeEncryptRecipients (recipient : Recipient) (recipientIndex : Nat) (headers : Headers) :
    Dec SelectedRecipient := do
  let recipientsCount ← decodeArrayStart
  failIf (recipientIndex ≥ recipientsCount) .invalidArg
  let mode ← decodeSkippedRecipients recipientIndex none
  let (selected, mode) ← decodeEncryptRecipient recipient headers.hdr.alg headers.algProtected
    (decide (recipientsCount = 1 ∧ recipientIndex = 0)) mode
  let _ ← decodeSkippedRecipients (recipientsCount - (recipientIndex + 1)) mode
  return selected

variable [AeadSettings]

/-- The check of `wc_CoseEncrypt_Decrypt` that the nonce fits the algorithm. -/
def checkNonce (hdr : Hdr) : Except Err Unit := do
  let nonceLen ← aeadNonceLen hdr.alg
  rejectIf ((hdr.iv.getD []).length ≠ nonceLen) .coseBadHdr

/-- The steps of `wc_CoseEncrypt_Decrypt` that decode the message. -/
def decodeEncrypt (recipient : Recipient) (recipientIndex : Nat) (detachedCt : Pointer) : Dec EncryptMessage := do
  decodeStart tagEncrypt 4 0
  let headers ← decodeHeaders 0
  MonadExcept.ofExcept (checkNonce headers.hdr)
  let (hdr, ciphertext) ← decodeMacPayload detachedCt headers.hdr
  let selected ← decodeEncryptRecipients recipient recipientIndex headers
  decodeEnd
  return ⟨headers, hdr, (verifyPayload detachedCt ciphertext).bytes, selected⟩

variable [AeadCrypt] [RecipientCrypt]

/-- The size of the buffers for the key of a message. -/
def cekBufSz : Nat := 32

/-- The steps of `wc_CoseEncrypt_Decrypt` that find the key of the message. -/
def recipientCek (recipient : Recipient) (selected : SelectedRecipient) (alg : Int) (keyLen : Nat)
    (scratch : Buffer) : Drawing Pointer :=
  match selected.source with
  | .hpke ek wrapped => do
      steady (failWhen (keyLen > sizeMax - hpke0TagSz ∨ wrapped.length ≠ keyLen + hpke0TagSz) .coseBadHdr)
      let info ← steady (lift (hpke0BuildRecipientInfo alg selected.protectedData scratch))
      let cek ← steady (hpke0Open recipient.key algHpke0Ke info [] ek wrapped cekBufSz)
      return .mem cek
  | .ecdhEs ephem =>
      match recipient.key with
      | none => throw (.err .coseKeyType)
      | some key => do
          steady (failWhen (key.kty ≠ ktyEc2 ∨ key.object.isNull = true ∨ key.hasPrivate = false) .coseKeyType)
          steady (failWhen (ephem.pub.x.length ≠ ephem.pub.y.length) .coseBadHdr)
          let cek ← ecdhEsDirectRecv selected.alg key ephem.pub alg keyLen selected.protectedData scratch cekBufSz
          return .mem cek
  | .keyWrap wrapped =>
      match recipient.key with
      | none => throw (.err .coseKeyType)
      | some key => do
          steady (failWhen (key.kty ≠ ktySymmetric) .coseKeyType)
          let cek ← steady (keyUnwrap selected.alg recipient.key wrapped cekBufSz)
          steady (failWhen (cek.length ≠ keyLen) .coseKeyType)
          return .mem cek
  | .direct =>
      match recipient.key with
      | none => throw (.err .coseKeyType)
      | some key => do
          steady (failWhen (key.kty ≠ ktySymmetric ∨ key.symmKeyLen ≠ keyLen) .coseKeyType)
          steady key.symmKey

/-- The steps of `wc_CoseEncrypt_Decrypt` after the checks of its arguments; the result is the header and
the plaintext. -/
def encryptDecryptMessage (recipient : Recipient) (recipientIndex : Nat) (input : Buffer)
    (detachedCt extAad : Pointer) (scratch : Buffer) (plaintextSz : Nat) : Drawing (Hdr × Bytes) := do
  let msg ← steady (decodeBuffer (decodeEncrypt recipient recipientIndex detachedCt) input)
  let alg := msg.headers.hdr.alg
  let keyLen ← steady (lift (aeadKeyLen alg))
  let tagLen ← steady (lift (aeadTagLen alg))
  let cek ← recipientCek recipient msg.recipient alg keyLen scratch
  steady (failWhen (msg.ciphertext.length < tagLen) .cborMalformed)
  let payloadLen := msg.ciphertext.length - tagLen
  steady (failAs .cborMalformed (lift (aeadCheckPayloadLen alg payloadLen)))
  steady (failWhen (payloadLen > plaintextSz) .cborOverflow)
  let aad ← steady (lift (buildEncStructure (.mem ctxEncrypt) (.mem msg.headers.protectedData) extAad (some scratch)))
  let cipher ← steady (aeadSetKey alg cek)
  let payload ← steady (aeadDecrypt cipher (msg.hdr.iv.getD []) aad (msg.ciphertext.take payloadLen)
    (msg.ciphertext.drop payloadLen))
  return (msg.hdr, payload)

/-- The result of a function that draws random numbers. -/
def drawn {α : Type} (p : Drawing α) (env : WolfCrypt.Env) : Checked α :=
  match p env with
  | .ok a _ => .ok a
  | .error fault _ => .error fault

/-- `wc_CoseEncrypt_Decrypt` -/
def encryptDecrypt (recipient : Option Recipient) (recipientIndex : Nat) (args : DecryptArgs) (out : DecryptOut)
    (env : WolfCrypt.Env) : Checked Unit × DecryptOut :=
  out.finish <|
    match recipient, args.input, args.scratch, out.hdr, out.plaintext, out.plaintextLen with
    | some recipient, some input, some scratch, some _, some plaintext, some _ => do
        failWhen (input.bytes.length = 0) .invalidArg
        failWhen (lenFitsWord32 input.bytes.length = false ∨ lenFitsWord32 args.detachedCt.len = false ∨
          lenFitsWord32 args.extAad.len = false ∨ lenFitsWord32 plaintext.length = false ∨
          lenFitsWord32 scratch.bytes.length = false) .invalidArg
        drawn (encryptDecryptMessage recipient recipientIndex input args.detachedCt args.extAad scratch
          plaintext.length) env
    | _, _, _, _, _, _ => throw (.err .invalidArg)

end

end WolfCose
