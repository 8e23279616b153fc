import WolfCose.Hdr.Decode
import WolfCose.Key.Encode
import WolfCose.Sig.Sign

/-!
# Decoding keys

`wc_CoseKey_Decode` walks through the map of a key and keeps the components by their labels, whose
meaning depends on the type of the key and so is settled behind the walk: then the components are
checked and imported into the attached object.
-/

namespace WolfCose

open Program Cbor Settings KeySettings WolfCrypt RecipientCrypt RecipientSettings KeyCrypt

section

variable [Settings]

/-! ### The walk -/

/-- `wolfCose_SkipIfTstrLabel` -/
def skipIfTstrLabel : Dec Unit := do
  let ctx ← get
  failIf (ctx.idx ≥ ctx.bufSz) .cborMalformed
  failIf (ctx.peekType = some .tstr) .cborMalformed

/-- One turn of the loop over the entries of a key. -/
def decodeKeyEntry {σ : Type} (value : Int → σ → Dec σ) (scan : Scan σ) : Dec (Scan σ) := do
  skipIfTstrLabel
  let label ← decodeInt
  let state ← MonadExcept.ofExcept (scan.state.checkAndAdd label)
  let vars ← value label scan.vars
  return ⟨state, vars⟩

/-- The loop over the entries of a key, for the given number of them.  The variables are also those
that a turn that fails leaves behind. -/
def walkKeyEntries {σ : Type} (value : Int → σ → Dec σ) : Nat → Scan σ → DecCtx → Except Err DecCtx × σ
  | 0, scan, ctx => (.ok ctx, scan.vars)
  | n + 1, scan, ctx =>
      match decodeKeyEntry value scan ctx with
      | .ok scan' ctx' => walkKeyEntries value n scan' ctx'
      | .error e _ => (.error e, scan.vars)

/-- The head of the map of a key, which is not too large; the result is the number of entries. -/
def decodeKeyMapStart : Dec Nat := do
  let mapCount ← decodeMapStart
  failIf (mapCount > maxMapItems) .cborMalformed
  return mapCount

/-- The walk through a key. -/
def walkKey {σ : Type} (value : Int → σ → Dec σ) (vars : σ) (input : Buffer) : Except Err DecCtx × σ :=
  match decodeKeyMapStart (.init input) with
  | .ok mapCount ctx => walkKeyEntries value mapCount ⟨.init, vars⟩ ctx
  | .error e _ => (.error e, vars)

/-! ### The entries -/

/-- The value of the type of a key. -/
def decodeKty : Dec Int := do
  let uval ← decodeUint
  failIf (uval > 2 ^ 31 - 1) .coseBadHdr
  return uval

/-- An integer value of 32 bits. -/
def decodeInt32 (e : Err) : Dec Int := do
  let val ← decodeInt
  failIf (inInt32Range val = false) e
  return val

variable [KeySettings]

omit [KeySettings] in
/-- `wolfCose_DecodeRsaPrivateComponent`; there is no component where the value is of another type. -/
def decodeRsaPrivateComponent : Dec (Option Bytes) := do
  let ctx ← get
  if ctx.peekType = some .bstr then some <$> decodeBstr
  else do
    skip
    return none

/-- What `wc_CoseKey_Decode` finds in the map of a key.  The pointers are null where the entry is
missing; they are named after the labels, of which `x`, `y` and `d` are also the exponents and the
first factor of an RSA key, and `n` is also the public or the symmetric key of other types. -/
structure KeyVars where
  kty : Int
  alg : Int
  crv : Int
  kid : Option Bytes
  n : Option Bytes
  x : Option Bytes
  y : Option Bytes
  d : Option Bytes
  q : Option Bytes
  dp : Option Bytes
  dq : Option Bytes
  qi : Option Bytes
  rsaPrivateTypeInvalid : Bool
  deriving DecidableEq

/-- The variables before the walk. -/
def KeyVars.init : KeyVars where
  kty := 0
  alg := algUnset
  crv := 0
  kid := none
  n := none
  x := none
  y := none
  d := none
  q := none
  dp := none
  dq := none
  qi := none
  rsaPrivateTypeInvalid := false

omit [KeySettings] in
/-- The branch of `wc_CoseKey_Decode` for a private component of an RSA key. -/
def decodeRsaValue (vars : KeyVars) (store : Bytes → KeyVars) : Dec KeyVars := do
  match ← decodeRsaPrivateComponent with
  | some data => return store data
  | none => return { vars with rsaPrivateTypeInvalid := true }

/-- The value of an entry of a key. -/
def decodeKeyValue (label : Int) (vars : KeyVars) : Dec KeyVars :=
  if label = keyLabelKty then do
    let kty ← decodeKty
    return { vars with kty }
  else if label = keyLabelKid then do
    let kid ← decodeBstr
    return { vars with kid := some kid }
  else if label = keyLabelAlg then do
    let ctx ← get
    failIf (ctx.peekType = some .tstr) .coseBadAlg
    let alg ← decodeInt32 .coseBadAlg
    return { vars with alg }
  else if label = keyLabelKeyOps then throw .unsupported
  else if label = keyLabelCrv then do
    let ctx ← get
    if ctx.peekType = some .bstr then do
      let n ← decodeBstr
      return { vars with n := some n }
    else do
      let crv ← decodeInt32 .coseBadHdr
      return { vars with crv }
  else if label = keyLabelX then do
    let x ← decodeBstr
    return { vars with x := some x }
  else if label = keyLabelY then do
    let y ← decodeBstr
    return { vars with y := some y }
  else if label = keyLabelD then do
    let d ← decodeBstr
    return { vars with d := some d }
  else if haveRsaPrivateKeyDecode = true ∧ label = keyLabelRsaQ then
    decodeRsaValue vars fun q => { vars with q := some q }
  else if haveRsaPrivateKeyDecode = true ∧ label = keyLabelRsaDp then
    decodeRsaValue vars fun dp => { vars with dp := some dp }
  else if haveRsaPrivateKeyDecode = true ∧ label = keyLabelRsaDq then
    decodeRsaValue vars fun dq => { vars with dq := some dq }
  else if haveRsaPrivateKeyDecode = true ∧ label = keyLabelRsaQinv then
    decodeRsaValue vars fun qi => { vars with qi := some qi }
  else do
    skip
    return vars

/-! ### The checks -/

/-- The length of a component, which is zero where there is none. -/
def lenOf (data : Option Bytes) : Nat := (data.map List.length).getD 0

/-- Whether an RSA key is decoded with its own object or without one. -/
def rsaChecked (vars : KeyVars) (attached : AttachedType) : Prop :=
  haveRsapss = true ∧ vars.kty = ktyRsa ∧ (attached = .none ∨ attached = .rsa)

instance (vars : KeyVars) (attached : AttachedType) : Decidable (rsaChecked vars attached) :=
  inferInstanceAs (Decidable (_ ∧ _))

/-- The checks of `wc_CoseKey_Decode` of an RSA key: the modulus and the exponent are there, the
private components have the widths that the modulus gives, and they are complete. -/
def checkRsaVars (vars : KeyVars) (attached : AttachedType) : Except Err Unit := do
  rejectIf (rsaChecked vars attached ∧ (lenOf vars.n = 0 ∨ lenOf vars.x = 0)) .coseBadHdr
  rejectIf (lenFitsWord32 (lenOf vars.n) = false ∨ lenFitsWord32 (lenOf vars.x) = false ∨
    lenFitsWord32 (lenOf vars.y) = false ∨ lenFitsWord32 (lenOf vars.d) = false) .coseBadHdr
  rejectIf (haveRsaPrivateKeyDecode = true ∧ (lenFitsWord32 (lenOf vars.q) = false ∨
    lenFitsWord32 (lenOf vars.dp) = false ∨ lenFitsWord32 (lenOf vars.dq) = false ∨
    lenFitsWord32 (lenOf vars.qi) = false)) .coseBadHdr
  let halfLen := lenOf vars.n - lenOf vars.n / 2
  rejectIf (haveRsaPrivateKeyDecode = true ∧ vars.kty = ktyRsa ∧ vars.y.isSome = true ∧
    (lenOf vars.y > lenOf vars.n ∨ lenOf vars.d > halfLen ∨ lenOf vars.q > halfLen ∨
      lenOf vars.dp > halfLen ∨ lenOf vars.dq > halfLen ∨ lenOf vars.qi > halfLen)) .coseBadHdr
  let crt := [vars.y, vars.d, vars.q, vars.dp, vars.dq, vars.qi]
  rejectIf (haveRsaPrivateKeyDecode = true ∧ rsaChecked vars attached ∧ crt.any Option.isSome = true ∧
    crt.any Option.isNone = true) .coseBadHdr
  rejectIf (haveRsaPrivateKeyDecode = false ∧ rsaChecked vars attached ∧
    (vars.y.isSome = true ∨ vars.d.isSome = true)) .unsupported

/-- The checks of `wc_CoseKey_Decode` of an EC2 key: there is a point or a private key, and they
have the size of the curve. -/
def checkEc2Vars (vars : KeyVars) : Except Err Unit := do
  rejectIf (vars.kty = ktyEc2 ∧ (vars.x.isNone = true ∨ vars.y.isNone = true) ∧ vars.d.isNone = true) .coseBadHdr
  if haveEcc = true ∧ vars.kty = ktyEc2 then do
    rejectIf (vars.crv ≠ crvP256 ∧ vars.crv ≠ crvP384 ∧ vars.crv ≠ crvP521) .coseBadAlg
    let coordSz ← crvKeySize vars.crv
    rejectIf ((vars.x.isSome = true ∧ lenOf vars.x ≠ coordSz) ∨ (vars.y.isSome = true ∧ lenOf vars.y ≠ coordSz) ∨
      (vars.d.isSome = true ∧ lenOf vars.d ≠ coordSz)) .coseBadHdr

omit [KeySettings] in
/-- The sizes of the public and of the private key of an OKP curve. -/
def okpSizes (crv : Int) : Except Err (Nat × Nat) :=
  if haveEddsa = true ∧ crv = crvEd25519 then .ok (32, 32)
  else if haveEd448 = true ∧ crv = crvEd448 then .ok (57, 57)
  else .error .coseBadAlg

omit [KeySettings] in
/-- The checks of `wc_CoseKey_Decode` of an OKP key. -/
def checkOkpVars (vars : KeyVars) : Except Err Unit :=
  if (haveEddsa = true ∨ haveEd448 = true) ∧ vars.kty = ktyOkp then do
    rejectIf (vars.x.isNone = true ∧ vars.d.isNone = true) .coseBadHdr
    let (pubSz, privSz) ← okpSizes vars.crv
    rejectIf ((vars.x.isSome = true ∧ lenOf vars.x ≠ pubSz) ∨ (vars.d.isSome = true ∧ lenOf vars.d ≠ privSz))
      .coseBadHdr
  else return ()

omit [Settings] [KeySettings] in
/-- `wolfCose_KeyAttachedTypeCheck` -/
def keyAttachedTypeCheck (kty crv : Int) (attached : AttachedType) : Except Err Unit :=
  match attached with
  | .none => .ok ()
  | .ecc => rejectIf (kty ≠ ktyEc2) .coseKeyType
  | .ed25519 => rejectIf (kty ≠ ktyOkp ∨ crv ≠ crvEd25519) .coseKeyType
  | .ed448 => rejectIf (kty ≠ ktyOkp ∨ crv ≠ crvEd448) .coseKeyType
  | .rsa => rejectIf (kty ≠ ktyRsa) .coseKeyType
  | .mldsa => rejectIf (kty ≠ ktyAkp) .coseKeyType
  | .symmetric => rejectIf (kty ≠ ktySymmetric) .coseKeyType
  | .lms => rejectIf (kty ≠ ktyHssLms) .coseKeyType

omit [Settings] [KeySettings] in
/-- Whether an algorithm is ML-DSA with one of its parameter sets. -/
def isMlDsaAlg (alg : Int) : Prop := alg = algMlDsa44 ∨ alg = algMlDsa65 ∨ alg = algMlDsa87

instance (alg : Int) : Decidable (isMlDsaAlg alg) := inferInstanceAs (Decidable (_ ∨ _))

/-- The checks of `wc_CoseKey_Decode` of an AKP key and of an HSS-LMS key. -/
def checkAkpLmsVars (vars : KeyVars) (attached : AttachedType) : Except Err Unit := do
  rejectIf (vars.kty = ktyAkp ∧ ¬ isMlDsaAlg vars.alg) .coseBadAlg
  rejectIf (vars.kty = ktyAkp ∧ vars.n.isNone = true) .coseBadHdr
  rejectIf (vars.kty = ktyAkp ∧ vars.x.isSome = true ∧ lenOf vars.x ≠ mlDsaSeedSz) .coseBadHdr
  rejectIf (mlDsaNoMakeKey = true ∧ vars.kty = ktyAkp ∧ vars.x.isSome = true ∧ attached = .mldsa) .unsupported
  rejectIf (vars.kty = ktyHssLms ∧ vars.alg ≠ algUnset ∧ vars.alg ≠ algHssLms) .coseBadAlg
  rejectIf (vars.kty = ktyHssLms ∧ (vars.n.isNone = true ∨ vars.x.isSome = true ∨ vars.y.isSome = true ∨
    vars.d.isSome = true)) .coseBadHdr

/-- The checks of `wc_CoseKey_Decode` between the walk and the import. -/
def checkKeyVars (vars : KeyVars) (attached : AttachedType) (ctx : DecCtx) : Except Err Unit := do
  rejectIf (vars.kty = 0) .coseBadHdr
  rejectIf (haveRsaPrivateKeyDecode = true ∧ vars.kty = ktyRsa ∧ vars.rsaPrivateTypeInvalid = true) .coseBadHdr
  rejectIf (ctx.idx ≠ ctx.bufSz) .cborMalformed
  checkRsaVars vars attached
  checkEc2Vars vars
  checkOkpVars vars
  keyAttachedTypeCheck vars.kty vars.crv attached
  checkAkpLmsVars vars attached

/-! ### The import -/

variable [RecipientSettings] [WolfCrypt] [RecipientCrypt] [KeyCrypt]

omit [Settings] [KeySettings] [RecipientSettings] [RecipientCrypt] [KeyCrypt] in
/-- A function that imports into a key. -/
abbrev Importing (α : Type) := EStateM Fault Key α

omit [Settings] [KeySettings] [RecipientSettings] [RecipientCrypt] [KeyCrypt] in
/-- A step that does not change the key. -/
def pureStep {α : Type} (x : Checked α) : Importing α := MonadExcept.ofExcept x

omit [Settings] [KeySettings] [RecipientSettings] [RecipientCrypt] [KeyCrypt] in
/-- The result of an import: the object it leaves behind, and what the key says of its private part. -/
def imported (ok : Bool) (object : KeyObject) (hasPrivate : Bool) : Importing Unit := do
  modify fun key => { key with object, hasPrivate }
  pureStep (failWhen (ok = false) .crypto)

omit [Settings] [KeySettings] [RecipientSettings] [RecipientCrypt] in
/-- `wolfCose_EccPrivateImportBegin` -/
def eccPrivateImportBegin (ecc : EccKey) : Checked Unit := do
  failWhen (eccType ecc ≠ 0 ∨ eccIdx ecc ≠ 0 ∨ eccState ecc ≠ 0 ∨ eccHasDp ecc = true ∨ eccOwnsStorage ecc = false)
    .invalidArg
  failWhen (eccPrivateValuesAreZero ecc = false) .invalidArg
  failWhen (eccPrivateImportSupported ecc = false) .unsupported

omit [Settings] [KeySettings] [RecipientSettings] [RecipientCrypt] in
/-- The result of an import of a private EC2 key, which is rolled back when it fails. -/
def importedEccPrivate (saved : EccKey) (result : Bool × EccKey) : Importing Unit :=
  if result.1 = true then imported true (.ecc result.2) true
  else imported false (.ecc (eccPrivateImportRollback result.2 saved)) false

omit [Settings] [KeySettings] [RecipientCrypt] in
/-- The steps of `wc_CoseKey_Decode` that import an EC2 key. -/
def importEcc (vars : KeyVars) : Importing Unit := do
  let key ← get
  let ecc ← pureStep key.object.asEcc
  match vars.x, vars.y, vars.d with
  | some x, some y, some d => do
      pureStep (eccPrivateImportBegin ecc)
      let wcCrv ← pureStep (lift (crvToWcCurve key.crv))
      let coordSz ← pureStep (lift (crvKeySize key.crv))
      pureStep (failWhen (coordSz > maxEccBytes) .crypto)
      importedEccPrivate ecc
        (eccImportUnsignedEx ecc (x.take coordSz) (y.take coordSz) (some (d.take coordSz)) wcCrv)
  | some x, some y, none => do
      let wcCrv ← pureStep (lift (crvToWcCurve key.crv))
      let coordSz ← pureStep (lift (crvKeySize key.crv))
      pureStep (failWhen (coordSz > maxEccBytes) .crypto)
      let (ok, ecc) := eccImportUnsignedEx ecc (x.take coordSz) (y.take coordSz) none wcCrv
      imported ok (.ecc ecc) key.hasPrivate
  | _, _, some d => do
      pureStep (eccPrivateImportBegin ecc)
      let wcCrv ← pureStep (lift (crvToWcCurve key.crv))
      importedEccPrivate ecc (eccImportPrivateKeyEx ecc d wcCrv)
  | _, _, none => throw (.err .coseBadHdr)

omit [Settings] [KeySettings] [RecipientSettings] [RecipientCrypt] in
/-- The steps of `wc_CoseKey_Decode` that import an RSA key. -/
def importRsa (vars : KeyVars) : Importing Unit := do
  let key ← get
  match vars.n, vars.x with
  | some n, some e => do
      let rsa ← pureStep key.object.asRsa
      match vars.y, vars.d, vars.q, vars.qi with
      | some d, some p, some q, some u => do
          let (ok, rsa) := rsaPrivateKeyDecodeRaw rsa n e d u p q (vars.dp.getD []) (vars.dq.getD [])
          imported ok (.rsa rsa) (key.hasPrivate || ok)
      | _, _, _, _ => do
          let (ok, rsa) := rsaPublicKeyDecodeRaw rsa n e
          imported ok (.rsa rsa) (key.hasPrivate && !ok)
  | _, _ => throw (.err .coseBadHdr)

omit [Settings] [KeySettings] [RecipientSettings] [RecipientCrypt] in
/-- `wolfCose_MlDsaImportRollback` -/
def mlDsaImportRollback (mldsa : MlDsaKey) (level : Nat) : MlDsaKey :=
  (mlDsaSetParams (mlDsaClearPrivate mldsa) level).2

omit [Settings] [KeySettings] [RecipientSettings] [RecipientCrypt] in
/-- The steps of `wc_CoseKey_Decode` that derive an ML-DSA key from its seed, which has to give the
public key that has been imported. -/
def importMlDsaSeed (pub seed : Bytes) (mldsa : MlDsaKey) (level : Nat) : Importing Unit := do
  let (ok, derived) := mlDsaMakeKeyFromSeed mldsa seed
  let failed : Importing Unit :=
    modify fun key =>
      { key with object := .mldsa (mlDsaImportRollback derived level), hasPrivate := false, mldsaSeed := .null 0 }
  if ok = true ∧ (mlDsaP derived).take pub.length ≠ pub then do
    failed
    throw (.err .coseBadHdr)
  else if ok = true then
    modify fun key => { key with object := .mldsa derived, hasPrivate := true, mldsaSeed := .mem seed }
  else do
    failed
    throw (.err .crypto)

omit [RecipientSettings] [RecipientCrypt] in
/-- The steps of `wc_CoseKey_Decode` that import an AKP key. -/
def importMlDsa (vars : KeyVars) : Importing Unit := do
  let key ← get
  let level ← pureStep (lift (mlDsaAlgLevel key.alg))
  pureStep (failWhen (key.crv ≠ 0) .coseBadHdr)
  let mldsa ← pureStep key.object.asMldsa
  let (ok, mldsa) := mlDsaSetParams mldsa level
  imported ok (.mldsa mldsa) key.hasPrivate
  let pub := vars.n.getD []
  let (ok, mldsa) := mlDsaImportPubRaw mldsa pub
  imported ok (.mldsa mldsa) key.hasPrivate
  match vars.x with
  | some seed => if mlDsaNoMakeKey = true then return () else importMlDsaSeed pub seed mldsa level
  | none => return ()

omit [Settings] [KeySettings] [RecipientSettings] [RecipientCrypt] in
/-- The steps of `wc_CoseKey_Decode` that import an HSS-LMS key. -/
def importLms (vars : KeyVars) : Importing Unit := do
  let key ← get
  let lms ← pureStep key.object.asLms
  let (ok, lms) := lmsImportPubRaw lms (vars.n.getD [])
  imported ok (.lms lms) (key.hasPrivate && !ok)

omit [Settings] [KeySettings] [RecipientSettings] [RecipientCrypt] [KeyCrypt] in
/-- The steps of `wc_CoseKey_Decode` that import an OKP key, with the functions for its curve.  Without
a public key it is made from the private one, which is cleared if that fails. -/
def importEdwards {κ : Type} (object : κ → KeyObject) (importPublic : κ → Bytes → Bool × κ)
    (importPrivateKey : κ → Bytes → Bytes → Bool × κ) (importPrivateOnly : κ → Bytes → Bool × κ)
    (makePublic : κ → Bool × κ) (clearPrivate : κ → κ) (ed : κ) (vars : KeyVars) : Importing Unit := do
  let key ← get
  match vars.d, vars.x with
  | some d, some x => do
      let (ok, ed) := importPrivateKey ed d x
      imported ok (object ed) (key.hasPrivate || ok)
  | some d, none => do
      let (ok, ed) := importPrivateOnly ed d
      imported ok (object ed) key.hasPrivate
      let (ok, ed) := makePublic ed
      imported ok (object (if ok then ed else clearPrivate ed)) (key.hasPrivate || ok)
  | none, some x => do
      let (ok, ed) := importPublic ed x
      imported ok (object ed) key.hasPrivate
  | none, none => throw (.err .coseBadHdr)

omit [KeySettings] [RecipientSettings] [RecipientCrypt] in
/-- The steps of `wc_CoseKey_Decode` that import an OKP key. -/
def importOkp (vars : KeyVars) : Importing Unit := do
  let key ← get
  pureStep (failWhen (vars.x.isNone = true ∧ vars.d.isNone = true) .coseBadHdr)
  if haveEddsa = true ∧ key.crv = crvEd25519 ∧ key.attachedType = .ed25519 then do
    let ed25519 ← pureStep key.object.asEd25519
    importEdwards .ed25519 ed25519ImportPublic ed25519ImportPrivateKey ed25519ImportPrivateOnly ed25519MakePublic
      ed25519ClearPrivate ed25519 vars
  else if haveEd448 = true ∧ key.crv = crvEd448 ∧ key.attachedType = .ed448 then do
    let ed448 ← pureStep key.object.asEd448
    importEdwards .ed448 ed448ImportPublic ed448ImportPrivateKey ed448ImportPrivateOnly ed448MakePublic
      ed448ClearPrivate ed448 vars
  else throw (.err .coseBadAlg)

omit [Settings] [KeySettings] [RecipientSettings] [RecipientCrypt] [KeyCrypt] in
/-- The steps of `wc_CoseKey_Decode` that store a symmetric key. -/
def importSymmetric (vars : KeyVars) : Importing Unit := do
  match vars.n with
  | some (b :: k) =>
      modify fun key =>
        { key with object := .symm (b :: k), symmKeyLen := (b :: k).length, hasPrivate := true }
  | _ => throw (.err .coseBadHdr)

omit [RecipientCrypt] in
/-- The steps of `wc_CoseKey_Decode` that import the components of a key. -/
def importKey (vars : KeyVars) : Importing Unit := do
  let key ← get
  if haveEcc = true ∧ key.kty = ktyEc2 ∧ key.attachedType = .ecc then importEcc vars
  else if haveRsapss = true ∧ key.kty = ktyRsa ∧ key.attachedType = .rsa then importRsa vars
  else if haveMldsa = true ∧ key.kty = ktyAkp ∧ key.attachedType = .mldsa then importMlDsa vars
  else if haveLms = true ∧ key.kty = ktyHssLms ∧ key.attachedType = .lms then importLms vars
  else if (haveEddsa = true ∨ haveEd448 = true) ∧ key.kty = ktyOkp ∧ key.attachedType ≠ .none then importOkp vars
  else if key.kty = ktySymmetric then importSymmetric vars
  else return ()

/-! ### The function -/

omit [Settings] [KeySettings] [RecipientSettings] [RecipientCrypt] [KeyCrypt] in
/-- What is reset before a key is decoded: all but the attached object and the signer. -/
def Key.resetForDecode (key : Key) : Key :=
  { key with
    kty := 0
    alg := algUnset
    crv := 0
    kid := .null 0
    object := if key.attachedType = .none then .null else key.object
    symmKeyLen := if key.attachedType = .none then 0 else key.symmKeyLen
    mldsaSeed := .null 0
    hasPrivate := false }

omit [Settings] [KeySettings] [RecipientSettings] [RecipientCrypt] [KeyCrypt] in
/-- A key with the fields that the walk stores. -/
def KeyVars.store (vars : KeyVars) (key : Key) : Key :=
  { key with kty := vars.kty, alg := vars.alg, crv := vars.crv, kid := vars.kid.elim (.null 0) .mem }

omit [RecipientCrypt] in
/-- The steps of `wc_CoseKey_Decode` after the checks of its arguments. -/
def decodeKeyFrom (input : Buffer) : Importing Unit := do
  modify Key.resetForDecode
  let (walked, vars) := walkKey decodeKeyValue .init input
  modify vars.store
  let ctx ← pureStep (lift walked)
  let key ← get
  pureStep (lift (checkKeyVars vars key.attachedType ctx))
  importKey vars

omit [RecipientCrypt] in
/-- `wc_CoseKey_Decode`; the result is also the key that it leaves behind. -/
def keyDecode (key : Option Key) (input : Option Buffer) : Checked Unit × Option Key :=
  match key, input with
  | some key, some input =>
      if input.bytes.length = 0 then (.error (.err .invalidArg), some key)
      else if key.delegated = true then (.error (.err .coseKeyType), some key)
      else
        match decodeKeyFrom input key with
        | .ok () key => (.ok (), some key)
        | .error fault key => (.error fault, some key)
  | key, _ => (.error (.err .invalidArg), key)

end

end WolfCose
