import WolfCose.EatPsa.Token
import WolfCose.Hdr.DecodeSpec

/-!
# Decoding PSA claims

`wolfCose_EatPsaDecodeClaims`, `wolfCose_EatPsaDecodeComponents` and the iterator over software
components.  The decoder admits every width of a head, and it finds a duplicate label by reading
the map again from its start up to the label.
-/

namespace WolfCose

open Program Cbor Settings EatPsaSettings

/-! ### Labels -/

/-- `WOLFCOSE_EAT_PSA_LABEL`: an integer with its argument, or a text. -/
inductive EatPsaLabel where
  | uint (val : Nat)
  | negint (val : Nat)
  | text (text : Bytes)
  deriving DecidableEq, Repr

/-- `wolfCose_EatPsaLabelToInt` -/
def EatPsaLabel.toInt : EatPsaLabel → Option Int
  | .uint val => if val ≤ 2 ^ 63 - 1 then some (val : Int) else none
  | .negint val => if val ≤ 2 ^ 63 - 1 then some (-1 - (val : Int)) else none
  | .text _ => none

/-- `wolfCose_EatPsaLabelsEqual` -/
def eatPsaLabelsEqual : EatPsaLabel → EatPsaLabel → Bool
  | .uint first, .uint second => first == second
  | .negint first, .negint second => first == second
  | .text first, .text second =>
      first.length == second.length &&
        (first.length == 0 || eatPsaConstantCompare first second == 0)
  | _, _ => false

variable [Settings]

/-- `WOLFCOSE_EAT_PSA_DECODE_FLAGS` -/
def eatPsaDecodeFlags : UInt32 := allowNonpreferredFlag

/-- `wolfCose_EatPsaDecodeLabel` -/
def eatPsaDecodeLabel : Dec EatPsaLabel := do
  let item ← decodeHeadEx eatPsaDecodeFlags
  match item.majorType with
  | .uint => return .uint item.val
  | .negint => return .negint item.val
  | .tstr => return .text item.data
  | _ => throw .cborType

/-! ### Maps -/

/-- The last check of `wolfCose_EatPsaMapHasPriorLabel`: the entries end where the label
starts. -/
def eatPsaScanEnd (before : Nat) : Dec Bool := do
  let scan ← get
  failIf (scan.idx ≠ before) .cborMalformed
  return false

/-- The loop of `wolfCose_EatPsaMapHasPriorLabel`. -/
def eatPsaScanLoop (before : Nat) (label : EatPsaLabel) : Nat → Dec Bool
  | 0 => eatPsaScanEnd before
  | n + 1 => do
      let scan ← get
      if scan.idx < before then do
        let prior ← eatPsaDecodeLabel
        if eatPsaLabelsEqual prior label = true then
          return true
        else do
          skipEx eatPsaDecodeFlags
          eatPsaScanLoop before label n
      else
        eatPsaScanEnd before

/-- The scan of `wolfCose_EatPsaMapHasPriorLabel` over a map. -/
def eatPsaScanMap (before : Nat) (label : EatPsaLabel) : Dec Bool := do
  let count ← decodeMapStartEx eatPsaDecodeFlags
  eatPsaScanLoop before label count

/-- `wolfCose_EatPsaMapHasPriorLabel` -/
def eatPsaMapHasPriorLabel (map : Bytes) (before : Nat) (label : EatPsaLabel) : Dec Bool := do
  failIf (before > map.length) .invalidArg
  let (duplicate, _) ← onLocal (.init (.ofBytes map)) (eatPsaScanMap before label)
  return duplicate

/-- One turn of the loops over the entries of a claims map and of a component: the label is
decoded and searched among those before it, then the value is decoded. -/
def eatPsaDecodeEntry {σ : Type} (mapStart : Nat) (value : EatPsaLabel → σ → Dec σ) (vars : σ) :
    Dec σ := do
  let start ← get
  let label ← eatPsaDecodeLabel
  let duplicate ←
    eatPsaMapHasPriorLabel (start.cbuf.bytes.drop mapStart) (start.idx - mapStart) label
  failIf (duplicate = true) .eatPsaClaim
  value label vars

/-- The loops over the entries of a claims map and of a component, of at most `limit`
entries. -/
def eatPsaDecodeMap {σ : Type} (limit : Nat) (value : EatPsaLabel → σ → Dec σ) (vars : σ) :
    Dec σ := do
  let start ← get
  let count ← decodeMapStartEx eatPsaDecodeFlags
  failIf (count > limit) .eatPsaClaim
  repeatM count (eatPsaDecodeEntry start.idx value) vars

variable [EatPsaSettings]

/-! ### Software components -/

/-- The claims of a software component. -/
inductive EatPsaComponentClaim where
  | type | value | ver | signer | desc
  deriving DecidableEq, Repr

namespace EatPsaComponentClaim

/-- The labels `WOLFCOSE_EAT_PSA_COMPONENT_*`. -/
def label : EatPsaComponentClaim → Nat
  | type => 1
  | value => 2
  | ver => 4
  | signer => 5
  | desc => 6

/-- The bit of a claim among those seen. -/
def bit : EatPsaComponentClaim → UInt32
  | type => 0x01
  | value => 0x02
  | ver => 0x04
  | signer => 0x08
  | desc => 0x10

/-- The major type of the value of a claim. -/
def majorType : EatPsaComponentClaim → MajorType
  | value => .bstr
  | signer => .bstr
  | _ => .tstr

/-- The claim with a label. -/
def ofLabel (label : Int) : Option EatPsaComponentClaim :=
  [type, value, ver, signer, desc].find? fun claim => (claim.label : Int) == label

/-- The component with the value of a claim. -/
def store (component : EatPsaComponent) (span : Pointer) : EatPsaComponentClaim → EatPsaComponent
  | type => { component with measurementType := span }
  | value => { component with measurementValue := span }
  | ver => { component with version := span }
  | signer => { component with signerId := span }
  | desc => { component with measurementDesc := span }

end EatPsaComponentClaim

/-- The claims seen so far in a component, and what they say. -/
structure EatPsaComponentVars where
  seen : UInt32
  component : EatPsaComponent

/-- The branches of `wolfCose_EatPsaDecodeComponent` for the value of a claim. -/
def eatPsaDecodeComponentValue (label : EatPsaLabel) (vars : EatPsaComponentVars) :
    Dec EatPsaComponentVars :=
  match label.toInt.bind EatPsaComponentClaim.ofLabel with
  | none => do
      skipEx eatPsaDecodeFlags
      return vars
  | some claim => do
      failIf (vars.seen &&& claim.bit ≠ 0) .eatPsaClaim
      let data ← decodeBytesEx claim.majorType eatPsaDecodeFlags
      return ⟨vars.seen ||| claim.bit, claim.store vars.component (.mem data)⟩

/-- `wolfCose_EatPsaDecodeComponent` -/
def eatPsaDecodeComponent : Dec EatPsaComponent := do
  let vars ← eatPsaDecodeMap maxComponentClaims eatPsaDecodeComponentValue ⟨0, .zero⟩
  failIf (eatPsaIsHash vars.component.measurementValue = false ∨
    eatPsaIsHash vars.component.signerId = false) .eatPsaClaim
  return vars.component

/-- One turn of the loop of `wolfCose_EatPsaDecodeComponents`, which only checks the
component. -/
def eatPsaCheckComponent : Dec Unit := do
  let _ ← eatPsaDecodeComponent
  return ()

/-- `wolfCose_EatPsaDecodeComponents`; the results are the encoded array and the number of
components. -/
def eatPsaDecodeComponents : Dec (Bytes × Nat) := do
  let start ← get
  failIf (start.idx ≥ start.bufSz) .invalidArg
  let count ← decodeArrayStartEx eatPsaDecodeFlags
  failIf (count = 0 ∨ count > maxComponents) .eatPsaClaim
  repeatM count (fun _ => eatPsaCheckComponent) ()
  let ctx ← get
  return (start.rest.take (ctx.idx - start.idx), count)

/-! ### Claims -/

/-- The claims of both profiles, the types of `wolfCose_EatPsaClaimType`. -/
inductive EatPsaClaim where
  | nonce | ueid | profile | bootSeed | clientId | lifecycle | implementation | certRef
  | components | noMeasurements | vsi
  deriving DecidableEq, Repr

/-- The bits `WOLFCOSE_EAT_PSA_HAVE_*`. -/
def EatPsaClaim.bit : EatPsaClaim → UInt32
  | nonce => 0x0001
  | ueid => 0x0002
  | profile => 0x0004
  | clientId => 0x0008
  | lifecycle => 0x0010
  | implementation => 0x0020
  | components => 0x0040
  | bootSeed => 0x0080
  | certRef => 0x0100
  | vsi => 0x0200
  | noMeasurements => 0x0400

/-- The labels `WOLFCOSE_EAT_PSA_LABEL_*` and `WOLFCOSE_EAT_PSA_OLD_LABEL_*` with their claims,
and whether they are legacy labels. -/
def eatPsaClaimTable : List (Int × EatPsaClaim × Bool) :=
  [(10, .nonce, false), (256, .ueid, false), (265, .profile, false), (268, .bootSeed, false),
    (2394, .clientId, false), (2395, .lifecycle, false), (2396, .implementation, false),
    (2398, .certRef, false), (2399, .components, false), (2400, .vsi, false),
    (-75008, .nonce, true), (-75009, .ueid, true), (-75000, .profile, true), (-75004, .bootSeed, true),
    (-75001, .clientId, true), (-75002, .lifecycle, true), (-75003, .implementation, true),
    (-75005, .certRef, true), (-75006, .components, true), (-75007, .noMeasurements, true),
    (-75010, .vsi, true)]

/-- `wolfCose_EatPsaClaimType` -/
def eatPsaClaimType (label : Int) : Option (EatPsaClaim × Bool) :=
  eatPsaClaimTable.lookup label

/-- What the value of a claim says. -/
inductive EatPsaClaimData where
  | nonce (span : Bytes)
  | ueid (span : Bytes)
  | profile (profile : EatPsaProfile)
  | bootSeed (span : Bytes)
  | clientId (clientId : Int32)
  | lifecycle (lifecycle : UInt16)
  | implementation (span : Bytes)
  | certRef (span : Bytes)
  | components (span : Bytes) (count : Nat)
  | noMeasurements
  | vsi (span : Bytes)
  deriving DecidableEq, Repr

/-- The token with the value of a claim. -/
def EatPsaToken.store (token : EatPsaToken) : EatPsaClaimData → EatPsaToken
  | .nonce span => { token with nonce := .mem span }
  | .ueid span => { token with ueid := .mem span }
  | .profile profile => { token with profile := profile }
  | .bootSeed span => { token with bootSeed := .mem span }
  | .clientId clientId => { token with clientId := clientId }
  | .lifecycle lifecycle => { token with lifecycle := lifecycle }
  | .implementation span => { token with implementationId := .mem span }
  | .certRef span => { token with certificationReference := .mem span }
  | .components span count => { token with components := .mem span, componentCount := count }
  | .noMeasurements => { token with noSoftwareMeasurements := 1 }
  | .vsi span => { token with verificationServiceIndicator := .mem span }

variable [MacSettings]

/-- `wolfCose_EatPsaSetProfile` for the profile of the label: the text has to be the one of the
profile, which has to be enabled. -/
def eatPsaSetProfile (text : Bytes) (legacy : Bool) : Except Err EatPsaProfile := do
  let expected := if legacy then eatPsaLegacyProfile else eatPsaTfmProfile
  rejectIf ((if legacy then eatPsaLegacy else eatPsaTfmFull) = false) .eatPsaProfile
  rejectIf (text.length ≠ expected.length ∨ eatPsaConstantCompare text expected ≠ 0) .eatPsaProfile
  return if legacy then .old else .current

/-- The branches of `wolfCose_EatPsaDecodeClaims` that decode the value of a claim. -/
def eatPsaDecodeClaimData (legacy : Bool) : EatPsaClaim → Dec EatPsaClaimData
  | .nonce => return .nonce (← decodeBstrEx eatPsaDecodeFlags)
  | .ueid => return .ueid (← decodeBstrEx eatPsaDecodeFlags)
  | .profile => do
      let text ← decodeTstrEx eatPsaDecodeFlags
      let profile ← MonadExcept.ofExcept (eatPsaSetProfile text legacy)
      return .profile profile
  | .bootSeed => return .bootSeed (← decodeBstrEx eatPsaDecodeFlags)
  | .clientId => do
      let clientId ← decodeIntEx eatPsaDecodeFlags
      failIf (clientId < -2147483647 - 1 ∨ clientId > 2147483647 ∨ clientId = 0) .eatPsaClaim
      return .clientId (Int32.ofInt clientId)
  | .lifecycle => do
      let lifecycle ← decodeUintEx eatPsaDecodeFlags
      failIf (lifecycle > 0xFFFF ∨ eatPsaLifecycleValid (UInt16.ofNat lifecycle) = false) .eatPsaClaim
      return .lifecycle (UInt16.ofNat lifecycle)
  | .implementation => return .implementation (← decodeBstrEx eatPsaDecodeFlags)
  | .certRef => return .certRef (← decodeTstrEx eatPsaDecodeFlags)
  | .components => do
      let (span, count) ← eatPsaDecodeComponents
      return .components span count
  | .noMeasurements => do
      let noMeasurements ← decodeUintEx eatPsaDecodeFlags
      failIf (noMeasurements ≠ 1) .eatPsaClaim
      return .noMeasurements
  | .vsi => return .vsi (← decodeTstrEx eatPsaDecodeFlags)

/-- The claims seen so far, whether labels of either profile are among them, and what they
say. -/
structure EatPsaClaimVars where
  seen : UInt32
  currentLabels : Bool
  oldLabels : Bool
  token : EatPsaToken
  deriving DecidableEq

/-- Nothing is seen yet. -/
def EatPsaClaimVars.init : EatPsaClaimVars := ⟨0, false, false, .zero⟩

/-- The branches of `wolfCose_EatPsaDecodeClaims` for the value of an entry. -/
def eatPsaDecodeClaimValue (label : EatPsaLabel) (vars : EatPsaClaimVars) : Dec EatPsaClaimVars :=
  match label.toInt.bind eatPsaClaimType with
  | none => do
      skipEx eatPsaDecodeFlags
      return vars
  | some (claim, legacy) => do
      failIf ((if legacy then eatPsaLegacy else eatPsaCurrent) = false) .eatPsaProfile
      failIf ((if legacy then vars.currentLabels else vars.oldLabels) = true) .eatPsaProfile
      failIf (vars.seen &&& claim.bit ≠ 0) .eatPsaClaim
      let data ← eatPsaDecodeClaimData legacy claim
      return ⟨vars.seen ||| claim.bit, vars.currentLabels || !legacy, vars.oldLabels || legacy,
        vars.token.store data⟩

/-- `WOLFCOSE_EAT_PSA_CURRENT_REQUIRED` -/
def eatPsaCurrentRequired : UInt32 :=
  EatPsaClaim.nonce.bit ||| EatPsaClaim.ueid.bit ||| EatPsaClaim.profile.bit |||
    EatPsaClaim.clientId.bit ||| EatPsaClaim.lifecycle.bit ||| EatPsaClaim.implementation.bit |||
    EatPsaClaim.components.bit

/-- `WOLFCOSE_EAT_PSA_OLD_REQUIRED` -/
def eatPsaOldRequired : UInt32 :=
  EatPsaClaim.nonce.bit ||| EatPsaClaim.ueid.bit ||| EatPsaClaim.clientId.bit |||
    EatPsaClaim.lifecycle.bit ||| EatPsaClaim.implementation.bit ||| EatPsaClaim.bootSeed.bit

/-- The check of `wolfCose_EatPsaDecodeClaims` that the claims of the current profile are
complete. -/
def eatPsaCheckCurrent (vars : EatPsaClaimVars) : Except Err Unit := do
  rejectIf (vars.seen &&& eatPsaCurrentRequired ≠ eatPsaCurrentRequired) .eatPsaClaim
  rejectIf (vars.token.profile ≠ .current) .eatPsaProfile

/-- The check of `wolfCose_EatPsaDecodeClaims` that the claims of the legacy profile are
complete; the profile itself is optional. -/
def eatPsaCheckOld (vars : EatPsaClaimVars) : Except Err EatPsaToken := do
  rejectIf (vars.seen &&& eatPsaOldRequired ≠ eatPsaOldRequired) .eatPsaClaim
  rejectIf ((vars.seen &&& EatPsaClaim.components.bit ≠ 0) ↔
    (vars.seen &&& EatPsaClaim.noMeasurements.bit ≠ 0)) .eatPsaClaim
  if vars.token.profile = .none then
    return { vars.token with profile := .old }
  else do
    rejectIf (vars.token.profile ≠ .old) .eatPsaProfile
    return vars.token

/-- The checks of `wolfCose_EatPsaDecodeClaims` on the lengths and contents of the claims. -/
def eatPsaCheckToken (token : EatPsaToken) : Except Err Unit := do
  rejectIf (token.nonce.len ≠ 32 ∧ token.nonce.len ≠ 48 ∧ token.nonce.len ≠ 64) .eatPsaClaim
  rejectIf (token.ueid.len ≠ 33 ∨ token.ueid.bytes.head? ≠ some 0x01 ∨ token.implementationId.len ≠ 32)
    .eatPsaClaim
  rejectIf (eatPsaCurrent = true ∧ token.profile = .current ∧ token.bootSeed.isNull = false ∧
    (token.bootSeed.len < 8 ∨ token.bootSeed.len > 32)) .eatPsaClaim
  rejectIf (eatPsaLegacy = true ∧ token.profile = .old ∧ token.bootSeed.len ≠ 32) .eatPsaClaim
  rejectIf (eatPsaCurrent = true ∧ token.certificationReference.isNull = false ∧ token.profile = .current ∧
    eatPsaCertRefValid token.certificationReference 18 true = false) .eatPsaClaim
  rejectIf (eatPsaLegacy = true ∧ token.certificationReference.isNull = false ∧ token.profile = .old ∧
    eatPsaCertRefValid token.certificationReference 13 false = false) .eatPsaClaim

/-- The checks of `wolfCose_EatPsaDecodeClaims` after the loop over the entries. -/
def eatPsaCheckClaims (vars : EatPsaClaimVars) : Except Err EatPsaToken := do
  rejectIf (vars.currentLabels = vars.oldLabels) .eatPsaProfile
  if eatPsaCurrent = true ∧ vars.currentLabels = true then
    eatPsaCheckCurrent vars
  let token ← if eatPsaLegacy = true ∧ vars.oldLabels = true then eatPsaCheckOld vars else pure vars.token
  eatPsaCheckToken token
  return token

/-- The steps of `wolfCose_EatPsaDecodeClaims` on a payload. -/
def eatPsaDecodeClaimsMap : Dec EatPsaToken := do
  let vars ← eatPsaDecodeMap maxClaims eatPsaDecodeClaimValue .init
  let ctx ← get
  failIf (ctx.idx ≠ ctx.bufSz) .eatPsaClaim
  MonadExcept.ofExcept (eatPsaCheckClaims vars)

/-- `wolfCose_EatPsaDecodeClaims` -/
def eatPsaDecodeClaims (payload : Option Buffer) : Except Err EatPsaToken :=
  match payload with
  | none => .error .invalidArg
  | some payload =>
      match eatPsaDecodeClaimsMap (.init payload) with
      | .ok token _ => .ok token
      | .error e _ => .error e

end WolfCose
