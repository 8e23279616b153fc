import WolfCose.Hdr.Decode
import WolfCose.Alg

/-!
# Entries that are not selected

A message with several signatures or recipients is checked as a whole although only one of
them is used.  `wolfCose_DecodeSkippedSignature` and `wolfCose_DecodeSkippedRecipient` walk
over the others; of a recipient they also report the algorithm.
-/

namespace WolfCose

open Program Cbor Settings

variable [Settings]

/-- What `wolfCose_DecodeSkippedHdrAlg` finds. -/
structure SkippedAlg where
  alg : Int
  algFound : Bool
  hpkeEkFound : Bool
  deriving DecidableEq

/-- Nothing is found yet. -/
def SkippedAlg.init : SkippedAlg := ⟨algUnset, false, false⟩

/-- One turn of the loop of `wolfCose_DecodeSkippedHdrAlg`; `trackEk` says whether the caller
asks for the encapsulated key. -/
def decodeSkippedHdrEntry (trackEk : Bool) (vars : SkippedAlg) : Dec SkippedAlg := do
  let label ← decodeLabel
  if label = .int hdrAlg then do
    failIf (vars.algFound = true) .cborMalformed
    let ctx ← get
    if ctx.peekType = some .tstr then do
      skip
      return { vars with algFound := true }
    else do
      let algVal ← decodeInt
      failIf (inInt32Range algVal = false) .coseBadAlg
      return { vars with alg := algVal, algFound := true }
  else if hpke0KeDecrypt = true ∧ label = .int hdrHpkeEk then do
    failIf (trackEk = true ∧ vars.hpkeEkFound = true) .cborMalformed
    skip
    return { vars with hpkeEkFound := vars.hpkeEkFound || trackEk }
  else do
    skip
    return vars

/-- `wolfCose_DecodeSkippedHdrAlg` -/
def decodeSkippedHdrAlg (trackEk : Bool) (vars : SkippedAlg) : Dec SkippedAlg := do
  let mapCount ← decodeMapStart
  let ctx ← get
  failIf (mapCount > ctx.bufSz) .cborMalformed
  repeatM mapCount (decodeSkippedHdrEntry trackEk) { vars with hpkeEkFound := false }

/-- The branch of `wolfCose_DecodeSkippedHeaderEntry` for the content of a protected bucket. -/
def decodeSkippedProtected (protectedData : Bytes) : Dec SkippedAlg := do
  let (vars, protectedCtx) ←
    onLocal (.init (.ofBytes protectedData)) (decodeSkippedHdrAlg false .init)
  failIf (protectedCtx.idx ≠ protectedCtx.bufSz) .cborMalformed
  return vars

/-- The branches of `wolfCose_DecodeSkippedHeaderEntry` for the third field of a recipient:
an empty byte string for a direct recipient, otherwise null or a byte string. -/
def decodeSkippedRecipientValue (alg : Int) : Dec Unit := do
  if alg = algDirect then do
    let item ← decodeHead
    failIf (item.majorType ≠ .bstr ∨ item.data.length ≠ 0) .coseBadHdr
  else do
    let ctx ← get
    if ctx.rest.head? = some cborNull then
      set (ctx.advance 1)
    else do
      let _ ← decodeBstr
      return ()

/-- `wolfCose_DecodeSkippedHeaderEntry` for a signature, which passes no place for the
algorithm. -/
def decodeSkippedHeaderEntrySignature (maxArrayCount : Nat) : Dec Nat := do
  let arrayCount ← decodeArrayStart
  failIf (arrayCount < 3 ∨ arrayCount > maxArrayCount) .cborMalformed
  let _ ← decodeBstr
  skip
  let _ ← decodeBstr
  return arrayCount

/-- `wolfCose_DecodeSkippedHeaderEntry` for a recipient, which asks for the algorithm. -/
def decodeSkippedHeaderEntryRecipient (maxArrayCount : Nat) : Dec (Nat × SkippedAlg) := do
  let arrayCount ← decodeArrayStart
  failIf (arrayCount < 3 ∨ arrayCount > maxArrayCount) .cborMalformed
  let protectedData ← decodeBstr
  let vars ← if protectedData.length > 0 then decodeSkippedProtected protectedData else pure .init
  let vars ← decodeSkippedHdrAlg true vars
  failIf (vars.alg = algDirect ∧ protectedData.length ≠ 0) .coseBadHdr
  decodeSkippedRecipientValue vars.alg
  return (arrayCount, vars)

/-- `wolfCose_DecodeSkippedSignature` -/
def decodeSkippedSignature : Dec Unit := do
  let _ ← decodeSkippedHeaderEntrySignature 3
  return ()

/-- The recipients left to read: on the innermost level, and on the levels around it. -/
structure RecipientWalk where
  remaining : Nat
  stack : List Nat
  recipientAlg : Option Int

/-- One turn of the loop of `wolfCose_DecodeSkippedRecipient`, up to the closing of exhausted
levels. -/
def skippedRecipientStep (walk : RecipientWalk) : Dec RecipientWalk := do
  let (arrayCount, vars) ← decodeSkippedHeaderEntryRecipient 4
  let decodedAlg :=
    if hpke0KeDecrypt = true ∧ vars.algFound = false ∧ vars.hpkeEkFound = true then algHpke0Ke
    else vars.alg
  failIf (arrayCount = 4 ∧ decodedAlg = algDirect) .coseBadHdr
  let recipientAlg := some (walk.recipientAlg.getD decodedAlg)
  if arrayCount = 4 then do
    let nestedCount ← decodeArrayStart
    let ctx ← get
    failIf (nestedCount = 0 ∨ nestedCount > ctx.bufSz) .cborMalformed
    failIf (walk.stack.length ≥ maxDepth) .cborDepth
    return ⟨nestedCount, (walk.remaining - 1) :: walk.stack, recipientAlg⟩
  else
    return ⟨walk.remaining - 1, walk.stack, recipientAlg⟩

/-- The loop of `wolfCose_DecodeSkippedRecipient`.  Every turn reads a head, so as many turns
as the buffer has bytes, and one more, are enough. -/
def skippedRecipientLoop : Nat → RecipientWalk → Dec Int
  | 0, _ => throw .cborMalformed
  | fuel + 1, walk =>
      if walk.remaining = 0 then
        return walk.recipientAlg.getD algUnset
      else do
        let next ← skippedRecipientStep walk
        let level := unwind next.remaining next.stack
        skippedRecipientLoop fuel { next with remaining := level.1, stack := level.2 }

/-- `wolfCose_DecodeSkippedRecipient`; the result is the algorithm of the recipient. -/
def decodeSkippedRecipient : Dec Int := do
  let ctx ← get
  skippedRecipientLoop (ctx.bufSz + 1) ⟨1, [], none⟩

end WolfCose
