import WolfCose.Key.Decode

/-!
# Peeking at a key

`wc_CoseKey_PeekInfo` walks through the map of a key as `wc_CoseKey_Decode` does, but keeps only what
a caller needs to choose the object to attach.
-/

namespace WolfCose

open Program Cbor Settings KeySettings

/-- The structure `WOLFCOSE_KEY_INFO`. -/
structure KeyInfo where
  kty : Int
  alg : Int
  crv : Int
  kid : Pointer
  deriving DecidableEq

/-- A structure that shows no key. -/
def KeyInfo.cleared : KeyInfo := ⟨0, algUnset, 0, .null 0⟩

variable [Settings] [KeySettings]

omit [KeySettings] in
/-- The value of an entry of a key that is peeked at. -/
def peekKeyValue (label : Int) (info : KeyInfo) : Dec KeyInfo :=
  if label = keyLabelKty then do
    let kty ← decodeKty
    return { info with kty }
  else if label = keyLabelKid then do
    let kid ← decodeBstr
    return { info with kid := .mem kid }
  else if label = keyLabelAlg then do
    let alg ← decodeInt32 .coseBadAlg
    return { info with alg }
  else if label = keyLabelKeyOps then throw .unsupported
  else if label = keyLabelCrv then do
    let ctx ← get
    if ctx.peekType = some .bstr then do
      skip
      return info
    else do
      let crv ← decodeInt32 .coseBadHdr
      return { info with crv }
  else do
    skip
    return info

omit [KeySettings] in
/-- The steps of `wc_CoseKey_PeekInfo` after the checks of its arguments. -/
def peekInfoFrom (input : Buffer) : Except Err KeyInfo := do
  let (walked, info) := walkKey peekKeyValue .cleared input
  let ctx ← walked
  rejectIf (info.kty = 0) .coseBadHdr
  rejectIf (ctx.idx ≠ ctx.bufSz) .cborMalformed
  return info

omit [KeySettings] in
/-- `wc_CoseKey_PeekInfo`; the result is also the structure that it leaves behind. -/
def keyPeekInfo (input : Option Buffer) (info : Option KeyInfo) : Except Err Unit × Option KeyInfo :=
  match input, info with
  | some input, some info =>
      if input.bytes.length = 0 then (.error .invalidArg, some info)
      else
        match peekInfoFrom input with
        | .ok info => (.ok (), some info)
        | .error e => (.error e, some .cleared)
  | _, info => (.error .invalidArg, info)

end WolfCose
