import WolfCose.Hdr.Skipped
import WolfCose.Struct

/-!
# The target of a countersignature

`wolfCose_ParseCounterTarget` of `wolfcose_countersign.c` parses a tagged COSE message and
notes where its unprotected map lies and where the countersignatures in it are;
`wolfCose_BuildCounterStructure` builds the bytes a countersignature signs.
-/

namespace WolfCose

open Program Cbor Settings

/-! ### The target -/

/-- Where a value lies in a message. -/
structure Span where
  start : Nat
  stop : Nat
  deriving DecidableEq, Repr

/-- The countersignatures found in an unprotected map; a missing one stands for the flag
`has…` being zero. -/
structure CounterSpans where
  full : Option Span
  abbreviated : Option Span
  legacyFull : Option Span
  legacyAbbreviated : Option Span
  deriving DecidableEq, Repr

/-- No countersignature is found. -/
def CounterSpans.none : CounterSpans := ⟨.none, .none, .none, .none⟩

/-- The fields after the payload that a countersignature covers, and their number, which is
a `size_t`. -/
structure OtherFields where
  data : Pointer
  count : Nat
  count_lt : count < 2 ^ 64

/-- No other fields. -/
def OtherFields.none : OtherFields := ⟨.null 0, 0, by decide⟩

/-- One other field. -/
def OtherFields.one (data : Bytes) : OtherFields := ⟨.mem data, 1, by decide⟩

/-- The target `WOLFCOSE_COUNTER_TARGET`. -/
structure CounterTarget where
  tag : Nat
  bodyProtected : Pointer
  payload : Pointer
  other : OtherFields
  mapStart : Nat
  mapContentStart : Nat
  mapEnd : Nat
  mapCount : Nat
  spans : CounterSpans

variable [Settings]

/-! ### Parsing -/

/-- The value of an entry in the loop of `wolfCose_ParseCounterMap`: it is skipped, and its
place noted if the label is that of a countersignature, which has a fixed major type. -/
def parseCounterValue (label : Label) (spans : CounterSpans) : Dec CounterSpans := do
  let start ← get
  let _ ← skipItem
  let stop ← get
  let span : Span := ⟨start.idx, stop.idx⟩
  if label = .int hdrCountersignatureV2 then do
    failIf (spans.full.isSome = true ∨ start.peekType ≠ some .array) .cborMalformed
    return { spans with full := some span }
  else if label = .int hdrCountersignature0V2 then do
    failIf (spans.abbreviated.isSome = true ∨ start.peekType ≠ some .bstr) .cborMalformed
    return { spans with abbreviated := some span }
  else if label = .int hdrCountersignatureLegacy then do
    failIf (spans.legacyFull.isSome = true ∨ start.peekType ≠ some .array) .cborMalformed
    return { spans with legacyFull := some span }
  else if label = .int hdrCountersignature0Legacy then do
    failIf (spans.legacyAbbreviated.isSome = true ∨ start.peekType ≠ some .bstr) .cborMalformed
    return { spans with legacyAbbreviated := some span }
  else
    return spans

/-- The fields of a target that `wolfCose_ParseCounterMap` sets. -/
structure CounterMap where
  mapStart : Nat
  mapContentStart : Nat
  mapEnd : Nat
  mapCount : Nat
  spans : CounterSpans

/-- `wolfCose_ParseCounterMap` -/
def parseCounterMap (hdrState : HdrState) : Dec CounterMap := do
  let start ← get
  let count ← decodeMapStart
  failIf (count > maxMapItems) .cborMalformed
  let content ← get
  let scan ← repeatM count (decodeEntry 0 hdrState.admitUnprotected parseCounterValue)
    ⟨.init, .none⟩
  let stop ← get
  return ⟨start.idx, content.idx, stop.idx, count, scan.vars⟩

/-- The number of fields of a message with a tag. -/
def expectedCount (tag : Nat) : Except Err Nat :=
  if tag = tagEncrypt0 then .ok 3
  else if tag = tagMac0 ∨ tag = tagSign1 ∨ tag = tagSign ∨ tag = tagEncrypt then .ok 4
  else if tag = tagMac then .ok 5
  else .error .coseBadTag

/-- The payload of a message: null for a detached one, which the caller passes. -/
def parseCounterPayload (detachedPayload : Pointer) : Dec Pointer := do
  let ctx ← get
  if ctx.rest.head? = some cborNull then do
    set (ctx.advance 1)
    failIf (detachedPayload.isNull = true) .detachedPayload
    return detachedPayload
  else do
    let payload ← decodeBstr
    return .mem payload

/-- The signature or the tag that follows the payload of a message. -/
def parseCounterOther (tag : Nat) : Dec OtherFields :=
  if tag = tagSign1 ∨ tag = tagMac0 ∨ tag = tagMac then do
    let other ← decodeBstr
    return .one other
  else
    return .none

/-- The signatures or recipients at the end of a message. -/
def parseCounterChildren (tag : Nat) : Dec Unit :=
  if tag = tagSign ∨ tag = tagEncrypt ∨ tag = tagMac then do
    let childCount ← decodeArrayStart
    failIf (childCount = 0) .cborMalformed
    repeatM childCount (fun _ =>
      if tag = tagSign then decodeSkippedSignature
      else do
        let _ ← decodeSkippedRecipient
        return ()) ()
  else
    return ()

/-- The body of `wolfCose_ParseCounterTarget`. -/
def parseCounterMessage (detachedPayload : Pointer) : Dec CounterTarget := do
  let ctx ← get
  failIf (ctx.peekType ≠ some .tag) .coseBadTag
  let tag ← decodeTag
  let expected ← MonadExcept.ofExcept (expectedCount tag)
  let arrayCount ← decodeArrayStart
  failIf (arrayCount ≠ expected) .cborMalformed
  let bodyProtected ← decodeBstr
  let (hdr, hdrState) ← MonadExcept.ofExcept (decodeProtectedHdr (.mem bodyProtected) .zero)
  failIf (hdrState.containsCountersignature = true) .coseBadHdr
  let mapCtx ← get
  let map ← parseCounterMap hdrState
  set mapCtx
  let _ ← decodeUnprotectedHdr hdr hdrState
  let ctx ← get
  failIf (ctx.idx ≠ map.mapEnd) .cborMalformed
  let payload ← parseCounterPayload detachedPayload
  let other ← parseCounterOther tag
  parseCounterChildren tag
  let ctx ← get
  failIf (ctx.idx ≠ ctx.bufSz) .cborMalformed
  return {
    tag, bodyProtected := .mem bodyProtected, payload, other
    mapStart := map.mapStart, mapContentStart := map.mapContentStart, mapEnd := map.mapEnd
    mapCount := map.mapCount, spans := map.spans }

/-- `wolfCose_ParseCounterTarget` -/
def parseCounterTarget (input : Buffer) (detachedPayload : Pointer) : Except Err CounterTarget :=
  match parseCounterMessage detachedPayload (.init input) with
  | .ok target _ => .ok target
  | .error e _ => .error e

/-! ### The structure that is signed -/

/-- The text "CounterSignature". -/
def contextCounter : Bytes :=
  [0x43, 0x6F, 0x75, 0x6E, 0x74, 0x65, 0x72, 0x53, 0x69, 0x67, 0x6E, 0x61, 0x74, 0x75, 0x72, 0x65]

/-- The text "CounterSignature0". -/
def contextCounter0 : Bytes := contextCounter ++ [0x30]

/-- The text "CounterSignatureV2". -/
def contextCounterV2 : Bytes := contextCounter ++ [0x56, 0x32]

/-- The text "CounterSignature0V2". -/
def contextCounter0V2 : Bytes := contextCounter ++ [0x30, 0x56, 0x32]

/-- The context string and the number of fields that `wolfCose_BuildCounterStructure`
chooses. -/
def counterContext (otherCount : Nat) (abbreviated legacy : Bool) : Bytes × Nat :=
  if legacy = true then
    if abbreviated = true then (contextCounter0, 4) else (contextCounter, 5)
  else if abbreviated = true then
    if otherCount ≠ 0 then (contextCounter0V2, 5) else (contextCounter0, 4)
  else
    if otherCount ≠ 0 then (contextCounterV2, 6) else (contextCounter, 5)

/-- The encoding steps of `wolfCose_BuildCounterStructure`. -/
def encodeCounterStructure (target : CounterTarget) (signProtected extAad : Pointer)
    (abbreviated legacy : Bool) : Enc Unit := do
  encodeArrayStart (counterContext target.other.count abbreviated legacy).2
  encodeTstr (.mem (counterContext target.other.count abbreviated legacy).1)
  encodeBstr target.bodyProtected
  onlyIf (abbreviated = false) (encodeBstr signProtected)
  encodeBstr extAad
  encodeBstr target.payload
  onlyIf (legacy = false ∧ target.other.count ≠ 0) (do
    encodeArrayStart target.other.count
    encodeBstr target.other.data)

/-- `wolfCose_BuildCounterStructure`; the result is what it leaves in the scratch buffer, up
to the length it reports. -/
def buildCounterStructure (target : CounterTarget) (signProtected extAad : Pointer)
    (abbreviated legacy : Bool) (scratch : Option Buffer) : Except Err Bytes :=
  match scratch with
  | none => .error .invalidArg
  | some scratch =>
      if (extAad.isNull = true ∧ extAad.len ≠ 0)
          ∨ (abbreviated = false ∧ signProtected.isNull = true) then .error .invalidArg
      else encodeInto (encodeCounterStructure target signProtected extAad abbreviated legacy) scratch

end WolfCose
