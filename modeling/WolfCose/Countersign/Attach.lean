import WolfCose.Countersign.Target
import WolfCose.Sig.Output

/-!
# Attaching a countersignature

A full countersignature is put into the unprotected map of its target under one label, alone or
in a list with those before; an abbreviated one has a label of its own.
`wolfCose_PlanAttachCounter` of `wolfcose_countersign.c` computes where everything goes before
anything is signed, and `wolfCose_AttachCounter` then moves the parts of the message in the
output buffer and encodes the countersignature between them.
-/

namespace WolfCose

open Program Cbor Settings

variable [Settings]

/-! ### Lists of countersignatures -/

/-- `wolfCose_DecodeFullCounter`: the headers of a full countersignature and its signature. -/
def decodeFullCounter : Dec (Headers × Bytes) := do
  let count ← decodeArrayStart
  failIf (count ≠ 3) .cborMalformed
  let headers ← decodeHeaders 0
  let sig ← decodeBstr
  decodeEnd
  return (headers, sig)

/-- `wolfCose_ValidateFullCounter` -/
def validateFullCounter (value : Bytes) : Except Err Unit :=
  match decodeFullCounter (.init (.ofBytes value)) with
  | .ok _ _ => .ok ()
  | .error e _ => .error e

/-- The information `WOLFCOSE_COUNTER_LIST_INFO` on the value under the label of full
countersignatures. -/
structure CounterListInfo where
  count : Nat
  contentOffset : Nat
  isList : Bool
  deriving DecidableEq, Repr

/-- One turn of the loop of `wolfCose_CounterListInfo`. -/
def validateListItem : Dec Unit := do
  let value ← skipItem
  MonadExcept.ofExcept (validateFullCounter value)

/-- The body of `wolfCose_CounterListInfo`. -/
def decodeCounterListInfo (value : Bytes) : Dec CounterListInfo := do
  let count ← decodeArrayStart
  let ctx ← get
  failIf (count = 0 ∨ ctx.idx ≥ ctx.bufSz) .cborMalformed
  if ctx.peekType = some .bstr then do
    MonadExcept.ofExcept (validateFullCounter value)
    return ⟨1, 0, false⟩
  else if ctx.peekType = some .array then do
    failIf (count > maxMapItems) .cborMalformed
    repeatM count (fun _ => validateListItem) ()
    decodeEnd
    return ⟨count, ctx.idx, true⟩
  else throw .cborMalformed

/-- `wolfCose_CounterListInfo` -/
def counterListInfo (value : Bytes) : Except Err CounterListInfo :=
  match decodeCounterListInfo value (.init (.ofBytes value)) with
  | .ok info _ => .ok info
  | .error e _ => .error e

/-- The loop of `wolfCose_SelectFullCounter` over the items up to the one that is selected. -/
def decodeListItem (counterIndex : Nat) : Dec Bytes := do
  let _ ← decodeArrayStart
  repeatM (counterIndex + 1) (fun _ => skipItem) []

/-- `wolfCose_SelectFullCounter` -/
def selectFullCounter (value : Bytes) (counterIndex : Nat) : Except Err Bytes := do
  let info ← counterListInfo value
  rejectIf (counterIndex ≥ info.count) .invalidArg
  if info.isList = false then return value
  else
    match decodeListItem counterIndex (.init (.ofBytes value)) with
    | .ok selected _ => .ok selected
    | .error e _ => .error e

/-! ### The plan -/

/-- `wolfCose_FullCounterSize` -/
def fullCounterSize (protectedLen kidLen sigLen : Nat) : Except Err Nat := do
  let total ← sizeAddString 1 protectedLen
  let total ← sizeAddKid total (kidLen ≠ 0) kidLen
  sizeAddString total sigLen

/-- The countersignatures that a new full one is put beside: the fields of
`WOLFCOSE_COUNTER_ATTACH_PLAN` that are set with `replacesValue`. -/
structure CounterReplacement where
  listInfo : CounterListInfo
  start : Nat
  oldValueLen : Nat
  newValueLen : Nat

/-- The plan `WOLFCOSE_COUNTER_ATTACH_PLAN`; a missing replacement stands for the flag
`replacesValue` being zero. -/
structure AttachPlan where
  replacement : Option CounterReplacement
  counterLen : Nat
  delta : Nat
  finalLen : Nat
  newMapCount : Nat
  newMapHeadLen : Nat

/-- The branch of `wolfCose_PlanAttachCounter` for a label that is there already. -/
def planReplacement (value : Bytes) (start counterLen : Nat) : Except Err CounterReplacement := do
  let info ← counterListInfo value
  let newValueLen ←
    if info.isList = true then do
      rejectIf (info.count ≥ maxMapItems) .coseBadHdr
      sizeAdd (cborHeadSize (info.count + 1)) (value.length - info.contentOffset)
    else sizeAdd (cborHeadSize 2) value.length
  let newValueLen ← sizeAdd newValueLen counterLen
  return ⟨info, start, value.length, newValueLen⟩

/-- The steps of `wolfCose_PlanAttachCounter` up to the size of the countersignature and the
value that is replaced. -/
def planValue (target : CounterTarget) (input : Bytes) (protectedLen kidLen sigLen : Nat) (abbreviated : Bool) :
    Except Err (Nat × Option CounterReplacement) :=
  if abbreviated = true then do
    rejectIf (target.spans.abbreviated.isSome = true ∨ target.spans.legacyAbbreviated.isSome = true) .coseBadHdr
    let counterLen ← cborStringSize sigLen
    return (counterLen, none)
  else do
    rejectIf (target.spans.legacyFull.isSome = true) .coseBadHdr
    let counterLen ← fullCounterSize protectedLen kidLen sigLen
    match target.spans.full with
    | none => return (counterLen, none)
    | some span => do
        let r ← planReplacement ((input.drop span.start).take (span.stop - span.start)) span.start counterLen
        return (counterLen, some r)

/-- `wolfCose_PlanAttachCounter` -/
def planAttachCounter (target : CounterTarget) (input : Bytes) (protectedLen kidLen sigLen : Nat)
    (abbreviated : Bool) (outSz : Nat) : Except Err AttachPlan := do
  let oldMapHeadLen := target.mapContentStart - target.mapStart
  let (counterLen, replacement) ← planValue target input protectedLen kidLen sigLen abbreviated
  match replacement with
  | some r => do
      let delta := r.newValueLen - r.oldValueLen
      let finalLen ← sizeAdd input.length delta
      rejectIf (finalLen > outSz) .bufferTooSmall
      return ⟨some r, counterLen, delta, finalLen, target.mapCount, cborHeadSize target.mapCount⟩
  | none => do
      rejectIf (target.mapCount ≥ maxMapItems) .coseBadHdr
      let newMapHeadLen := cborHeadSize (target.mapCount + 1)
      let delta ← sizeAdd 1 counterLen
      let delta ← sizeAdd delta (newMapHeadLen - oldMapHeadLen)
      let finalLen ← sizeAdd input.length delta
      rejectIf (finalLen > outSz) .bufferTooSmall
      return ⟨none, counterLen, delta, finalLen, target.mapCount + 1, newMapHeadLen⟩

/-! ### Moving and encoding -/

/-- A function on the output buffer. -/
abbrev Attaching (α : Type) := EStateM Fault Bytes α

omit [Settings] in
/-- `XMEMMOVE` into the output buffer; outside of it nothing may be accessed. -/
def storeBytes (dst : Nat) (bs : Bytes) : Attaching Unit := do
  let out ← get
  failIf (dst + bs.length > out.length) .undefined
  set (Bytes.overwrite out dst bs)

omit [Settings] in
/-- `XMEMMOVE` inside the output buffer. -/
def moveBytes (dst src n : Nat) : Attaching Unit := do
  let out ← get
  failIf (src + n > out.length) .undefined
  storeBytes dst ((out.drop src).take n)

/-- Encoding into a part of the output buffer. -/
def encodeWithin (start size : Nat) (p : Enc Unit) : Attaching Unit := do
  let out ← get
  failIf (start + size > out.length) .undefined
  match p (.init (.ofBytes ((out.drop start).take size))) with
  | .ok _ ctx => storeBytes start ctx.buf.bytes
  | .error e ctx => do
      storeBytes start ctx.buf.bytes
      throw (.err e)

/-- The step that moves the cursor of an encoder. -/
def encodeSeek (idx : Nat) : Enc Unit := do
  let ctx ← get
  set { ctx with idx }

/-- The check of where an encoder has stopped. -/
def encodeEndsAt (idx : Nat) : Enc Unit := do
  let ctx ← get
  failIf (ctx.idx ≠ idx) .cborMalformed

/-- What is attached: the protected header, the kid and the signature of a full
countersignature, or the signature of an abbreviated one. -/
structure NewCounter where
  abbreviated : Bool
  protectedHdr : Bytes
  kid : Pointer
  sig : Bytes

/-- `wolfCose_EncodeFullCounter` -/
def encodeFullCounter (counter : NewCounter) : Enc Unit := do
  encodeArrayStart 3
  encodeBstr (.mem counter.protectedHdr)
  encodeMapStart (if counter.kid.len ≠ 0 then 1 else 0)
  onlyIf (counter.kid.len ≠ 0) do
    encodeInt hdrKid
    encodeBstr counter.kid
  encodeBstr (.mem counter.sig)

/-- The branch of `wolfCose_AttachCounter` for a value that is replaced. -/
def attachReplacing (target : CounterTarget) (r : CounterReplacement) (counter : NewCounter) :
    Attaching Unit := do
  let stop := r.start + r.oldValueLen
  moveBytes (r.start + r.newValueLen) stop (target.mapEnd - stop)
  let count := if r.listInfo.isList = true then r.listInfo.count + 1 else 2
  let headLen := cborHeadSize count
  let contentLen := r.oldValueLen - r.listInfo.contentOffset
  moveBytes (r.start + headLen) (r.start + r.listInfo.contentOffset) contentLen
  encodeWithin r.start r.newValueLen do
    encodeArrayStart count
    encodeSeek (headLen + contentLen)
    encodeFullCounter counter
    encodeEndsAt r.newValueLen

/-- The branch of `wolfCose_AttachCounter` for a new entry. -/
def attachEntry (target : CounterTarget) (plan : AttachPlan) (counter : NewCounter) : Attaching Unit := do
  let contentLen := target.mapEnd - target.mapContentStart
  let newContentStart := target.mapStart + plan.newMapHeadLen
  let appendOffset := newContentStart + contentLen
  moveBytes newContentStart target.mapContentStart contentLen
  encodeWithin target.mapStart (plan.finalLen - target.mapStart) do
    encodeMapStart plan.newMapCount
    encodeSeek (appendOffset - target.mapStart)
    encodeInt (if counter.abbreviated = true then hdrCountersignature0V2 else hdrCountersignatureV2)
    if counter.abbreviated = true then encodeBstr (.mem counter.sig) else encodeFullCounter counter
    encodeEndsAt (target.mapEnd + plan.delta - target.mapStart)

/-- `wolfCose_AttachCounter`; the state is the output buffer, and the result the length of the
message. -/
def attachCounter (target : CounterTarget) (plan : AttachPlan) (input : Bytes) (inPlace : Bool)
    (counter : NewCounter) : Attaching Nat := do
  onlyIf (inPlace = false) (storeBytes 0 input)
  moveBytes (target.mapEnd + plan.delta) target.mapEnd (input.length - target.mapEnd)
  match plan.replacement with
  | some r => attachReplacing target r counter
  | none => attachEntry target plan counter
  return plan.finalLen

end WolfCose
