import WolfCose.Lib.Items
import WolfCose.Settings

/-!
# Decoding CBOR

The decoder of `wolfcose_cbor.c`.  A decoder context is a read-only buffer and a cursor;
every function advances the cursor over the items it reads.  Pointers into the buffer that
the functions hand out are the bytes they denote.
-/

namespace WolfCose

open Program Cbor Settings

variable [Settings]

/-- A context `WOLFCOSE_CBOR_CTX` set up for decoding. -/
structure DecCtx [Settings] where
  cbuf : Buffer
  idx : Nat

/-- A function on a decoder context. -/
abbrev Dec (α : Type) := EStateM Err DecCtx α

namespace DecCtx

/-- The size of the buffer of a context. -/
def bufSz (ctx : DecCtx) : Nat := ctx.cbuf.bytes.length

/-- The bytes from the cursor on. -/
def rest (ctx : DecCtx) : Bytes := ctx.cbuf.bytes.drop ctx.idx

/-- The context with the cursor moved forward by `n`. -/
def advance (ctx : DecCtx) (n : Nat) : DecCtx := { ctx with idx := ctx.idx + n }

/-- The context after decoding starts at the first byte of a buffer: `wc_CBOR_DecoderInit`. -/
def init (b : Buffer) : DecCtx := ⟨b, 0⟩

end DecCtx

/-- A decoded item `WOLFCOSE_CBOR_ITEM`; `data` is the content of a string and empty for
the other major types. -/
structure Item where
  majorType : MajorType
  val : Nat
  data : Bytes
  deriving DecidableEq, Repr

/-- The bytes `0x80` to `0xBF`. -/
def isContinuation (b : UInt8) : Bool :=
  b &&& 0xC0 == 0x80

/-- `wolfCose_CBOR_IsUtf8` -/
def isUtf8 : Bytes → Bool
  | [] => true
  | first :: t =>
      if first ≤ 0x7F then
        isUtf8 t
      else if 0xC2 ≤ first ∧ first ≤ 0xDF then
        match t with
        | b₁ :: t' => isContinuation b₁ && isUtf8 t'
        | _ => false
      else if first = 0xE0 then
        match t with
        | b₁ :: b₂ :: t' => !(b₁ < 0xA0) && !(b₁ > 0xBF) && isContinuation b₂ && isUtf8 t'
        | _ => false
      else if first = 0xED then
        match t with
        | b₁ :: b₂ :: t' => !(b₁ < 0x80) && !(b₁ > 0x9F) && isContinuation b₂ && isUtf8 t'
        | _ => false
      else if (0xE1 ≤ first ∧ first ≤ 0xEC) ∨ (0xEE ≤ first ∧ first ≤ 0xEF) then
        match t with
        | b₁ :: b₂ :: t' => isContinuation b₁ && isContinuation b₂ && isUtf8 t'
        | _ => false
      else if first = 0xF0 then
        match t with
        | b₁ :: b₂ :: b₃ :: t' =>
            !(b₁ < 0x90) && !(b₁ > 0xBF) && isContinuation b₂ && isContinuation b₃ && isUtf8 t'
        | _ => false
      else if first = 0xF4 then
        match t with
        | b₁ :: b₂ :: b₃ :: t' =>
            !(b₁ < 0x80) && !(b₁ > 0x8F) && isContinuation b₂ && isContinuation b₃ && isUtf8 t'
        | _ => false
      else if 0xF1 ≤ first ∧ first ≤ 0xF3 then
        match t with
        | b₁ :: b₂ :: b₃ :: t' =>
            isContinuation b₁ && isContinuation b₂ && isContinuation b₃ && isUtf8 t'
        | _ => false
      else
        false

/-! ### Heads -/

/-- `WOLFCOSE_COSE_DECODE_ALLOW_NONPREFERRED` -/
def allowNonpreferredFlag : UInt32 := 0x0001

/-- `WOLFCOSE_COSE_DECODE_FLAGS_VALID` -/
def decodeFlagsValid (flags : UInt32) : Bool :=
  if eatPsaVerify then flags &&& ~~~ allowNonpreferredFlag == 0 else flags == 0

/-- `wolfCose_CBOR_AllowsNonpreferred` -/
def allowsNonpreferred (decodeFlags : UInt32) : Bool :=
  eatPsaVerify && decodeFlags &&& allowNonpreferredFlag != 0

/-- The branches of `wolfCose_CBOR_DecodeHead_ex` that read an argument of `n` bytes. -/
def decodeArgument (n : Nat) : Dec Nat := do
  let ctx ← get
  failIf (ctx.idx + n > ctx.bufSz) .cborMalformed
  set (ctx.advance n)
  return Bytes.ofBe (ctx.rest.take n)

/-- The argument that `wolfCose_CBOR_DecodeHead_ex` reads for the additional information of
an initial byte. -/
def decodeValue (ai : Nat) : Dec Nat :=
  if ai ≤ 23 then pure ai
  else if ai = 24 then decodeArgument 1
  else if ai = 25 then decodeArgument 2
  else if ai = 26 then decodeArgument 4
  else if ai = 27 then decodeArgument 8
  else if ai = 31 then throw .unsupported
  else throw .cborMalformed

/-- The check of `wolfCose_CBOR_DecodeHead_ex` for an argument that fits a shorter form. -/
def isNonpreferred (ai val : Nat) : Bool :=
  (ai == 24 && val < 24) || (ai == 25 && val < 256) || (ai == 26 && val < 0x10000) ||
    (ai == 27 && val < 0x100000000)

/-- `wolfCose_CBOR_DecodeHead_ex` -/
def decodeHeadEx (decodeFlags : UInt32) : Dec Item := do
  failIf (decodeFlagsValid decodeFlags = false) .invalidArg
  let ctx ← get
  match ctx.rest with
  | [] => throw .cborMalformed
  | ib :: _ => do
      set (ctx.advance 1)
      let majorType := MajorType.ofByte ib
      let ai := additionalInfo ib
      let val ← decodeValue ai
      failIf (majorType = .simple ∧ ai = 24 ∧ val < 32) .cborMalformed
      failIf (allowsNonpreferred decodeFlags = false ∧ majorType ≠ .simple ∧
        isNonpreferred ai val = true) .cborMalformed
      if majorType = .bstr ∨ majorType = .tstr then do
        let ctx ← get
        failIf (val > ctx.bufSz - ctx.idx) .cborMalformed
        let data := ctx.rest.take val
        set (ctx.advance val)
        failIf (majorType = .tstr ∧ isUtf8 data = false) .cborMalformed
        return ⟨majorType, val, data⟩
      else
        return ⟨majorType, val, []⟩

/-- `wc_CBOR_DecodeHead` -/
def decodeHead : Dec Item := decodeHeadEx 0

/-- `wc_CBOR_PeekType`; no major type stands for `0xFF`. -/
def DecCtx.peekType (ctx : DecCtx) : Option MajorType :=
  ctx.rest.head?.map MajorType.ofByte

/-! ### Items without nested items -/

/-- `wolfCose_CBOR_DecodeUint_ex` -/
def decodeUintEx (decodeFlags : UInt32) : Dec Nat := do
  let item ← decodeHeadEx decodeFlags
  failIf (item.majorType ≠ .uint) .cborType
  return item.val

/-- The integer of an unsigned or negative item, in the range of `int64_t`. -/
def itemInt (item : Item) : Dec Int :=
  match item.majorType with
  | .uint => do
      failIf (item.val > 2 ^ 63 - 1) .cborOverflow
      return (item.val : Int)
  | .negint => do
      failIf (item.val > 2 ^ 63 - 1) .cborOverflow
      return -1 - (item.val : Int)
  | _ => throw .cborType

/-- `wolfCose_CBOR_DecodeInt_ex` -/
def decodeIntEx (decodeFlags : UInt32) : Dec Int := do
  let item ← decodeHeadEx decodeFlags
  itemInt item

/-- `wolfCose_CBOR_DecodeBytes_ex` -/
def decodeBytesEx (majorType : MajorType) (decodeFlags : UInt32) : Dec Bytes := do
  let item ← decodeHeadEx decodeFlags
  failIf (item.majorType ≠ majorType) .cborType
  return item.data

/-- `wolfCose_CBOR_DecodeBstr_ex` -/
def decodeBstrEx (decodeFlags : UInt32) : Dec Bytes := decodeBytesEx .bstr decodeFlags

/-- `wolfCose_CBOR_DecodeTstr_ex` -/
def decodeTstrEx (decodeFlags : UInt32) : Dec Bytes := decodeBytesEx .tstr decodeFlags

/-- `wolfCose_CBOR_DecodeTag_ex` -/
def decodeTagEx (decodeFlags : UInt32) : Dec Nat := do
  let item ← decodeHeadEx decodeFlags
  failIf (item.majorType ≠ .tag) .cborType
  return item.val

/-- `wolfCose_CBOR_DecodeContainerStart_ex` -/
def decodeContainerStartEx (majorType : MajorType) (decodeFlags : UInt32) : Dec Nat := do
  let item ← decodeHeadEx decodeFlags
  failIf (item.majorType ≠ majorType) .cborType
  let ctx ← get
  failIf ((majorType = .array ∧ item.val > ctx.bufSz - ctx.idx) ∨
    (majorType = .map ∧ item.val > (ctx.bufSz - ctx.idx) / 2)) .cborMalformed
  return item.val

/-- `wolfCose_CBOR_DecodeArrayStart_ex` -/
def decodeArrayStartEx (decodeFlags : UInt32) : Dec Nat :=
  decodeContainerStartEx .array decodeFlags

/-- `wolfCose_CBOR_DecodeMapStart_ex` -/
def decodeMapStartEx (decodeFlags : UInt32) : Dec Nat :=
  decodeContainerStartEx .map decodeFlags

/-- `wc_CBOR_DecodeUint` -/
def decodeUint : Dec Nat := decodeUintEx 0

/-- `wc_CBOR_DecodeInt` -/
def decodeInt : Dec Int := decodeIntEx 0

/-- `wc_CBOR_DecodeBstr` -/
def decodeBstr : Dec Bytes := decodeBstrEx 0

/-- `wc_CBOR_DecodeTstr` -/
def decodeTstr : Dec Bytes := decodeTstrEx 0

/-- `wc_CBOR_DecodeTag` -/
def decodeTag : Dec Nat := decodeTagEx 0

/-- `wc_CBOR_DecodeArrayStart` -/
def decodeArrayStart : Dec Nat := decodeArrayStartEx 0

/-- `wc_CBOR_DecodeMapStart` -/
def decodeMapStart : Dec Nat := decodeMapStartEx 0

/-! ### Labels -/

/-- A map label `WOLFCOSE_CBOR_LABEL`. -/
inductive Label where
  | int (val : Int)
  | text (text : Bytes)
  deriving DecidableEq, Repr

/-- `wolfCose_CBOR_DecodeLabel_ex`; its integer branches are those of
`wolfCose_CBOR_DecodeInt_ex`. -/
def decodeLabelEx (decodeFlags : UInt32) : Dec Label := do
  let item ← decodeHeadEx decodeFlags
  match item.majorType with
  | .tstr => return .text item.data
  | _ => Label.int <$> itemInt item

/-- `wc_CBOR_DecodeLabel` -/
def decodeLabel : Dec Label := decodeLabelEx 0

/-! ### Skipping an item -/

/-- One turn of the outer loop of `wolfCose_CBOR_Skip_ex` after a head has been read, up to
the closing of exhausted levels.  The stack holds the numbers of items that remain on the
levels around the current one, the innermost first, so its length is `depth`. -/
def skipStep (item : Item) (remaining : Nat) (stack : List Nat) : Dec (Nat × List Nat) := do
  let ctx ← get
  match item.majorType with
  | .array =>
      if item.val > 0 then do
        failIf (stack.length ≥ maxDepth) .cborDepth
        failIf (item.val > ctx.bufSz) .cborMalformed
        return (item.val, (remaining - 1) :: stack)
      else
        return (remaining - 1, stack)
  | .map =>
      if item.val > 0 then do
        failIf (stack.length ≥ maxDepth) .cborDepth
        failIf (item.val > ctx.bufSz) .cborMalformed
        failIf (item.val > sizeMax / 2) .cborMalformed
        return (item.val * 2, (remaining - 1) :: stack)
      else
        return (remaining - 1, stack)
  | .tag => return (remaining - 1 + 1, stack)
  | _ => return (remaining - 1, stack)

/-- The outer loop of `wolfCose_CBOR_Skip_ex`.  Every turn reads a head, so as many turns
as the buffer has bytes, and one more, are enough. -/
def skipLoop (decodeFlags : UInt32) : Nat → Nat → List Nat → Dec Unit
  | _, 0, _ => return ()
  | 0, _ + 1, _ => throw .cborMalformed
  | fuel + 1, remaining + 1, stack => do
      let item ← decodeHeadEx decodeFlags
      let next ← skipStep item (remaining + 1) stack
      let level := unwind next.1 next.2
      skipLoop decodeFlags fuel level.1 level.2

/-- `wolfCose_CBOR_Skip_ex` -/
def skipEx (decodeFlags : UInt32) : Dec Unit := do
  let ctx ← get
  skipLoop decodeFlags (ctx.bufSz + 1) 1 []

/-- `wc_CBOR_Skip` -/
def skip : Dec Unit := skipEx 0

/-- `wc_CBOR_SkipItem` -/
def skipItem : Dec Bytes := do
  let start ← get
  skipEx 0
  let ctx ← get
  return start.rest.take (ctx.idx - start.idx)

end WolfCose
