import Mathlib.Data.List.Induction
import WolfCose.Lib.Memory
import WolfCose.Lib.Outcome
import WolfCose.Codec.Utf8
import WolfCose.Codec.Encode

/-!
# Calls of the encoder

The context of the encoder is public: a caller may set its fields to anything, and may go on after
an error.  Here it is the memory at `buf` with two fields of type `size_t`, whose arithmetic wraps
around; the bytes a call is given lie outside of that memory.  Every call stays within the bytes
from the cursor to the end of the buffer, and a sequence of calls succeeds exactly if what it
writes fits there.
-/

namespace WolfCose

open Program Cbor Settings

variable [Settings]

/-! ### Calls -/

/-- A context `WOLFCOSE_CBOR_CTX` as a caller may pass it to the encoder. -/
structure EncMem where
  buf : Option Memory
  bufSz : Nat
  idx : Nat
  bufSz_le : bufSz ≤ sizeMax
  idx_le : idx ≤ sizeMax

/-- A function of the public encoder. -/
abbrev EncAt (α : Type) := EStateM Err EncMem α

/-- The difference of two values of type `size_t`. -/
def sizeSub (a b : Nat) : Nat := (a + (sizeMax + 1) - b) % (sizeMax + 1)

namespace EncMem

/-- The context with `bs` written at the cursor. -/
def put (ctx : EncMem) (bs : Bytes) : EncMem where
  buf := ctx.buf.map (·.write ctx.idx bs)
  bufSz := ctx.bufSz
  idx := (ctx.idx + bs.length) % (sizeMax + 1)
  bufSz_le := ctx.bufSz_le
  idx_le := Nat.le_of_lt_succ (Nat.mod_lt _ (Nat.succ_pos _))

/-- `wolfCose_CBOR_HasRoom` -/
def hasRoom (ctx : EncMem) (need : Nat) : Bool :=
  ctx.idx ≤ ctx.bufSz && need ≤ sizeSub ctx.bufSz ctx.idx

end EncMem

/-- The branches of the public encoder that check the context and the room, and write bytes. -/
def writeHeadAt (bs : Bytes) : EncAt Unit := do
  let ctx ← get
  failIf (ctx.buf.isNone = true) .invalidArg
  failIf (ctx.hasRoom bs.length = false) .bufferTooSmall
  set (ctx.put bs)

/-- `wolfCose_CBOR_EncodeHead` -/
def encodeHeadAt (majorType : MajorType) (val : Nat) : EncAt Unit :=
  if val ≤ 23 then writeHeadAt [initialByte majorType val]
  else if val ≤ 0xFF then writeHeadAt (initialByte majorType 24 :: Bytes.be 1 val)
  else if val ≤ 0xFFFF then writeHeadAt (initialByte majorType 25 :: Bytes.be 2 val)
  else if val ≤ 0xFFFFFFFF then writeHeadAt (initialByte majorType 26 :: Bytes.be 4 val)
  else writeHeadAt (initialByte majorType 27 :: Bytes.be 8 val)

/-- `wolfCose_CBOR_EncodeBytes` -/
def encodeBytesAt (majorType : MajorType) (data : Pointer) : EncAt Unit := do
  failIf (data.isNull = true ∧ data.len > 0) .invalidArg
  encodeHeadAt majorType data.len
  let ctx ← get
  failIf (data.len > sizeSub ctx.bufSz ctx.idx) .bufferTooSmall
  set (ctx.put data.bytes)

/-- `wc_CBOR_EncodeTstr` -/
def encodeTstrAt (str : Pointer) : EncAt Unit := do
  let ctx ← get
  failIf (ctx.buf.isNone = true ∨ (str.isNull = true ∧ str.len > 0)) .invalidArg
  failIf (isUtf8 str.bytes = false) .cborMalformed
  encodeBytesAt .tstr str

/-- The error of a null pointer that is said to have bytes. -/
def nullError (data : Pointer) : Option Err :=
  if data.isNull = true ∧ data.len > 0 then some .invalidArg else none

/-- The error of text: a null pointer that is said to have bytes, or bytes that are not UTF-8. -/
def textError (str : Pointer) : Option Err :=
  if str.isNull = true ∧ str.len > 0 then some .invalidArg
  else if isUtf8 str.bytes = false then some .cborMalformed
  else none

/-- The calls `wc_CBOR_Encode*` with their arguments; floating point numbers are given by their
bits. -/
inductive EncodeCall where
  | uint (val : UInt64)
  | int (val : Int64)
  | bstr (data : Pointer)
  | tstr (str : Pointer)
  | arrayStart (count : UInt64)
  | mapStart (count : UInt64)
  | tag (val : UInt64)
  | true
  | false
  | null
  | float (bits : UInt32)
  | double (bits : UInt64)

namespace EncodeCall

/-- What a call does. -/
def run : EncodeCall → EncAt Unit
  | uint val => encodeHeadAt .uint val.toNat
  | int val =>
      if val.toInt ≥ 0 then encodeHeadAt .uint val.toInt.toNat
      else encodeHeadAt .negint (-(val.toInt + 1)).toNat
  | bstr data => encodeBytesAt .bstr data
  | tstr str => encodeTstrAt str
  | arrayStart count => encodeHeadAt .array count.toNat
  | mapStart count => encodeHeadAt .map count.toNat
  | tag val => encodeHeadAt .tag val.toNat
  | true => writeHeadAt [cborTrue]
  | false => writeHeadAt [cborFalse]
  | null => writeHeadAt [cborNull]
  | float bits => writeHeadAt (initialByte .simple 26 :: Bytes.be 4 bits.toNat)
  | double bits => writeHeadAt (initialByte .simple 27 :: Bytes.be 8 bits.toNat)

/-- The encoding of the item that a call is about. -/
def bytes : EncodeCall → Bytes
  | uint val => preferredHead .uint val.toNat
  | int val => intHead val.toInt
  | bstr data => stringBytes .bstr data.bytes
  | tstr str => stringBytes .tstr str.bytes
  | arrayStart count => preferredHead .array count.toNat
  | mapStart count => preferredHead .map count.toNat
  | tag val => preferredHead .tag val.toNat
  | true => [cborTrue]
  | false => [cborFalse]
  | null => [cborNull]
  | float bits => initialByte .simple 26 :: Bytes.be 4 bits.toNat
  | double bits => initialByte .simple 27 :: Bytes.be 8 bits.toNat

/-- The error of a call for its arguments: null for bytes, or text that is not UTF-8. -/
def argError : EncodeCall → Option Err
  | bstr data => nullError data
  | tstr str => textError str
  | _ => none

/-- The arguments of a call are valid. -/
def Valid (call : EncodeCall) : Prop := call.argError = none

/-- The code a call returns, `none` if it succeeds, and the context it leaves. -/
def step (call : EncodeCall) (ctx : EncMem) : Option Err × EncMem :=
  match call.run ctx with
  | .ok _ ctx' => (none, ctx')
  | .error e ctx' => (some e, ctx')

end EncodeCall

/-- The codes that calls return one after another, whether they succeed or not, and the context they
leave. -/
def runCalls : List EncodeCall → EncMem → List (Option Err) × EncMem
  | [], ctx => ([], ctx)
  | call :: calls, ctx =>
      let rest := runCalls calls (call.step ctx).2
      ((call.step ctx).1 :: rest.1, rest.2)

/-! ### What a call writes -/

namespace EncMem

variable {ctx ctx₁ ctx₂ : EncMem} {a b bs : Bytes}

/-- The context `ctx'` is `ctx` with `bs` written at the cursor, inside the buffer. -/
def Writes (ctx : EncMem) (bs : Bytes) (ctx' : EncMem) : Prop :=
  (bs ≠ [] → ctx.idx + bs.length ≤ ctx.bufSz) ∧ ctx' = ctx.put bs

/-- The contexts differ in the bytes between the cursor and the end of the buffer only, and the
cursor stays in the buffer. -/
def StaysWithin (ctx ctx' : EncMem) : Prop :=
  ctx'.bufSz = ctx.bufSz
    ∧ ctx.idx ≤ ctx'.idx
    ∧ (ctx.idx ≤ ctx.bufSz → ctx'.idx ≤ ctx'.bufSz)
    ∧ (∀ memory, ctx.buf = some memory → ∃ memory', ctx'.buf = some memory'
        ∧ ∀ i, ¬ (ctx.idx ≤ i ∧ i < ctx.bufSz) → memory' i = memory i)
    ∧ (ctx.buf = none → ctx' = ctx)

@[simp]
theorem put_nil (ctx : EncMem) :
  ctx.put [] = ctx
  := by
  obtain ⟨buf, bufSz, idx, hbuf, hidx⟩ := ctx
  have hmod : idx % (sizeMax + 1) = idx := Nat.mod_eq_of_lt (Nat.lt_succ_of_le hidx)
  simp [put, hmod]

/-- The cursor moves over bytes that fit. -/
theorem idx_put (h : ctx.idx + bs.length ≤ ctx.bufSz) :
  (ctx.put bs).idx = ctx.idx + bs.length
  := Nat.mod_eq_of_lt (Nat.lt_succ_of_le (Nat.le_trans h ctx.bufSz_le))

/-- The room that the encoder computes is there. -/
theorem sizeSub_eq (h : ctx.idx ≤ ctx.bufSz) :
  sizeSub ctx.bufSz ctx.idx = ctx.bufSz - ctx.idx
  := by
  have hle := ctx.bufSz_le
  rw [sizeSub, Nat.add_comm, Nat.add_sub_assoc h, Nat.add_mod_left, Nat.mod_eq_of_lt (by omega)]

theorem hasRoom_iff {n : Nat} (hn : 0 < n) :
  ctx.hasRoom n = true ↔ ctx.idx + n ≤ ctx.bufSz
  := by
  simp only [hasRoom, Bool.and_eq_true, decide_eq_true_eq]
  constructor
  · rintro ⟨hi, hr⟩
    rw [sizeSub_eq hi] at hr
    omega
  · intro h
    have hi : ctx.idx ≤ ctx.bufSz := by omega
    rw [sizeSub_eq hi]
    omega

namespace Writes

theorem nil (ctx : EncMem) :
  ctx.Writes [] ctx
  := ⟨fun h => absurd rfl h, ctx.put_nil.symm⟩

theorem bufSz_eq (h : ctx.Writes bs ctx₁) :
  ctx₁.bufSz = ctx.bufSz
  := by
  rw [h.2]
  rfl

theorem idx_eq (h : ctx.Writes bs ctx₁) :
  ctx₁.idx = ctx.idx + bs.length
  := by
  by_cases hb : bs = []
  · rw [h.2, hb, put_nil, List.length_nil, Nat.add_zero]
  · rw [h.2]
    apply idx_put (h.1 hb)

/-- What is written next to other bytes is written with them. -/
theorem append (h₁ : ctx.Writes a ctx₁) (h₂ : ctx₁.Writes b ctx₂) :
  ctx.Writes (a ++ b) ctx₂
  := by
  have hidx := h₁.idx_eq
  have hsz := h₁.bufSz_eq
  constructor
  · intro hab
    rw [List.length_append]
    by_cases hb : b = []
    · have := h₁.1 (by rintro rfl; exact hab (by rw [hb]; rfl))
      rw [hb, List.length_nil]
      omega
    · have := h₂.1 hb
      omega
  · rw [h₂.2]
    have hput : ctx₁ = ctx.put a := h₁.2
    have hbuf : ctx₁.buf = ctx.buf.map (·.write ctx.idx a) := by rw [hput]; rfl
    simp only [put, hidx, hsz, hbuf, Option.map_map, List.length_append, mk.injEq, true_and]
    constructor
    · congr 1
      funext m
      apply m.write_write_append
    · rw [Nat.add_assoc]

/-- Writing stays between the cursor and the end of the buffer. -/
theorem staysWithin (h : ctx.Writes bs ctx₁) (hn : ctx.buf = none → bs = []) :
  ctx.StaysWithin ctx₁
  := by
  have hidx := h.idx_eq
  have hsz := h.bufSz_eq
  refine ⟨hsz, by omega, fun hle => ?_, fun memory hm => ?_, fun hnone => ?_⟩
  · by_cases hb : bs = []
    · rw [hb, List.length_nil] at hidx
      omega
    · have := h.1 hb
      omega
  · refine ⟨memory.write ctx.idx bs, ?_, fun i hi => ?_⟩
    · rw [h.2, put, hm, Option.map_some]
    · apply Memory.write_of_not_has
      rintro ⟨h₁, h₂⟩
      dsimp only at h₁ h₂
      have hb : bs ≠ [] := by
        rintro rfl
        rw [List.length_nil] at h₂
        omega
      have := h.1 hb
      omega
  · rw [h.2, hn hnone, put_nil]

end Writes

namespace StaysWithin

theorem refl (ctx : EncMem) :
  ctx.StaysWithin ctx
  := (Writes.nil ctx).staysWithin fun _ => rfl

theorem trans (h₁ : ctx.StaysWithin ctx₁) (h₂ : ctx₁.StaysWithin ctx₂) :
  ctx.StaysWithin ctx₂
  := by
  obtain ⟨hsz₁, hidx₁, hle₁, hmem₁, hnone₁⟩ := h₁
  obtain ⟨hsz₂, hidx₂, hle₂, hmem₂, hnone₂⟩ := h₂
  refine ⟨by omega, by omega, fun hle => hle₂ (hle₁ hle), fun memory hm => ?_, fun hn => ?_⟩
  · obtain ⟨memory₁, hm₁, hsame₁⟩ := hmem₁ memory hm
    obtain ⟨memory₂, hm₂, hsame₂⟩ := hmem₂ memory₁ hm₁
    refine ⟨memory₂, hm₂, fun i hi => ?_⟩
    rw [hsame₂ i (by omega), hsame₁ i hi]
  · have hsame := hnone₁ hn
    subst hsame
    apply hnone₂ hn

end StaysWithin

end EncMem

/-- How writing `bs` at the cursor ends, with the code that is returned and the context that is left,
when the arguments have the error `err`. -/
inductive PutOutcome (err : Option Err) (bs : Bytes) (ctx : EncMem) : Option Err → EncMem → Prop
  | noBuffer (hbuf : ctx.buf = none) : PutOutcome err bs ctx (some .invalidArg) ctx
  | badArgument (hbuf : ctx.buf ≠ none) (e : Err) (he : err = some e) :
      PutOutcome err bs ctx (some e) ctx
  | written (hbuf : ctx.buf ≠ none) (he : err = none) (hfit : ctx.idx + bs.length ≤ ctx.bufSz) :
      PutOutcome err bs ctx none (ctx.put bs)
  | tooSmall (hbuf : ctx.buf ≠ none) (he : err = none) (hfit : ¬ ctx.idx + bs.length ≤ ctx.bufSz)
      (first : Bytes) (ctx' : EncMem) (hfirst : first <+: bs) (hw : ctx.Writes first ctx') :
      PutOutcome err bs ctx (some .bufferTooSmall) ctx'

/-- The program `p` writes `bs` unless its arguments have the error `err`. -/
def Puts (p : EncAt Unit) (err : Option Err) (bs : Bytes) : Prop :=
  ∀ ctx, Ends p ctx (fun _ => PutOutcome err bs ctx none) (fun e => PutOutcome err bs ctx (some e))

theorem puts_writeHeadAt {bs : Bytes} (h : bs ≠ []) :
  Puts (writeHeadAt bs) none bs
  := by
  intro ctx
  have hroom := @EncMem.hasRoom_iff _ ctx _ (List.length_pos_iff.mpr h)
  unfold writeHeadAt
  apply Ends.bindGet
  apply Ends.bindFailIf
  · intro hnone
    exact .noBuffer (Option.isNone_iff_eq_none.mp hnone)
  intro hsome
  rw [Option.isNone_iff_eq_none] at hsome
  apply Ends.bindFailIf
  · intro hfull
    apply PutOutcome.tooSmall hsome rfl _ [] ctx List.nil_prefix (EncMem.Writes.nil ctx)
    rw [← hroom, hfull]
    exact Bool.noConfusion
  intro hfits
  rw [Bool.not_eq_false, hroom] at hfits
  exact PutOutcome.written hsome rfl hfits

/-- A head is written with its argument in the shortest form. -/
theorem puts_encodeHeadAt (m : MajorType) (v : Nat) :
  Puts (encodeHeadAt m v) none (preferredHead m v)
  := by
  unfold encodeHeadAt preferredHead Width.preferred headBytes
  repeat' split
  all_goals apply puts_writeHeadAt (List.cons_ne_nil _ _)

theorem puts_encodeBytesAt (m : MajorType) (data : Pointer) :
  Puts (encodeBytesAt m data) (nullError data) (stringBytes m data.bytes)
  := by
  intro ctx
  unfold encodeBytesAt
  apply Ends.bindFailIf
  · intro hnull
    by_cases hbuf : ctx.buf = none
    · exact .noBuffer hbuf
    · exact .badArgument hbuf _ (if_pos hnull)
  intro hvalid
  have herr : nullError data = none := if_neg hvalid
  have hlen : data.len = data.bytes.length := by
    apply Pointer.Valid.len_eq
    intro hn
    apply Nat.eq_zero_of_not_pos
    intro hpos
    exact hvalid ⟨hn, hpos⟩
  have hall : (stringBytes m data.bytes).length
      = (preferredHead m data.bytes.length).length + data.bytes.length := List.length_append
  rw [herr, hlen]
  apply Ends.bind (Q := fun _ ctx₁ => ctx.buf ≠ none
    ∧ ctx.Writes (preferredHead m data.bytes.length) ctx₁)
  · apply (puts_encodeHeadAt m data.bytes.length ctx).mono
    · intro _ ctx₁ h
      cases h with
      | written hbuf _ hfit => exact ⟨hbuf, fun _ => hfit, rfl⟩
    · intro e ctx₁ h
      cases h with
      | noBuffer hbuf => exact .noBuffer hbuf
      | badArgument _ _ he => cases he
      | tooSmall hbuf _ hfit first _ hfirst hw =>
          have hfull : ¬ ctx.idx + (stringBytes m data.bytes).length ≤ ctx.bufSz := by
            rw [hall]
            omega
          exact .tooSmall hbuf rfl hfull first _ (hfirst.trans (List.prefix_append _ _)) hw
  rintro - ctx₁ ⟨hbuf, hw⟩
  have hroom := hw.1 (preferredHead_ne_nil _ _)
  have hidx := hw.idx_eq
  have hsz := hw.bufSz_eq
  have hsub : sizeSub ctx₁.bufSz ctx₁.idx = ctx₁.bufSz - ctx₁.idx := EncMem.sizeSub_eq (by omega)
  apply Ends.bindGet
  rw [hsub]
  apply Ends.bindFailIf
  · intro hmore
    have hfull : ¬ ctx.idx + (stringBytes m data.bytes).length ≤ ctx.bufSz := by
      rw [hall]
      omega
    exact .tooSmall hbuf rfl hfull _ ctx₁ (List.prefix_append _ _) hw
  intro hfits
  have hput : ctx.Writes (stringBytes m data.bytes) (ctx₁.put data.bytes) :=
    hw.append ⟨fun _ => by omega, rfl⟩
  have hne : stringBytes m data.bytes ≠ [] := List.append_ne_nil_of_left_ne_nil (preferredHead_ne_nil _ _) _
  change PutOutcome none (stringBytes m data.bytes) ctx none (ctx₁.put data.bytes)
  rw [hput.2]
  exact .written hbuf rfl (hput.1 hne)

theorem puts_encodeTstrAt (str : Pointer) :
  Puts (encodeTstrAt str) (textError str) (stringBytes .tstr str.bytes)
  := by
  intro ctx
  unfold encodeTstrAt
  apply Ends.bindGet
  apply Ends.bindFailIf
  · intro hbad
    by_cases hbuf : ctx.buf = none
    · exact .noBuffer hbuf
    · rw [Option.isNone_iff_eq_none, or_iff_right hbuf] at hbad
      exact .badArgument hbuf _ (if_pos hbad)
  intro hgood
  rw [Option.isNone_iff_eq_none, not_or] at hgood
  obtain ⟨hbuf, hnull⟩ := hgood
  apply Ends.bindFailIf
  · intro hutf8
    apply PutOutcome.badArgument hbuf
    rw [textError, if_neg hnull, if_pos hutf8]
  intro hutf8
  have herr : textError str = nullError str := by
    rw [textError, nullError, if_neg hnull, if_neg hutf8, if_neg hnull]
  rw [herr]
  apply puts_encodeBytesAt

namespace EncodeCall

/-- Every call writes the encoding of its item. -/
theorem puts_run (call : EncodeCall) :
  Puts call.run call.argError call.bytes
  := by
  cases call with
  | uint val => apply puts_encodeHeadAt
  | int val =>
      simp only [run, bytes, argError, intHead]
      split <;> apply puts_encodeHeadAt
  | bstr data => apply puts_encodeBytesAt
  | tstr str => apply puts_encodeTstrAt
  | arrayStart count => apply puts_encodeHeadAt
  | mapStart count => apply puts_encodeHeadAt
  | tag val => apply puts_encodeHeadAt
  | _ => apply puts_writeHeadAt (List.cons_ne_nil _ _)

omit [Settings] in
theorem bytes_ne_nil (call : EncodeCall) :
  call.bytes ≠ []
  := by
  cases call with
  | int val =>
      simp only [bytes, intHead]
      split <;> apply preferredHead_ne_nil
  | bstr data => apply List.append_ne_nil_of_left_ne_nil (preferredHead_ne_nil _ _)
  | tstr str => apply List.append_ne_nil_of_left_ne_nil (preferredHead_ne_nil _ _)
  | uint val => apply preferredHead_ne_nil
  | arrayStart count => apply preferredHead_ne_nil
  | mapStart count => apply preferredHead_ne_nil
  | tag val => apply preferredHead_ne_nil
  | _ => apply List.cons_ne_nil

theorem step_outcome (call : EncodeCall) (ctx : EncMem) :
  PutOutcome call.argError call.bytes ctx (call.step ctx).1 (call.step ctx).2
  := by
  have h := call.puts_run ctx
  unfold Ends at h
  unfold step
  split at h <;> rename_i heq
  · rw [heq]
    exact h
  · rw [heq]
    exact h

/-- A call stays between the cursor and the end of the buffer, whatever its arguments are. -/
theorem staysWithin_step (call : EncodeCall) (ctx : EncMem) :
  ctx.StaysWithin (call.step ctx).2
  := by
  have h := call.step_outcome ctx
  generalize (call.step ctx).1 = code at h
  generalize (call.step ctx).2 = ctx' at h ⊢
  cases h with
  | noBuffer hbuf => apply EncMem.StaysWithin.refl
  | badArgument hbuf e he => apply EncMem.StaysWithin.refl
  | written hbuf he hfit =>
      have hw : ctx.Writes call.bytes (ctx.put call.bytes) := ⟨fun _ => hfit, rfl⟩
      apply hw.staysWithin
      intro hn
      exact absurd hn hbuf
  | tooSmall hbuf he hfit first _ hfirst hw =>
      apply hw.staysWithin
      intro hn
      exact absurd hn hbuf

variable {call : EncodeCall} {ctx : EncMem}

theorem step_noBuffer (hbuf : ctx.buf = none) :
  call.step ctx = (some .invalidArg, ctx)
  := by
  generalize hstep : call.step ctx = res
  have h := call.step_outcome ctx
  rw [hstep] at h
  obtain ⟨code, ctx'⟩ := res
  cases h with
  | noBuffer _ => rfl
  | badArgument hne => exact absurd hbuf hne
  | written hne => exact absurd hbuf hne
  | tooSmall hne => exact absurd hbuf hne

theorem step_badArgument {e : Err} (hbuf : ctx.buf ≠ none) (he : call.argError = some e) :
  call.step ctx = (some e, ctx)
  := by
  generalize hstep : call.step ctx = res
  have h := call.step_outcome ctx
  rw [hstep, he] at h
  obtain ⟨code, ctx'⟩ := res
  cases h with
  | noBuffer hnone => exact absurd hnone hbuf
  | badArgument _ e' he' =>
      cases he'
      rfl
  | written _ hnone => cases hnone
  | tooSmall _ hnone => cases hnone

theorem step_written (hbuf : ctx.buf ≠ none) (hvalid : call.Valid)
    (hfit : ctx.idx + call.bytes.length ≤ ctx.bufSz) :
  call.step ctx = (none, ctx.put call.bytes)
  := by
  generalize hstep : call.step ctx = res
  have h := call.step_outcome ctx
  rw [hstep, hvalid] at h
  obtain ⟨code, ctx'⟩ := res
  cases h with
  | noBuffer hnone => exact absurd hnone hbuf
  | badArgument _ e he => cases he
  | written => rfl
  | tooSmall _ _ hfull => exact absurd hfit hfull

theorem step_tooSmall (hbuf : ctx.buf ≠ none) (hvalid : call.Valid)
    (hfull : ¬ ctx.idx + call.bytes.length ≤ ctx.bufSz) :
  (call.step ctx).1 = some .bufferTooSmall
  := by
  generalize hstep : call.step ctx = res
  have h := call.step_outcome ctx
  rw [hstep, hvalid] at h
  obtain ⟨code, ctx'⟩ := res
  cases h with
  | noBuffer hnone => exact absurd hnone hbuf
  | badArgument _ e he => cases he
  | written _ _ hfit => exact absurd hfit hfull
  | tooSmall => rfl

end EncodeCall

/-! ### Sequences of calls -/

variable {ctx : EncMem} {calls before after : List EncodeCall} {call : EncodeCall}

/-- The encodings of the items of calls, one after another. -/
def callBytes (calls : List EncodeCall) : Bytes := calls.flatMap EncodeCall.bytes

omit [Settings] in
theorem callBytes_append (before after : List EncodeCall) :
  callBytes (before ++ after) = callBytes before ++ callBytes after
  := List.flatMap_append

omit [Settings] in
theorem callBytes_cons (call : EncodeCall) (calls : List EncodeCall) :
  callBytes (call :: calls) = call.bytes ++ callBytes calls
  := List.flatMap_cons

/-- A sequence of calls stays between the cursor and the end of the buffer. -/
theorem staysWithin_runCalls (calls : List EncodeCall) (ctx : EncMem) :
  ctx.StaysWithin (runCalls calls ctx).2
  := by
  induction calls generalizing ctx with
  | nil => apply EncMem.StaysWithin.refl
  | cons call calls ih => exact (call.staysWithin_step ctx).trans (ih _)

/-- Calls whose items fit succeed one after another. -/
theorem runCalls_fits (hbuf : ctx.buf ≠ none) (hvalid : ∀ call ∈ calls, call.Valid)
    (hfit : (callBytes calls).length ≤ ctx.bufSz - ctx.idx) :
  runCalls calls ctx = (calls.map fun _ => none, ctx.put (callBytes calls))
  := by
  induction calls generalizing ctx with
  | nil =>
      change ([], ctx) = ([], ctx.put [])
      rw [EncMem.put_nil]
  | cons call calls ih =>
      rw [callBytes_cons, List.length_append] at hfit
      obtain ⟨hcall, hcalls⟩ := List.forall_mem_cons.mp hvalid
      have hpos := List.length_pos_iff.mpr call.bytes_ne_nil
      have hroom : ctx.idx + call.bytes.length ≤ ctx.bufSz := by omega
      have hw : ctx.Writes call.bytes (ctx.put call.bytes) := ⟨fun _ => hroom, rfl⟩
      have hbuf' : (ctx.put call.bytes).buf ≠ none := by
        rw [EncMem.put, ne_eq, Option.map_eq_none_iff]
        exact hbuf
      have hrest : (callBytes calls).length
          ≤ (ctx.put call.bytes).bufSz - (ctx.put call.bytes).idx := by
        rw [hw.idx_eq, hw.bufSz_eq]
        omega
      have hw' : (ctx.put call.bytes).Writes (callBytes calls)
          ((ctx.put call.bytes).put (callBytes calls)) := by
        refine ⟨fun hne => ?_, rfl⟩
        have := List.length_pos_iff.mpr hne
        omega
      have hput := (hw.append hw').2
      simp only [runCalls, EncodeCall.step_written hbuf hcall hroom, ih hbuf' hcalls hrest, hput,
        callBytes_cons, List.map_cons]

omit [Settings] in
/-- Among calls whose items do not all fit there is a first one that does not fit. -/
theorem exists_first_full {n : Nat} (hfull : ¬ (callBytes calls).length ≤ n) :
  ∃ before call after, calls = before ++ call :: after
    ∧ (callBytes before).length ≤ n ∧ ¬ (callBytes (before ++ [call])).length ≤ n
  := by
  induction calls using List.reverseRecOn with
  | nil => exact absurd (Nat.zero_le _) hfull
  | append_singleton calls call ih =>
      by_cases hfit : (callBytes calls).length ≤ n
      · exact ⟨calls, call, [], rfl, hfit, hfull⟩
      · obtain ⟨before, call', after, hsplit, hin, hout⟩ := ih hfit
        refine ⟨before, call', after ++ [call], ?_, hin, hout⟩
        rw [hsplit, List.append_assoc, List.cons_append]

theorem runCalls_append (before after : List EncodeCall) (ctx : EncMem) :
  runCalls (before ++ after) ctx
    = ((runCalls before ctx).1 ++ (runCalls after (runCalls before ctx).2).1,
       (runCalls after (runCalls before ctx).2).2)
  := by
  induction before generalizing ctx with
  | nil => rfl
  | cons call before ih =>
      simp only [List.cons_append, runCalls, ih]

/-- The call after some that fit fails if it does not fit itself. -/
theorem step_first_full (hbuf : ctx.buf ≠ none) (hcall : call.Valid)
    (hin : (callBytes before).length ≤ ctx.bufSz - ctx.idx)
    (hout : ¬ (callBytes (before ++ [call])).length ≤ ctx.bufSz - ctx.idx) :
  (call.step (ctx.put (callBytes before))).1 = some .bufferTooSmall
  := by
  have hw : ctx.Writes (callBytes before) (ctx.put (callBytes before)) := by
    refine ⟨fun hne => ?_, rfl⟩
    have := List.length_pos_iff.mpr hne
    omega
  apply EncodeCall.step_tooSmall _ hcall
  · rw [hw.idx_eq, hw.bufSz_eq]
    rw [callBytes_append, callBytes_cons, List.length_append, List.length_append] at hout
    have hpos := List.length_pos_iff.mpr call.bytes_ne_nil
    change ¬ _ + (call.bytes.length + 0) ≤ _ at hout
    omega
  · rw [EncMem.put, ne_eq, Option.map_eq_none_iff]
    exact hbuf

/-- The encoder never leaves its buffer and fails exactly if it must.  Every call of a sequence, from
any context and after whatever the calls before it returned, changes only bytes between the cursor and
the end of the buffer, and keeps the cursor in the buffer if it was there.  Calls with valid arguments
all succeed if and only if their encodings fit in the rest of the buffer, and the bytes written are
then the encodings one after another; otherwise the first call that does not fit fails, with what was
written before it unchanged.  A call with invalid arguments or without a buffer changes nothing. -/
theorem encodeCalls_exact (ctx : EncMem) (calls : List EncodeCall) :
  (∀ before call after, calls = before ++ call :: after →
      (runCalls before ctx).2.StaysWithin (call.step (runCalls before ctx).2).2)
    ∧ (ctx.idx ≤ ctx.bufSz → (runCalls calls ctx).2.idx ≤ (runCalls calls ctx).2.bufSz)
    ∧ (∀ memory, ctx.buf = some memory → (∀ call ∈ calls, call.Valid) →
        ((∀ code ∈ (runCalls calls ctx).1, code = none)
            ↔ (callBytes calls).length ≤ ctx.bufSz - ctx.idx)
          ∧ ((callBytes calls).length ≤ ctx.bufSz - ctx.idx →
              (runCalls calls ctx).2 = ctx.put (callBytes calls)
                ∧ (runCalls calls ctx).2.idx = ctx.idx + (callBytes calls).length
                ∧ (runCalls calls ctx).2.buf = some (memory.write ctx.idx (callBytes calls)))
          ∧ (¬ (callBytes calls).length ≤ ctx.bufSz - ctx.idx →
              ∃ before call after, calls = before ++ call :: after
                ∧ (callBytes before).length ≤ ctx.bufSz - ctx.idx
                ∧ ¬ (callBytes (before ++ [call])).length ≤ ctx.bufSz - ctx.idx
                ∧ (runCalls before ctx).1 = before.map (fun _ => none)
                ∧ (runCalls before ctx).2 = ctx.put (callBytes before)
                ∧ (call.step (runCalls before ctx).2).1 = some .bufferTooSmall
                ∧ ∃ memory', (call.step (runCalls before ctx).2).2.buf = some memory'
                    ∧ ∀ i, i < ctx.idx + (callBytes before).length →
                        memory' i = memory.write ctx.idx (callBytes before) i))
    ∧ (∀ call : EncodeCall, ctx.buf = none → call.step ctx = (some .invalidArg, ctx))
    ∧ (∀ (call : EncodeCall) e, ctx.buf ≠ none → call.argError = some e → call.step ctx = (some e, ctx))
  := by
  have hputWrites : ∀ bs : Bytes, bs.length ≤ ctx.bufSz - ctx.idx → ctx.Writes bs (ctx.put bs) := by
    intro bs hfit
    refine ⟨fun hne => ?_, rfl⟩
    have := List.length_pos_iff.mpr hne
    omega
  refine ⟨fun before call after _ => call.staysWithin_step _, (staysWithin_runCalls calls ctx).2.2.1, ?_,
    fun call hn => EncodeCall.step_noBuffer hn, fun call e hb he => EncodeCall.step_badArgument hb he⟩
  intro memory hm hvalid
  have hbuf : ctx.buf ≠ none := by
    rw [hm]
    apply Option.some_ne_none
  have hputBuf : ∀ bs, (ctx.put bs).buf = some (memory.write ctx.idx bs) := by
    intro bs
    rw [EncMem.put, hm, Option.map_some]
  have hfails : ¬ (callBytes calls).length ≤ ctx.bufSz - ctx.idx →
      ∃ before call after, calls = before ++ call :: after
        ∧ (callBytes before).length ≤ ctx.bufSz - ctx.idx
        ∧ ¬ (callBytes (before ++ [call])).length ≤ ctx.bufSz - ctx.idx
        ∧ runCalls before ctx = (before.map fun _ => none, ctx.put (callBytes before))
        ∧ (call.step (ctx.put (callBytes before))).1 = some .bufferTooSmall := by
    intro hfull
    obtain ⟨before, call, after, hsplit, hin, hout⟩ := exists_first_full hfull
    rw [hsplit] at hvalid
    obtain ⟨hbefore, hrest⟩ := List.forall_mem_append.mp hvalid
    have hcall := (List.forall_mem_cons.mp hrest).1
    exact ⟨before, call, after, hsplit, hin, hout, runCalls_fits hbuf hbefore hin,
      step_first_full hbuf hcall hin hout⟩
  refine ⟨⟨fun hall => ?_, fun hfit => ?_⟩, fun hfit => ?_, fun hfull => ?_⟩
  · by_contra hfull
    obtain ⟨before, call, after, hsplit, -, -, hrun, hcode⟩ := hfails hfull
    have hmem : some Err.bufferTooSmall ∈ (runCalls calls ctx).1 := by
      rw [hsplit, runCalls_append, hrun, runCalls, hcode]
      apply List.mem_append_right
      apply List.mem_cons_self
    cases hall _ hmem
  · rw [runCalls_fits hbuf hvalid hfit]
    intro code hcode
    obtain ⟨_, _, rfl⟩ := List.mem_map.mp hcode
    rfl
  · rw [runCalls_fits hbuf hvalid hfit]
    exact ⟨rfl, (hputWrites _ hfit).idx_eq, hputBuf _⟩
  · obtain ⟨before, call, after, hsplit, hin, hout, hrun, hcode⟩ := hfails hfull
    obtain ⟨memory', hm', hsame⟩ := (call.staysWithin_step (ctx.put (callBytes before))).2.2.2.1 _
      (hputBuf (callBytes before))
    rw [(hputWrites _ hin).idx_eq] at hsame
    refine ⟨before, call, after, hsplit, hin, hout, congrArg Prod.fst hrun, congrArg Prod.snd hrun, ?_, ?_⟩
    all_goals rw [hrun]
    · exact hcode
    · refine ⟨memory', hm', fun i hi => hsame i ?_⟩
      omega

end WolfCose
