import WolfCose.Codec.Decode

/-!
# Encoding CBOR

The encoder of `wolfcose_cbor.c`.  An encoder context is an output buffer and a cursor;
every function writes at the cursor and moves it over what it has written, or fails when
the rest of the buffer is too small.
-/

namespace WolfCose

open Program Cbor Settings

variable [Settings]

/-- A context `WOLFCOSE_CBOR_CTX` set up for encoding. -/
structure EncCtx [Settings] where
  buf : Buffer
  idx : Nat

/-- A function on an encoder context. -/
abbrev Enc (α : Type) := EStateM Err EncCtx α

namespace EncCtx

/-- The size of the buffer of a context. -/
def bufSz (ctx : EncCtx) : Nat := ctx.buf.bytes.length

/-- The context after encoding starts at the first byte of a buffer: `wc_CBOR_EncoderInit`. -/
def init (b : Buffer) : EncCtx := ⟨b, 0⟩

/-- The bytes from the start of the buffer up to the cursor. -/
def written (ctx : EncCtx) : Bytes := ctx.buf.bytes.take ctx.idx

/-- The context with `bs` written at the cursor. -/
def put (ctx : EncCtx) (bs : Bytes) : EncCtx where
  buf :=
    { bytes := Bytes.overwrite ctx.buf.bytes ctx.idx bs
      length_le := by
        rw [Bytes.length_overwrite]
        exact ctx.buf.length_le }
  idx := ctx.idx + bs.length

end EncCtx

/-- `wolfCose_CBOR_HasRoom` -/
def EncCtx.hasRoom (ctx : EncCtx) (need : Nat) : Bool :=
  ctx.idx ≤ ctx.bufSz && need ≤ ctx.bufSz - ctx.idx

/-- The branches of the encoder that check for room and write a head. -/
def writeHead (bs : Bytes) : Enc Unit := do
  let ctx ← get
  failIf (ctx.hasRoom bs.length = false) .bufferTooSmall
  set (ctx.put bs)

/-- `wolfCose_CBOR_EncodeHead` -/
def encodeHead (majorType : MajorType) (val : Nat) : Enc Unit :=
  if val ≤ 23 then writeHead [initialByte majorType val]
  else if val ≤ 0xFF then writeHead (initialByte majorType 24 :: Bytes.be 1 val)
  else if val ≤ 0xFFFF then writeHead (initialByte majorType 25 :: Bytes.be 2 val)
  else if val ≤ 0xFFFFFFFF then writeHead (initialByte majorType 26 :: Bytes.be 4 val)
  else writeHead (initialByte majorType 27 :: Bytes.be 8 val)

/-- `wc_CBOR_EncodeUint` -/
def encodeUint (val : Nat) : Enc Unit := encodeHead .uint val

/-- `wc_CBOR_EncodeInt` -/
def encodeInt (val : Int) : Enc Unit :=
  if val ≥ 0 then encodeHead .uint val.toNat
  else encodeHead .negint (-(val + 1)).toNat

/-- `wolfCose_CBOR_EncodeBytes` -/
def encodeBytes (majorType : MajorType) (data : Pointer) : Enc Unit := do
  failIf (data.isNull = true ∧ data.len > 0) .invalidArg
  encodeHead majorType data.len
  let ctx ← get
  failIf (data.len > ctx.bufSz - ctx.idx) .bufferTooSmall
  set (ctx.put data.bytes)

/-- `wc_CBOR_EncodeBstr` -/
def encodeBstr (data : Pointer) : Enc Unit := encodeBytes .bstr data

/-- `wc_CBOR_EncodeTstr` -/
def encodeTstr (str : Pointer) : Enc Unit := do
  failIf (str.isNull = true ∧ str.len > 0) .invalidArg
  failIf (isUtf8 str.bytes = false) .cborMalformed
  encodeBytes .tstr str

/-- `wc_CBOR_EncodeArrayStart` -/
def encodeArrayStart (count : Nat) : Enc Unit := encodeHead .array count

/-- `wc_CBOR_EncodeMapStart` -/
def encodeMapStart (count : Nat) : Enc Unit := encodeHead .map count

/-- `wc_CBOR_EncodeTag` -/
def encodeTag (tag : Nat) : Enc Unit := encodeHead .tag tag

/-- `wolfCose_CBOR_EncodeSimpleVal` -/
def encodeSimpleVal (val : UInt8) : Enc Unit := writeHead [val]

/-- `WOLFCOSE_CBOR_FALSE` -/
def cborFalse : UInt8 := 0xF4

/-- `WOLFCOSE_CBOR_TRUE` -/
def cborTrue : UInt8 := 0xF5

/-- `WOLFCOSE_CBOR_NULL` -/
def cborNull : UInt8 := 0xF6

/-- `wc_CBOR_EncodeTrue` -/
def encodeTrue : Enc Unit := encodeSimpleVal cborTrue

/-- `wc_CBOR_EncodeFalse` -/
def encodeFalse : Enc Unit := encodeSimpleVal cborFalse

/-- `wc_CBOR_EncodeNull` -/
def encodeNull : Enc Unit := encodeSimpleVal cborNull

/-! ### What the encoder writes -/

/-- The context `ctx'` is `ctx` with `bs` written at the cursor, inside the buffer. -/
def EncCtx.Writes (ctx : EncCtx) (bs : Bytes) (ctx' : EncCtx) : Prop :=
  (bs ≠ [] → ctx.idx + bs.length ≤ ctx.bufSz) ∧ ctx' = ctx.put bs

/-- The encoding program `p` writes exactly `bs`, and fails only if `bs` does not fit. -/
def Emits (p : Enc Unit) (bs : Bytes) : Prop :=
  ∀ ctx ctx', Runs p ctx () ctx' ↔ ctx.Writes bs ctx'

/-- The encoding program `p` writes exactly `bs`, and fails only if the condition `c` fails
or `bs` does not fit. -/
def EmitsIf (c : Prop) (p : Enc Unit) (bs : Bytes) : Prop :=
  ∀ ctx ctx', Runs p ctx () ctx' ↔ c ∧ ctx.Writes bs ctx'

namespace EncCtx

variable {ctx ctx' : EncCtx} {a b bs : Bytes}

@[simp]
theorem bufSz_put (ctx : EncCtx) (bs : Bytes) :
  (ctx.put bs).bufSz = ctx.bufSz
  := Bytes.length_overwrite ..

@[simp]
theorem idx_put (ctx : EncCtx) (bs : Bytes) :
  (ctx.put bs).idx = ctx.idx + bs.length
  := rfl

@[simp]
theorem put_nil (ctx : EncCtx) :
  ctx.put [] = ctx
  := by
  simp [put]

theorem put_append (ctx : EncCtx) (a b : Bytes) :
  ctx.put (a ++ b) = (ctx.put a).put b
  := by
  simp [put, Bytes.overwrite_append, Nat.add_assoc]

theorem writes_append_iff :
  ctx.Writes (a ++ b) ctx' ↔ ∃ ctx₁, ctx.Writes a ctx₁ ∧ ctx₁.Writes b ctx'
  := by
  constructor
  · rintro ⟨hroom, rfl⟩
    refine ⟨ctx.put a, ⟨fun ha => ?_, rfl⟩, fun hb => ?_, ctx.put_append a b⟩
    · have := hroom (fun h => ha (List.append_eq_nil_iff.mp h).1)
      rw [List.length_append] at this
      omega
    · have := hroom (fun h => hb (List.append_eq_nil_iff.mp h).2)
      rw [List.length_append] at this
      simp only [idx_put, bufSz_put]
      omega
  · rintro ⟨ctx₁, ⟨ha, rfl⟩, hb, rfl⟩
    refine ⟨fun h => ?_, (ctx.put_append a b).symm⟩
    rw [List.length_append]
    simp only [idx_put, bufSz_put] at hb
    cases b with
    | nil =>
        rw [List.append_nil] at h
        exact ha h
    | cons x b =>
        have := hb (List.cons_ne_nil x b)
        omega

/-- What an encoder writes stands at the end of what is written. -/
theorem Writes.written_eq (h : ctx.Writes bs ctx') (hidx : ctx.idx ≤ ctx.bufSz) :
  ctx'.written = ctx.written ++ bs
  := by
  obtain ⟨hroom, rfl⟩ := h
  cases bs with
  | nil => simp
  | cons x bs =>
      have hr := hroom (List.cons_ne_nil x bs)
      have hl : (ctx.buf.bytes.take ctx.idx).length = ctx.idx :=
        List.length_take_of_le hidx
      change (Bytes.overwrite ctx.buf.bytes ctx.idx (x :: bs)).take (ctx.idx + (x :: bs).length) = _
      rw [Bytes.overwrite_eq hr, written]
      have hlen : (ctx.buf.bytes.take ctx.idx ++ x :: bs).length = ctx.idx + (x :: bs).length := by
        rw [List.length_append, hl]
      rw [List.take_append_of_le_length (Nat.le_of_eq hlen.symm)]
      exact List.take_of_length_le (Nat.le_of_eq hlen)

theorem Writes.idx_le (h : ctx.Writes bs ctx') (hidx : ctx.idx ≤ ctx.bufSz) :
  ctx'.idx ≤ ctx'.bufSz
  := by
  obtain ⟨hroom, rfl⟩ := h
  cases bs with
  | nil => simpa using hidx
  | cons x bs =>
      have hr := hroom (List.cons_ne_nil x bs)
      simpa using hr

end EncCtx

namespace Emits

variable {p q : Enc Unit} {a b : Bytes}

theorem pure :
  Emits (pure ()) []
  := by
  intro ctx ctx'
  simp only [runs_pure, true_and, EncCtx.Writes, EncCtx.put_nil, ne_eq, not_true_eq_false,
    false_implies]
  exact eq_comm

theorem bind (hp : Emits p a) (hq : Emits q b) :
  Emits (p >>= fun _ => q) (a ++ b)
  := by
  intro ctx ctx'
  rw [EncCtx.writes_append_iff, runs_bind]
  constructor
  · rintro ⟨⟨⟩, ctx₁, h₁, h₂⟩
    exact ⟨ctx₁, (hp _ _).mp h₁, (hq _ _).mp h₂⟩
  · rintro ⟨ctx₁, h₁, h₂⟩
    exact ⟨(), ctx₁, (hp _ _).mpr h₁, (hq _ _).mpr h₂⟩

theorem ite {c : Prop} [Decidable c] (hp : c → Emits p a) (hq : ¬ c → Emits q b) :
  Emits (if c then p else q) (if c then a else b)
  := by
  split <;> rename_i h
  · exact hp h
  · exact hq h

theorem onlyIf {c : Prop} [Decidable c] (hp : c → Emits p a) :
  Emits (onlyIf c p) (if c then a else [])
  := by
  unfold Program.onlyIf
  exact ite hp (fun _ => pure)

/-- A loop writes what its turns write, one after another. -/
theorem forM {α : Type} {f : α → Enc Unit} {g : α → Bytes} (h : ∀ x, Emits (f x) (g x)) (xs : List α) :
  Emits (xs.forM f) (xs.flatMap g)
  := by
  induction xs with
  | nil => apply pure
  | cons x xs ih =>
      rw [List.flatMap_cons]
      apply bind (h x) ih

/-- A program that succeeds has written its bytes. -/
theorem writes (h : Emits p a) {ctx ctx' : EncCtx} (hr : Runs p ctx () ctx') :
  ctx.Writes a ctx'
  := (h ctx ctx').mp hr

/-- A program whose bytes fit succeeds. -/
theorem runs_of_fits (h : Emits p a) {ctx : EncCtx} (hfit : ctx.idx + a.length ≤ ctx.bufSz) :
  Runs p ctx () (ctx.put a)
  := (h _ _).mpr ⟨fun _ => hfit, rfl⟩

end Emits

namespace EmitsIf

variable {c d : Prop} {p q : Enc Unit} {a b : Bytes}

theorem emits (h : EmitsIf c p a) (hc : c) :
  Emits p a
  := by
  intro ctx ctx'
  rw [h ctx ctx']
  exact and_iff_right hc

theorem bind (hp : EmitsIf c p a) (hq : EmitsIf d q b) :
  EmitsIf (c ∧ d) (p >>= fun _ => q) (a ++ b)
  := by
  intro ctx ctx'
  rw [EncCtx.writes_append_iff, runs_bind]
  constructor
  · rintro ⟨⟨⟩, ctx₁, h₁, h₂⟩
    obtain ⟨hc, h₁⟩ := (hp _ _).mp h₁
    obtain ⟨hd, h₂⟩ := (hq _ _).mp h₂
    exact ⟨⟨hc, hd⟩, ctx₁, h₁, h₂⟩
  · rintro ⟨⟨hc, hd⟩, ctx₁, h₁, h₂⟩
    exact ⟨(), ctx₁, (hp _ _).mpr ⟨hc, h₁⟩, (hq _ _).mpr ⟨hd, h₂⟩⟩

/-- A part that fails only for want of room adds no condition. -/
theorem bindEmits (hp : Emits p a) (hq : EmitsIf d q b) :
  EmitsIf d (p >>= fun _ => q) (a ++ b)
  := by
  intro ctx ctx'
  have hp' : EmitsIf True p a := fun ctx ctx' => by
    rw [hp ctx ctx', true_and]
  rw [hp'.bind hq ctx ctx', true_and]

theorem onlyIf {o : Prop} [Decidable o] (hp : EmitsIf c p a) :
  EmitsIf (o → c) (onlyIf o p) (if o then a else [])
  := by
  intro ctx ctx'
  by_cases ho : o
  · rw [runs_onlyIf, hp ctx ctx']
    simp only [ho, true_and, not_true_eq_false, false_and, or_false, forall_const, if_true]
  · have hpure := Emits.pure ctx ctx'
    rw [runs_pure] at hpure
    rw [runs_onlyIf]
    simp only [ho, false_and, not_false_eq_true, true_and, false_or, false_implies, if_false] at hpure ⊢
    exact hpure

theorem forM {α : Type} {d : α → Prop} {f : α → Enc Unit} {g : α → Bytes} {xs : List α}
    (h : ∀ x ∈ xs, EmitsIf (d x) (f x) (g x)) :
  EmitsIf (∀ x ∈ xs, d x) (xs.forM f) (xs.flatMap g)
  := by
  induction xs with
  | nil =>
      intro ctx ctx'
      have hnil : Runs ([].forM f) ctx () ctx' ↔ ctx.Writes [] ctx' := Emits.pure ctx ctx'
      rw [hnil]
      simp only [List.flatMap_nil, List.not_mem_nil, false_implies, implies_true, true_and]
  | cons x xs ih =>
      obtain ⟨hx, hxs⟩ := List.forall_mem_cons.mp h
      have hcons := bind hx (ih hxs)
      rw [← List.forall_mem_cons] at hcons
      exact hcons

theorem congr (h : EmitsIf c p a) (hc : c ↔ d) (ha : a = b) :
  EmitsIf d p b
  := by
  subst ha
  intro ctx ctx'
  rw [h ctx ctx', hc]

end EmitsIf

/-! ### What each function writes -/

theorem EncCtx.hasRoom_iff {ctx : EncCtx} {n : Nat} :
  ctx.hasRoom n = true ↔ ctx.idx ≤ ctx.bufSz ∧ n ≤ ctx.bufSz - ctx.idx
  := by
  simp [hasRoom]

theorem emits_writeHead {bs : Bytes} (h : bs ≠ []) :
  Emits (writeHead bs) bs
  := by
  intro ctx ctx'
  simp only [writeHead, runs_bind, runs_get, runs_failIf, runs_set]
  simp only [Bool.not_eq_false, EncCtx.hasRoom_iff]
  have hl := List.length_pos_iff.mpr h
  constructor
  · rintro ⟨_, _, ⟨rfl, rfl⟩, _, _, ⟨⟨hi, hn⟩, rfl⟩, rfl⟩
    exact ⟨fun _ => by omega, rfl⟩
  · rintro ⟨hroom, rfl⟩
    have := hroom h
    exact ⟨ctx, ctx, ⟨rfl, rfl⟩, (), ctx, ⟨⟨by omega, by omega⟩, rfl⟩, rfl⟩

/-- A head is written with its argument in the shortest form. -/
theorem emits_encodeHead (m : MajorType) (v : Nat) :
  Emits (encodeHead m v) (preferredHead m v)
  := by
  unfold encodeHead preferredHead Width.preferred headBytes
  repeat' split
  all_goals exact emits_writeHead (List.cons_ne_nil _ _)

/-- A string is written with its head; the null pointer is taken only with length zero. -/
theorem emitsIf_encodeBytes (m : MajorType) (data : Pointer) :
  EmitsIf data.Valid (encodeBytes m data) (stringBytes m data.bytes)
  := by
  intro ctx ctx'
  simp only [encodeBytes, runs_bind, runs_failIf, runs_get, runs_set, stringBytes,
    EncCtx.writes_append_iff, emits_encodeHead m _ _ _]
  constructor
  · rintro ⟨_, _, ⟨hn, rfl⟩, ⟨⟩, ctx₁, hw, _, _, ⟨rfl, rfl⟩, _, _, ⟨hr, rfl⟩, rfl⟩
    have hvalid : data.Valid := fun h => Nat.eq_zero_of_not_pos fun hpos => hn ⟨h, hpos⟩
    rw [hvalid.len_eq] at hw hr
    have hroom := hw.1 (preferredHead_ne_nil _ _)
    refine ⟨hvalid, ctx₁, hw, fun _ => ?_, rfl⟩
    rw [hw.2, EncCtx.idx_put, EncCtx.bufSz_put] at hr ⊢
    omega
  · rintro ⟨hvalid, ctx₁, hw, hroom, rfl⟩
    rw [hvalid.len_eq]
    refine ⟨(), ctx, ⟨?_, rfl⟩, (), ctx₁, hw, ctx₁, ctx₁, ⟨rfl, rfl⟩, (), ctx₁, ⟨?_, rfl⟩, rfl⟩
    · rintro ⟨hn, hpos⟩
      rw [← hvalid.len_eq, hvalid hn] at hpos
      omega
    · by_cases hb : data.bytes = []
      · rw [hb]
        simp
      · have := hroom hb
        omega

theorem emitsIf_encodeBstr (data : Pointer) :
  EmitsIf data.Valid (encodeBstr data) (stringBytes .bstr data.bytes)
  := emitsIf_encodeBytes .bstr data

theorem emits_encodeBstr_mem (bs : Bytes) :
  Emits (encodeBstr (.mem bs)) (stringBytes .bstr bs)
  := (emitsIf_encodeBstr _).emits (Pointer.valid_mem bs)

theorem emits_encodeBstr {data : Pointer} (h : data.isNull = false) :
  Emits (encodeBstr data) (stringBytes .bstr data.bytes)
  := (emitsIf_encodeBstr _).emits fun hn => absurd (h.symm.trans hn) Bool.false_ne_true

/-- Text is written only if it is UTF-8. -/
theorem emitsIf_encodeTstr (str : Pointer) :
  EmitsIf (str.Valid ∧ isUtf8 str.bytes = true) (encodeTstr str) (stringBytes .tstr str.bytes)
  := by
  intro ctx ctx'
  simp only [encodeTstr, runs_bind, runs_failIf, emitsIf_encodeBytes .tstr str _ _,
    Bool.not_eq_false]
  constructor
  · rintro ⟨_, _, ⟨-, rfl⟩, _, _, ⟨hu, rfl⟩, hv, hw⟩
    exact ⟨⟨hv, hu⟩, hw⟩
  · rintro ⟨⟨hv, hu⟩, hw⟩
    refine ⟨(), ctx, ⟨?_, rfl⟩, (), ctx, ⟨hu, rfl⟩, hv, hw⟩
    rintro ⟨hn, hpos⟩
    rw [hv hn] at hpos
    omega

theorem emits_encodeTstr_mem {str : Bytes} (h : isUtf8 str = true) :
  Emits (encodeTstr (.mem str)) (stringBytes .tstr str)
  := (emitsIf_encodeTstr _).emits ⟨Pointer.valid_mem str, h⟩

/-- The head of an integer. -/
def intHead (v : Int) : Bytes :=
  if v ≥ 0 then preferredHead .uint v.toNat else preferredHead .negint (-(v + 1)).toNat

theorem emits_encodeInt (v : Int) :
  Emits (encodeInt v) (intHead v)
  := by
  unfold encodeInt intHead
  exact Emits.ite (fun _ => emits_encodeHead _ _) (fun _ => emits_encodeHead _ _)

theorem emits_encodeSimpleVal (b : UInt8) :
  Emits (encodeSimpleVal b) [b]
  := emits_writeHead (List.cons_ne_nil _ _)

/-- The bytes an encoding program leaves at the start of a buffer. -/
def encodeInto (p : Enc Unit) (buf : Buffer) : Except Err Bytes :=
  match p (.init buf) with
  | .ok _ ctx => .ok ctx.written
  | .error e _ => .error e

theorem encodeInto_eq_ok {p : Enc Unit} {buf : Buffer} {bs : Bytes} :
  encodeInto p buf = .ok bs ↔ ∃ ctx, Runs p (.init buf) () ctx ∧ ctx.written = bs
  := by
  unfold encodeInto Runs
  cases p (.init buf) with
  | ok a ctx => simp
  | error e ctx => simp

/-- A buffer receives the bytes of a program exactly if they fit. -/
theorem EmitsIf.encodeInto_iff {c : Prop} {p : Enc Unit} {a bs : Bytes} (h : EmitsIf c p a)
    (ha : a ≠ []) {buf : Buffer} :
  encodeInto p buf = .ok bs ↔ c ∧ a.length ≤ buf.bytes.length ∧ bs = a
  := by
  rw [encodeInto_eq_ok]
  constructor
  · rintro ⟨ctx, hr, rfl⟩
    obtain ⟨hc, hw⟩ := (h _ _).mp hr
    have hroom := hw.1 ha
    rw [EncCtx.init, Nat.zero_add] at hroom
    refine ⟨hc, hroom, ?_⟩
    rw [hw.written_eq (Nat.zero_le _)]
    simp [EncCtx.written, EncCtx.init]
  · rintro ⟨hc, hlen, rfl⟩
    have hw : (EncCtx.init buf).Writes bs ((EncCtx.init buf).put bs) :=
      ⟨fun _ => by simpa [EncCtx.init, EncCtx.bufSz] using hlen, rfl⟩
    refine ⟨_, (h _ _).mpr ⟨hc, hw⟩, ?_⟩
    rw [hw.written_eq (Nat.zero_le _)]
    simp [EncCtx.written, EncCtx.init]

theorem Emits.encodeInto_iff {p : Enc Unit} {a bs : Bytes} (h : Emits p a) (ha : a ≠ [])
    {buf : Buffer} :
  encodeInto p buf = .ok bs ↔ a.length ≤ buf.bytes.length ∧ bs = a
  := by
  have h' : EmitsIf True p a := fun ctx ctx' => by
    rw [h ctx ctx', true_and]
  rw [h'.encodeInto_iff ha, true_and]

end WolfCose
