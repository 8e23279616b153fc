import WolfCose.Countersign.Target

/-!
# What is authenticated

The three builders encode three kinds of requests.  What a request asks to authenticate is
an `AuthStructure`; since the encoding of these is injective, the bytes that are signed,
MACed or used as additional data determine every part of the request.
-/

namespace WolfCose

open Program Cbor Settings

section Requests

variable [Settings]

/-- The structure that `wolfCose_BuildCounterStructure` encodes. -/
def counterStructure (target : CounterTarget) (signProtected extAad : Pointer)
    (abbreviated legacy : Bool) : AuthStructure :=
  .content (counterContext target.other.count abbreviated legacy).1 target.bodyProtected.bytes
    (if abbreviated = false then some signProtected.bytes else none)
    extAad.bytes target.payload.bytes
    (if legacy = false ∧ target.other.count ≠ 0 then
      some (target.other.count, target.other.data.bytes) else none)

omit [Settings] in
theorem isUtf8_counterContext (otherCount : Nat) (abbreviated legacy : Bool) :
  isUtf8 (counterContext otherCount abbreviated legacy).1 = true
  := by
  unfold counterContext
  repeat' split
  all_goals decide

omit [Settings] in
/-- The context and the number of fields fit the optional fields. -/
theorem counterContext_count (otherCount : Nat) (abbreviated legacy : Bool) :
  (counterContext otherCount abbreviated legacy).2
    = 4 + (if abbreviated = false then 1 else 0)
      + (if legacy = false ∧ otherCount ≠ 0 then 1 else 0)
  := by
  unfold counterContext
  cases abbreviated <;> cases legacy <;> by_cases h : otherCount = 0 <;> simp [h]

theorem emitsIf_encodeCounterStructure (target : CounterTarget) (signProtected extAad : Pointer)
    (abbreviated legacy : Bool) (hsign : abbreviated = false → signProtected.isNull = false) :
  EmitsIf (target.bodyProtected.Valid ∧ extAad.Valid ∧ target.payload.Valid
      ∧ (legacy = false ∧ target.other.count ≠ 0 → target.other.data.Valid))
    (encodeCounterStructure target signProtected extAad abbreviated legacy)
    (counterStructure target signProtected extAad abbreviated legacy).bytes
  := by
  refine (EmitsIf.bindEmits (emits_encodeHead _ _) <|
    EmitsIf.bindEmits (emits_encodeTstr_mem (isUtf8_counterContext _ _ _)) <|
    (emitsIf_encodeBstr _).bind <|
    EmitsIf.bindEmits (Emits.onlyIf fun h => emits_encodeBstr (hsign h)) <|
    (emitsIf_encodeBstr _).bind <| (emitsIf_encodeBstr _).bind <|
    EmitsIf.onlyIf (EmitsIf.bindEmits (emits_encodeHead _ _) (emitsIf_encodeBstr _))).congr
    Iff.rfl ?_
  rw [counterContext_count]
  unfold counterStructure AuthStructure.bytes
  by_cases ha : abbreviated = false <;> by_cases ho : legacy = false ∧ target.other.count ≠ 0 <;>
    simp [ha, ho, AuthStructure.tokens, AuthStructure.optionalString,
      AuthStructure.optionalFields]

theorem buildCounterStructure_eq_ok {target : CounterTarget} {signProtected extAad : Pointer}
    {abbreviated legacy : Bool} {scratch : Option Buffer} {bs : Bytes} :
  buildCounterStructure target signProtected extAad abbreviated legacy scratch = .ok bs
    ↔ (abbreviated = false → signProtected.isNull = false) ∧ target.bodyProtected.Valid
      ∧ extAad.Valid ∧ target.payload.Valid
      ∧ (legacy = false ∧ target.other.count ≠ 0 → target.other.data.Valid)
      ∧ (∃ buf, scratch = some buf ∧ bs.length ≤ buf.bytes.length)
      ∧ bs = (counterStructure target signProtected extAad abbreviated legacy).bytes
  := by
  unfold buildCounterStructure
  cases scratch with
  | none => simp
  | some buf =>
      by_cases hbad : (extAad.isNull = true ∧ extAad.len ≠ 0)
          ∨ (abbreviated = false ∧ signProtected.isNull = true)
      · simp only [if_pos hbad, reduceCtorEq, false_iff]
        rintro ⟨hs, -, ha, -⟩
        rcases hbad with ⟨hn, hl⟩ | ⟨hab, hn⟩
        · exact hl (ha hn)
        · exact absurd hn (by simp [hs hab])
      · have hsign : abbreviated = false → signProtected.isNull = false := by
          intro hab
          by_contra hn
          exact hbad (.inr ⟨hab, by simpa using hn⟩)
        simp only [if_neg hbad, Option.some.injEq, exists_eq_left',
          EmitsIf.encodeInto_iff (emitsIf_encodeCounterStructure _ _ _ _ _ hsign)
            (AuthStructure.bytes_ne_nil _)]
        constructor
        · rintro ⟨⟨hb, ha, hp, ho⟩, hl, rfl⟩
          exact ⟨hsign, hb, ha, hp, ho, hl, rfl⟩
        · rintro ⟨-, hb, ha, hp, ho, hl, rfl⟩
          exact ⟨⟨hb, ha, hp, ho⟩, hl, rfl⟩

/-! ### Requests -/

/-- A request to build the bytes that are signed, MACed or used as additional data. -/
inductive AuthRequest where
  | toBeSignedMaced (context bodyProtected signProtected extAad payload : Pointer)
  | encStructure (context bodyProtected extAad : Pointer)
  | counterStructure (target : CounterTarget) (signProtected extAad : Pointer)
      (abbreviated legacy : Bool)

namespace AuthRequest

/-- The builder of a request, run on a scratch buffer. -/
def build (scratch : Option Buffer) : AuthRequest → Except Err Bytes
  | toBeSignedMaced context bodyProtected signProtected extAad payload =>
      buildToBeSignedMaced context bodyProtected signProtected extAad payload scratch
  | encStructure context bodyProtected extAad =>
      buildEncStructure context bodyProtected extAad scratch
  | counterStructure target signProtected extAad abbreviated legacy =>
      buildCounterStructure target signProtected extAad abbreviated legacy scratch

/-- What a request asks to authenticate: the context, the protected bytes of the body and of
the signer, the external data, the payload and the other fields. -/
def content : AuthRequest → AuthStructure
  | toBeSignedMaced context bodyProtected signProtected extAad payload =>
      WolfCose.toBeSignedMaced context bodyProtected signProtected extAad payload
  | encStructure context bodyProtected extAad =>
      WolfCose.encStructure context bodyProtected extAad
  | counterStructure target signProtected extAad abbreviated legacy =>
      WolfCose.counterStructure target signProtected extAad abbreviated legacy

end AuthRequest

end Requests

section Instances

attribute [local instance] defaultSettings

end Instances

end WolfCose
