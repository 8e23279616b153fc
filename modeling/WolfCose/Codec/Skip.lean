import WolfCose.Codec.DecodeSpec
import WolfCose.Codec.Utf8
import WolfCose.Lib.Outcome

/-!
# Skipping one item

`wolfCose_CBOR_Skip_ex` walks over a data item with a stack of the numbers of items that remain on
each open level.  In strict mode it succeeds exactly on complete data items with preferred heads
nested at most `WOLFCOSE_CBOR_MAX_DEPTH` deep, ends on every input, and never uses a slot of the
stack at or above this depth.
-/

namespace WolfCose

open Program Cbor Settings

/-! ### The grammar -/

/-- The tokens of strict decoding: the argument of a head has the shortest width, but for the
floating-point numbers, where the width is a part of the value; a simple value in a byte of its own
is at least 32; and a text string is valid UTF-8. -/
structure StrictToken (t : Token) : Prop where
  wellFormed : t.WellFormed
  preferred : t.major ≠ .simple → t.width = Width.preferred t.val
  simple : t.major = .simple → t.width = .one → 32 ≤ t.val
  text : t.major = .tstr → Utf8 t.data

variable [Settings]

theorem accepted_zero_iff {t : Token} :
  Accepted 0 t ↔ StrictToken t
  := by
  constructor
  · intro h
    exact ⟨h.wellFormed, h.preferred allowsNonpreferred_zero, h.simple, fun hm => isUtf8_iff.mp (h.utf8 hm)⟩
  · intro h
    exact ⟨h.wellFormed, h.simple, fun _ => h.preferred, fun hm => isUtf8_iff.mpr (h.text hm)⟩

/-- A complete data item of strict decoding, nested at most `WOLFCOSE_CBOR_MAX_DEPTH` deep. -/
def StrictItem (bs : Bytes) : Prop := Items StrictToken maxDepth 1 bs

theorem strictItem_iff {bs : Bytes} :
  StrictItem bs ↔ Items (Accepted 0) maxDepth 1 bs
  := by
  constructor
  · intro h
    exact h.imp fun _ => accepted_zero_iff.mpr
  · intro h
    exact h.imp fun _ => accepted_zero_iff.mp

/-! ### The cursor -/

/-- The cursor of a decoder stays where it is or moves forward inside the buffer. -/
def DecCtx.Onward (ctx ctx' : DecCtx) : Prop :=
  ctx'.cbuf = ctx.cbuf ∧ ctx.idx ≤ ctx'.idx ∧ (ctx.idx ≤ ctx.bufSz → ctx'.idx ≤ ctx.bufSz)

namespace DecCtx.Onward

variable {ctx ctx₁ ctx₂ : DecCtx}

theorem refl (ctx : DecCtx) :
  ctx.Onward ctx
  := ⟨rfl, Nat.le_refl _, id⟩

theorem trans (h₁ : ctx.Onward ctx₁) (h₂ : ctx₁.Onward ctx₂) :
  ctx.Onward ctx₂
  := by
  obtain ⟨e₁, l₁, b₁⟩ := h₁
  obtain ⟨e₂, l₂, b₂⟩ := h₂
  have hsz : ctx₁.bufSz = ctx.bufSz := by rw [bufSz, e₁, bufSz]
  rw [hsz] at b₂
  exact ⟨e₂.trans e₁, Nat.le_trans l₁ l₂, fun h => b₂ (b₁ h)⟩

/-- The cursor moves forward over bytes that are there. -/
theorem advance {n : Nat} (h : ctx.idx ≤ ctx.bufSz → ctx.idx + n ≤ ctx.bufSz) :
  ctx.Onward (ctx.advance n)
  := ⟨rfl, Nat.le_add_right _ _, h⟩

end DecCtx.Onward

/-- Whether it succeeds or fails, a decoder moves the cursor forward inside the buffer. -/
def Forward {α : Type} (p : Dec α) : Prop :=
  ∀ ctx, Ends p ctx (fun _ ctx' => ctx.Onward ctx') (fun _ ctx' => ctx.Onward ctx')

namespace Forward

variable {α β : Type} {p : Dec α} {f : α → Dec β}

/-- What moves forward does so after a first part that did. -/
theorem after {ctx ctx₁ : DecCtx} (h : ctx.Onward ctx₁) (hp : Forward p) :
  Ends p ctx₁ (fun _ ctx' => ctx.Onward ctx') (fun _ ctx' => ctx.Onward ctx')
  := by
  apply (hp ctx₁).mono
  · exact fun _ _ h₂ => h.trans h₂
  · exact fun _ _ h₂ => h.trans h₂

theorem bind (hp : Forward p) (hf : ∀ a, Forward (f a)) :
  Forward (p >>= f)
  := by
  intro ctx
  apply (hp ctx).bind
  intro a ctx₁ h₁
  apply after h₁ (hf a)

theorem pure {a : α} :
  Forward (Pure.pure a)
  := fun ctx => DecCtx.Onward.refl ctx

theorem throw {e : Err} :
  Forward (MonadExcept.throw e : Dec α)
  := fun ctx => DecCtx.Onward.refl ctx

theorem failIf {bad : Prop} [Decidable bad] {e : Err} :
  Forward (failIf bad e)
  := by
  intro ctx
  apply Ends.failIf
  · exact fun _ => .refl ctx
  · exact fun _ => .refl ctx

theorem get :
  Forward MonadState.get
  := fun ctx => DecCtx.Onward.refl ctx

theorem decodeArgument (n : Nat) :
  Forward (decodeArgument n)
  := by
  intro ctx
  apply Ends.bindGet
  apply Ends.bindFailIf
  · exact fun _ => .refl ctx
  · intro h
    apply Ends.bindSet
    apply after _ pure
    apply DecCtx.Onward.advance
    omega

theorem decodeValue (ai : Nat) :
  Forward (decodeValue ai)
  := by
  unfold WolfCose.decodeValue
  repeat' split
  · exact pure
  · exact decodeArgument 1
  · exact decodeArgument 2
  · exact decodeArgument 4
  · exact decodeArgument 8
  · exact throw
  · exact throw

theorem decodeHeadEx (flags : UInt32) :
  Forward (decodeHeadEx flags)
  := by
  intro ctx
  apply Ends.bindFailIf
  · exact fun _ => .refl ctx
  intro _
  apply Ends.bindGet
  split
  · exact .refl ctx
  · rename_i ib r hr
    have hl := ctx.length_rest
    rw [hr, List.length_cons] at hl
    apply Ends.bindSet
    apply after (DecCtx.Onward.advance (n := 1) (by omega))
    apply bind (decodeValue _)
    intro val
    apply bind failIf
    intro _
    apply bind failIf
    intro _
    split
    · intro ctx₁
      apply Ends.bindGet
      apply Ends.bindFailIf
      · exact fun _ => .refl ctx₁
      · intro h
        apply Ends.bindSet
        apply after (DecCtx.Onward.advance (by omega))
        apply bind failIf
        exact fun _ => pure
    · exact pure

theorem skipStep (item : Item) (remaining : Nat) (stack : List Nat) :
  Forward (skipStep item remaining stack)
  := by
  apply bind get
  intro ctx
  split
  · split
    · apply bind failIf
      intro _
      apply bind failIf
      exact fun _ => pure
    · exact pure
  · split
    · apply bind failIf
      intro _
      apply bind failIf
      intro _
      apply bind failIf
      exact fun _ => pure
    · exact pure
  · exact pure
  · exact pure

theorem skipLoop (flags : UInt32) (fuel remaining : Nat) (stack : List Nat) :
  Forward (skipLoop flags fuel remaining stack)
  := by
  induction fuel generalizing remaining stack with
  | zero =>
      cases remaining with
      | zero => exact pure
      | succ n => exact throw
  | succ fuel ih =>
      cases remaining with
      | zero => exact pure
      | succ n =>
          apply bind (decodeHeadEx flags)
          intro item
          apply bind (skipStep item (n + 1) stack)
          exact fun next => ih _ _

theorem skipEx (flags : UInt32) :
  Forward (skipEx flags)
  := by
  apply bind get
  exact fun ctx => skipLoop flags _ 1 []

end Forward

/-! ### The turns of the loops -/

/-- The local variables of `wolfCose_CBOR_Skip_ex` and its context.  The used slots of the array
`stack` are a list, the last one first, so its length is `depth`. -/
structure Skipping [Settings] where
  remaining : Nat
  stack : List Nat
  ctx : DecCtx

/-- A turn of one of the loops of `wolfCose_CBOR_Skip_ex`: the outer one reads a head, and the
inner one closes a level on which nothing remains. -/
inductive SkipTurn (flags : UInt32) : Skipping → Skipping → Prop where
  | read {n : Nat} {s : List Nat} {ctx ctx₁ ctx₂ : DecCtx} {item : Item} {next : Nat × List Nat} :
      Runs (decodeHeadEx flags) ctx item ctx₁ → Runs (skipStep item (n + 1) s) ctx₁ next ctx₂ →
      SkipTurn flags ⟨n + 1, s, ctx⟩ ⟨next.1, next.2, ctx₂⟩
  | close {r : Nat} {s : List Nat} {ctx : DecCtx} :
      SkipTurn flags ⟨0, r :: s, ctx⟩ ⟨r, s, ctx⟩

/-- The array has a slot for every open level, and no counter of items overflows. -/
structure Skipping.Fits (c : Skipping) : Prop where
  depth : c.stack.length ≤ maxDepth
  remaining : c.remaining ≤ sizeMax
  stack : ∀ r ∈ c.stack, r ≤ sizeMax

namespace SkipTurn

variable {flags : UInt32} {c c' : Skipping} {n : Nat} {s : List Nat} {ctx ctx' : DecCtx}

/-- A head that is read shortens what is left of the buffer. -/
theorem rest_lt {item : Item} {next : Nat × List Nat} {ctx₁ ctx₂ : DecCtx}
    (hread : Runs (decodeHeadEx flags) ctx item ctx₁)
    (hstep : Runs (skipStep item (n + 1) s) ctx₁ next ctx₂) :
  ctx₂.rest.length < ctx.rest.length
  := by
  obtain ⟨-, t, -, hc, rfl⟩ := (runs_decodeHeadEx ..).mp hread
  obtain ⟨rfl, -⟩ := (runs_skipStep ..).mp hstep
  have h₁ := hc.length_rest_eq
  have h₂ := t.one_le_length_bytes
  omega

/-- The loops end on every input. -/
theorem wellFounded (flags : UInt32) :
  WellFounded fun c' c => SkipTurn flags c c'
  := by
  apply Subrelation.wf _ (InvImage.wf (fun c : Skipping => (c.ctx.rest.length, c.stack.length))
    (WellFounded.prod_lex Nat.lt_wfRel.wf Nat.lt_wfRel.wf))
  intro c' c h
  cases h with
  | read hread hstep =>
      apply Prod.Lex.left
      exact rest_lt hread hstep
  | close =>
      apply Prod.Lex.right
      exact Nat.lt_succ_self _

/-- A turn uses a slot of the array for the levels that are open after it only. -/
theorem fits (h : SkipTurn flags c c') (hc : c.Fits) :
  c'.Fits
  := by
  cases h with
  | @read n s ctx ctx₁ ctx₂ item next hread hstep =>
      obtain ⟨-, t, -, -, rfl⟩ := (runs_decodeHeadEx ..).mp hread
      obtain ⟨rfl, hcase⟩ := (runs_skipStep ..).mp hstep
      have hn : n + 1 ≤ sizeMax := hc.remaining
      rcases hcase with ⟨-, rfl⟩ | ⟨-, -, rfl⟩ | ⟨-, hd, hv, hm, rfl⟩
      · exact ⟨hc.depth, hn, hc.stack⟩
      · exact ⟨hc.depth, Nat.le_of_succ_le hn, hc.stack⟩
      · have hmax := ctx₂.bufSz_le
        have hchildren : t.children ≤ sizeMax := by
          unfold Token.children
          split
          · omega
          · rename_i hmap
            have := hm hmap
            omega
          · omega
        refine ⟨hd, hchildren, ?_⟩
        exact List.forall_mem_cons.mpr ⟨Nat.le_of_succ_le hn, hc.stack⟩
  | close =>
      obtain ⟨hr, hs⟩ := List.forall_mem_cons.mp hc.stack
      exact ⟨Nat.le_of_succ_le hc.depth, hr, hs⟩

theorem fits_of_reaches (h : Relation.ReflTransGen (SkipTurn flags) ⟨1, [], ctx⟩ c) :
  c.Fits
  := by
  induction h with
  | refl =>
      have hmax := lt_sizeMax
      refine ⟨Nat.zero_le _, ?_, ?_⟩
      · dsimp only
        omega
      · simp
  | tail _ hturn ih => exact hturn.fits ih

/-! ### The turns and the skipping function -/

/-- The inner loop runs to its end. -/
theorem reaches_unwind (flags : UInt32) (n : Nat) (s : List Nat) (ctx : DecCtx) :
  Relation.ReflTransGen (SkipTurn flags) ⟨n, s, ctx⟩ ⟨(unwind n s).1, (unwind n s).2, ctx⟩
  := by
  induction s generalizing n with
  | nil => cases n <;> exact .refl
  | cons r s ih =>
      cases n with
      | zero => exact .head .close (ih r)
      | succ n => exact .refl

theorem reaches_of_runs {fuel : Nat} (hs : n = 0 → s = [])
    (h : Runs (skipLoop flags fuel n s) ctx () ctx') :
  Relation.ReflTransGen (SkipTurn flags) ⟨n, s, ctx⟩ ⟨0, [], ctx'⟩
  := by
  induction fuel generalizing n s ctx with
  | zero =>
      cases n with
      | zero =>
          obtain rfl := hs rfl
          obtain ⟨-, rfl⟩ := (runs_pure ..).mp h
          exact .refl
      | succ n => exact (runs_throw _ _ _ _ h).elim
  | succ fuel ih =>
      cases n with
      | zero =>
          obtain rfl := hs rfl
          obtain ⟨-, rfl⟩ := (runs_pure ..).mp h
          exact .refl
      | succ n =>
          simp only [skipLoop, runs_bind] at h
          obtain ⟨item, ctx₁, hread, next, ctx₂, hstep, hloop⟩ := h
          apply Relation.ReflTransGen.head (.read hread hstep)
          apply (reaches_unwind flags next.1 next.2 ctx₂).trans
          apply ih unwind_eq_nil hloop

theorem runs_of_reaches (h : Relation.ReflTransGen (SkipTurn flags) ⟨n, s, ctx⟩ ⟨0, [], ctx'⟩)
    {fuel : Nat} (hfuel : ctx.rest.length < fuel) :
  Runs (skipLoop flags fuel (unwind n s).1 (unwind n s).2) ctx () ctx'
  := by
  generalize hc : (⟨n, s, ctx⟩ : Skipping) = c at h
  induction h using Relation.ReflTransGen.head_induction_on generalizing n s ctx fuel with
  | refl =>
      cases hc
      cases fuel <;> exact (runs_pure ..).mpr ⟨rfl, rfl⟩
  | head hturn _ ih =>
      cases hturn with
      | read hread hstep =>
          cases hc
          obtain ⟨fuel, rfl⟩ : ∃ k, fuel = k + 1 := ⟨fuel - 1, by omega⟩
          simp only [unwind, skipLoop, runs_bind]
          have hlt := rest_lt hread hstep
          exact ⟨_, _, hread, _, _, hstep, ih (by omega) rfl⟩
      | close =>
          cases hc
          apply ih hfuel rfl

end SkipTurn

/-- The number of turns that the loop is given does not matter when it is larger than the number
of bytes left. -/
theorem skipLoop_congr {flags : UInt32} {fuel fuel' n : Nat} {s : List Nat} {ctx : DecCtx}
    (h : ctx.rest.length < fuel) (h' : ctx.rest.length < fuel') :
  skipLoop flags fuel n s ctx = skipLoop flags fuel' n s ctx
  := by
  induction fuel generalizing fuel' n s ctx with
  | zero => omega
  | succ fuel ih =>
      obtain ⟨fuel', rfl⟩ : ∃ k, fuel' = k + 1 := ⟨fuel' - 1, by omega⟩
      cases n with
      | zero => rfl
      | succ n =>
          simp only [skipLoop, bind, EStateM.bind]
          cases hread : decodeHeadEx flags ctx with
          | error e ctx₁ => rfl
          | ok item ctx₁ =>
              dsimp only
              cases hstep : skipStep item (n + 1) s ctx₁ with
              | error e ctx₂ => rfl
              | ok next ctx₂ =>
                  have hlt := SkipTurn.rest_lt hread hstep
                  apply ih
                  · omega
                  · omega

/-! ### Skipping accepts exactly one item -/

/-- Skipping succeeds exactly when the bytes at the cursor begin with one complete data item, at
the end of which it leaves the cursor, whatever the bytes after it are.  On every input it ends,
with the cursor inside the buffer, and within the array of open levels. -/
theorem skip_accepts_one_item (ctx : DecCtx) :
  (Succeeds skip ctx ↔ ∃ bs, StrictItem bs ∧ bs <+: ctx.rest)
    ∧ (∀ ctx', Runs skip ctx () ctx' ↔ ∃ bs, StrictItem bs ∧ ctx.Consumes bs ctx')
    ∧ (∀ ctx' ctx₁ : DecCtx, Runs skip ctx () ctx' →
        ctx.rest.take (ctx'.idx - ctx.idx) <+: ctx₁.rest →
        Runs skip ctx₁ () (ctx₁.advance (ctx'.idx - ctx.idx)))
    ∧ Ends skip ctx (fun _ ctx' => ctx.Onward ctx' ∧ ctx'.idx ≤ ctx.bufSz)
        (fun _ ctx' => ctx.Onward ctx')
    ∧ (∀ fuel, ctx.bufSz < fuel → skipLoop 0 fuel 1 [] ctx = skip ctx)
    ∧ (WellFounded fun c' c => SkipTurn 0 c c')
    ∧ (∀ ctx', Runs skip ctx () ctx' ↔
        Relation.ReflTransGen (SkipTurn 0) ⟨1, [], ctx⟩ ⟨0, [], ctx'⟩)
    ∧ ∀ c, Relation.ReflTransGen (SkipTurn 0) ⟨1, [], ctx⟩ c → c.Fits
  := by
  have hrest := ctx.length_rest_le
  have hruns : ∀ ctx ctx', Runs skip ctx () ctx' ↔ ∃ bs, StrictItem bs ∧ ctx.Consumes bs ctx' := by
    intro ctx ctx'
    simp only [strictItem_iff]
    exact runs_skipEx decodeFlagsValid_zero ctx ctx'
  have hfuel : ∀ fuel, ctx.bufSz < fuel → skipLoop 0 fuel 1 [] ctx = skip ctx := by
    intro fuel hfuel
    have h : skip ctx = skipLoop 0 (ctx.bufSz + 1) 1 [] ctx := rfl
    rw [h]
    apply skipLoop_congr
    · omega
    · omega
  refine ⟨?_, hruns ctx, ?_, ?_, hfuel, SkipTurn.wellFounded 0, ?_, fun c => SkipTurn.fits_of_reaches⟩
  · constructor
    · rintro ⟨_, ctx', h⟩
      obtain ⟨bs, hb, hc⟩ := (hruns ctx ctx').mp h
      exact ⟨bs, hb, hc.1⟩
    · rintro ⟨bs, hb, hp⟩
      exact ⟨(), ctx.advance bs.length, (hruns _ _).mpr ⟨bs, hb, hp, rfl⟩⟩
  · intro ctx' ctx₁ h hp
    obtain ⟨bs, hb, hc⟩ := (hruns ctx ctx').mp h
    have hlen : ctx'.idx - ctx.idx = bs.length := by
      have := hc.idx_eq
      omega
    rw [hlen, hc.rest_eq, List.take_left] at hp
    rw [hlen]
    exact (hruns _ _).mpr ⟨bs, hb, hp, rfl⟩
  · have hforward := Forward.skipEx 0 ctx
    unfold Ends at hforward ⊢
    cases h : skip ctx with
    | error e ctx' =>
        have h' : skipEx 0 ctx = .error e ctx' := h
        rw [h'] at hforward
        exact hforward
    | ok a ctx' =>
        have h' : skipEx 0 ctx = .ok a ctx' := h
        rw [h'] at hforward
        refine ⟨hforward, hforward.2.2 ?_⟩
        obtain ⟨bs, hb, hc⟩ := (hruns ctx ctx').mp h
        have h₁ := hb.le_length
        have h₂ := hc.length_rest_eq
        have h₃ := ctx.length_rest
        omega
  · intro ctx'
    rw [Runs, ← hfuel (ctx.bufSz + 1) (Nat.lt_succ_self _)]
    constructor
    · apply SkipTurn.reaches_of_runs
      simp
    · intro h
      exact SkipTurn.runs_of_reaches h (by omega)

end WolfCose
