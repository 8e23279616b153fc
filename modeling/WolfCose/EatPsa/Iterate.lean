import WolfCose.EatPsa.Claims
import Mathlib.Data.List.Forall2

/-!
# Iterating over software components

`wc_CoseEatPsaToken_ForEachComponent` decodes the components of a token again, from the span that
the decoder of the claims has stored, and hands them to a callback one after the other.  The
callback has a state of its own and may stop the iteration with an error of its own.
-/

namespace WolfCose

open Program Cbor Settings EatPsaSettings

variable {ε σ : Type}

/-- The callback of an iteration. -/
abbrev EatPsaComponentCb (ε σ : Type) := EatPsaComponent → EStateM ε σ Unit

/-- An error of the iteration, or one of the callback. -/
abbrev EatPsaIterate (ε σ α : Type) := EStateM (Err ⊕ ε) σ α

/-- The callback in an iteration: its errors are returned unchanged. -/
def callComponentCb (cb : EatPsaComponentCb ε σ) (component : EatPsaComponent) : EatPsaIterate ε σ Unit :=
  EStateM.adaptExcept .inr (cb component)

variable [Settings] [EatPsaSettings]

/-- A decoding step in an iteration. -/
def decodeStep {α : Type} (p : Dec α) (ctx : DecCtx) : EatPsaIterate ε σ (α × DecCtx) :=
  match p ctx with
  | .ok a ctx' => return (a, ctx')
  | .error e _ => throw (.inl e)

/-- The loop of `wc_CoseEatPsaToken_ForEachComponent` -/
def eatPsaForEachLoop (cb : EatPsaComponentCb ε σ) : Nat → DecCtx → EatPsaIterate ε σ DecCtx
  | 0, ctx => return ctx
  | n + 1, ctx => do
      let (component, ctx) ← decodeStep eatPsaDecodeComponent ctx
      callComponentCb cb component
      eatPsaForEachLoop cb n ctx

/-- The steps of `wc_CoseEatPsaToken_ForEachComponent` on the span of the components. -/
def eatPsaForEachSpan (cb : EatPsaComponentCb ε σ) (span : Buffer) (componentCount : Nat) :
    EatPsaIterate ε σ Unit := do
  let (count, ctx) ← decodeStep (decodeArrayStartEx eatPsaDecodeFlags) (.init span)
  if count ≠ componentCount then
    throw (.inl .eatPsaClaim)
  let ctx ← eatPsaForEachLoop cb count ctx
  if ctx.idx ≠ ctx.bufSz then
    throw (.inl .eatPsaClaim)

/-- `wc_CoseEatPsaToken_ForEachComponent` -/
def eatPsaForEachComponent (token : Option EatPsaToken) (cb : Option (EatPsaComponentCb ε σ)) :
    EatPsaIterate ε σ Unit :=
  match token, cb with
  | some token, some cb =>
      if token.noSoftwareMeasurements ≠ 0 then
        return ()
      else
        match token.components with
        | .null _ => throw (.inl .invalidArg)
        | .mem span => eatPsaForEachSpan cb (.ofBytes span) token.componentCount
  | _, _ => throw (.inl .invalidArg)

/-! ### What is iterated over -/

omit [EatPsaSettings] in
theorem decodeStep_of_runs {α : Type} {p : Dec α} {ctx ctx' : DecCtx} {a : α} (h : Runs p ctx a ctx') :
  (decodeStep p ctx : EatPsaIterate ε σ (α × DecCtx)) = pure (a, ctx')
  := by
  unfold decodeStep
  rw [show p ctx = .ok a ctx' from h]

theorem EatPsaComponentEncoding.ne_nil {bs : Bytes} {component : EatPsaComponent}
    (h : EatPsaComponentEncoding bs component) :
  bs ≠ []
  := by
  obtain ⟨_, hitem⟩ := h.item
  apply hitem.ne_nil

/-- The loop hands out the components that are encoded one after the other. -/
theorem eatPsaForEachLoop_eq (cb : EatPsaComponentCb ε σ) {xs : List Bytes} {components : List EatPsaComponent}
    (h : List.Forall₂ EatPsaComponentEncoding xs components) {ctx ctx' : DecCtx}
    (hc : ctx.Consumes xs.flatten ctx') :
  eatPsaForEachLoop cb xs.length ctx = do
    components.forM (callComponentCb cb)
    return ctx'
  := by
  induction h generalizing ctx with
  | nil =>
      obtain rfl := ctx.consumes_nil.unique hc
      rfl
  | cons hx _ ih =>
      rw [List.flatten_cons] at hc
      obtain ⟨ctx₁, hc₁, hc₂⟩ := hc.split
      have hrun : Runs eatPsaDecodeComponent ctx _ ctx₁ := (reads_eatPsaDecodeComponent _ _ _).mpr ⟨_, hx, hc₁⟩
      rw [List.length_cons, eatPsaForEachLoop, decodeStep_of_runs hrun, pure_bind]
      simp only [ih hc₂, List.forM, bind_assoc]

/-- The head of an array of components is read, and its elements come next. -/
theorem runs_componentsStart {ctx ctx' : DecCtx} {head : Token} {xs : List Bytes} {components : List EatPsaComponent}
    (hc : ctx.Consumes (head.bytes ++ xs.flatten) ctx') (hhead : Accepted eatPsaDecodeFlags head)
    (hm : head.major = .array) (hv : head.val = xs.length) (h : List.Forall₂ EatPsaComponentEncoding xs components) :
  ∃ start, Runs (decodeArrayStartEx eatPsaDecodeFlags) ctx xs.length start ∧ start.Consumes xs.flatten ctx'
  := by
  obtain ⟨start, hc₁, hc₂⟩ := hc.split
  have hchildren : head.children = xs.length := by
    rw [Token.children, hm, ← hv]
  obtain ⟨hne, -⟩ := (List.forall₂_and_left _ _).mp (h.imp fun x component hx => ⟨hx.ne_nil, hx⟩)
  refine ⟨start, (runs_decodeArrayStartEx _ _ _ _).mpr ⟨decodeFlagsValid_eatPsa, head, hhead, hc₁, hm, hv, ?_⟩, hc₂⟩
  rw [hchildren, hc₂.length_rest_eq]
  exact (Bytes.length_le_flatten hne).trans (Nat.le_add_right _ _)

/-- Components with a list of encodings are the ones that are handed out, in order, as long as the
callback succeeds. -/
theorem eatPsaForEachSpan_eq (cb : EatPsaComponentCb ε σ) {span : Buffer} {head : Token} {xs : List Bytes}
    {components : List EatPsaComponent} (hbytes : span.bytes = head.bytes ++ xs.flatten)
    (hhead : Accepted eatPsaDecodeFlags head) (hm : head.major = .array) (hv : head.val = xs.length)
    (h : List.Forall₂ EatPsaComponentEncoding xs components) :
  eatPsaForEachSpan cb span xs.length = components.forM (callComponentCb cb)
  := by
  have hc : (DecCtx.init span).Consumes (head.bytes ++ xs.flatten)
      ((DecCtx.init span).advance (head.bytes ++ xs.flatten).length) := by
    apply DecCtx.consumes_of_rest (r := [])
    rw [DecCtx.rest_init, hbytes, List.append_nil]
  obtain ⟨start, harray, hc₂⟩ := runs_componentsStart hc hhead hm hv h
  rw [eatPsaForEachSpan, decodeStep_of_runs harray, pure_bind]
  simp only [ne_eq, not_true_eq_false, if_false, pure_bind, eatPsaForEachLoop_eq cb h hc₂, bind_assoc]
  have hend : ((DecCtx.init span).advance (head.bytes ++ xs.flatten).length).idx
      = ((DecCtx.init span).advance (head.bytes ++ xs.flatten).length).bufSz := by
    rw [DecCtx.idx_advance, DecCtx.bufSz_advance, ← hbytes]
    exact Nat.zero_add _
  simp only [hend, not_true_eq_false, if_false]
  exact bind_pure _

end WolfCose
