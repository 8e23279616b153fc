import WolfCose.Hdr.Skipped
import WolfCose.Hdr.DecodeSpec

/-!
# Decoding in a longer buffer

The decoders compare counts with the length of their buffer and with what is left of it.  A decoder
is portable if a successful run can be repeated in every buffer that is at least as long and has
the same bytes left.  The functions that walk over recipients are portable.
-/

namespace WolfCose

open Program Cbor Settings

variable [Settings] {α β : Type}

/-! ### Portable programs -/

/-- A context with the same bytes left, in a buffer that is at least as long. -/
structure DecCtx.Extends (ctx ctx₁ : DecCtx) : Prop where
  rest : ctx₁.rest = ctx.rest
  bufSz : ctx.bufSz ≤ ctx₁.bufSz

/-- A run of `p` in one context is repeated by `q` in the other, and both consume the same bytes. -/
def CarriesAt (p q : Dec α) (ctx ctx₁ : DecCtx) : Prop :=
  ∀ a ctx', Runs p ctx a ctx' →
    ∃ bs ctx₁', ctx.Consumes bs ctx' ∧ ctx₁.Consumes bs ctx₁' ∧ Runs q ctx₁ a ctx₁'

/-- A run is repeated in every longer buffer. -/
def Portable (p : Dec α) : Prop :=
  ∀ ctx ctx₁, ctx.Extends ctx₁ → CarriesAt p p ctx ctx₁

namespace DecCtx.Extends

variable {ctx ctx₁ ctx' ctx₁' : DecCtx} {bs : Bytes}

theorem consumes (h : ctx.Extends ctx₁) (hc : ctx.Consumes bs ctx') (hc₁ : ctx₁.Consumes bs ctx₁') :
  ctx'.Extends ctx₁'
  := by
  constructor
  · have he := h.rest
    rw [hc.rest_eq, hc₁.rest_eq] at he
    apply List.append_cancel_left he
  · rw [hc.bufSz_eq, hc₁.bufSz_eq]
    apply h.bufSz

theorem consumes_of (h : ctx.Extends ctx₁) (hc : ctx.Consumes bs ctx') :
  ∃ ctx₁', ctx₁.Consumes bs ctx₁'
  := by
  refine ⟨_, DecCtx.consumes_of_rest (r := ctx'.rest) ?_⟩
  rw [h.rest, hc.rest_eq]

theorem peekType (h : ctx.Extends ctx₁) :
  ctx₁.peekType = ctx.peekType
  := by
  rw [DecCtx.peekType, DecCtx.peekType, h.rest]

end DecCtx.Extends

namespace CarriesAt

variable {ctx ctx₁ : DecCtx} {p q : Dec α} {f g : α → Dec β}

theorem bind (he : ctx.Extends ctx₁) (hp : CarriesAt p q ctx ctx₁)
    (hf : ∀ a ctx' ctx₁', ctx'.Extends ctx₁' → CarriesAt (f a) (g a) ctx' ctx₁') :
  CarriesAt (p >>= f) (q >>= g) ctx ctx₁
  := by
  intro b ctx' h
  obtain ⟨a, c, hr, h⟩ := (runs_bind _ _ _ _ _).mp h
  obtain ⟨bs, c₁, hc, hc₁, hq⟩ := hp a c hr
  obtain ⟨bs', ctx₁', hc', hc₁', hg⟩ := hf a c c₁ (he.consumes hc hc₁) b ctx' h
  exact ⟨bs ++ bs', ctx₁', hc.trans hc', hc₁.trans hc₁', (runs_bind _ _ _ _ _).mpr ⟨a, c₁, hq, hg⟩⟩

theorem get {f g : DecCtx → Dec β} (h : CarriesAt (f ctx) (g ctx₁) ctx ctx₁) :
  CarriesAt (MonadState.get >>= f) (MonadState.get >>= g) ctx ctx₁
  := by
  intro b ctx' hr
  obtain ⟨_, _, hget, hr⟩ := (runs_bind _ _ _ _ _).mp hr
  obtain ⟨rfl, rfl⟩ := (runs_get _ _ _).mp hget
  obtain ⟨bs, ctx₁', hc, hc₁, hg⟩ := h b ctx' hr
  exact ⟨bs, ctx₁', hc, hc₁, (runs_bind _ _ _ _ _).mpr ⟨_, _, (runs_get _ _ _).mpr ⟨rfl, rfl⟩, hg⟩⟩

theorem pure (a : α) :
  CarriesAt (Pure.pure a) (Pure.pure a) ctx ctx₁
  := by
  intro b ctx' h
  obtain ⟨rfl, rfl⟩ := (runs_pure _ _ _ _).mp h
  exact ⟨[], ctx₁, ctx.consumes_nil, ctx₁.consumes_nil, (runs_pure _ _ _ _).mpr ⟨rfl, rfl⟩⟩

theorem throw (e : Err) :
  CarriesAt (MonadExcept.throw e : Dec α) q ctx ctx₁
  := fun _ _ h => absurd h (runs_throw _ _ _ _)

theorem failIf {bad bad₁ : Prop} [Decidable bad] [Decidable bad₁] {e : Err} (h : bad₁ → bad) :
  CarriesAt (failIf bad e) (Program.failIf bad₁ e) ctx ctx₁
  := by
  intro u ctx' hr
  obtain ⟨hb, rfl⟩ := (runs_failIf _ _ _ _ _).mp hr
  exact ⟨[], ctx₁, ctx.consumes_nil, ctx₁.consumes_nil, (runs_failIf _ _ _ _ _).mpr ⟨fun hb₁ => hb (h hb₁), rfl⟩⟩

theorem ite {c c₁ : Prop} [Decidable c] [Decidable c₁] {p' q' : Dec α} (hc : c₁ ↔ c)
    (hp : c → CarriesAt p q ctx ctx₁) (hq : ¬ c → CarriesAt p' q' ctx ctx₁) :
  CarriesAt (if c then p else p') (if c₁ then q else q') ctx ctx₁
  := by
  by_cases h : c
  · rw [if_pos h, if_pos (hc.mpr h)]
    apply hp h
  · rw [if_neg h, if_neg (fun h₁ => h (hc.mp h₁))]
    apply hq h

/-- The step over bytes that both contexts have left. -/
theorem advance (he : ctx.Extends ctx₁) {n : Nat} (hn : n ≤ ctx.rest.length) :
  CarriesAt (set (ctx.advance n)) (set (ctx₁.advance n)) ctx ctx₁
  := by
  intro u ctx' h
  obtain rfl := (runs_set _ _ _ _).mp h
  have hlen : (ctx.rest.take n).length = n := List.length_take_of_le hn
  refine ⟨ctx.rest.take n, ctx₁.advance n, ⟨List.take_prefix _ _, ?_⟩, ⟨?_, ?_⟩, (runs_set _ _ _ _).mpr rfl⟩
  · rw [hlen]
  · rw [he.rest]
    apply List.take_prefix
  · rw [hlen]

theorem repeatM {n : Nat} {f g : α → Dec α}
    (hf : ∀ a ctx' ctx₁', ctx'.Extends ctx₁' → CarriesAt (f a) (g a) ctx' ctx₁') (he : ctx.Extends ctx₁) (a : α) :
  CarriesAt (Program.repeatM n f a) (Program.repeatM n g a) ctx ctx₁
  := by
  induction n generalizing ctx ctx₁ a with
  | zero => apply pure
  | succ n ih =>
      apply bind he (hf a ctx ctx₁ he)
      intro b ctx' ctx₁' he'
      apply ih he'

end CarriesAt

/-- What is described by the bytes that are consumed is portable. -/
theorem Reads.portable {p : Dec α} {R : Bytes → α → Prop} (h : Reads p R) :
  Portable p
  := by
  intro ctx ctx₁ he a ctx' hr
  obtain ⟨bs, hR, hc⟩ := (h ctx a ctx').mp hr
  obtain ⟨ctx₁', hc₁⟩ := he.consumes_of hc
  exact ⟨bs, ctx₁', hc, hc₁, (h ctx₁ a ctx₁').mpr ⟨bs, hR, hc₁⟩⟩

/-- A portable program followed by portable programs. -/
theorem Portable.bind {p : Dec α} {f : α → Dec β} (hp : Portable p) (hf : ∀ a, Portable (f a)) :
  Portable (p >>= f)
  := fun ctx ctx₁ he => (hp ctx ctx₁ he).bind he fun a => hf a

theorem Portable.pure (a : α) :
  Portable (Pure.pure a)
  := fun _ _ _ => CarriesAt.pure a

theorem Portable.failIf {bad : Prop} [Decidable bad] {e : Err} :
  Portable (failIf bad e)
  := fun _ _ _ => CarriesAt.failIf id

theorem Portable.ite {c : Prop} [Decidable c] {p q : Dec α} (hp : Portable p) (hq : Portable q) :
  Portable (if c then p else q)
  := fun ctx ctx₁ he => CarriesAt.ite Iff.rfl (fun _ => hp ctx ctx₁ he) (fun _ => hq ctx ctx₁ he)

/-- A program on a part of the state of its own is portable. -/
theorem Portable.onLocal {τ : Type} (t : τ) (p : EStateM Err τ α) :
  Portable (onLocal t p)
  := by
  intro ctx ctx₁ he r ctx' h
  obtain ⟨hr, rfl⟩ := (runs_onLocal _ _ _ _ _).mp h
  exact ⟨[], ctx₁, ctx.consumes_nil, ctx₁.consumes_nil, (runs_onLocal _ _ _ _ _).mpr ⟨hr, rfl⟩⟩

/-! ### The decoders -/

theorem reads_decodeHead :
  Reads decodeHead (fun bs item => ∃ t, Accepted 0 t ∧ bs = t.bytes ∧ item = tokenItem t)
  := by
  intro ctx item ctx'
  rw [decodeHead, runs_decodeHeadEx]
  constructor
  · rintro ⟨-, t, ht, hc, rfl⟩
    exact ⟨_, ⟨t, ht, rfl, rfl⟩, hc⟩
  · rintro ⟨_, ⟨t, ht, rfl, rfl⟩, hc⟩
    exact ⟨decodeFlagsValid_zero, t, ht, hc, rfl⟩

theorem portable_skip :
  Portable skip
  := (reads_skipEx decodeFlagsValid_zero).portable

theorem portable_decodeBstr :
  Portable decodeBstr
  := (reads_decodeBstrEx decodeFlagsValid_zero).portable

theorem portable_itemInt (item : Item) :
  Portable (itemInt item)
  := by
  unfold itemInt
  split
  · apply Portable.bind Portable.failIf
    intro _
    apply Portable.pure
  · apply Portable.bind Portable.failIf
    intro _
    apply Portable.pure
  · intro ctx ctx₁ he
    apply CarriesAt.throw

theorem portable_decodeInt :
  Portable decodeInt
  := by
  apply Portable.bind reads_decodeHead.portable
  apply portable_itemInt

theorem portable_decodeLabel :
  Portable decodeLabel
  := by
  apply Portable.bind reads_decodeHead.portable
  intro item
  split
  · apply Portable.pure
  · apply Portable.bind (portable_itemInt item)
    intro v
    apply Portable.pure

/-- The head of a container is decoded wherever as many bytes are left. -/
theorem portable_decodeContainerStart {m : MajorType} (hm : m = .array ∨ m = .map) :
  Portable (decodeContainerStartEx m 0)
  := by
  intro ctx ctx₁ he n ctx' h
  obtain ⟨-, t, ht, hc, hmaj, hval, hroom⟩ := (runs_decodeContainerStartEx hm _ _ _ _).mp h
  obtain ⟨ctx₁', hc₁⟩ := he.consumes_of hc
  refine ⟨_, ctx₁', hc, hc₁, (runs_decodeContainerStartEx hm _ _ _ _).mpr ⟨decodeFlagsValid_zero, t, ht, hc₁, hmaj,
    hval, ?_⟩⟩
  rw [(he.consumes hc hc₁).rest]
  exact hroom

theorem portable_decodeArrayStart :
  Portable decodeArrayStart
  := portable_decodeContainerStart (.inl rfl)

theorem portable_decodeMapStart :
  Portable decodeMapStart
  := portable_decodeContainerStart (.inr rfl)

theorem portable_decodeSkippedHdrEntry (trackEk : Bool) (vars : SkippedAlg) :
  Portable (decodeSkippedHdrEntry trackEk vars)
  := by
  apply Portable.bind portable_decodeLabel
  intro label
  apply Portable.ite
  · apply Portable.bind Portable.failIf
    intro _ ctx ctx₁ he
    apply CarriesAt.get
    apply CarriesAt.ite
    · rw [he.peekType]
    · intro _
      apply Portable.bind portable_skip (fun _ => Portable.pure _) _ _ he
    · intro _
      apply Portable.bind portable_decodeInt (fun _ => Portable.bind Portable.failIf (fun _ => Portable.pure _)) _ _ he
  · apply Portable.ite
    · apply Portable.bind Portable.failIf
      intro _
      apply Portable.bind portable_skip
      intro _
      apply Portable.pure
    · apply Portable.bind portable_skip
      intro _
      apply Portable.pure

theorem portable_decodeSkippedHdrAlg (trackEk : Bool) (vars : SkippedAlg) :
  Portable (decodeSkippedHdrAlg trackEk vars)
  := by
  apply Portable.bind portable_decodeMapStart
  intro mapCount ctx ctx₁ he
  apply CarriesAt.get
  apply CarriesAt.bind he
  · apply CarriesAt.failIf
    intro h
    exact Nat.lt_of_le_of_lt he.bufSz h
  · intro _ ctx' ctx₁' he'
    apply CarriesAt.repeatM _ he'
    intro a
    apply portable_decodeSkippedHdrEntry

theorem portable_decodeSkippedRecipientValue (alg : Int) :
  Portable (decodeSkippedRecipientValue alg)
  := by
  apply Portable.ite
  · apply Portable.bind reads_decodeHead.portable
    intro item
    apply Portable.failIf
  · intro ctx ctx₁ he
    apply CarriesAt.get
    by_cases h : ctx.rest.head? = some cborNull
    · have hpos : 1 ≤ ctx.rest.length := by
        cases hr : ctx.rest with
        | nil =>
            rw [hr] at h
            cases h
        | cons b bs => exact Nat.succ_le_succ (Nat.zero_le _)
      rw [if_pos h, if_pos (by rw [he.rest]; exact h)]
      apply CarriesAt.advance he hpos
    · rw [if_neg h, if_neg (by rw [he.rest]; exact h)]
      apply Portable.bind portable_decodeBstr (fun _ => Portable.pure _) _ _ he

theorem portable_decodeSkippedHeaderEntrySignature (maxArrayCount : Nat) :
  Portable (decodeSkippedHeaderEntrySignature maxArrayCount)
  := by
  apply Portable.bind portable_decodeArrayStart
  intro count
  apply Portable.bind Portable.failIf
  intro _
  apply Portable.bind portable_decodeBstr
  intro _
  apply Portable.bind portable_skip
  intro _
  apply Portable.bind portable_decodeBstr
  intro _
  apply Portable.pure

theorem portable_decodeSkippedHeaderEntryRecipient (maxArrayCount : Nat) :
  Portable (decodeSkippedHeaderEntryRecipient maxArrayCount)
  := by
  apply Portable.bind portable_decodeArrayStart
  intro count
  apply Portable.bind Portable.failIf
  intro _
  apply Portable.bind portable_decodeBstr
  intro protectedData
  have unprotected (vars : SkippedAlg) : Portable (do
      let vars ← decodeSkippedHdrAlg true vars
      failIf (vars.alg = algDirect ∧ protectedData.length ≠ 0) .coseBadHdr
      decodeSkippedRecipientValue vars.alg
      return (count, vars)) := by
    apply Portable.bind (portable_decodeSkippedHdrAlg true vars)
    intro vars
    apply Portable.bind Portable.failIf
    intro _
    apply Portable.bind (portable_decodeSkippedRecipientValue vars.alg)
    intro _
    apply Portable.pure
  apply Portable.ite
  · apply Portable.bind _ unprotected
    apply Portable.bind (Portable.onLocal _ _)
    intro r
    apply Portable.bind Portable.failIf
    intro _
    apply Portable.pure
  · apply Portable.bind (Portable.pure _) unprotected

theorem portable_decodeSkippedSignature :
  Portable decodeSkippedSignature
  := Portable.bind (portable_decodeSkippedHeaderEntrySignature 3) fun _ => Portable.pure _

theorem portable_skippedRecipientStep (walk : RecipientWalk) :
  Portable (skippedRecipientStep walk)
  := by
  apply Portable.bind (portable_decodeSkippedHeaderEntryRecipient 4)
  intro r
  apply Portable.bind Portable.failIf
  intro _
  apply Portable.ite
  · apply Portable.bind portable_decodeArrayStart
    intro nestedCount ctx ctx₁ he
    apply CarriesAt.get
    apply CarriesAt.bind he
    · apply CarriesAt.failIf
      rintro (h | h)
      · exact .inl h
      · exact .inr (Nat.lt_of_le_of_lt he.bufSz h)
    · intro _
      apply Portable.bind Portable.failIf
      intro _
      apply Portable.pure
  · apply Portable.pure

/-- A walk that ends with some fuel is repeated with any larger fuel. -/
theorem carriesAt_skippedRecipientLoop {fuel fuel₁ : Nat} (hfuel : fuel ≤ fuel₁) (walk : RecipientWalk)
    {ctx ctx₁ : DecCtx} (he : ctx.Extends ctx₁) :
  CarriesAt (skippedRecipientLoop fuel walk) (skippedRecipientLoop fuel₁ walk) ctx ctx₁
  := by
  induction fuel generalizing fuel₁ walk ctx ctx₁ with
  | zero => apply CarriesAt.throw
  | succ fuel ih =>
      obtain ⟨fuel₁, rfl⟩ : ∃ n, fuel₁ = n + 1 := ⟨fuel₁ - 1, by omega⟩
      apply CarriesAt.ite Iff.rfl
      · intro _
        apply CarriesAt.pure
      · intro _
        apply CarriesAt.bind he (portable_skippedRecipientStep walk ctx ctx₁ he)
        intro next ctx' ctx₁' he'
        apply ih (by omega) _ he'

theorem portable_decodeSkippedRecipient :
  Portable decodeSkippedRecipient
  := by
  intro ctx ctx₁ he
  apply CarriesAt.get
  apply carriesAt_skippedRecipientLoop _ _ he
  exact Nat.succ_le_succ he.bufSz

end WolfCose
