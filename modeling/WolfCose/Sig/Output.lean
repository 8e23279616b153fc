import WolfCose.Sig.Sign
import WolfCose.Hdr.Emitted

/-!
# The arguments and results of a signing function

The signing functions take the same buffers and write their message in the same way.  A
signing function keeps what it spends if a signature of an HSS-LMS key, once made, is in the
message it returns.
-/

namespace WolfCose

open Program Cbor Settings WolfCrypt

section

variable [WolfCrypt] [Settings]

/-! ### Arguments -/

/-- The arguments that the signing functions share; a buffer is missing if the caller passed a
null pointer for it. -/
structure SignArgs where
  payload : Pointer
  detached : Pointer
  extAad : Pointer
  scratch : Option Buffer
  out : Option Buffer
  hasOutLen : Bool
  rng : Option Rng

namespace SignArgs

/-- Whether the payload is left out of the message. -/
def isDetached (args : SignArgs) : Bool := !args.detached.isNull

/-- The payload to be signed. -/
def sigPayload (args : SignArgs) : Pointer :=
  if args.isDetached = true then args.detached else args.payload

/-- The check of the lengths against the word size of wolfCrypt. -/
def lengthsFit (args : SignArgs) (scratch out : Buffer) : Prop :=
  lenFitsWord32 args.payload.len = true ∧ lenFitsWord32 args.detached.len = true
    ∧ lenFitsWord32 args.extAad.len = true ∧ lenFitsWord32 scratch.bytes.length = true
    ∧ lenFitsWord32 out.bytes.length = true

instance (args : SignArgs) (scratch out : Buffer) : Decidable (args.lengthsFit scratch out) :=
  inferInstanceAs (Decidable (_ ∧ _))

end SignArgs

/-! ### Encoding -/

/-- The step that encodes the payload. -/
def encodePayload (args : SignArgs) : Enc Unit :=
  if args.isDetached = true then encodeNull else encodeBstr args.payload

/-- The bytes of the payload in a message. -/
def payloadBytes (args : SignArgs) : Bytes :=
  if args.isDetached = true then [cborNull] else stringBytes .bstr args.payload.bytes

theorem emits_encodePayload {args : SignArgs} (h : args.sigPayload.isNull = false) :
  Emits (encodePayload args) (payloadBytes args)
  := by
  apply Emits.ite
  · intro _
    apply emits_encodeSimpleVal
  · intro hd
    apply emits_encodeBstr
    rwa [SignArgs.sigPayload, if_neg hd] at h

/-- An encoding program run at a context. -/
def encodeAt (p : Enc Unit) (ctx : EncCtx) : Checked EncCtx :=
  match p ctx with
  | .ok _ ctx' => .ok ctx'
  | .error e _ => .error (.err e)

omit [WolfCrypt] in
theorem encodeAt_eq_ok {p : Enc Unit} {bs : Bytes} (h : Emits p bs) {ctx ctx' : EncCtx} :
  encodeAt p ctx = .ok ctx' ↔ ctx.Writes bs ctx'
  := by
  rw [← h ctx ctx']
  unfold encodeAt Runs
  cases p ctx with
  | ok u ctx₁ => simp
  | error e ctx₁ => simp

omit [WolfCrypt] in
/-- An encoding program whose bytes fit writes them. -/
theorem encodeAt_of_fits {p : Enc Unit} {bs : Bytes} (h : Emits p bs) {ctx : EncCtx}
    (hfit : ctx.idx + bs.length ≤ ctx.bufSz) :
  encodeAt p ctx = .ok (ctx.put bs)
  := (encodeAt_eq_ok h).mpr ⟨fun _ => hfit, rfl⟩

omit [WolfCrypt] in
/-- A message that is encoded from the start of a buffer is what the steps emit. -/
theorem encodeAt_init {p : Enc Unit} {bs : Bytes} (h : Emits p bs) {out : Buffer} {ctx : EncCtx}
    (hctx : encodeAt p (.init out) = .ok ctx) :
  ctx.buf.bytes.take ctx.idx = bs ∧ bs.length ≤ out.bytes.length
  := by
  have hwrites := (encodeAt_eq_ok h).mp hctx
  have hmessage := hwrites.written_eq (Nat.zero_le _)
  have hle := hwrites.idx_le (Nat.zero_le _)
  have hempty : (EncCtx.init out).written = [] := List.take_zero
  rw [hempty, List.nil_append] at hmessage
  refine ⟨hmessage, ?_⟩
  rw [← hmessage, EncCtx.written, List.length_take]
  obtain ⟨-, rfl⟩ := hwrites
  have hsz : ((EncCtx.init out).put bs).buf.bytes.length = out.bytes.length := EncCtx.bufSz_put _ _
  omega

/-! ### Sizes -/

/-- The steps that add the size of an unprotected bucket with a kid, if there is one. -/
def sizeAddKid (total : Nat) (has : Bool) (kidLen : Nat) : Except Err Nat := do
  let total ← sizeAdd total 1
  if has = true then do
    let total ← sizeAdd total 1
    let itemLen ← cborStringSize kidLen
    sizeAdd total itemLen
  else return total

/-- The steps that add the size of a string. -/
def sizeAddString (total len : Nat) : Except Err Nat := do
  let itemLen ← cborStringSize len
  sizeAdd total itemLen

omit [WolfCrypt] in
theorem sizeAddString_eq_ok {total size : Nat} {m : MajorType} {data : Bytes}
    (h : sizeAddString total data.length = .ok size) :
  size = total + (stringBytes m data).length
  := by
  simp only [sizeAddString, bind_eq_ok, sizeAdd_eq_ok] at h
  obtain ⟨n, hn, -, rfl⟩ := h
  rw [cborStringSize_eq_ok hn]

omit [WolfCrypt] in
theorem sizeAddString_of_le {total len : Nat} (h : total + (cborHeadSize len + len) ≤ sizeMax) :
  sizeAddString total len = .ok (total + (cborHeadSize len + len))
  := by
  simp only [sizeAddString, cborStringSize, bind_eq_ok, sizeAdd_eq_ok]
  exact ⟨_, ⟨by omega, rfl⟩, by omega, rfl⟩

omit [WolfCrypt] in
theorem sizeAddKid_eq_ok {total size : Nat} {kid : Pointer}
    (h : sizeAddKid total (hasKid kid) kid.len = .ok size) :
  size = total + (kidBytes kid).length
  := by
  simp only [sizeAddKid, bind_eq_ok, sizeAdd_eq_ok] at h
  obtain ⟨_, ⟨-, rfl⟩, h⟩ := h
  unfold kidBytes
  by_cases hk : hasKid kid
  · have hvalid : kid.Valid := fun hn => absurd (hk.1.symm.trans hn) Bool.false_ne_true
    simp only [hk, decide_true, if_true, bind_eq_ok, sizeAdd_eq_ok] at h
    obtain ⟨_, ⟨-, rfl⟩, n, hn, -, rfl⟩ := h
    rw [hvalid.len_eq] at hn
    rw [if_pos hk, if_pos hk]
    have h₁ : cborHeadSize 1 = 1 := rfl
    have h₄ : cborHeadSize hdrKid.toNat = 1 := rfl
    simp only [List.length_append, length_preferredHead, h₁, h₄]
    rw [cborStringSize_eq_ok hn]
    omega
  · simp only [hk, decide_false, Bool.false_eq_true, if_false, pure_eq_ok] at h
    rw [if_neg hk, if_neg hk, List.append_nil, length_preferredHead, ← h]
    rfl

/-! ### Results -/

/-- What a signing function leaves behind: its return value, the output buffer, the length of
the message in it, and its calls. -/
structure SignOut where
  ret : Checked Unit
  out : Option Bytes
  outLen : Option Nat
  state : SignState

/-- The last steps of a signing function: the message is returned, or the output buffer is
cleared. -/
def signFinish (args : SignArgs) (p : Signing EncCtx) (env : Env) : SignOut :=
  match p ⟨env, []⟩ with
  | .ok ctx s => ⟨.ok (), some ctx.buf.bytes, some ctx.idx, s⟩
  | .error fault s => ⟨.error fault, args.out.map fun buf => List.replicate buf.bytes.length 0,
      if args.hasOutLen = true then some 0 else none, s⟩

/-- A signing function that succeeds returns what its steps have written. -/
theorem signFinish_ok {args : SignArgs} {p : Signing EncCtx} {env : Env}
    (h : (signFinish args p env).ret = .ok ()) :
  ∃ ctx s, Runs p ⟨env, []⟩ ctx s ∧ signFinish args p env = ⟨.ok (), some ctx.buf.bytes, some ctx.idx, s⟩
  := by
  unfold signFinish at h ⊢
  unfold Runs
  cases hp : p ⟨env, []⟩ with
  | ok ctx s => exact ⟨ctx, s, rfl, rfl⟩
  | error fault s =>
      rw [hp] at h
      cases h

/-- A signing function that does not succeed leaves nothing of its message behind. -/
structure SignOut.Cleared (r : SignOut) (args : SignArgs) : Prop where
  out : r.out = args.out.map fun buf => List.replicate buf.bytes.length 0
  outLen : r.outLen = if args.hasOutLen = true then some 0 else none

theorem signFinish_cleared {args : SignArgs} {p : Signing EncCtx} {env : Env}
    (h : (signFinish args p env).ret ≠ .ok ()) :
  (signFinish args p env).Cleared args
  := by
  unfold signFinish at h ⊢
  cases hp : p ⟨env, []⟩ with
  | ok ctx s =>
      rw [hp] at h
      exact absurd rfl h
  | error fault s => exact ⟨rfl, rfl⟩

/-- Every signature of an HSS-LMS key that was made with the expected length is the last item
of the message that is returned. -/
def SignOut.KeepsSpent (r : SignOut) : Prop :=
  ∀ inv ∈ r.state.invocations, ∀ sig, inv.Spends sig →
    r.ret = .ok () ∧ ∃ out outLen fields, r.out = some out ∧ r.outLen = some outLen
      ∧ out.take outLen = fields ++ stringBytes .bstr sig

/-- The message at a context ends with every signature that was spent. -/
def EndsWithSpent (ctx : EncCtx) (s : SignState) : Prop :=
  ∀ inv ∈ s.invocations, ∀ sig, inv.Spends sig → ∃ fields, ctx.written = fields ++ stringBytes .bstr sig

theorem signFinish_keepsSpent {args : SignArgs} {p : Signing EncCtx} {env : Env}
    (h : Ends p ⟨env, []⟩ EndsWithSpent (fun _ s => Unspent s)) :
  (signFinish args p env).KeepsSpent
  := by
  unfold Ends at h
  intro inv hinv sig hsp
  unfold signFinish at hinv ⊢
  cases hp : p ⟨env, []⟩ with
  | ok ctx s =>
      rw [hp] at h hinv
      obtain ⟨fields, hf⟩ := h inv hinv sig hsp
      exact ⟨rfl, _, _, fields, rfl, rfl, hf⟩
  | error fault s =>
      rw [hp] at h hinv
      exact absurd hsp (h inv hinv sig)

omit [Settings] in
theorem unspent_nil (env : Env) :
  Unspent ⟨env, []⟩
  := fun _ h => absurd h List.not_mem_nil

end

end WolfCose
