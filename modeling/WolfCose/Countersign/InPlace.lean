import WolfCose.Countersign.Add
import WolfCose.Sign1.Verify

/-!
# Adding a countersignature in place

`wc_Cose_AddCounterSignature` and `wc_Cose_AddCounterSignature0` change the output buffer only if
they succeed.  Then its first bytes are the message, which is the same wherever it is put, also
over the message that is countersigned.
-/

namespace WolfCose

open Program Cbor Settings WolfCrypt

section

variable [WolfCrypt] [Settings]

/-! ### Where the output goes -/

omit [WolfCrypt] in
/-- The room in the output buffer matters only where it is too small. -/
theorem planAttachCounter_room {target : CounterTarget} {input : Bytes} {protectedLen kidLen sigLen : Nat}
    {abbreviated : Bool} {outSz outSz' : Nat} {plan : AttachPlan}
    (h : planAttachCounter target input protectedLen kidLen sigLen abbreviated outSz = .ok plan)
    (hle : plan.finalLen ≤ outSz') :
  planAttachCounter target input protectedLen kidLen sigLen abbreviated outSz' = .ok plan
  := by
  simp only [planAttachCounter, bind_eq_ok] at h ⊢
  obtain ⟨⟨counterLen, replacement⟩, hvalue, h⟩ := h
  refine ⟨_, hvalue, ?_⟩
  cases replacement with
  | some r =>
      simp only [bind_eq_ok, rejectIf_eq_ok, pure_eq_ok] at h ⊢
      obtain ⟨finalLen, hfinal, _, -, rfl⟩ := h
      exact ⟨finalLen, hfinal, (), Nat.not_lt.mpr hle, rfl⟩
  | none =>
      simp only [bind_eq_ok, rejectIf_eq_ok, pure_eq_ok] at h ⊢
      obtain ⟨_, hcount, d, hd, delta, hdelta, finalLen, hfinal, _, -, rfl⟩ := h
      exact ⟨(), hcount, d, hd, delta, hdelta, finalLen, hfinal, (), Nat.not_lt.mpr hle, rfl⟩

/-- The arguments with another output buffer. -/
def AddArgs.withOut (args : AddArgs) (out : Place) : AddArgs := { args with out }

/-- Preparing does not depend on the output buffer if it has room for the message. -/
theorem addPrepare_withOut {m : Memory} {key : Key} {request : CounterRequest} {args : AddArgs}
    {prepared : Prepared} {out : Place} (h : addPrepare m key request args = .ok prepared)
    (hle : prepared.plan.finalLen ≤ out.len) :
  addPrepare m key request (args.withOut out) = .ok prepared
  := by
  simp only [addPrepare, bind_eq_ok, lift_eq_ok, pure_eq_ok] at h ⊢
  obtain ⟨target, htarget, sigLen, hsigLen, _, hroom, protectedHdr, hprot, tbs, htbs, plan, hplan, rfl⟩ := h
  exact ⟨target, htarget, sigLen, hsigLen, (), hroom, protectedHdr, hprot, tbs, htbs, plan,
    planAttachCounter_room hplan hle, rfl⟩

/-- A call with another output buffer that has room gives the same message. -/
theorem Added.withOut {m : Memory} {request : CounterRequest} {args : AddArgs} {env : Env} {key : Key}
    {prepared : Prepared} {sig : Bytes} {p : CounterParts} {es : List Entry} {out : Place}
    (h : Added m request args env (addCounterCommon m request args env) key prepared sig p es)
    (hcheck : addCheck request (args.withOut out) = .ok ()) (hle : prepared.plan.finalLen ≤ out.len) :
  addCounterCommon m request (args.withOut out) env
    = ⟨.ok (), some prepared.plan.finalLen,
        zeroScratch (m.write out.range.start (p.withEntries es).bytes) request (args.withOut out),
        (addCounterCommon m request args env).state⟩
  := by
  obtain ⟨key', hlayout⟩ := addCheck_ok (m := m) hcheck
  obtain rfl : key = key' := Option.some.inj (h.layout.key.symm.trans hlayout.key)
  have hruns : Runs (addSign m request (args.withOut out)) ⟨env, []⟩ (prepared, sig)
      (addCounterCommon m request args env).state := by
    rw [runs_addSign]
    exact ⟨hcheck, key, hlayout.key, addPrepare_withOut h.prepare hle, h.sign, h.length⟩
  apply addCounterCommon_of_runs hlayout hruns h.attaches.2 h.attachesAs

/-! ### All or nothing -/

/-- A call of one of the two functions. -/
inductive AddCall where
  | counterSignature (signer : Option Countersigner)
  | counterSignature0 (signer : Option Countersigner0)

namespace AddCall

/-- What a call returns and does. -/
def run (call : AddCall) (m : Memory) (args : AddArgs) (env : Env) : AddOut :=
  match call with
  | .counterSignature signer => addCounterSignature m signer args env
  | .counterSignature0 signer => addCounterSignature0 m signer args env

/-- What a call requests. -/
def request : AddCall → Option CounterRequest
  | .counterSignature signer => signer.map Countersigner.request
  | .counterSignature0 signer => signer.map Countersigner0.request

theorem run_eq (call : AddCall) (m : Memory) (args : AddArgs) (env : Env) :
  call.run m args env = addCounter m call.request args env
  := by
  cases call with
  | counterSignature signer => rfl
  | counterSignature0 signer => rfl

end AddCall

/-- A call that fails changes neither the message nor the output buffer.  Once everything is
prepared, a signature of the expected length is attached with accesses to the planned message only;
and the message is the same wherever it is put. -/
theorem addCounterSignature_atomic (call : AddCall) (m : Memory) (args : AddArgs) (env : Env) :
  (∀ e, (call.run m args env).ret = .error (.err e) →
      args.input.pointer (call.run m args env).mem = args.input.pointer m
        ∧ args.out.pointer (call.run m args env).mem = args.out.pointer m
        ∧ (args.hasOutLen = true → (call.run m args env).outLen = some 0))
    ∧ (∀ request key prepared sig s, call.request = some request → addCheck request args = .ok () →
        request.key = some key → addPrepare m key request args = .ok prepared →
        Runs (counterSignTbs key request.alg prepared.tbs prepared.sigLen args.rng) ⟨env, []⟩ sig s →
        sig.length = prepared.sigLen →
        ∃ message : Bytes, message.length = prepared.plan.finalLen ∧ prepared.plan.finalLen ≤ args.out.len
          ∧ prepared.AttachesAs (newCounter m request prepared sig) message
          ∧ call.run m args env = ⟨.ok (), some prepared.plan.finalLen,
              zeroScratch (m.write args.out.range.start message) request args, s⟩)
    ∧ ∀ request out n, call.request = some request → addCheck request (args.withOut out) = .ok () →
        (call.run m args env).ret = .ok () → (call.run m args env).outLen = some n → n ≤ out.len →
        (call.run m (args.withOut out) env).ret = .ok () ∧ (call.run m (args.withOut out) env).outLen = some n
          ∧ (call.run m (args.withOut out) env).mem.read ⟨out.range.start, n⟩
            = (call.run m args env).mem.read ⟨args.out.range.start, n⟩
          ∧ (call.run m (args.withOut out) env).state = (call.run m args env).state
  := by
  rw [call.run_eq]
  refine ⟨?_, ?_, ?_⟩
  · intro e he
    apply addCounter_failed
    rw [he]
    rintro ⟨⟩
  · intro request key prepared sig s hrequest hcheck hkey hprep hsign hsig
    obtain ⟨key', hlayout⟩ := addCheck_ok (m := m) hcheck
    obtain rfl := Option.some.inj (hkey.symm.trans hlayout.key)
    obtain ⟨p, es, -, hes, hle, -, hattach⟩ := (addPrepare_ok hprep).attaches hlayout hsig
    refine ⟨_, hes.2, hle, hattach, ?_⟩
    rw [hrequest]
    apply addCounterCommon_of_runs hlayout _ hes.2 hattach
    rw [runs_addSign]
    exact ⟨hcheck, key, hkey, hprep, hsign, hsig⟩
  · intro request out n hrequest hcheck hok hlen hle
    rw [call.run_eq, hrequest] at *
    change (addCounterCommon m request args env).ret = .ok () at hok
    rcases addCounterCommon_cases m request args env with ⟨⟨e, he⟩, -⟩ | ⟨key, prepared, sig, p, es, hadded⟩
    · rw [he] at hok
      cases hok
    have hfinal : prepared.plan.finalLen = n := Option.some.inj (hadded.outLen.symm.trans hlen)
    obtain ⟨_, hlayout⟩ := addCheck_ok (m := m) hcheck
    have heq := hadded.withOut hcheck (by rwa [hfinal])
    change (addCounterCommon m request (args.withOut out) env).ret = .ok ()
      ∧ (addCounterCommon m request (args.withOut out) env).outLen = some n
      ∧ (addCounterCommon m request (args.withOut out) env).mem.read _
        = (addCounterCommon m request args env).mem.read _
      ∧ (addCounterCommon m request (args.withOut out) env).state = (addCounterCommon m request args env).state
    rw [hadded.mem, heq, ← hfinal, ← hadded.attaches.2, read_zeroScratch_write hadded.layout]
    · refine ⟨rfl, rfl, ?_, rfl⟩
      apply read_zeroScratch_write hlayout
      rw [hadded.attaches.2, hfinal]
      exact hle
    · rw [hadded.attaches.2]
      exact hadded.finalLen

end

section Instances

attribute [local instance] defaultSettings

/-- The full countersignature of `sign1Message` with `ed25519Secret`. -/
def counterAnswer : Ed25519Answer where
  secret := ed25519Secret
  publicKey := ed25519Public
  msg := [0x86, 0x72] ++ contextCounterV2
    ++ [0x43, 0xA1, 0x01, 0x32, 0x43, 0xA1, 0x01, 0x27, 0x40, 0x42, 0x68, 0x69, 0x81, 0x58, 0x40] ++ sign1Answer.sig
  sig := [0xAC, 0x73, 0xC8, 0x0A, 0x0B, 0x01, 0xD5, 0x1D, 0x63, 0xF9, 0xE6, 0x90, 0x4C, 0x48, 0x70, 0x27,
    0xD9, 0x87, 0x02, 0xCB, 0xB9, 0x14, 0xC9, 0xC0, 0x89, 0x1F, 0x12, 0x0D, 0xA0, 0x01, 0xAF, 0x0C,
    0xB4, 0xB9, 0x03, 0xF4, 0x0D, 0x9B, 0x8D, 0x2A, 0xC3, 0xA9, 0x20, 0xE2, 0x4E, 0x1C, 0x6E, 0x89,
    0x58, 0xC0, 0x81, 0xD8, 0x5F, 0xB1, 0xFE, 0x21, 0x01, 0x42, 0xD7, 0xBD, 0xBA, 0xA5, 0xBB, 0x0D]

/-- The one with `otherEd25519Secret`. -/
def otherCounterAnswer : Ed25519Answer where
  secret := otherEd25519Secret
  publicKey := otherEd25519Public
  msg := counterAnswer.msg
  sig := [0x6A, 0xF9, 0xF5, 0xCF, 0xB7, 0x38, 0x79, 0xEA, 0x14, 0x98, 0x23, 0x9A, 0x6C, 0xFE, 0x6D, 0x62,
    0x36, 0x6D, 0xD4, 0x0B, 0xEC, 0x77, 0xC8, 0x58, 0x83, 0x23, 0xAF, 0xA4, 0x83, 0x78, 0x39, 0xB4,
    0x98, 0x61, 0x23, 0x1D, 0x62, 0xA7, 0x8C, 0xF7, 0x7C, 0xBB, 0x41, 0xB3, 0x17, 0x96, 0x0A, 0xB6,
    0x92, 0x41, 0x4E, 0x0C, 0xA6, 0x6D, 0x9B, 0x09, 0xD9, 0x65, 0x7C, 0x6B, 0x55, 0xE9, 0x42, 0x0E]

/-- The message and its countersignatures. -/
def counterAnswers : List Ed25519Answer := [sign1Answer, counterAnswer, otherCounterAnswer]

/-- The wolfCrypt that knows these signatures. -/
@[reducible]
def counterCrypt : WolfCrypt := ed25519Crypt counterAnswers

attribute [local instance] counterCrypt

/-- The first countersignature. -/
def firstCounter : Bytes := [0x83, 0x43, 0xA1, 0x01, 0x27, 0xA0, 0x58, 0x40] ++ counterAnswer.sig

/-- The message with this countersignature, at an address. -/
def counterMemory : Memory :=
  Memory.write (fun _ => 0) 0x100 ([0xD2, 0x84, 0x43, 0xA1, 0x01, 0x32, 0xA1, 0x0B] ++ firstCounter
    ++ [0x42, 0x68, 0x69, 0x58, 0x40] ++ sign1Answer.sig)

/-- The key of the second countersigner. -/
def counterKey : Key := .ofEd25519 otherEd25519Secret true

/-- The second countersignature is requested. -/
def counterCall : AddCall := .counterSignature (some ⟨algEddsa, some counterKey, ⟨none, 0⟩⟩)

/-- The arguments for a countersignature in place. -/
def inPlaceArgs : AddArgs where
  input := ⟨some 0x100, 149⟩
  detached := ⟨none, 0⟩
  extAad := ⟨none, 0⟩
  scratch := ⟨some 0x400, 240⟩
  out := ⟨some 0x100, 240⟩
  hasOutLen := true
  rng := some ()

theorem addCounterSignature_atomic_instance :
  let args := inPlaceArgs.withOut ⟨some 0x200, 240⟩
  (counterCall.run counterMemory args ()).ret = .ok () ∧ (counterCall.run counterMemory args ()).outLen = some 222
    ∧ (counterCall.run counterMemory args ()).mem.read ⟨0x200, 222⟩
      = (counterCall.run counterMemory inPlaceArgs ()).mem.read ⟨0x100, 222⟩
    ∧ (counterCall.run counterMemory args ()).state = (counterCall.run counterMemory inPlaceArgs ()).state
  := (addCounterSignature_atomic counterCall counterMemory inPlaceArgs ()).2.2 _ ⟨some 0x200, 240⟩ 222 rfl rfl
    (by decide +kernel) (by decide +kernel) (by decide)

end Instances

end WolfCose
