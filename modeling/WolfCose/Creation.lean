import WolfCose.Sign1.Sign
import WolfCose.Sign.Sign
import WolfCose.Mac.Mac
import WolfCose.Encrypt.Opened
import WolfCose.Encrypt.Hpke
import WolfCose.Key.Material

/-!
# Calls that create nothing

The functions that create a message or encode a key write it into a buffer of the caller and store its
length.  Each of them clears the buffer when it fails.  The functions that sign, the one that encrypts
with HPKE and the one that encodes a key store the length zero then; the functions that create a MAC
and the two others that encrypt leave the value that the caller has stored there.
-/

namespace WolfCose

open Program Settings WolfCrypt

section

variable [Settings] [MacSettings] [AeadSettings] [RecipientSettings] [KeySettings]
variable [WolfCrypt] [MacCrypt] [AeadCrypt] [RecipientCrypt] [KeyCrypt]

/-! ### Calls -/

/-- A call of a function that creates a message or encodes a key. -/
inductive CreateCall
  | sign1SignEx (key : Option Key) (alg : Int) (kid : Pointer) (args : SignArgs) (flags : UInt32)
  | signSign (signers : Option (List Signer)) (args : SignArgs)
  | mac0Create (key : Option Key) (alg : Int) (kid : Pointer) (args : MacArgs)
  | macCreate (recipients : List Recipient) (alg : Int) (args : MacArgs)
  | encrypt0Encrypt (key : Option Key) (alg : Int) (iv : Pointer) (args : EncryptArgs)
  | hpkeEncrypt0Encrypt (recipientKey : Option Key) (kid : Pointer) (args : EncryptArgs) (rng : Option Rng)
  | encryptEncrypt (recipients : List Recipient) (contentAlgId : Int) (args : EncryptMultiArgs)
  | keyEncodeEx (key : Option Key) (out : Option Buffer) (outLen : Option Nat) (flags : UInt32)

/-- The results of a function that has no buffer for a detached ciphertext. -/
def CreateOut.attached (r : CreateOut) : EncryptOut := ⟨r.ret, r.out, r.outLen, none, none⟩

namespace CreateCall

/-- What a call leaves behind. -/
def run (env : Env) : CreateCall → EncryptOut
  | sign1SignEx key alg kid args flags =>
      let r := WolfCose.sign1SignEx key alg kid args flags env
      CreateOut.attached ⟨r.ret, r.out, r.outLen⟩
  | signSign signers args =>
      let r := WolfCose.signSign signers args env
      CreateOut.attached ⟨r.ret, r.out, r.outLen⟩
  | mac0Create key alg kid args => (WolfCose.mac0Create key alg kid args).attached
  | macCreate recipients alg args => (WolfCose.macCreate recipients alg args).attached
  | encrypt0Encrypt key alg iv args => WolfCose.encrypt0Encrypt key alg iv args
  | hpkeEncrypt0Encrypt recipientKey kid args rng => WolfCose.hpkeEncrypt0Encrypt recipientKey kid args rng env
  | encryptEncrypt recipients contentAlgId args =>
      (WolfCose.encryptEncrypt recipients contentAlgId args env).attached
  | keyEncodeEx key out outLen flags => (WolfCose.keyEncodeEx key out outLen flags).attached

/-- The output buffer of a call. -/
def out : CreateCall → Option Buffer
  | sign1SignEx _ _ _ args _ => args.out
  | signSign _ args => args.out
  | mac0Create _ _ _ args => args.out
  | macCreate _ _ args => args.out
  | encrypt0Encrypt _ _ _ args => args.out
  | hpkeEncrypt0Encrypt _ _ args _ => args.out
  | encryptEncrypt _ _ args => args.out
  | keyEncodeEx _ out _ _ => out

/-- Whether the caller has a place for the length of what is created. -/
def hasOutLen : CreateCall → Bool
  | sign1SignEx _ _ _ args _ => args.hasOutLen
  | signSign _ args => args.hasOutLen
  | mac0Create _ _ _ args => args.outLen.isSome
  | macCreate _ _ args => args.outLen.isSome
  | encrypt0Encrypt _ _ _ args => args.outLen.isSome
  | hpkeEncrypt0Encrypt _ _ args _ => args.outLen.isSome
  | encryptEncrypt _ _ args => args.outLen.isSome
  | keyEncodeEx _ _ outLen _ => outLen.isSome

/-- The buffer for a detached ciphertext. -/
def detached : CreateCall → Pointer
  | encrypt0Encrypt _ _ _ args => args.detached
  | hpkeEncrypt0Encrypt _ _ args _ => args.detached
  | _ => .null 0

/-- The lengths that the caller has stored are zero, or the function stores them when it fails. -/
def LengthsCleared : CreateCall → Prop
  | mac0Create _ _ _ args => args.outLen = some 0
  | macCreate _ _ args => args.outLen = some 0
  | encrypt0Encrypt _ _ _ args => args.outLen = some 0 ∧ ∀ len, args.detachedLen = some len → len = 0
  | encryptEncrypt _ _ args => args.outLen = some 0
  | _ => True

/-- What a call that publishes nothing leaves behind: buffers with zeros, and lengths that are zero. -/
structure PublishesNothing (call : CreateCall) (r : EncryptOut) : Prop where
  out : r.out = call.out.map fun buf => List.replicate buf.bytes.length 0
  outLen : r.outLen = some 0
  detached : r.detached = call.detached.content.map fun bs => List.replicate bs.length 0
  detachedLen : ∀ len, r.detachedLen = some len → len = 0

end CreateCall

/-! ### The last steps -/

omit [MacSettings] [AeadSettings] [RecipientSettings] [KeySettings] [WolfCrypt] [MacCrypt] [AeadCrypt]
  [RecipientCrypt] [KeyCrypt] in
theorem macFinish_error {args : MacArgs} {x : Checked EncCtx} {fault : Fault}
    (h : (macFinish args x).ret = .error fault) :
  (macFinish args x).out = args.out.map (fun buf => List.replicate buf.bytes.length 0)
    ∧ (macFinish args x).outLen = args.outLen
  := by
  cases x with
  | ok ctx => cases h
  | error fault' => exact ⟨rfl, rfl⟩

omit [MacSettings] [AeadSettings] [RecipientSettings] [KeySettings] [WolfCrypt] [MacCrypt] [AeadCrypt]
  [RecipientCrypt] [KeyCrypt] in
theorem encrypt0Finish_error {args : EncryptArgs} {x : Checked (EncCtx × Option Bytes)} {fault : Fault}
    (h : (encrypt0Finish args x).ret = .error fault) :
  encrypt0Finish args x
    = ⟨.error fault, args.out.map (fun buf => List.replicate buf.bytes.length 0), args.outLen,
        args.detached.content.map (fun bs => List.replicate bs.length 0), args.detachedLen⟩
  := by
  cases x with
  | ok result =>
      obtain ⟨ctx, ciphertext⟩ := result
      cases ciphertext with
      | none => cases h
      | some ciphertext => cases h
  | error fault' =>
      cases h
      rfl

omit [MacSettings] [AeadSettings] [RecipientSettings] [KeySettings] [MacCrypt] [AeadCrypt] [RecipientCrypt] [KeyCrypt] in
theorem hpkeEncrypt0Finish_error {args : EncryptArgs} {p : Drawing (EncCtx × Option Bytes)} {env : Env} {fault : Fault}
    (h : (hpkeEncrypt0Finish args p env).ret = .error fault) :
  hpkeEncrypt0Finish args p env
    = ⟨.error fault, args.out.map (fun buf => List.replicate buf.bytes.length 0), args.outLen.map (fun _ => 0),
        args.detached.content.map (fun bs => List.replicate bs.length 0), args.detachedLen.map fun _ => 0⟩
  := by
  unfold hpkeEncrypt0Finish at h ⊢
  cases hp : p env with
  | ok result env' =>
      rw [hp] at h
      obtain ⟨ctx, ciphertext⟩ := result
      cases ciphertext with
      | none => cases h
      | some ciphertext => cases h
  | error fault' env' =>
      rw [hp] at h
      cases h
      rfl

omit [MacSettings] [AeadSettings] [RecipientSettings] [KeySettings] [MacCrypt] [AeadCrypt] [RecipientCrypt] [KeyCrypt] in
theorem encryptFinish_error {args : EncryptMultiArgs} {p : Drawing EncCtx} {env : Env} {fault : Fault}
    (h : (encryptFinish args p env).ret = .error fault) :
  (encryptFinish args p env).out = args.out.map (fun buf => List.replicate buf.bytes.length 0)
    ∧ (encryptFinish args p env).outLen = args.outLen
  := by
  unfold encryptFinish at h ⊢
  cases hp : p env with
  | ok ctx env' =>
      rw [hp] at h
      cases h
  | error fault' env' => exact ⟨rfl, rfl⟩

omit [MacSettings] [AeadSettings] [RecipientSettings] [KeySettings] [WolfCrypt] [MacCrypt] [AeadCrypt]
  [RecipientCrypt] [KeyCrypt] in
theorem keyEncodeFinish_error {out : Option Buffer} {outLen : Option Nat} {x : Checked EncCtx} {fault : Fault}
    (h : (keyEncodeFinish out outLen x).ret = .error fault) :
  (keyEncodeFinish out outLen x).out = out.map (fun buf => List.replicate buf.bytes.length 0)
    ∧ (keyEncodeFinish out outLen x).outLen = outLen.map fun _ => 0
  := by
  cases x with
  | ok ctx => cases h
  | error fault' => exact ⟨rfl, rfl⟩

/-! ### Failures -/

omit [MacSettings] [AeadSettings] [RecipientSettings] [KeySettings] [MacCrypt] [AeadCrypt] [RecipientCrypt] [KeyCrypt] in
/-- A call without a buffer for a detached ciphertext publishes nothing if its output is cleared. -/
theorem publishesNothing_attached {call : CreateCall} {r : CreateOut} (hdetached : call.detached = .null 0)
    (hout : r.out = call.out.map fun buf => List.replicate buf.bytes.length 0) :
  call.PublishesNothing r.attached ↔ r.outLen = some 0
  := by
  constructor
  · intro h
    exact h.outLen
  · intro houtLen
    refine ⟨hout, houtLen, ?_, ?_⟩
    · rw [hdetached]
      rfl
    · rintro len ⟨⟩

/-- A call that fails publishes nothing exactly if the function stores the length zero on failure, or
the lengths that the caller has stored are zero already. -/
theorem failed_creation_iff (call : CreateCall) (env : Env) {e : Err} (houtLen : call.hasOutLen = true)
    (h : (call.run env).ret = .error (.err e)) :
  call.PublishesNothing (call.run env) ↔ call.LengthsCleared
  := by
  cases call with
  | sign1SignEx key alg kid args flags =>
      have hcleared : (sign1SignEx key alg kid args flags env).Cleared args :=
        signFinish_cleared fun hok => by cases hok.symm.trans h
      have hlen := hcleared.outLen.trans (if_pos houtLen)
      rw [CreateCall.run, publishesNothing_attached rfl hcleared.out]
      exact iff_of_true hlen trivial
  | signSign signers args =>
      have hcleared : (signSign signers args env).Cleared args :=
        signFinish_cleared fun hok => by cases hok.symm.trans h
      have hlen := hcleared.outLen.trans (if_pos houtLen)
      rw [CreateCall.run, publishesNothing_attached rfl hcleared.out]
      exact iff_of_true hlen trivial
  | mac0Create key alg kid args =>
      obtain ⟨hout, hlen⟩ := macFinish_error h
      rw [CreateCall.run, publishesNothing_attached rfl hout]
      exact iff_of_eq (congrArg (· = some 0) hlen)
  | macCreate recipients alg args =>
      obtain ⟨hout, hlen⟩ := macFinish_error h
      rw [CreateCall.run, publishesNothing_attached rfl hout]
      exact iff_of_eq (congrArg (· = some 0) hlen)
  | encrypt0Encrypt key alg iv args =>
      have hrun := encrypt0Finish_error h
      change CreateCall.run env (.encrypt0Encrypt key alg iv args) = _ at hrun
      rw [hrun]
      constructor
      · intro hnothing
        exact ⟨hnothing.outLen, hnothing.detachedLen⟩
      · rintro ⟨hlen, hdetachedLen⟩
        exact ⟨rfl, hlen, rfl, hdetachedLen⟩
  | hpkeEncrypt0Encrypt recipientKey kid args rng =>
      have hrun := hpkeEncrypt0Finish_error h
      change CreateCall.run env (.hpkeEncrypt0Encrypt recipientKey kid args rng) = _ at hrun
      obtain ⟨len, hlen⟩ := Option.isSome_iff_exists.mp houtLen
      rw [hrun]
      refine iff_of_true ⟨rfl, ?_, rfl, ?_⟩ trivial
      · change args.outLen.map _ = _
        rw [hlen]
        rfl
      · intro len hlen
        obtain ⟨_, -, rfl⟩ := Option.map_eq_some_iff.mp hlen
        rfl
  | encryptEncrypt recipients contentAlgId args =>
      obtain ⟨hout, hlen⟩ := encryptFinish_error h
      rw [CreateCall.run, publishesNothing_attached rfl hout]
      exact iff_of_eq (congrArg (· = some 0) hlen)
  | keyEncodeEx key out outLen flags =>
      obtain ⟨hout, hlen⟩ := keyEncodeFinish_error h
      obtain ⟨len, hsome⟩ := Option.isSome_iff_exists.mp houtLen
      rw [CreateCall.run, publishesNothing_attached rfl hout]
      refine iff_of_true (hlen.trans ?_) trivial
      rw [hsome]
      rfl

end

/-! ### Examples -/

section Instances

attribute [local instance] defaultSettings defaultMacSettings defaultAeadSettings defaultRecipientSettings
attribute [local instance] sampleKeyWolfCrypt sampleKeySettings hmac256Crypt sumAeadCrypt failingRecipientCrypt
attribute [local instance] sampleKeyCrypt

/-- A call that creates a MAC in a buffer that is too small, with the length of an earlier message. -/
def smallMacCall (outLen : Nat) : CreateCall :=
  .mac0Create (some hmacKey) algHmac256 (.null 0)
    { hmacArgs with out := some (.ofBytes (List.replicate 16 0xEE)), outLen := some outLen }

/-- The function stores no length, but the one that is there is zero. -/
theorem failed_creation_smallMacCall :
  (smallMacCall 0).PublishesNothing ((smallMacCall 0).run ())
  := by
  have hret : ((smallMacCall 0).run ()).ret = .error (.err .bufferTooSmall) := by decide +kernel
  exact (failed_creation_iff (smallMacCall 0) () rfl hret).mpr rfl

/-- The function leaves the length of an earlier message beside the cleared buffer. -/
theorem failed_creation_stale :
  ¬ ∀ (call : CreateCall) (env : Unit) (e : Err), call.out.isSome = true → call.hasOutLen = true →
    (call.run env).ret = .error (.err e) → call.PublishesNothing (call.run env)
  := by
  intro h
  have hret : ((smallMacCall 77).run ()).ret = .error (.err .bufferTooSmall) := by decide +kernel
  have hlen := (h (smallMacCall 77) () .bufferTooSmall rfl rfl hret).outLen
  have hstale : ((smallMacCall 77).run ()).outLen = some 77 := by decide +kernel
  rw [hstale] at hlen
  cases hlen

end Instances

end WolfCose
