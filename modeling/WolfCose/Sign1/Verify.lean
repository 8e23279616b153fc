import WolfCose.Message
import WolfCose.Sig.Verify
import WolfCose.Struct

/-!
# Verifying a COSE_Sign1 message

`wolfCose_Sign1_Verify_ex` of `wolfcose_sign1.c`.  A message that is verified is exactly an
optional tag and an array of four fields, and the signature primitive has accepted its
signature over the Sig_structure of what the caller gets back.
-/

namespace WolfCose

open Program Settings

section

variable [Settings]

/-! ### The message -/

/-- What `wolfCose_Sign1_Verify_ex` finds in a message. -/
structure Sign1Message where
  headers : Headers
  hdr : Hdr
  payload : Option Bytes
  sigData : Bytes

/-- The steps of `wolfCose_Sign1_Verify_ex` that decode the message. -/
def decodeSign1 (detached : Pointer) (flags : UInt32) : Dec Sign1Message := do
  decodeStart tagSign1 4 flags
  let headers ← decodeHeaders flags
  let (hdr, payload) ← decodePayload detached headers.hdr flags
  let sigData ← decodeBstrEx flags
  decodeEnd
  return ⟨headers, hdr, payload, sigData⟩

/-- The bytes of a message and what they say. -/
def Sign1Encoding (flags : UInt32) (detached : Pointer) (input : Bytes) (msg : Sign1Message) : Prop :=
  ∃ start headers payload signature, input = start ++ (headers ++ (payload ++ signature))
    ∧ StartValue flags tagSign1 4 start ∧ HeadersValue flags headers msg.headers
    ∧ PayloadValue flags detached msg.headers.hdr payload (msg.hdr, msg.payload)
    ∧ BstrValue flags signature msg.sigData

/-- A message is decoded exactly if it consists of its four fields, with nothing after them. -/
theorem decodeSign1_eq_ok {flags : UInt32} (hf : decodeFlagsValid flags = true) {detached : Pointer}
    {input : Buffer} {msg : Sign1Message} :
  decodeBuffer (decodeSign1 detached flags) input = .ok msg
    ↔ Sign1Encoding flags detached input.bytes msg
  := by
  have hsingle : decodeSign1 detached flags = decodeSingle tagSign1 Sign1Message.mk detached flags := rfl
  rw [hsingle, decodeSingle_eq_ok hf]
  constructor
  · rintro ⟨_, _, _, _, rfl, h⟩
    exact h
  · intro h
    exact ⟨_, _, _, _, rfl, h⟩

/-! ### Verification -/

variable [WolfCrypt]

/-- The dispatch of `wolfCose_Sign1_Verify_ex` over the families of algorithms. -/
def sign1VerifyTbs (key : Key) (alg : Int) (tbs sig : Bytes) (scratchSz : Nat) : Checked Unit :=
  if algIsEddsa alg = true then verifyEddsa key alg tbs sig
  else if algIsEcdsa alg = true then verifyEcdsa true key alg (hashFor alg tbs) sig
  else if haveRsapss = true ∧ algIsPss alg = true then verifyPss key (hashFor alg tbs) sig scratchSz
  else if haveMldsa = true ∧ algIsMlDsa alg = true then verifyMlDsa key alg tbs sig
  else if haveLms = true ∧ alg = algHssLms then verifyLms key tbs sig
  else throw (.err .coseBadAlg)

/-- The steps of `wolfCose_Sign1_Verify_ex` after the checks of its arguments; the result is
the header and the payload in the message. -/
def sign1VerifyMessage (key : Key) (input : Buffer) (detached extAad : Pointer) (scratch : Buffer)
    (flags : UInt32) : Checked (Hdr × Option Bytes) := do
  let msg ← decodeBuffer (decodeSign1 detached flags) input
  let alg := msg.hdr.alg
  failWhen (key.alg ≠ algUnset ∧ key.alg ≠ alg) .coseBadAlg
  failWhen (key.alg = algUnset ∧ msg.headers.algProtected = false) .coseBadAlg
  let tbs ← lift (buildSigStructure (.mem msg.headers.protectedData) extAad
    (verifyPayload detached msg.payload) (some scratch))
  sign1VerifyTbs key alg tbs msg.sigData scratch.bytes.length
  return (msg.hdr, msg.payload)

/-- The arguments of a verification function beside its results. -/
structure VerifyArgs where
  key : Option Key
  input : Option Buffer
  detached : Pointer
  extAad : Pointer
  scratch : Option Buffer

/-- `wolfCose_Sign1_Verify_ex` -/
def sign1VerifyEx (args : VerifyArgs) (out : VerifyOut) (flags : UInt32) : Checked Unit × VerifyOut :=
  out.finish <|
    match args.key, args.input, args.scratch, out.hdr, out.payload, out.payloadLen with
    | some key, some input, some scratch, some _, some _, some _ => do
        failWhen (decodeFlagsValid flags = false) .invalidArg
        failWhen (lenFitsWord32 input.bytes.length = false ∨ lenFitsWord32 args.detached.len = false ∨
          lenFitsWord32 args.extAad.len = false ∨ lenFitsWord32 scratch.bytes.length = false) .invalidArg
        sign1VerifyMessage key input args.detached args.extAad scratch flags
    | _, _, _, _, _, _ => throw (.err .invalidArg)

/-- `wc_CoseSign1_Verify` -/
def sign1Verify (args : VerifyArgs) (out : VerifyOut) : Checked Unit × VerifyOut :=
  sign1VerifyEx args out 0

theorem sign1VerifyTbs_ok {key : Key} {alg : Int} {tbs sig : Bytes} {scratchSz : Nat}
    (h : sign1VerifyTbs key alg tbs sig scratchSz = .ok ()) :
  key.Verified alg tbs sig
  := by
  unfold sign1VerifyTbs at h
  split at h
  · apply verifyEddsa_ok _ h
    assumption
  split at h
  · apply verifyEcdsa_ok _ (fun _ => hashFor_ok) h
    assumption
  split at h
  · rename_i hpss
    apply verifyPss_ok hpss.2 (fun _ => hashFor_ok) h
  split at h
  · apply verifyMlDsa_ok h
  split at h
  · rename_i hlms
    apply verifyLms_ok hlms.2 h
  · cases h

/-- The structure that a signature of a COSE_Sign1 message signs. -/
def sigStructure1 (protectedData extAad payload : Bytes) : AuthStructure :=
  .content ctxSignature1 protectedData none extAad payload none

/-- What a successful verification of a message establishes. -/
structure Sign1Verified (key : Key) (input : Bytes) (detached extAad : Pointer) (flags : UInt32)
    (hdr : Hdr) (payload : Option Bytes) (msg : Sign1Message) : Prop where
  encoding : Sign1Encoding flags detached input msg
  returned : hdr = msg.hdr ∧ payload = msg.payload
  pinned : key.alg ≠ algUnset → key.alg = hdr.alg
  protected_of_unset : key.alg = algUnset → msg.headers.algProtected = true
  verified : key.Verified hdr.alg
    (sigStructure1 msg.headers.protectedData extAad.bytes (verifyPayload detached msg.payload).bytes).bytes
    msg.sigData

theorem sign1VerifyMessage_ok {key : Key} {input scratch : Buffer} {detached extAad : Pointer}
    {flags : UInt32} (hf : decodeFlagsValid flags = true) {hdr : Hdr} {payload : Option Bytes}
    (h : sign1VerifyMessage key input detached extAad scratch flags = .ok (hdr, payload)) :
  ∃ msg, Sign1Verified key input.bytes detached extAad flags hdr payload msg
  := by
  simp only [sign1VerifyMessage, buildSigStructure, bind_eq_ok, failWhen_eq_ok, lift_eq_ok, pure_eq_ok,
    decodeSign1_eq_ok hf, buildToBeSignedMaced_eq_ok] at h
  obtain ⟨msg, henc, _, hpin, _, hprot, tbs, ⟨-, -, -, -, -, -, rfl⟩, _, hver, he⟩ := h
  cases he
  refine ⟨msg, henc, ⟨rfl, rfl⟩, ?_, ?_, sign1VerifyTbs_ok hver⟩
  · intro hset
    by_contra hne
    apply hpin
    exact ⟨hset, hne⟩
  · intro hunset
    by_contra hne
    apply hprot
    exact ⟨hunset, by simpa using hne⟩

/-- The message of a call that succeeds is verified. -/
theorem sign1VerifyEx_ok {args : VerifyArgs} {out out' : VerifyOut} {flags : UInt32}
    (h : sign1VerifyEx args out flags = (.ok (), out')) :
  ∃ key input hdr payload msg, args.key = some key ∧ args.input = some input
    ∧ out' = .verified hdr payload
    ∧ Sign1Verified key input.bytes args.detached args.extAad flags hdr payload msg
  := by
  obtain ⟨hdr, payload, hret, rfl⟩ := VerifyOut.finish_ok h
  split at hret
  · simp only [bind_eq_ok, failWhen_eq_ok, Bool.not_eq_false] at hret
    obtain ⟨_, hf, _, -, hret⟩ := hret
    obtain ⟨msg, hmsg⟩ := sign1VerifyMessage_ok hf hret
    exact ⟨_, _, hdr, payload, msg, by assumption, by assumption, rfl, hmsg⟩
  · cases hret

/-- A COSE_Sign1 signature binds what the caller gets back: the message is exactly its four
fields, and the primitive of a compatible key accepted its signature over the Sig_structure of
its protected bytes, the external data and the payload, the one in the message or the detached
one.  A call that fails leaves the results cleared. -/
theorem sign1_verify_binds (args : VerifyArgs) (out out' : VerifyOut) (flags : UInt32) :
  (sign1VerifyEx args out flags = (.ok (), out') →
    ∃ key input hdr payload msg, args.key = some key ∧ args.input = some input
      ∧ Sign1Encoding flags args.detached input.bytes msg
      ∧ out' = ⟨some hdr, some payload, some (payload.getD []).length⟩
      ∧ hdr = msg.hdr ∧ payload = msg.payload
      ∧ key.Compatible hdr.alg
      ∧ key.Accepts hdr.alg (sigStructure1 msg.headers.protectedData args.extAad.bytes
          (verifyPayload args.detached payload).bytes).bytes msg.sigData)
    ∧ ∀ fault, sign1VerifyEx args out flags = (.error fault, out') → out'.Cleared
  := by
  constructor
  · intro h
    obtain ⟨key, input, hdr, payload, msg, hkey, hinput, rfl, hmsg⟩ := sign1VerifyEx_ok h
    obtain ⟨rfl, rfl⟩ := hmsg.returned
    exact ⟨key, input, _, _, msg, hkey, hinput, hmsg.encoding, rfl, rfl, rfl, hmsg.verified.1,
      hmsg.verified.2⟩
  · intro fault h
    apply VerifyOut.finish_error h

end

section Instances

attribute [local instance] defaultSettings

/-- The signature of `ed25519Secret` over the Sig_structure of the protected bucket `{1: -19}` and the payload
"hi". -/
def sign1Answer : Ed25519Answer where
  secret := ed25519Secret
  publicKey := ed25519Public
  msg := [0x84, 0x6A] ++ ctxSignature1 ++ [0x43, 0xA1, 0x01, 0x32, 0x40, 0x42, 0x68, 0x69]
  sig := [0x70, 0x37, 0x54, 0xE2, 0x7E, 0x63, 0x03, 0xCD, 0x44, 0x7C, 0xCB, 0x0A, 0x1A, 0x4F, 0x95, 0x3A,
    0x54, 0x9B, 0x73, 0x89, 0x67, 0xC5, 0xAB, 0x45, 0x99, 0x02, 0xEF, 0xB0, 0x0C, 0x4C, 0x5C, 0x22,
    0x7B, 0xC9, 0xFE, 0x50, 0x7B, 0x46, 0x50, 0x86, 0x2E, 0x4C, 0x9C, 0x63, 0x36, 0xA8, 0xDF, 0xF5,
    0xCD, 0x98, 0xF4, 0xEC, 0x9A, 0x85, 0x0D, 0xB3, 0x52, 0x40, 0x0E, 0x8D, 0x46, 0x66, 0x83, 0x06]

/-- The wolfCrypt that knows this signature. -/
@[reducible]
def sign1Crypt : WolfCrypt := ed25519Crypt [sign1Answer]

attribute [local instance] sign1Crypt

/-- The message with this signature. -/
def sign1Message : Bytes :=
  [0xD2, 0x84, 0x43, 0xA1, 0x01, 0x32, 0xA0, 0x42, 0x68, 0x69, 0x58, 0x40] ++ sign1Answer.sig

/-- The message, verified with the key. -/
def ed25519Args : VerifyArgs where
  key := some (.ofEd25519 ed25519Public false)
  input := some (.ofBytes sign1Message)
  detached := .null 0
  extAad := .null 0
  scratch := some (.ofBytes (List.replicate 64 0))

theorem sign1_verify_binds_instance :
  ∃ key input hdr payload msg, ed25519Args.key = some key ∧ ed25519Args.input = some input
    ∧ Sign1Encoding 0 ed25519Args.detached input.bytes msg
    ∧ VerifyOut.verified ⟨-19, none, none, none, 0, 0⟩ (some [0x68, 0x69])
      = ⟨some hdr, some payload, some (payload.getD []).length⟩
    ∧ hdr = msg.hdr ∧ payload = msg.payload
    ∧ key.Compatible hdr.alg
    ∧ key.Accepts hdr.alg (sigStructure1 msg.headers.protectedData ed25519Args.extAad.bytes
        (verifyPayload ed25519Args.detached payload).bytes).bytes msg.sigData
  := (sign1_verify_binds ed25519Args ⟨some .zero, some none, some 0⟩ _ 0).1 rfl

end Instances

end WolfCose
