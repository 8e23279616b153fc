import WolfCose.Lib.Outcome
import WolfCose.Sig.Size

/-!
# Creating a signature

The branches of the signing functions for the families of signature algorithms.  Signing uses
the environment, and the signature of an HSS-LMS key, made by wolfCrypt or by the callback of
a delegated signer, is spent as soon as it is made; so the state of a signing function records
every such call with its result.
-/

namespace WolfCose

open Program Settings WolfCrypt

variable [WolfCrypt]

/-! ### Calls with a lasting effect -/

/-- Where bytes lie: in the scratch buffer of the caller, or in the digest buffer on the stack. -/
inductive Region where
  | scratch (start len : Nat)
  | hashBuf (len : Nat)

/-- Two regions have no byte in common. -/
def Region.Disjoint : Region → Region → Prop
  | scratch a n, scratch b m => a + n ≤ b ∨ b + m ≤ a
  | scratch _ _, hashBuf _ => True
  | hashBuf _, scratch _ _ => True
  | hashBuf n, hashBuf m => n = 0 ∨ m = 0

/-- What the callback of a delegated signer gets: the bytes to be signed and a buffer for the
signature, with its content, and where they lie. -/
structure SignCall where
  input : Bytes
  inputAt : Region
  buffer : Bytes
  bufferAt : Region

/-- A call of `wc_LmsKey_Sign` or of a callback, with what it returns. -/
inductive Invocation where
  /-- A call with a key, and what it leaves of the key. -/
  | lmsSign (key : LmsKey) (result : Option Bytes) (after : LmsKey)
  /-- A call of the callback of a key for an algorithm; the result is the content of the output
  buffer and the length it reports. -/
  | signCb (key : Key) (alg : Int) (call : SignCall) (result : Option (Bytes × Nat))

/-- What a signing function depends on and changes besides its buffers. -/
structure SignState where
  env : Env
  invocations : List Invocation

/-- A signing function. -/
abbrev Signing (α : Type) := EStateM Fault SignState α

/-- A step without effects. -/
def check {α : Type} (x : Checked α) : Signing α := MonadExcept.ofExcept x

/-- A call of wolfCrypt that uses the environment. -/
def withEnv {α : Type} (f : Env → α × Env) : Signing α := do
  let s ← get
  let (a, env) := f s.env
  set { s with env }
  return a

/-! ### The families of algorithms -/

/-- The bytes at the end of a field of `n` bytes, after zeros. -/
def leftPad (n : Nat) (bs : Bytes) : Bytes := List.replicate (n - bs.length) 0 ++ bs

variable [Settings]

/-- The key that `wolfCose_EccSignRaw` signs with: where the build has deterministic signatures,
one with that flag set. -/
def eccSigningKey (eccKey : EccKey) (hashType : HashType) : Checked EccKey :=
  if haveDeterministicEcdsa then orCrypto (eccSetDeterministicEx eccKey hashType) else .ok eccKey

/-- `wolfCose_EccSignRaw` -/
def eccSignRaw (digest : Bytes) (sigSz coordSz : Nat) (hashType : HashType) (rng : Option Rng)
    (eccKey : KeyObject) : Signing Bytes := do
  match rng with
  | none => throw (.err .invalidArg)
  | some rng =>
      check (failWhen (eccKey.isNull = true) .invalidArg)
      check (failWhen (sigSz < coordSz * 2) .bufferTooSmall)
      let eccKey ← check eccKey.asEcc
      let eccKey ← check (eccSigningKey eccKey hashType)
      let derSig ← withEnv (eccSignHash digest rng eccKey)
      let derSig ← check (orCrypto derSig)
      let (r, s) ← check (orCrypto (eccSigToRs derSig))
      check (failWhen (r.length > coordSz ∨ s.length > coordSz) .crypto)
      return leftPad coordSz r ++ leftPad coordSz s

/-- The branch of a signing function for ECDSA after the checks of the key; the functions
differ in the size of the buffer they offer for the signature. -/
def signEcdsa (key : Key) (digest : Checked (HashType × Bytes)) (sigSz : Nat → Nat)
    (rng : Option Rng) : Signing Bytes := do
  let (hashType, digest) ← check digest
  let coordSz ← check (lift (crvKeySize key.crv))
  eccSignRaw digest (sigSz coordSz) coordSz hashType rng key.object

/-- The branch of a signing function for EdDSA after the checks of the key. -/
def signEddsa (key : Key) (tbs : Bytes) : Signing Bytes := check do
  if haveEddsa = true ∧ key.crv = crvEd25519 then do
    failWhen (key.attachedType ≠ .ed25519 ∨ key.object.isNull = true) .coseKeyType
    let ed25519Key ← key.object.asEd25519
    orCrypto (ed25519SignMsg tbs ed25519Key)
  else if haveEd448 = true ∧ key.crv = crvEd448 then do
    failWhen (key.attachedType ≠ .ed448 ∨ key.object.isNull = true) .coseKeyType
    let ed448Key ← key.object.asEd448
    orCrypto (ed448SignMsg tbs ed448Key)
  else throw (.err .coseBadAlg)

/-- The branch of a signing function for RSASSA-PSS; the signature is written to the scratch
buffer. -/
def signPss (key : Key) (digest : Checked (HashType × Bytes)) (scratchSz : Nat) (rng : Option Rng) :
    Signing Bytes := do
  let _ ← check (rsaPssCheckKey key)
  let (hashType, digest) ← check digest
  let mgf ← check (lift (hashToMgf hashType))
  let rsaKey ← check key.object.asRsa
  let sig ← withEnv (rsaPssSignEx digest scratchSz hashType mgf digest.length rsaKey rng)
  let sig ← check (orCrypto sig)
  check (failWhen (sig.length = 0) .crypto)
  return sig

/-- The branch of a signing function for ML-DSA; the signature is written to the scratch buffer
after the structure. -/
def signMlDsa (key : Key) (alg : Int) (tbs : Bytes) (scratchSz : Nat) (rng : Option Rng) :
    Signing Bytes := do
  check (mlDsaCheckKey key alg)
  let expectedSigSz ← check (lift (sigSize alg))
  check (failWhen ((tbs.length + expectedSigSz) % (sizeMax + 1) > scratchSz) .bufferTooSmall)
  let mldsaKey ← check key.object.asMldsa
  let sig ← withEnv (mlDsaSignCtx mldsaKey expectedSigSz tbs rng)
  check (orCrypto sig)

/-- A call of `wc_LmsKey_Sign`, after which a key that it could not sign with is marked bad
unless it is exhausted. -/
def callLmsSign (lmsKey : LmsKey) (sigSz : Nat) (tbs : Bytes) : Signing Bytes := do
  let s ← get
  let ((result, after), env) := lmsSign lmsKey sigSz tbs s.env
  let after := if result = none ∧ lmsState after ≠ .noSigs then lmsSetState after .bad else after
  set (SignState.mk env (s.invocations ++ [.lmsSign lmsKey result after]))
  check (orCrypto result)

/-- The check that a key can sign now: it is in order and has signatures left. -/
def lmsCanSign (lmsKey : LmsKey) : Prop :=
  lmsState lmsKey = .ok ∧ lmsSigsLeft lmsKey = 1

omit [Settings] in
instance (lmsKey : LmsKey) : Decidable (lmsCanSign lmsKey) := inferInstanceAs (Decidable (_ ∧ _))

/-- The branch of a signing function for HSS-LMS; the signature is written to the scratch buffer
after the structure.  Only one of the functions checks here that the key can sign. -/
def signLms (checkState : Bool) (key : Key) (tbs : Bytes) (scratchSz : Nat) : Signing Bytes := do
  check (lmsCheckKey key)
  let lmsKey ← check key.object.asLms
  check (failWhen (checkState = true ∧ ¬ lmsCanSign lmsKey) .coseKeyType)
  match lmsGetSigLen lmsKey with
  | none => throw (.err .coseKeyType)
  | some expectedSigSz =>
      check (failWhen (tbs.length > intMax) .invalidArg)
      check (failWhen (expectedSigSz > scratchSz ∨ tbs.length > scratchSz - expectedSigSz) .bufferTooSmall)
      callLmsSign lmsKey expectedSigSz tbs

/-! ### Delegated signers -/

/-- `wolfCose_ExtSignAlg`: whether the algorithm hashes before it signs. -/
def extSignAlg (alg : Int) : Except Err Bool :=
  if isEs256 alg ∨ isEs384 alg ∨ isEs512 alg ∨ isPss alg then .ok true
  else if isEddsa alg ∨ (haveEddsa = true ∧ alg = algEd25519) ∨ (haveEd448 = true ∧ alg = algEd448) then
    .ok false
  else if haveMldsa = true ∧ algIsMlDsa alg = true then .ok false
  else if haveLms = true ∧ alg = algHssLms then .ok false
  else .error .coseBadAlg

/-- The bytes that a delegated signer gets. -/
def extSignInput (preHashes : Bool) (alg : Int) (sigStruct : Bytes) : Checked Bytes :=
  if preHashes = true then do
    let (_, digest) ← hashFor alg sigStruct
    return digest
  else return sigStruct

/-- A call of the callback of a delegated signer. -/
def callSignCb (key : Key) (cb : SignCb) (alg : Int) (call : SignCall) : Signing (Bytes × Nat) := do
  let s ← get
  let (result, env) := signCb cb alg call.input call.buffer.length s.env
  let result := result.map fun (written, sigLen) => (Bytes.overwrite call.buffer 0 written, sigLen)
  set (SignState.mk env (s.invocations ++ [.signCb key alg call result]))
  check (orCrypto result)

/-- What `wolfCose_ExtSign` passes to the callback: a digest in its own buffer or the structure at
the start of the scratch buffer, and a buffer of zeros that has the expected length. -/
def extSignCall (preHashes : Bool) (input : Bytes) (sigOff expSigLen : Nat) : SignCall where
  input := input
  inputAt := if preHashes = true then .hashBuf input.length else .scratch 0 input.length
  buffer := List.replicate expSigLen 0
  bufferAt := .scratch sigOff expSigLen

/-- `wolfCose_ExtSign` for a structure at the start of the scratch buffer and a signature buffer of
`sigSz` bytes at the offset `sigOff` in it. -/
def extSignTbs (key : Key) (alg : Int) (sigStruct : Bytes) (sigOff sigSz : Nat) : Signing Bytes := do
  match key.signCb with
  | none => throw (.err .invalidArg)
  | some cb =>
      check (failWhen (sigSz = 0) .invalidArg)
      let preHashes ← check (lift (extSignAlg alg))
      let tbs ← check (extSignInput preHashes alg sigStruct)
      let expSigLen ← check (signSigLen (some key) alg)
      check (failWhen (sigSz < expSigLen) .bufferTooSmall)
      let (sig, sigLen) ← callSignCb key cb alg (extSignCall preHashes tbs sigOff expSigLen)
      check (failWhen (sigLen = 0 ∨ sigLen > sigSz) .crypto)
      check (failWhen (sigLen ≠ expSigLen) .crypto)
      return sig.take sigLen

/-- The branch of a signing function for a delegated signer; the signature is written to the
scratch buffer, after the structure if that is signed in place. -/
def signDelegated (key : Key) (alg : Int) (sigStruct : Bytes) (scratchSz : Nat) : Signing Bytes := do
  let preHashes ← check (lift (extSignAlg alg))
  let sigOff := if preHashes = true then 0 else sigStruct.length
  check (failWhen (scratchSz ≤ sigOff) .bufferTooSmall)
  extSignTbs key alg sigStruct sigOff (scratchSz - sigOff)

/-! ### What a call leaves behind -/

/-- The call made a signature of an HSS-LMS key with the length that is expected of it. -/
def Invocation.Spends : Invocation → Bytes → Prop
  | lmsSign key result _, sig => result = some sig ∧ lmsGetSigLen key = some sig.length
  | signCb key alg _ result, sig => alg = algHssLms ∧ ∃ lmsKey buf, key.object = .lms lmsKey
      ∧ lmsGetSigLen lmsKey = some sig.length ∧ result = some (buf, sig.length) ∧ sig = buf.take sig.length

/-- The documented lengths of signatures.  Those of RSASSA-PSS have the length of the modulus. -/
structure DocumentedLengths : Prop where
  lms : ∀ key n, lmsGetSigLen key = some n → 0 < n
  ed25519 : ∀ tbs key sig, ed25519SignMsg tbs key = some sig → sig.length = 64
  ed448 : ∀ tbs key sig, ed448SignMsg tbs key = some sig → sig.length = 114
  rsaPss : ∀ digest n hashType mgf saltLen key rng env sig,
    (rsaPssSignEx digest n hashType mgf saltLen key rng env).1 = some sig →
      (sig.length : Int) = rsaEncryptSize key
  mlDsa44 : ∀ key n tbs rng env sig, (mlDsaSignCtx key n tbs rng env).1 = some sig →
    mlDsaLevel key = 2 → sig.length = 2420
  mlDsa65 : ∀ key n tbs rng env sig, (mlDsaSignCtx key n tbs rng env).1 = some sig →
    mlDsaLevel key = 3 → sig.length = 3309
  mlDsa87 : ∀ key n tbs rng env sig, (mlDsaSignCtx key n tbs rng env).1 = some sig →
    mlDsaLevel key = 5 → sig.length = 4627

/-- The program leaves no call behind, and a value it returns satisfies `Q`. -/
def Quiet {α : Type} (p : Signing α) (Q : α → Prop) : Prop :=
  ∀ s, Ends p s (fun a s' => Q a ∧ s'.invocations = s.invocations)
    (fun _ s' => s'.invocations = s.invocations)

namespace Quiet

variable {α β : Type} {p : Signing α} {f : α → Signing β} {Q R : α → Prop} {T : β → Prop}

omit [Settings]

theorem bind (hp : Quiet p Q) (hf : ∀ a, Q a → Quiet (f a) T) :
  Quiet (p >>= f) T
  := by
  intro s
  apply Ends.bind (hp s)
  rintro a s' ⟨ha, hs⟩
  rw [← hs]
  apply hf a ha

theorem pure {a : α} (h : Q a) :
  Quiet (Pure.pure a) Q
  := fun _ => ⟨h, rfl⟩

theorem throw {e : Fault} :
  Quiet (MonadExcept.throw e) Q
  := fun _ => rfl

theorem check {x : Checked α} (h : ∀ a, x = .ok a → Q a) :
  Quiet (check x) Q
  := by
  intro s
  apply Ends.ofExcept
  · exact fun a ha => ⟨h a ha, rfl⟩
  · exact fun _ _ => rfl

theorem withEnv {g : Env → α × Env} (h : ∀ env, Q (g env).1) :
  Quiet (withEnv g) Q
  := by
  intro s
  exact ⟨h s.env, rfl⟩

theorem mono (hp : Quiet p Q) (h : ∀ a, Q a → R a) :
  Quiet p R
  := by
  intro s
  apply (hp s).mono
  · rintro a s' ⟨ha, hs⟩
    exact ⟨h a ha, hs⟩
  · exact fun _ _ hs => hs

/-- A step without effects, and what follows if it succeeds. -/
theorem bindCheck {x : Checked α} (h : ∀ a, x = .ok a → Quiet (f a) T) :
  Quiet (WolfCose.check x >>= f) T
  := bind (check (Q := fun a => x = .ok a) fun _ ha => ha) h

/-- A call that uses the environment, and what follows. -/
theorem bindWithEnv {g : Env → α × Env} (h : ∀ env, Quiet (f (g env).1) T) :
  Quiet (WolfCose.withEnv g >>= f) T
  := by
  apply bind (withEnv (Q := fun a => ∃ env, a = (g env).1) fun env => ⟨env, rfl⟩)
  rintro _ ⟨env, rfl⟩
  apply h env

theorem ite {c : Prop} [Decidable c] {q : Signing α} (hp : c → Quiet p Q) (hq : ¬ c → Quiet q Q) :
  Quiet (if c then p else q) Q
  := by
  split
  · apply hp
    assumption
  · apply hq
    assumption

end Quiet

omit [WolfCrypt] [Settings] in
theorem length_leftPad {n : Nat} {bs : Bytes} (h : bs.length ≤ n) :
  (leftPad n bs).length = n
  := by
  rw [leftPad, List.length_append, List.length_replicate]
  omega

/-- A raw signature has two coordinates. -/
theorem quiet_eccSignRaw {digest : Bytes} {sigSz coordSz : Nat} {hashType : HashType} {rng : Option Rng}
    {eccKey : KeyObject} :
  Quiet (eccSignRaw digest sigSz coordSz hashType rng eccKey) (fun sig => sig.length = coordSz * 2)
  := by
  unfold eccSignRaw
  cases rng with
  | none => apply Quiet.throw
  | some rng =>
      apply Quiet.bindCheck
      intro _ _
      apply Quiet.bindCheck
      intro _ _
      apply Quiet.bindCheck
      intro eccKey _
      apply Quiet.bindCheck
      intro signKey _
      apply Quiet.bindWithEnv
      intro env
      apply Quiet.bindCheck
      intro derSig _
      apply Quiet.bindCheck
      intro rs _
      apply Quiet.bindCheck
      intro _ hle
      apply Quiet.pure
      rw [failWhen_eq_ok] at hle
      rw [List.length_append, length_leftPad (by omega), length_leftPad (by omega), Nat.mul_two]

/-- The length of an ECDSA signature follows from the curve of the key. -/
theorem quiet_signEcdsa {key : Key} {digest : Checked (HashType × Bytes)} {sigSz : Nat → Nat}
    {rng : Option Rng} :
  Quiet (signEcdsa key digest sigSz rng)
    (fun sig => ∃ coordSz, crvKeySize key.crv = .ok coordSz ∧ sig.length = coordSz * 2)
  := by
  apply Quiet.bindCheck
  intro r _
  apply Quiet.bindCheck
  intro coordSz hsz
  rw [lift_eq_ok] at hsz
  intro s
  apply (quiet_eccSignRaw s).mono
  · rintro sig s' ⟨hlen, hs⟩
    exact ⟨⟨coordSz, hsz, hlen⟩, hs⟩
  · exact fun _ _ hs => hs

/-- The length of an EdDSA signature follows from the curve of the key. -/
theorem quiet_signEddsa (hdoc : DocumentedLengths) {key : Key} {tbs : Bytes} :
  Quiet (signEddsa key tbs) (fun sig =>
    (haveEddsa = true ∧ key.crv = crvEd25519 ∧ sig.length = 64)
      ∨ (haveEd448 = true ∧ key.crv = crvEd448 ∧ sig.length = 114))
  := by
  apply Quiet.check
  intro sig h
  split at h
  · rename_i hc
    simp only [bind_eq_ok, orCrypto_eq_ok] at h
    obtain ⟨_, -, _, -, hsig⟩ := h
    exact .inl ⟨hc.1, hc.2, hdoc.ed25519 _ _ _ hsig⟩
  split at h
  · rename_i hc
    simp only [bind_eq_ok, orCrypto_eq_ok] at h
    obtain ⟨_, -, _, -, hsig⟩ := h
    exact .inr ⟨hc.1, hc.2, hdoc.ed448 _ _ _ hsig⟩
  · cases h

/-- An RSASSA-PSS signature has the length that the check of the key returns. -/
theorem quiet_signPss (hdoc : DocumentedLengths) {key : Key} {digest : Checked (HashType × Bytes)}
    {scratchSz : Nat} {rng : Option Rng} :
  Quiet (signPss key digest scratchSz rng) (fun sig => rsaPssCheckKey key = .ok sig.length)
  := by
  apply Quiet.bindCheck
  intro n hn
  apply Quiet.bindCheck
  intro r _
  apply Quiet.bindCheck
  intro mgf _
  apply Quiet.bindCheck
  intro rsaKey hkey
  apply Quiet.bindWithEnv
  intro env
  apply Quiet.bindCheck
  intro sig hsig
  apply Quiet.bindCheck
  intro _ _
  apply Quiet.pure
  rw [orCrypto_eq_ok] at hsig
  have hlen := hdoc.rsaPss _ _ _ _ _ _ _ _ _ hsig
  have hsz : n = (rsaEncryptSize rsaKey).toNat := by
    simp only [rsaPssCheckKey, bind_eq_ok, pure_eq_ok, KeyObject.asRsa_eq_ok] at hn hkey
    obtain ⟨_, -, _, hk, _, -, _, -, rfl⟩ := hn
    rw [hkey] at hk
    cases hk
    rfl
  rw [hn, hsz, ← hlen, Int.toNat_natCast]

/-- An ML-DSA signature has the size of its algorithm. -/
theorem quiet_signMlDsa (hdoc : DocumentedLengths) {key : Key} {alg : Int} {tbs : Bytes}
    {scratchSz : Nat} {rng : Option Rng} (hmldsa : haveMldsa = true) :
  Quiet (signMlDsa key alg tbs scratchSz rng) (fun sig => sigSize alg = .ok sig.length)
  := by
  apply Quiet.bindCheck
  intro _ hcheck
  apply Quiet.bindCheck
  intro n hn
  apply Quiet.bindCheck
  intro _ _
  apply Quiet.bindCheck
  intro mldsaKey hkey
  apply Quiet.bindWithEnv
  intro env
  apply Quiet.check
  intro sig hsig
  rw [lift_eq_ok] at hn
  rw [orCrypto_eq_ok] at hsig
  simp only [mlDsaCheckKey, bind_eq_ok, lift_eq_ok, failWhen_eq_ok, KeyObject.asMldsa_eq_ok] at hcheck hkey
  obtain ⟨_, -, level, hlevel, _, hk, hreq⟩ := hcheck
  rw [hkey] at hk
  cases hk
  rw [ne_eq, Decidable.not_not] at hreq
  unfold mlDsaAlgLevel at hlevel
  obtain ⟨h₄₄, h₆₅, h₈₇⟩ := sigSize_mlDsa hmldsa
  split at hlevel
  · rename_i he
    rw [he, h₄₄, hdoc.mlDsa44 _ _ _ _ _ _ hsig (hreq.trans (Except.ok.inj hlevel).symm)]
  split at hlevel
  · rename_i he
    rw [he, h₆₅, hdoc.mlDsa65 _ _ _ _ _ _ hsig (hreq.trans (Except.ok.inj hlevel).symm)]
  split at hlevel
  · rename_i he
    rw [he, h₈₇, hdoc.mlDsa87 _ _ _ _ _ _ hsig (hreq.trans (Except.ok.inj hlevel).symm)]
  · cases hlevel

/-- No call has made a signature of an HSS-LMS key. -/
def Unspent (s : SignState) : Prop :=
  ∀ inv ∈ s.invocations, ∀ sig, ¬ inv.Spends sig

/-- The signature has the length that is computed for the key in advance. -/
def HasSigLen (key : Key) (alg : Int) (sig : Bytes) : Prop :=
  ∀ n, signSigLen (some key) alg = .ok n → sig.length = n

/-- What a signing step with an algorithm leaves behind if nothing was spent before: only a
signature for HSS-LMS is spent, and then it is the one that is returned, with the length that
is computed in advance.  Any other signature has this length too. -/
structure Signed (key : Key) (alg : Int) (sig : Bytes) (s : SignState) : Prop where
  spends : ∀ inv ∈ s.invocations, ∀ sig', inv.Spends sig' →
    alg = algHssLms ∧ sig' = sig ∧ signSigLen (some key) alg = .ok sig.length
  length : alg ≠ algHssLms → HasSigLen key alg sig

/-- The signing step leaves behind what `Signed` says, or fails and spends nothing. -/
def Signs (key : Key) (alg : Int) (p : Signing Bytes) : Prop :=
  ∀ s, Unspent s → Ends p s (Signed key alg) (fun _ s' => Unspent s')

omit [Settings] in
theorem Unspent.of_eq {s s' : SignState} (h : Unspent s) (he : s'.invocations = s.invocations) :
  Unspent s'
  := by
  unfold Unspent at h ⊢
  rw [he]
  exact h

omit [Settings] in
/-- A call that makes no signature spends none. -/
theorem Unspent.snoc {s : SignState} (h : Unspent s) {inv : Invocation} (hinv : ∀ sig, ¬ inv.Spends sig)
    (env : Env) :
  Unspent ⟨env, s.invocations ++ [inv]⟩
  := by
  intro inv' hmem
  rw [List.mem_append, List.mem_singleton] at hmem
  rcases hmem with hmem | rfl
  · apply h inv' hmem
  · exact hinv

/-- A step without calls signs if its signature has the right length. -/
theorem Quiet.signs {key : Key} {alg : Int} {p : Signing Bytes} (h : Quiet p (HasSigLen key alg)) :
  Signs key alg p
  := by
  intro s hs
  apply (h s).mono
  · rintro sig s' ⟨hlen, he⟩
    exact ⟨fun inv hinv sig' hsp => absurd hsp ((hs.of_eq he) inv hinv sig'), fun _ => hlen⟩
  · exact fun _ s' he => hs.of_eq he

namespace Signs

variable {key : Key} {alg : Int} {α : Type}

theorem bindCheck {x : Checked α} {f : α → Signing Bytes} (h : ∀ a, x = .ok a → Signs key alg (f a)) :
  Signs key alg (check x >>= f)
  := by
  intro s hs
  apply Ends.bindOfExcept
  · exact fun a ha => h a ha s hs
  · exact fun _ _ => hs

theorem throw {e : Fault} :
  Signs key alg (MonadExcept.throw e)
  := fun _ hs => hs

theorem ite {c : Prop} [Decidable c] {p q : Signing Bytes} (hp : c → Signs key alg p)
    (hq : ¬ c → Signs key alg q) :
  Signs key alg (if c then p else q)
  := by
  split
  · apply hp
    assumption
  · apply hq
    assumption

end Signs

omit [Settings] in
/-- A call of `wc_LmsKey_Sign` spends the signature it returns. -/
theorem ends_callLmsSign {lmsKey : LmsKey} {n : Nat} {tbs : Bytes} {s : SignState} (hs : Unspent s) :
  Ends (callLmsSign lmsKey n tbs) s
    (fun sig s' => ∃ after, s'.invocations = s.invocations ++ [.lmsSign lmsKey (some sig) after])
    (fun _ s' => Unspent s')
  := by
  unfold callLmsSign
  apply Ends.bind (Q := fun a s' => a = s ∧ s' = s) (Ends.get ⟨rfl, rfl⟩)
  rintro _ _ ⟨rfl, rfl⟩
  generalize lmsSign lmsKey n tbs _ = r
  obtain ⟨⟨result, after⟩, env⟩ := r
  cases result with
  | some sig => exact ⟨_, rfl⟩
  | none =>
      apply hs.snoc
      rintro sig ⟨h, -⟩
      cases h

theorem signs_signLms {checkState : Bool} {key : Key} {tbs : Bytes} {scratchSz : Nat}
    (hlms : haveLms = true) (hlocal : lmsVerifyOnly = false) :
  Signs key algHssLms (signLms checkState key tbs scratchSz)
  := by
  unfold signLms
  apply Signs.bindCheck
  intro _ hcheck
  apply Signs.bindCheck
  intro lmsKey hkey
  rw [KeyObject.asLms_eq_ok] at hkey
  apply Signs.bindCheck
  intro _ _
  split
  · apply Signs.throw
  apply Signs.bindCheck
  intro _ _
  apply Signs.bindCheck
  intro _ _ s hs
  apply (ends_callLmsSign hs).mono _ fun _ _ h => h
  rintro sig s' ⟨after, he⟩
  refine ⟨?_, fun hne => absurd rfl hne⟩
  intro inv hinv sig' hsp
  rw [he, List.mem_append, List.mem_singleton] at hinv
  rcases hinv with hinv | rfl
  · exact absurd hsp (hs inv hinv sig')
  obtain ⟨hres, hlen⟩ := hsp
  obtain rfl := Option.some.inj hres
  refine ⟨rfl, rfl, ?_⟩
  rw [signSigLen, if_neg not_isEddsa_hssLms, if_neg not_isPss_hssLms, if_pos ⟨⟨hlms, .inr hlocal⟩, rfl⟩]
  simp only [lmsSigLen, bind_eq_ok, KeyObject.asLms_eq_ok]
  refine ⟨(), hcheck, lmsKey, hkey, ?_⟩
  rw [hlen]
  rfl

omit [Settings] in
/-- A call of a callback leaves behind what it returns, a buffer of the size it got. -/
theorem ends_callSignCb {key : Key} {cb : SignCb} {alg : Int} {call : SignCall} {s : SignState}
    (hs : Unspent s) :
  Ends (callSignCb key cb alg call) s
    (fun r s' => r.1.length = call.buffer.length
      ∧ s'.invocations = s.invocations ++ [.signCb key alg call (some r)])
    (fun _ s' => Unspent s')
  := by
  unfold callSignCb
  apply Ends.bind (Q := fun a s' => a = s ∧ s' = s) (Ends.get ⟨rfl, rfl⟩)
  rintro _ _ ⟨rfl, rfl⟩
  generalize signCb cb alg call.input call.buffer.length _ = r
  obtain ⟨result, env⟩ := r
  cases result with
  | some r => exact ⟨Bytes.length_overwrite .., rfl⟩
  | none =>
      apply hs.snoc
      rintro sig ⟨-, _, _, -, -, h, -⟩
      cases h

/-- The callback of a delegated signer is called only when all that follows is sure to pass,
if it returns a signature of the expected length. -/
theorem signs_extSignTbs (hdoc : DocumentedLengths) {key : Key} {alg : Int} {sigStruct : Bytes}
    {sigOff sigSz : Nat} :
  Signs key alg (extSignTbs key alg sigStruct sigOff sigSz)
  := by
  unfold extSignTbs
  split
  · apply Signs.throw
  apply Signs.bindCheck
  intro _ _
  apply Signs.bindCheck
  intro _ _
  apply Signs.bindCheck
  intro _ _
  apply Signs.bindCheck
  intro expSigLen hexp
  apply Signs.bindCheck
  intro _ hroom s hs
  rw [failWhen_eq_ok] at hroom
  apply Ends.bind (ends_callSignCb hs)
  rintro ⟨buf, sigLen⟩ s' ⟨hbuf, he⟩
  have hsz : buf.length = expSigLen := hbuf.trans List.length_replicate
  -- the call spends a signature of the length computed in advance, and no other
  have spent : ∀ inv ∈ s'.invocations, ∀ sig, inv.Spends sig →
      alg = algHssLms ∧ sigLen = expSigLen ∧ 0 < expSigLen ∧ sig = buf.take sigLen := by
    intro inv hinv sig hsp
    rw [he, List.mem_append, List.mem_singleton] at hinv
    rcases hinv with hinv | rfl
    · exact absurd hsp (hs inv hinv sig)
    obtain ⟨rfl, lmsKey, _, hkey, hlen, hres, hsig⟩ := hsp
    obtain ⟨rfl, rfl⟩ := Prod.mk.inj (Option.some.inj hres)
    obtain ⟨-, lmsKey', hkey', hn⟩ := signSigLen_hssLms hexp
    rw [hkey] at hkey'
    cases hkey'
    rw [hlen, Option.some.injEq] at hn
    exact ⟨rfl, hn, hdoc.lms _ _ (hn ▸ hlen), hsig⟩
  apply Ends.bindOfExcept
  swap
  · intro e he inv hinv sig hsp
    obtain ⟨-, hlen, hpos, -⟩ := spent inv hinv sig hsp
    have hok : failWhen (sigLen = 0 ∨ sigLen > sigSz) .crypto = .ok () := by
      rw [failWhen_eq_ok]
      omega
    rw [hok] at he
    cases he
  intro _ _
  apply Ends.bindOfExcept
  swap
  · intro e he inv hinv sig hsp
    obtain ⟨-, hlen, -, -⟩ := spent inv hinv sig hsp
    have hok : failWhen (sigLen ≠ expSigLen) .crypto = .ok () := by
      rw [failWhen_eq_ok]
      exact fun h => h hlen
    rw [hok] at he
    cases he
  intro _ hlen
  rw [failWhen_eq_ok, ne_eq, Decidable.not_not] at hlen
  have hsigLen : (buf.take sigLen).length = expSigLen := by
    rw [List.length_take, hsz, hlen, Nat.min_self]
  constructor
  · intro inv hinv sig hsp
    obtain ⟨halg, -, -, hsig⟩ := spent inv hinv sig hsp
    rw [hsigLen]
    exact ⟨halg, hsig, hexp⟩
  · intro _ n hn
    rw [hexp] at hn
    rw [hsigLen, Except.ok.inj hn]

theorem signs_signDelegated (hdoc : DocumentedLengths) {key : Key} {alg : Int} {sigStruct : Bytes}
    {scratchSz : Nat} :
  Signs key alg (signDelegated key alg sigStruct scratchSz)
  := by
  apply Signs.bindCheck
  intro _ _
  apply Signs.bindCheck
  intro _ _
  apply signs_extSignTbs hdoc

/-! ### Lengths for the families of algorithms -/

theorem signs_signEcdsa {key : Key} {alg : Int} {digest : Checked (HashType × Bytes)}
    {sigSz : Nat → Nat} {rng : Option Rng} (halg : algIsEcdsa alg = true)
    (hcrv : algCheckCrv alg key.crv = .ok ()) :
  Signs key alg (signEcdsa key digest sigSz rng)
  := by
  apply Quiet.signs
  apply Quiet.mono quiet_signEcdsa
  rintro sig ⟨coordSz, hcoord, hlen⟩ n hn
  have hval : alg = -7 ∨ alg = -9 ∨ alg = -35 ∨ alg = -51 ∨ alg = -36 ∨ alg = -52 := by
    rcases algIsEcdsa_cases halg with h | h | h
    all_goals
      have := h.values
      omega
  have hsz := signSigLen_sigSize hn (fun h => by have := h.value; omega)
    (fun h => by have := h.values; omega) (by unfold algHssLms; omega)
  rw [hlen]
  apply sigSize_ecdsa halg hcrv hcoord hsz

theorem signs_signEddsa (hdoc : DocumentedLengths) {key : Key} {alg : Int} {tbs : Bytes}
    (halg : algIsEddsa alg = true) (hcrv : algCheckCrv alg key.crv = .ok ()) :
  Signs key alg (signEddsa key tbs)
  := by
  apply Quiet.signs
  apply Quiet.mono (quiet_signEddsa hdoc)
  intro sig hsig n hn
  have hne : crvEd25519 ≠ crvEd448 := by decide
  by_cases hpoly : isEddsa alg
  · rw [signSigLen, if_pos hpoly, eddsaSigLen] at hn
    split at hn
    · cases hn
    rcases hsig with ⟨h, hc, hlen⟩ | ⟨h, hc, hlen⟩
    · rw [if_pos ⟨h, hc⟩] at hn
      rw [hlen, Except.ok.inj hn]
    · rw [if_neg fun h' => hne (h'.2.symm.trans hc), if_pos ⟨h, hc⟩] at hn
      rw [hlen, Except.ok.inj hn]
  · have hval : alg = -19 ∨ alg = -53 := by
      rcases algIsEddsa_cases halg with h | ⟨-, h⟩ | ⟨-, h⟩
      · exact absurd h hpoly
      · exact .inl h
      · exact .inr h
    have hsz := signSigLen_sigSize hn hpoly (fun h => by have := h.values; omega)
      (by unfold algHssLms; omega)
    rcases sigSize_eddsa halg hpoly hcrv with ⟨-, hc, hsz'⟩ | ⟨-, hc, hsz'⟩
    · rw [hsz'] at hsz
      rcases hsig with ⟨-, -, hlen⟩ | ⟨-, hc', -⟩
      · rw [hlen, Except.ok.inj hsz]
      · exact absurd (hc.symm.trans hc') hne
    · rw [hsz'] at hsz
      rcases hsig with ⟨-, hc', -⟩ | ⟨-, -, hlen⟩
      · exact absurd (hc'.symm.trans hc) hne
      · rw [hlen, Except.ok.inj hsz]

theorem signs_signPss (hdoc : DocumentedLengths) {key : Key} {alg : Int}
    {digest : Checked (HashType × Bytes)} {scratchSz : Nat} {rng : Option Rng}
    (halg : algIsPss alg = true) :
  Signs key alg (signPss key digest scratchSz rng)
  := by
  apply Quiet.signs
  apply Quiet.mono (quiet_signPss hdoc)
  intro sig hsig n hn
  have hval : alg = -37 ∨ alg = -38 ∨ alg = -39 := of_decide_eq_true halg
  have hed : ¬ isEddsa alg := fun h => by
    have := h.value
    omega
  by_cases hpss : isPss alg
  · rw [signSigLen, if_neg hed, if_pos hpss] at hn
    rw [hsig] at hn
    exact Except.ok.inj hn
  · have hsz := signSigLen_sigSize hn hed hpss (by unfold algHssLms; omega)
    rw [sigSize_pss halg] at hsz
    cases hsz

theorem signs_signMlDsa (hdoc : DocumentedLengths) {key : Key} {alg : Int} {tbs : Bytes}
    {scratchSz : Nat} {rng : Option Rng} (hmldsa : haveMldsa = true) (halg : algIsMlDsa alg = true) :
  Signs key alg (signMlDsa key alg tbs scratchSz rng)
  := by
  apply Quiet.signs
  apply Quiet.mono (quiet_signMlDsa hdoc hmldsa)
  intro sig hsig n hn
  have hval : alg = -48 ∨ alg = -49 ∨ alg = -50 := of_decide_eq_true halg
  have hsz := signSigLen_sigSize hn (fun h => by have := h.value; omega)
    (fun h => by have := h.values; omega) (by unfold algHssLms; omega)
  rw [hsig] at hsz
  exact Except.ok.inj hsz

/-- Whether the signer of a key is delegated. -/
def Key.delegated (key : Key) : Bool :=
  extSign && key.signCb.isSome

/-- `wolfCose_KeyCanSign` -/
def keyCanSign (key : Key) : Bool :=
  key.hasPrivate || key.delegated

end WolfCose
