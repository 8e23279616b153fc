import WolfCose.Sig.Scheme

/-!
# What a signing step makes

A branch of a signing function that succeeds has made a signature of the right input: the
primitive for the key of a local signer made it, or the callback of a delegated signer returned
it from its only call.
-/

namespace WolfCose

open Program Settings WolfCrypt

section

variable [WolfCrypt]

/-! ### Steps -/

@[simp]
theorem runs_check {α : Type} (x : Checked α) (s : SignState) (a : α) (s' : SignState) :
  Runs (check x) s a s' ↔ x = .ok a ∧ s = s'
  := runs_ofExcept x s a s'

@[simp]
theorem runs_withEnv {α : Type} (f : Env → α × Env) (s : SignState) (a : α) (s' : SignState) :
  Runs (withEnv f) s a s' ↔ (f s.env).1 = a ∧ s' = { s with env := (f s.env).2 }
  := by
  simp only [withEnv, runs_bind, runs_get, runs_set, runs_pure]
  constructor
  · rintro ⟨_, _, ⟨rfl, rfl⟩, _, _, rfl, rfl, rfl⟩
    exact ⟨rfl, rfl⟩
  · rintro ⟨rfl, rfl⟩
    exact ⟨s, s, ⟨rfl, rfl⟩, (), _, rfl, rfl, rfl⟩

variable [Settings]

/-! ### Local signers -/

/-- The primitive for the key made a signature of the input for the bytes to be signed. -/
def KeyObject.MakesFor (object : KeyObject) (alg : Int) (rng : Option Rng) (scratchSz : Nat) (env : Env)
    (tbs sig : Bytes) (env' : Env) : Prop :=
  VerifiableLength alg tbs ∧ ∃ input, SignedInput alg tbs input
    ∧ object.Makes alg rng scratchSz env input sig env'

variable {key : Key} {alg : Int} {tbs sig : Bytes} {s s' : SignState} {rng : Option Rng}

omit [WolfCrypt] [Settings] in
theorem verifiableLength_of_ne {tbs : Bytes} (h : alg ≠ algHssLms) :
  VerifiableLength alg tbs
  := fun he => absurd he h

theorem runs_signEcdsa {digest : Checked (HashType × Bytes)} {sigSz : Nat → Nat} {scratchSz : Nat}
    (halg : algIsEcdsa alg = true) (hcrv : algCheckCrv alg key.crv = .ok ())
    (hd : ∀ r, digest = .ok r → Digest alg tbs r.1 r.2) (h : Runs (signEcdsa key digest sigSz rng) s sig s') :
  key.object.MakesFor alg rng scratchSz s.env tbs sig s'.env
  := by
  cases rng with
  | none => simp [signEcdsa, eccSignRaw] at h
  | some generator =>
      simp only [signEcdsa, eccSignRaw, runs_bind, runs_check, runs_withEnv, runs_pure, lift_eq_ok,
        failWhen_eq_ok, orCrypto_eq_ok, KeyObject.asEcc_eq_ok] at h
      obtain ⟨⟨hashType, digest⟩, _, ⟨hdig, rfl⟩, coordSz, _, ⟨hsz, rfl⟩, _, _, ⟨-, rfl⟩, _, _, ⟨-, rfl⟩,
        eccKey, _, ⟨hobj, rfl⟩, signKey, _, ⟨hkey, rfl⟩, _, _, ⟨rfl, rfl⟩, derSig, _, ⟨hder, rfl⟩, ⟨r, t⟩, _,
        ⟨hrs, rfl⟩, _, _, ⟨hle, rfl⟩, rfl, rfl⟩ := h
      have hdigest := hd _ hdig
      have htocrv := (algCheckCrv_ok hcrv).resolve_left (algToCrv_of_ecdsa halg)
      rw [not_or, Nat.not_lt, Nat.not_lt] at hle
      constructor
      · apply verifiableLength_of_ne
        rintro rfl
        exact absurd (algIsEcdsa_values halg) (by decide)
      refine ⟨digest, ?_, ?_⟩
      · rw [SignedInput, if_pos (.inl halg)]
        exact ⟨hashType, hdigest⟩
      · rw [hobj]
        apply KeyObject.Makes.ecdsa hdigest.1 hkey rfl (Prod.ext hder rfl) hrs htocrv hsz hle.1 hle.2 rfl

theorem signedInput_self (h : ¬ Hashes alg) :
  SignedInput alg tbs tbs
  := by
  rw [SignedInput, if_neg h]

/-- The algorithms for EdDSA and ML-DSA sign the bytes themselves, of any length. -/
theorem KeyObject.Makes.unhashed {object : KeyObject} {scratchSz : Nat} {env env' : Env}
    (halg : algIsEddsa alg = true ∨ algIsMlDsa alg = true)
    (h : object.Makes alg rng scratchSz env tbs sig env') :
  object.MakesFor alg rng scratchSz env tbs sig env'
  := by
  have hval : (alg = -8 ∨ alg = -19 ∨ alg = -53) ∨ (alg = -48 ∨ alg = -49 ∨ alg = -50) :=
    halg.imp algIsEddsa_values algIsMlDsa_values
  constructor
  · apply verifiableLength_of_ne
    rintro rfl
    exact absurd hval (by decide)
  refine ⟨tbs, signedInput_self ?_, h⟩
  rintro (h | h)
  · have := algIsEcdsa_values h
    omega
  · have := algIsPss_values h
    omega

theorem runs_signEddsa {scratchSz : Nat} (halg : algIsEddsa alg = true) (h : Runs (signEddsa key tbs) s sig s') :
  key.object.MakesFor alg rng scratchSz s.env tbs sig s'.env
  := by
  apply KeyObject.Makes.unhashed (.inl halg)
  rw [signEddsa, runs_check] at h
  obtain ⟨h, rfl⟩ := h
  split at h
  · simp only [bind_eq_ok, KeyObject.asEd25519_eq_ok, orCrypto_eq_ok] at h
    obtain ⟨_, -, ed25519Key, hobj, hsig⟩ := h
    rw [hobj]
    apply KeyObject.Makes.ed25519 hsig rfl
  split at h
  · simp only [bind_eq_ok, KeyObject.asEd448_eq_ok, orCrypto_eq_ok] at h
    obtain ⟨_, -, ed448Key, hobj, hsig⟩ := h
    rw [hobj]
    apply KeyObject.Makes.ed448 hsig rfl
  · cases h

theorem runs_signPss {digest : Checked (HashType × Bytes)} {scratchSz : Nat} (halg : algIsPss alg = true)
    (hd : ∀ r, digest = .ok r → Digest alg tbs r.1 r.2) (h : Runs (signPss key digest scratchSz rng) s sig s') :
  key.object.MakesFor alg rng scratchSz s.env tbs sig s'.env
  := by
  simp only [signPss, runs_bind, runs_check, runs_withEnv, runs_pure, lift_eq_ok, orCrypto_eq_ok,
    KeyObject.asRsa_eq_ok] at h
  obtain ⟨_, _, ⟨-, rfl⟩, ⟨hashType, digest⟩, _, ⟨hdig, rfl⟩, mgf, _, ⟨hmgf, rfl⟩, rsaKey, _, ⟨hobj, rfl⟩, _, _,
    ⟨rfl, rfl⟩, _, _, ⟨hsig, rfl⟩, _, _, ⟨-, rfl⟩, rfl, rfl⟩ := h
  have hdigest := hd _ hdig
  constructor
  · apply verifiableLength_of_ne
    rintro rfl
    exact absurd (algIsPss_values halg) (by decide)
  refine ⟨digest, ?_, ?_⟩
  · rw [SignedInput, if_pos (.inr halg)]
    exact ⟨hashType, hdigest⟩
  · rw [hobj]
    apply KeyObject.Makes.pss hdigest.1 hmgf (Prod.ext hsig rfl)

theorem runs_signMlDsa {scratchSz : Nat} (halg : algIsMlDsa alg = true)
    (h : Runs (signMlDsa key alg tbs scratchSz rng) s sig s') :
  key.object.MakesFor alg rng scratchSz s.env tbs sig s'.env
  := by
  apply KeyObject.Makes.unhashed (.inr halg)
  simp only [signMlDsa, runs_bind, runs_check, runs_withEnv, lift_eq_ok, orCrypto_eq_ok,
    KeyObject.asMldsa_eq_ok] at h
  obtain ⟨_, _, ⟨-, rfl⟩, sigSz, _, ⟨hsz, rfl⟩, _, _, ⟨-, rfl⟩, mldsaKey, _, ⟨hobj, rfl⟩, _, _, ⟨rfl, rfl⟩, hsig, rfl⟩
    := h
  rw [hobj]
  apply KeyObject.Makes.mldsa hsz (Prod.ext hsig rfl)

theorem runs_signLms {checkState : Bool} {scratchSz : Nat}
    (h : Runs (signLms checkState key tbs scratchSz) s sig s') :
  key.object.MakesFor algHssLms rng scratchSz s.env tbs sig s'.env
  := by
  have hno : ¬ Hashes algHssLms := by
    rintro (h | h)
    · exact absurd (algIsEcdsa_values h) (by decide)
    · exact absurd (algIsPss_values h) (by decide)
  simp only [signLms, runs_bind, runs_check, KeyObject.asLms_eq_ok] at h
  obtain ⟨_, _, ⟨-, rfl⟩, lmsKey, _, ⟨hobj, rfl⟩, _, _, ⟨-, rfl⟩, h⟩ := h
  split at h
  · cases h
  rename_i sigSz hlen
  simp only [callLmsSign, runs_bind, runs_check, runs_get, runs_set, failWhen_eq_ok, orCrypto_eq_ok] at h
  obtain ⟨_, _, ⟨hmax, rfl⟩, _, _, ⟨-, rfl⟩, _, _, ⟨rfl, rfl⟩, _, _, rfl, hsig, rfl⟩ := h
  constructor
  · exact fun _ => Nat.le_of_not_lt hmax
  refine ⟨tbs, signedInput_self hno, ?_⟩
  rw [hobj]
  apply KeyObject.Makes.lms hlen (Prod.ext (Prod.ext hsig rfl) rfl)

/-! ### Delegated signers -/

/-- The callback of a key is called once, with the input for the bytes to be signed and, outside
this input, a buffer of zeros that has the expected length, and returns a signature of this
length. -/
structure CallsBack (key : Key) (cb : SignCb) (alg : Int) (tbs : Bytes) (call : SignCall) (sig : Bytes)
    (s s' : SignState) : Prop where
  callback : key.signCb = some cb
  signedInput : SignedInput alg tbs call.input
  length : signSigLen (some key) alg = .ok sig.length
  pos : 0 < sig.length
  placed : ∃ preHashes sigOff, call = extSignCall preHashes call.input sigOff sig.length
  disjoint : call.inputAt.Disjoint call.bufferAt
  called : ∃ written, signCb cb alg call.input sig.length s.env = (some (written, sig.length), s'.env)
    ∧ sig = Bytes.overwrite (List.replicate sig.length 0) 0 written
  invocations : s'.invocations = s.invocations ++ [.signCb key alg call (some (sig, sig.length))]

theorem extSignInput_ok {preHashes : Bool} {input : Bytes} (hpre : extSignAlg alg = .ok preHashes)
    (h : extSignInput preHashes alg tbs = .ok input) :
  SignedInput alg tbs input
  := by
  have hiff := extSignAlg_ok hpre
  unfold extSignInput at h
  unfold SignedInput
  split at h
  · rename_i hp
    rw [hp, eq_comm, decide_eq_true_iff] at hiff
    rw [if_pos hiff]
    simp only [bind_eq_ok, pure_eq_ok] at h
    obtain ⟨r, hr, rfl⟩ := h
    exact ⟨r.1, hashFor_ok hr⟩
  · rename_i hp
    rw [Bool.not_eq_true] at hp
    rw [hp, eq_comm, decide_eq_false_iff_not] at hiff
    rw [if_neg hiff, ← pure_eq_ok.mp h]

/-- A structure that is signed in place ends before the buffer for the signature. -/
def SignsBefore (alg : Int) (tbs : Bytes) (sigOff : Nat) : Prop :=
  extSignAlg alg = .ok false → tbs.length ≤ sigOff

theorem disjoint_extSignCall {preHashes : Bool} {input : Bytes} {sigOff n : Nat}
    (hpre : extSignAlg alg = .ok preHashes) (hinput : extSignInput preHashes alg tbs = .ok input)
    (hoff : SignsBefore alg tbs sigOff) :
  (extSignCall preHashes input sigOff n).inputAt.Disjoint (extSignCall preHashes input sigOff n).bufferAt
  := by
  unfold extSignCall
  cases preHashes with
  | true => trivial
  | false =>
      rw [← pure_eq_ok.mp hinput]
      left
      rw [Nat.zero_add]
      apply hoff hpre

theorem runs_extSignTbs {sigOff sigSz : Nat} (hoff : SignsBefore alg tbs sigOff)
    (h : Runs (extSignTbs key alg tbs sigOff sigSz) s sig s') :
  sig.length ≤ sigSz ∧ ∃ cb call, CallsBack key cb alg tbs call sig s s'
  := by
  unfold extSignTbs at h
  split at h
  · cases h
  rename_i cb hcb
  simp only [callSignCb, runs_bind, runs_check, runs_get, runs_set, runs_pure, lift_eq_ok, failWhen_eq_ok,
    orCrypto_eq_ok, Option.map_eq_some_iff] at h
  obtain ⟨_, _, ⟨-, rfl⟩, preHashes, _, ⟨hpre, rfl⟩, input, _, ⟨hinput, rfl⟩, n, _, ⟨hn, rfl⟩, _, _,
    ⟨hroom, rfl⟩, ⟨buf, sigLen⟩, _, ⟨_, _, ⟨rfl, rfl⟩, _, _, rfl, ⟨⟨written, len⟩, hres, hbuf⟩, rfl⟩, _, _,
    ⟨hpos, rfl⟩, _, _, ⟨hlen, rfl⟩, hsig, rfl⟩ := h
  obtain ⟨rfl, rfl⟩ := Prod.mk.inj hbuf
  obtain rfl : len = n := Decidable.not_not.mp hlen
  simp only [extSignCall, List.length_replicate] at hpos hsig hres
  have hbufLen : (Bytes.overwrite (List.replicate len 0) 0 written).length = len := by
    rw [Bytes.length_overwrite, List.length_replicate]
  rw [List.take_of_length_le (Nat.le_of_eq hbufLen)] at hsig
  have hsigLen : sig.length = len := by
    rw [← hsig, hbufLen]
  refine ⟨by omega, cb, extSignCall preHashes input sigOff len, ?_⟩
  constructor
  · exact hcb
  · exact extSignInput_ok hpre hinput
  · rw [hsigLen, hn]
  · omega
  · exact ⟨preHashes, sigOff, by rw [hsigLen]; rfl⟩
  · apply disjoint_extSignCall hpre hinput hoff
  · refine ⟨written, ?_, ?_⟩
    · rw [hsigLen]
      simp only [extSignCall, List.length_replicate, ← hres]
    · rw [hsigLen, hsig]
  · rw [hsigLen]
    simp only [extSignCall, List.length_replicate, hres, Option.map_some, hsig]

theorem runs_signDelegated {scratchSz : Nat} (h : Runs (signDelegated key alg tbs scratchSz) s sig s') :
  ∃ cb call, CallsBack key cb alg tbs call sig s s'
  := by
  simp only [signDelegated, runs_bind, runs_check, lift_eq_ok] at h
  obtain ⟨preHashes, _, ⟨hpre, rfl⟩, _, _, ⟨-, rfl⟩, h⟩ := h
  refine (runs_extSignTbs ?_ h).2
  intro hpre'
  obtain rfl := Except.ok.inj (hpre.symm.trans hpre')
  exact Nat.le_refl _

/-! ### Any signer -/

/-- The signer of a key made a signature for the bytes to be signed. -/
def Key.Made (key : Key) (alg : Int) (rng : Option Rng) (scratchSz : Nat) (tbs sig : Bytes)
    (s s' : SignState) : Prop :=
  if key.delegated = true then ∃ cb call, CallsBack key cb alg tbs call sig s s'
  else key.object.MakesFor alg rng scratchSz s.env tbs sig s'.env

/-- The callback makes signatures that are accepted with a key object. -/
def CallbackSigns (cb : SignCb) (alg : Int) (object : KeyObject) : Prop :=
  ∀ input n env written env', signCb cb alg input n env = (some (written, n), env') →
    object.Accepts alg input (Bytes.overwrite (List.replicate n 0) 0 written)

/-- A key holds the public key for the signer of another one. -/
def Key.HasPublic (pub : PublicOf) (key : Key) (alg : Int) (key' : Key) : Prop :=
  if key.delegated = true then ∀ cb, key.signCb = some cb → CallbackSigns cb alg key'.object
  else pub.Object key.object key'.object

/-- What a signer made is accepted with its public key. -/
theorem Key.Made.accepts {pub : PublicOf} (hscheme : CorrectScheme pub) {key' : Key} {scratchSz : Nat}
    (hpub : key.HasPublic pub alg key') (h : key.Made alg rng scratchSz tbs sig s s') :
  ∃ input, SignedInput alg tbs input ∧ key'.object.Accepts alg input sig
  := by
  unfold Key.Made at h
  unfold Key.HasPublic at hpub
  split at h
  · rename_i hdel
    rw [if_pos hdel] at hpub
    obtain ⟨cb, call, hcalls⟩ := h
    obtain ⟨written, hres, hsig⟩ := hcalls.called
    refine ⟨call.input, hcalls.signedInput, ?_⟩
    rw [hsig]
    apply hpub cb hcalls.callback call.input _ _ written _ hres
  · rename_i hdel
    rw [if_neg hdel] at hpub
    obtain ⟨-, input, hinput, hmakes⟩ := h
    exact ⟨input, hinput, hmakes.accepts hscheme hpub⟩

/-- Only a delegated signer makes a signature that is too long to be verified. -/
theorem Key.Made.verifiableLength {scratchSz : Nat} (h : key.Made alg rng scratchSz tbs sig s s')
    (hlocal : key.delegated = false) :
  VerifiableLength alg tbs
  := by
  rw [Key.Made, if_neg (by rw [hlocal]; exact Bool.false_ne_true)] at h
  exact h.1

end

section Instances

/-! ### A delegated signer for HSS-LMS -/

attribute [local instance] defaultSettings

/-- The wolfCrypt in which a callback signs for HSS-LMS with the length of the message. -/
@[reducible]
def lmsCallbackCrypt : WolfCrypt :=
  { failingCrypt with
    lmsGetSigLen := fun _ => some 1
    lmsVerify := fun _ sig msg => if sig = [UInt8.ofNat msg.length] then .ok else .sigVerifyE
    signCb := fun _ _ msg n env => (if n = 1 then some ([UInt8.ofNat msg.length], n) else none, env) }

attribute [local instance] lmsCallbackCrypt

/-- Every two HSS-LMS keys belong together. -/
def lmsPub : PublicOf where
  ecc _ _ := False
  ed25519 _ _ := False
  ed448 _ _ := False
  rsa _ _ := False
  mldsa _ _ := False
  lms _ _ := True

theorem correctScheme_lmsPub :
  CorrectScheme lmsPub
  where
  eccDeterministic := by rintro _ _ _ _ ⟨⟩
  ecdsa := by rintro _ _ _ _ _ _ _ _ _ ⟨⟩
  ed25519 := by rintro _ _ _ _ ⟨⟩
  ed448 := by rintro _ _ _ _ ⟨⟩
  rsaPss := by rintro _ _ _ _ _ _ _ _ _ _ ⟨⟩
  mldsa := by rintro _ _ _ _ _ _ _ ⟨⟩
  lms := by
    intro _ _ _ _ _ _ _ h
    cases h

/-- A public key for HSS-LMS. -/
def lmsVerifier : Key :=
  ⟨ktyHssLms, algUnset, 0, .null 0, .lms [], 0, .null 0, false, .lms, none⟩

/-- The same key with a delegated signer. -/
def lmsSigner : Key := { lmsVerifier with signCb := some () }

theorem callbackSigns_lmsSigner :
  CallbackSigns () algHssLms lmsVerifier.object
  := by
  intro input n env written env' h
  change ((if n = 1 then _ else _), _) = _ at h
  split at h
  · rename_i hn
    cases h
    subst hn
    apply KeyObject.Accepts.lms
    exact if_pos rfl
  · cases h

/-- What the callback of the delegated signer gets for a structure. -/
def lmsCall (tbs : Bytes) : SignCall := extSignCall false tbs tbs.length 1

/-- The delegated signer signs a structure of any length for which there is room. -/
theorem runs_signDelegated_lmsSigner {tbs : Bytes} {scratchSz : Nat} (h : tbs.length < scratchSz)
    (invocations : List Invocation) :
  Runs (signDelegated lmsSigner algHssLms tbs scratchSz) ⟨(), invocations⟩ [UInt8.ofNat tbs.length]
    ⟨(), invocations ++ [.signCb lmsSigner algHssLms (lmsCall tbs) (some ([UInt8.ofNat tbs.length], 1))]⟩
  := by
  have hcb : lmsSigner.signCb = some () := rfl
  simp only [signDelegated, extSignTbs, hcb, callSignCb, runs_bind, runs_check, runs_get, runs_set, runs_pure,
    lift_eq_ok, failWhen_eq_ok]
  refine ⟨false, _, ⟨rfl, rfl⟩, (), _, ⟨Nat.not_le.mpr h, rfl⟩, (), _, ⟨?_, rfl⟩, false, _, ⟨rfl, rfl⟩, tbs, _,
    ⟨rfl, rfl⟩, 1, _, ⟨rfl, rfl⟩, (), _, ⟨?_, rfl⟩, ([UInt8.ofNat tbs.length], 1), _,
    ⟨_, _, ⟨rfl, rfl⟩, (), _, rfl, rfl, rfl⟩, (), _, ⟨?_, rfl⟩, (), _, ⟨fun h => h rfl, rfl⟩, rfl, rfl⟩
  all_goals
    simp only [Bool.false_eq_true, if_false]
    omega

end Instances

end WolfCose
