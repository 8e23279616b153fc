import WolfCose.Countersign.Splice
import WolfCose.Countersign.Structure
import WolfCose.Lib.Memory
import WolfCose.Sig.Delegated

/-!
# Adding a countersignature

`wc_Cose_AddCounterSignature` and `wc_Cose_AddCounterSignature0` of `wolfcose_countersign.c`.
Their arguments may share memory: the output buffer may be the message that is
countersigned, and only the scratch buffer and the kid have to be apart from it.  So these
functions work on one memory, in which the arguments lie.
-/

namespace WolfCose

open Program Cbor Settings WolfCrypt

/-! ### Arguments in memory -/

/-- A pointer with the length that is passed beside it: the null pointer or an address. -/
structure Place where
  addr : Option Nat
  len : Nat
  deriving DecidableEq, Repr

namespace Place

/-- Whether a pointer is the null pointer. -/
def isNull (p : Place) : Bool := p.addr.isNone

/-- The addresses from a pointer on. -/
def range (p : Place) : MemRange := ⟨p.addr.getD 0, p.len⟩

/-- A pointer with the bytes it points to. -/
def pointer (m : Memory) (p : Place) : Pointer :=
  match p.addr with
  | none => .null p.len
  | some _ => .mem (m.read p.range)

end Place

/-- `wolfCose_RangesOverlap` -/
def rangesOverlap (r r' : MemRange) : Prop :=
  r.len ≠ 0 ∧ r'.len ≠ 0 ∧ (r.Has r'.start ∨ r'.Has r.start)

instance (r r' : MemRange) : Decidable (rangesOverlap r r') := inferInstanceAs (Decidable (_ ∧ _))

theorem not_rangesOverlap {r r' : MemRange} :
  ¬ rangesOverlap r r' ↔ r.Disjoint r'
  := by
  rw [MemRange.disjoint_iff, rangesOverlap]
  constructor
  · intro h
    by_cases hr : r.len = 0
    · exact .inl hr
    by_cases hr' : r'.len = 0
    · exact .inr (.inl hr')
    refine .inr (.inr ⟨fun hs => h ⟨hr, hr', .inl hs⟩, fun hs => h ⟨hr, hr', .inr hs⟩⟩)
  · rintro h ⟨hr, hr', hs⟩
    obtain ⟨h₁, h₂⟩ := (h.resolve_left hr).resolve_left hr'
    rcases hs with hs | hs
    · apply h₁ hs
    · apply h₂ hs

/-- Two arguments that both are there share memory. -/
def Place.Overlaps (p q : Place) : Prop :=
  p.isNull = false ∧ q.isNull = false ∧ rangesOverlap p.range q.range

instance (p q : Place) : Decidable (p.Overlaps q) := inferInstanceAs (Decidable (_ ∧ _))

section

variable [WolfCrypt] [Settings]

/-- The arguments of the functions besides the countersigner. -/
structure AddArgs where
  input : Place
  detached : Place
  extAad : Place
  scratch : Place
  out : Place
  hasOutLen : Bool
  rng : Option Rng

/-- What is requested: the key, the algorithm, the kid and the kind of countersignature. -/
structure CounterRequest where
  key : Option Key
  alg : Int
  kid : Place
  abbreviated : Bool

namespace AddArgs

/-- All lengths pass `wolfCose_LenFitsWord32`. -/
def lengthsFit (args : AddArgs) : Prop :=
  lenFitsWord32 args.input.len = true ∧ lenFitsWord32 args.detached.len = true
    ∧ lenFitsWord32 args.extAad.len = true ∧ lenFitsWord32 args.scratch.len = true
    ∧ lenFitsWord32 args.out.len = true

omit [Settings] in
instance (args : AddArgs) : Decidable args.lengthsFit := inferInstanceAs (Decidable (_ ∧ _))

/-- The scratch buffer shares memory with another argument. -/
def scratchAliases (args : AddArgs) (kid : Place) : Prop :=
  args.scratch.Overlaps args.input ∨ args.scratch.Overlaps args.out ∨ args.scratch.Overlaps kid
    ∨ args.scratch.Overlaps args.detached ∨ args.scratch.Overlaps args.extAad

omit [Settings] in
instance (args : AddArgs) (kid : Place) : Decidable (args.scratchAliases kid) :=
  inferInstanceAs (Decidable (_ ∨ _))

end AddArgs

/-! ### Signing -/

/-- The branch of `wolfCose_CounterSignTbs` for EdDSA after the checks of the key, which does not
look at what is attached. -/
def counterSignEddsa (key : Key) (tbs : Bytes) : Signing Bytes := check do
  if haveEddsa = true ∧ key.crv = crvEd25519 then do
    failWhen (key.object.isNull = true) .coseKeyType
    let ed25519Key ← key.object.asEd25519
    orCrypto (ed25519SignMsg tbs ed25519Key)
  else if haveEd448 = true ∧ key.crv = crvEd448 then do
    failWhen (key.object.isNull = true) .coseKeyType
    let ed448Key ← key.object.asEd448
    orCrypto (ed448SignMsg tbs ed448Key)
  else throw (.err .coseBadAlg)

/-- The branch of `wolfCose_CounterSignTbs` for ML-DSA. -/
def counterSignMlDsa (key : Key) (alg : Int) (tbs : Bytes) (sigSz : Nat) (rng : Option Rng) : Signing Bytes := do
  check (mlDsaCheckKey key alg)
  let mldsaKey ← check key.object.asMldsa
  let sig ← withEnv (mlDsaSignCtx mldsaKey sigSz tbs rng)
  check (orCrypto sig)

/-- `wolfCose_CounterSignTbs` for a structure at the start of the scratch buffer and a signature
buffer of `sigSz` bytes after it. -/
def counterSignTbs (key : Key) (alg : Int) (tbs : Bytes) (sigSz : Nat) (rng : Option Rng) :
    Signing Bytes := do
  check (failWhen (key.delegated = false ∧ rng.isNone = true) .invalidArg)
  check (failWhen (lenFitsWord32 tbs.length = false ∨ lenFitsWord32 sigSz = false) .invalidArg)
  check (failWhen (keyCanSign key = false) .coseKeyType)
  check (failWhen (key.alg ≠ algUnset ∧ key.alg ≠ alg) .coseBadAlg)
  if key.delegated = true then extSignTbs key alg tbs tbs.length sigSz
  else if algIsEcdsa alg = true then do
    check (failWhen (key.kty ≠ ktyEc2) .coseKeyType)
    check (lift (algCheckCrv alg key.crv))
    check (eccKeyCheckCurve key.crv key.object)
    signEcdsa key (hashFor alg tbs) (fun _ => sigSz) rng
  else if algIsEddsa alg = true then do
    check (failWhen (key.kty ≠ ktyOkp) .coseKeyType)
    check (lift (algCheckCrv alg key.crv))
    counterSignEddsa key tbs
  else if haveRsapss = true ∧ algIsPss alg = true then signPss key (hashFor alg tbs) sigSz rng
  else if haveMldsa = true ∧ algIsMlDsa alg = true then counterSignMlDsa key alg tbs sigSz rng
  else throw (.err .coseBadAlg)

/-! ### The functions -/

/-- The checks of `wolfCose_AddCounterCommon` on its arguments. -/
def addCheck (request : CounterRequest) (args : AddArgs) : Checked Unit := do
  failWhen (request.key.isNone = true ∨ args.input.isNull = true ∨ args.scratch.isNull = true
    ∨ args.out.isNull = true ∨ args.hasOutLen = false
    ∨ (request.kid.isNull = true ∧ request.kid.len ≠ 0) ∨ (request.kid.isNull = false ∧ request.kid.len = 0)
    ∨ (args.detached.isNull = true ∧ args.detached.len ≠ 0)
    ∨ (args.extAad.isNull = true ∧ args.extAad.len ≠ 0)) .invalidArg
  failWhen (request.alg = algHssLms) .coseBadAlg
  failWhen (¬ args.lengthsFit) .invalidArg
  failWhen (args.scratchAliases request.kid) .invalidArg
  failWhen (args.out.addr ≠ args.input.addr ∧ args.input.Overlaps args.out) .invalidArg
  failWhen (request.kid.Overlaps args.out) .invalidArg

/-- What is known before anything is signed. -/
structure Prepared where
  input : Buffer
  target : CounterTarget
  protectedHdr : Bytes
  tbs : Bytes
  sigLen : Nat
  plan : AttachPlan

/-- The content of the protected bucket; an abbreviated countersignature has none. -/
def CounterRequest.protectedHdr (request : CounterRequest) : Except Err Bytes :=
  if request.abbreviated = true then .ok [] else algProtectedHdr request.alg

/-- The protected bucket as it is signed. -/
def CounterRequest.signProtected (request : CounterRequest) (protectedHdr : Bytes) : Pointer :=
  if request.abbreviated = true then .null 0 else .mem protectedHdr

/-- The steps of `wolfCose_AddCounterCommon` from the parser up to the plan. -/
def addPrepare (m : Memory) (key : Key) (request : CounterRequest) (args : AddArgs) : Checked Prepared := do
  let input := Buffer.ofBytes (m.read args.input.range)
  let target ← lift (parseCounterTarget input (args.detached.pointer m))
  let sigLen ← signSigLen (some key) request.alg
  failWhen (sigLen > args.scratch.len) .bufferTooSmall
  let protectedHdr ← lift request.protectedHdr
  let tbs ← lift (buildCounterStructure target (request.signProtected protectedHdr) (args.extAad.pointer m)
    request.abbreviated false (some (Buffer.ofBytes (m.read ⟨args.scratch.range.start, args.scratch.len - sigLen⟩))))
  let plan ← lift (planAttachCounter target input.bytes protectedHdr.length request.kid.len sigLen
    request.abbreviated args.out.len)
  return ⟨input, target, protectedHdr, tbs, sigLen, plan⟩

/-- The steps of `wolfCose_AddCounterCommon` up to the signature. -/
def addSign (m : Memory) (request : CounterRequest) (args : AddArgs) : Signing (Prepared × Bytes) := do
  check (addCheck request args)
  match request.key with
  | none => throw (.err .invalidArg)
  | some key => do
      let prepared ← check (addPrepare m key request args)
      let sig ← counterSignTbs key request.alg prepared.tbs prepared.sigLen args.rng
      check (failWhen (sig.length ≠ prepared.sigLen) .crypto)
      return (prepared, sig)

/-- The result of a call: what it returns and stores in `outLen`, the memory and the state. -/
structure AddOut where
  ret : Checked Unit
  outLen : Option Nat
  mem : Memory
  state : SignState

/-- The scratch buffer is zeroed unless it shares memory or a length is too long. -/
def zeroScratch (m : Memory) (request : CounterRequest) (args : AddArgs) : Memory :=
  if args.scratch.isNull = false ∧ args.lengthsFit ∧ ¬ args.scratchAliases request.kid then
    m.write args.scratch.range.start (List.replicate args.scratch.len 0)
  else m

/-- The countersignature that is attached.  While it is, the output buffer changes, but it is
apart from where the kid and the signature are read. -/
def newCounter (m : Memory) (request : CounterRequest) (prepared : Prepared) (sig : Bytes) : NewCounter :=
  ⟨request.abbreviated, prepared.protectedHdr, request.kid.pointer m, sig⟩

/-- `wolfCose_AddCounterCommon` -/
def addCounterCommon (m : Memory) (request : CounterRequest) (args : AddArgs) (env : Env) : AddOut :=
  let failed (e : Fault) (m : Memory) (s : SignState) : AddOut :=
    ⟨.error e, if args.hasOutLen = true then some 0 else none, zeroScratch m request args, s⟩
  match addSign m request args ⟨env, []⟩ with
  | .error e s => failed e m s
  | .ok (prepared, sig) s =>
      match attachCounter prepared.target prepared.plan prepared.input.bytes (args.out.addr = args.input.addr)
          (newCounter m request prepared sig) (m.read args.out.range) with
      | .error e out => failed e (m.write args.out.range.start out) s
      | .ok outLen out => ⟨.ok (), some outLen, zeroScratch (m.write args.out.range.start out) request args, s⟩

/-- A countersigner `WOLFCOSE_COUNTERSIGNATURE`. -/
structure Countersigner where
  algId : Int
  key : Option Key
  kid : Place

/-- A countersigner `WOLFCOSE_COUNTERSIGNATURE0`. -/
structure Countersigner0 where
  algId : Int
  key : Option Key

/-- What a countersigner requests. -/
def Countersigner.request (signer : Countersigner) : CounterRequest :=
  ⟨signer.key, signer.algId, signer.kid, false⟩

/-- What an abbreviated countersigner requests: there is no kid. -/
def Countersigner0.request (signer : Countersigner0) : CounterRequest :=
  ⟨signer.key, signer.algId, ⟨none, 0⟩, true⟩

/-- Both functions with a missing countersigner, or with what it requests. -/
def addCounter (m : Memory) (request : Option CounterRequest) (args : AddArgs) (env : Env) : AddOut :=
  match request with
  | none => ⟨.error (.err .invalidArg), if args.hasOutLen = true then some 0 else none, m, ⟨env, []⟩⟩
  | some request => addCounterCommon m request args env

/-- `wc_Cose_AddCounterSignature` -/
def addCounterSignature (m : Memory) (counterSigner : Option Countersigner) (args : AddArgs) (env : Env) : AddOut :=
  addCounter m (counterSigner.map Countersigner.request) args env

/-- `wc_Cose_AddCounterSignature0` -/
def addCounterSignature0 (m : Memory) (counterSigner : Option Countersigner0) (args : AddArgs) (env : Env) :
    AddOut :=
  addCounter m (counterSigner.map Countersigner0.request) args env

/-! ### What is signed -/

theorem runs_counterSignEddsa {key : Key} {alg : Int} {tbs sig : Bytes} {rng : Option Rng} {scratchSz : Nat}
    {s s' : SignState} (halg : algIsEddsa alg = true) (h : Runs (counterSignEddsa key tbs) s sig s') :
  key.object.MakesFor alg rng scratchSz s.env tbs sig s'.env
  := by
  apply KeyObject.Makes.unhashed (.inl halg)
  rw [counterSignEddsa, runs_check] at h
  obtain ⟨h, rfl⟩ := h
  split at h
  · simp only [bind_eq_ok, KeyObject.asEd25519_eq_ok, orCrypto_eq_ok] at h
    obtain ⟨_, -, ed25519Key, hobj, hsig⟩ := h
    rw [hobj]
    apply KeyObject.Makes.ed25519 hsig rfl
  split at h
  · simp only [bind_eq_ok, KeyObject.asEd448_eq_ok, orCrypto_eq_ok] at h
    obtain ⟨_, -, ed448Key, hobj, hsig⟩ := h
    rw [hobj]
    apply KeyObject.Makes.ed448 hsig rfl
  · cases h

theorem runs_counterSignMlDsa {key : Key} {alg : Int} {tbs sig : Bytes} {rng : Option Rng} {sigSz : Nat}
    {s s' : SignState} (halg : algIsMlDsa alg = true) (hsz : sigSize alg = .ok sigSz)
    (h : Runs (counterSignMlDsa key alg tbs sigSz rng) s sig s') :
  key.object.MakesFor alg rng sigSz s.env tbs sig s'.env
  := by
  apply KeyObject.Makes.unhashed (.inr halg)
  simp only [counterSignMlDsa, runs_bind, runs_check, runs_withEnv, orCrypto_eq_ok,
    KeyObject.asMldsa_eq_ok] at h
  obtain ⟨_, _, ⟨-, rfl⟩, mldsaKey, _, ⟨hobj, rfl⟩, _, _, ⟨rfl, rfl⟩, hsig, rfl⟩ := h
  rw [hobj]
  apply KeyObject.Makes.mldsa hsz (Prod.ext hsig rfl)

/-- A step that succeeds has made a signature with the key. -/
theorem runs_counterSignTbs {key : Key} {alg : Int} {tbs sig : Bytes} {rng : Option Rng} {sigSz : Nat}
    {s s' : SignState} (hsz : signSigLen (some key) alg = .ok sigSz)
    (h : Runs (counterSignTbs key alg tbs sigSz rng) s sig s') :
  key.Made alg rng sigSz tbs sig s s'
  := by
  simp only [counterSignTbs, runs_bind, runs_check] at h
  obtain ⟨_, _, ⟨-, rfl⟩, _, _, ⟨-, rfl⟩, _, _, ⟨-, rfl⟩, _, _, ⟨-, rfl⟩, h⟩ := h
  unfold Key.Made
  split at h
  · rename_i hdel
    rw [if_pos hdel]
    apply (runs_extSignTbs (fun _ => Nat.le_refl _) h).2
  rename_i hlocal
  rw [if_neg hlocal]
  split at h
  · rename_i halg
    simp only [runs_bind, runs_check, lift_eq_ok] at h
    obtain ⟨_, _, ⟨-, rfl⟩, _, _, ⟨hcrv, rfl⟩, _, _, ⟨-, rfl⟩, h⟩ := h
    apply runs_signEcdsa halg hcrv (fun _ => hashFor_ok) h
  split at h
  · rename_i halg
    simp only [runs_bind, runs_check] at h
    obtain ⟨_, _, ⟨-, rfl⟩, _, _, ⟨-, rfl⟩, h⟩ := h
    apply runs_counterSignEddsa halg h
  split at h
  · rename_i halg
    apply runs_signPss halg.2 (fun _ => hashFor_ok) h
  split at h
  · rename_i halg
    have hval := algIsMlDsa_values halg.2
    apply runs_counterSignMlDsa halg.2 _ h
    apply signSigLen_sigSize hsz
    · intro he
      have := he.value
      omega
    · intro hp
      have := hp.values
      omega
    · intro hl
      have : alg = -46 := hl
      omega
  · cases h

/-! ### The layout of the arguments -/

/-- Arguments that pass the checks. -/
structure AddLayout (m : Memory) (request : CounterRequest) (args : AddArgs) (key : Key) : Prop where
  key : request.key = some key
  input : args.input.isNull = false
  scratch : args.scratch.isNull = false
  out : args.out.isNull = false
  hasOutLen : args.hasOutLen = true
  kid : kidConsistent (request.kid.pointer m)
  alg : request.alg ≠ algHssLms
  lengths : args.lengthsFit
  apart : ¬ args.scratchAliases request.kid
  inPlace : args.out.addr = args.input.addr ∨ args.input.range.Disjoint args.out.range
  kidApart : request.kid.isNull = false → request.kid.range.Disjoint args.out.range

omit [WolfCrypt] [Settings] in
@[simp]
theorem Place.isNull_pointer (m : Memory) (p : Place) :
  (p.pointer m).isNull = p.isNull
  := by
  unfold pointer isNull
  cases p.addr with
  | none => rfl
  | some a => rfl

omit [WolfCrypt] [Settings] in
@[simp]
theorem Place.len_pointer (m : Memory) (p : Place) :
  (p.pointer m).len = p.len
  := by
  unfold pointer
  cases p.addr with
  | none => rfl
  | some a => exact m.length_read _

omit [Settings] in
theorem addCheck_ok {m : Memory} {request : CounterRequest} {args : AddArgs}
    (h : addCheck request args = .ok ()) :
  ∃ key, AddLayout m request args key
  := by
  simp only [addCheck, bind_eq_ok, failWhen_eq_ok, not_or, not_and, Decidable.not_not] at h
  obtain ⟨_, ⟨hkey, hinput, hscratch, hout, hlen, hkid, hkid', -, -⟩, _, halg, _, hlengths, _, hapart, _, hplace,
    hkidApart⟩ := h
  obtain ⟨key, hkey⟩ := Option.ne_none_iff_exists'.mp (Option.isNone_iff_eq_none.not.mp hkey)
  rw [Bool.not_eq_true] at hinput hscratch hout
  rw [Bool.not_eq_false] at hlen
  refine ⟨key, hkey, hinput, hscratch, hout, hlen, ?_, halg, hlengths, hapart, ?_, ?_⟩
  · rw [kidConsistent, Place.isNull_pointer, Place.len_pointer]
    constructor
    · intro h
      apply Nat.pos_of_ne_zero (hkid' h)
    · intro h
      by_contra hn
      rw [Bool.not_eq_false] at hn
      apply absurd (hkid hn) (Nat.pos_iff_ne_zero.mp h)
  · by_cases ha : args.out.addr = args.input.addr
    · exact .inl ha
    · right
      rw [← not_rangesOverlap]
      exact fun h => hplace ha ⟨hinput, hout, h⟩
  · intro hk
    rw [← not_rangesOverlap]
    exact fun h => hkidApart ⟨hk, hout, h⟩

omit [WolfCrypt] in
theorem le_sizeMax_of_fits {n : Nat} (h : lenFitsWord32 n = true) :
  n ≤ sizeMax
  := by
  have hn : n ≤ 0xFFFFFFFF := of_decide_eq_true h
  rcases Settings.sizeMax_eq with he | he
  all_goals omega

/-- What the steps up to the plan have found. -/
structure PreparedFor (m : Memory) (key : Key) (request : CounterRequest) (args : AddArgs) (prepared : Prepared) :
    Prop where
  input : prepared.input = .ofBytes (m.read args.input.range)
  target : parseCounterTarget prepared.input (args.detached.pointer m) = .ok prepared.target
  sigLen : signSigLen (some key) request.alg = .ok prepared.sigLen
  protectedHdr : request.protectedHdr = .ok prepared.protectedHdr
  tbs : prepared.tbs = (counterStructure prepared.target (request.signProtected prepared.protectedHdr)
    (args.extAad.pointer m) request.abbreviated false).bytes
  room : prepared.tbs.length + prepared.sigLen ≤ args.scratch.len
  plan : planAttachCounter prepared.target prepared.input.bytes prepared.protectedHdr.length request.kid.len
    prepared.sigLen request.abbreviated args.out.len = .ok prepared.plan

theorem addPrepare_ok {m : Memory} {key : Key} {request : CounterRequest} {args : AddArgs} {prepared : Prepared}
    (h : addPrepare m key request args = .ok prepared) :
  PreparedFor m key request args prepared
  := by
  simp only [addPrepare, bind_eq_ok, lift_eq_ok, failWhen_eq_ok, pure_eq_ok] at h
  obtain ⟨target, htarget, sigLen, hsigLen, _, hroom, protectedHdr, hprot, tbs, htbs, plan, hplan, rfl⟩ := h
  rw [buildCounterStructure_eq_ok] at htbs
  obtain ⟨-, -, -, -, -, ⟨buf, hbuf, hle⟩, htbs⟩ := htbs
  rw [← Option.some.inj hbuf, Buffer.bytes, Buffer.ofBytes, List.length_take, Memory.length_read] at hle
  constructor
  · rfl
  · exact htarget
  · exact hsigLen
  · exact hprot
  · exact htbs
  · dsimp only at hle ⊢
    omega
  · exact hplan

/-- A countersignature is put into a message in any buffer with room for the result, also where the
message lies there already; nothing outside of the result is accessed. -/
def Prepared.AttachesAs (prepared : Prepared) (counter : NewCounter) (message : Bytes) : Prop :=
  ∀ (inPlace : Bool) (out : Bytes), prepared.plan.finalLen ≤ out.length → out.length ≤ sizeMax →
    (inPlace = true → out.take prepared.input.bytes.length = prepared.input.bytes) →
    Runs (attachCounter prepared.target prepared.plan prepared.input.bytes inPlace counter) out
      prepared.plan.finalLen (message ++ out.drop prepared.plan.finalLen)

/-- With a signature of the expected length a countersignature is put into the message as planned. -/
theorem PreparedFor.attaches {m : Memory} {key : Key} {request : CounterRequest} {args : AddArgs}
    {prepared : Prepared} (hlayout : AddLayout m request args key) (h : PreparedFor m key request args prepared)
    {sig : Bytes} (hsig : sig.length = prepared.sigLen) :
  ∃ p es, CounterMessage (args.detached.pointer m) prepared.input p prepared.target
    ∧ prepared.plan.Attaches p (newCounter m request prepared sig) es
    ∧ prepared.plan.finalLen ≤ args.out.len ∧ args.input.len ≤ prepared.plan.finalLen
    ∧ prepared.AttachesAs (newCounter m request prepared sig) (p.withEntries es).bytes
  := by
  obtain ⟨p, hp⟩ := parseCounterTarget_eq_ok.mp h.target
  have hplan : planAttachCounter prepared.target prepared.input.bytes
      (newCounter m request prepared sig).protectedHdr.length (newCounter m request prepared sig).kid.len
      (newCounter m request prepared sig).sig.length (newCounter m request prepared sig).abbreviated args.out.len
      = .ok prepared.plan := by
    rw [newCounter]
    dsimp only
    rw [Place.len_pointer, hsig, h.plan]
  obtain ⟨es, hes, hruns⟩ := runs_attachCounter hp hlayout.kid hplan
  obtain ⟨hle, hcases⟩ := planAttachCounter_eq_ok hlayout.kid hplan
  have hinput : prepared.input.bytes.length = args.input.len := by
    rw [h.input, Buffer.bytes_ofBytes (by rw [Memory.length_read]; exact le_sizeMax_of_fits hlayout.lengths.1),
      Memory.length_read]
    rfl
  refine ⟨p, es, hp, hes, hle, ?_, hruns⟩
  rcases hcases with hentry | ⟨r, span, hrepl⟩
  · rw [hentry.finalLen, ← hinput]
    apply Nat.le_add_right
  · rw [hrepl.finalLen, ← hinput]
    apply Nat.le_add_right

/-! ### How a call ends -/

theorem runs_addSign {m : Memory} {request : CounterRequest} {args : AddArgs} {env : Env} {prepared : Prepared}
    {sig : Bytes} {s : SignState} :
  Runs (addSign m request args) ⟨env, []⟩ (prepared, sig) s
    ↔ addCheck request args = .ok () ∧ ∃ key, request.key = some key ∧ addPrepare m key request args = .ok prepared
      ∧ Runs (counterSignTbs key request.alg prepared.tbs prepared.sigLen args.rng) ⟨env, []⟩ sig s
      ∧ sig.length = prepared.sigLen
  := by
  simp only [addSign, runs_bind, runs_check]
  constructor
  · rintro ⟨_, _, ⟨hcheck, rfl⟩, h⟩
    split at h
    · cases h
    rename_i key hkey
    simp only [runs_bind, runs_check, runs_pure, failWhen_eq_ok, ne_eq, Decidable.not_not] at h
    obtain ⟨_, _, ⟨hprep, rfl⟩, _, _, hsig, _, _, ⟨hlen, rfl⟩, he, rfl⟩ := h
    obtain ⟨rfl, rfl⟩ := Prod.mk.inj he
    exact ⟨hcheck, key, hkey, hprep, hsig, hlen⟩
  · rintro ⟨hcheck, key, hkey, hprep, hsig, hlen⟩
    refine ⟨(), _, ⟨hcheck, rfl⟩, ?_⟩
    rw [hkey]
    simp only [runs_bind, runs_check, runs_pure, failWhen_eq_ok, ne_eq, Decidable.not_not]
    exact ⟨prepared, _, ⟨hprep, rfl⟩, sig, s, hsig, (), s, ⟨hlen, rfl⟩, rfl, rfl⟩

omit [Settings] in
/-- Zeroing the scratch buffer leaves the arguments that are apart from it. -/
theorem pointer_zeroScratch {m : Memory} {request : CounterRequest} {args : AddArgs} {p : Place}
    (h : ¬ args.scratchAliases request.kid → ¬ args.scratch.Overlaps p) :
  p.pointer (zeroScratch m request args) = p.pointer m
  := by
  unfold zeroScratch
  split
  · rename_i hz
    have hno := h hz.2.2
    unfold Place.pointer
    split
    · rfl
    · rename_i a ha
      have hp : p.isNull = false := by rw [Place.isNull, ha, Option.isNone_some]
      have hdisj := not_rangesOverlap.mp fun ho => hno ⟨hz.1, hp, ho⟩
      rw [Memory.read_write_disjoint]
      rw [List.length_replicate]
      apply hdisj.symm
  · rfl

omit [Settings] in
/-- The bytes that are put at the start of the output buffer are there after a call. -/
theorem read_zeroScratch_write {m : Memory} {request : CounterRequest} {args : AddArgs} {key : Key}
    (hlayout : AddLayout m request args key) {message : Bytes} (hlen : message.length ≤ args.out.len) :
  (zeroScratch (m.write args.out.range.start message) request args).read ⟨args.out.range.start, message.length⟩
    = message
  := by
  have hout : ¬ args.scratch.Overlaps args.out := fun h => hlayout.apart (.inr (.inl h))
  have hpointer : args.out.pointer (zeroScratch (m.write args.out.range.start message) request args)
      = args.out.pointer (m.write args.out.range.start message) := pointer_zeroScratch fun _ => hout
  have hread (m' : Memory) : args.out.pointer m' = .mem (m'.read args.out.range) := by
    obtain ⟨a, ha⟩ := Option.isSome_iff_exists.mp (Option.isNone_eq_false_iff.mp hlayout.out)
    rw [Place.pointer, ha]
  rw [hread, hread] at hpointer
  have htake := congrArg (List.take message.length) (Pointer.mem.inj hpointer)
  have hrange : args.out.range = ⟨args.out.range.start, args.out.len⟩ := rfl
  rw [hrange, Memory.take_read _ hlen, Memory.take_read _ hlen, Memory.read_write] at htake
  exact htake

/-- Where everything is prepared, a signature of the expected length is attached. -/
theorem addCounterCommon_of_runs {m : Memory} {request : CounterRequest} {args : AddArgs} {env : Env} {key : Key}
    {prepared : Prepared} {sig : Bytes} {s : SignState} (hlayout : AddLayout m request args key)
    (hruns : Runs (addSign m request args) ⟨env, []⟩ (prepared, sig) s) {message : Bytes} (hlen : message.length = prepared.plan.finalLen)
    (hattach : prepared.AttachesAs (newCounter m request prepared sig) message) :
  addCounterCommon m request args env
    = ⟨.ok (), some prepared.plan.finalLen, zeroScratch (m.write args.out.range.start message) request args, s⟩
  := by
  obtain ⟨-, key', hkey, hprep, -, hsig⟩ := runs_addSign.mp hruns
  obtain rfl := Option.some.inj (hkey.symm.trans hlayout.key)
  have hprepared := addPrepare_ok hprep
  obtain ⟨_, _, -, -, hle, hinput, -⟩ := hprepared.attaches hlayout hsig
  have hread : (m.read args.out.range).length = args.out.len := m.length_read _
  have hbytes : prepared.input.bytes = m.read args.input.range := by
    rw [hprepared.input]
    apply Buffer.bytes_ofBytes
    rw [Memory.length_read]
    apply le_sizeMax_of_fits hlayout.lengths.1
  have hsame : decide (args.out.addr = args.input.addr) = true →
      (m.read args.out.range).take prepared.input.bytes.length = prepared.input.bytes := by
    intro h
    have hstart : args.out.range = ⟨args.input.range.start, args.out.len⟩ := by
      unfold Place.range
      rw [of_decide_eq_true h]
    rw [hbytes, Memory.length_read, hstart, Memory.take_read]
    exact hinput.trans hle
  have hrun := hattach (decide (args.out.addr = args.input.addr)) (m.read args.out.range)
    (by rwa [hread]) (by rw [hread]; exact le_sizeMax_of_fits hlayout.lengths.2.2.2.2) hsame
  unfold Runs at hruns hrun
  unfold addCounterCommon
  rw [hruns]
  dsimp only
  rw [hrun]
  dsimp only
  rw [← hlen, Memory.write_append_drop_read]

/-- What a call that fails leaves behind. -/
def AddOut.Failed (r : AddOut) (m : Memory) (request : CounterRequest) (args : AddArgs) : Prop :=
  r.mem = zeroScratch m request args ∧ r.outLen = if args.hasOutLen = true then some 0 else none

/-- What a call that succeeds has done: the message with the new entries is at the start of the
output buffer. -/
structure Added (m : Memory) (request : CounterRequest) (args : AddArgs) (env : Env) (r : AddOut) (key : Key)
    (prepared : Prepared) (sig : Bytes) (p : CounterParts) (es : List Entry) : Prop where
  layout : AddLayout m request args key
  prepare : addPrepare m key request args = .ok prepared
  sign : Runs (counterSignTbs key request.alg prepared.tbs prepared.sigLen args.rng) ⟨env, []⟩ sig r.state
  length : sig.length = prepared.sigLen
  message : CounterMessage (args.detached.pointer m) prepared.input p prepared.target
  attaches : prepared.plan.Attaches p (newCounter m request prepared sig) es
  attachesAs : prepared.AttachesAs (newCounter m request prepared sig) (p.withEntries es).bytes
  finalLen : prepared.plan.finalLen ≤ args.out.len
  ret : r.ret = .ok ()
  outLen : r.outLen = some prepared.plan.finalLen
  mem : r.mem = zeroScratch (m.write args.out.range.start (p.withEntries es).bytes) request args

/-- A call fails and leaves the message and the output buffer, or succeeds and attaches a
countersignature. -/
theorem addCounterCommon_cases (m : Memory) (request : CounterRequest) (args : AddArgs) (env : Env) :
  ((∃ e, (addCounterCommon m request args env).ret = .error e)
      ∧ (addCounterCommon m request args env).Failed m request args)
    ∨ ∃ key prepared sig p es, Added m request args env (addCounterCommon m request args env) key prepared sig p es
  := by
  cases h : addSign m request args ⟨env, []⟩ with
  | error e s =>
      left
      unfold addCounterCommon
      rw [h]
      exact ⟨⟨e, rfl⟩, rfl, rfl⟩
  | ok r s =>
      obtain ⟨prepared, sig⟩ := r
      right
      obtain ⟨hcheck, key, hkey, hprep, hsign, hsig⟩ := runs_addSign.mp h
      obtain ⟨key', hlayout⟩ := addCheck_ok (m := m) hcheck
      obtain rfl := Option.some.inj (hkey.symm.trans hlayout.key)
      obtain ⟨p, es, hp, hes, hle, -, hruns⟩ := (addPrepare_ok hprep).attaches hlayout hsig
      have heq := addCounterCommon_of_runs hlayout h hes.2 hruns
      refine ⟨key, prepared, sig, p, es, hlayout, hprep, ?_, hsig, hp, hes, hruns, hle, ?_, ?_, ?_⟩
      all_goals rw [heq]
      exact hsign

/-- A call with a missing countersigner. -/
theorem addCounter_none (m : Memory) (args : AddArgs) (env : Env) :
  addCounter m none args env
    = ⟨.error (.err .invalidArg), if args.hasOutLen = true then some 0 else none, m, ⟨env, []⟩⟩
  := rfl

/-- The message and the output buffer are left by a call that fails. -/
theorem addCounter_failed {m : Memory} {request : Option CounterRequest} {args : AddArgs} {env : Env}
    (h : (addCounter m request args env).ret ≠ .ok ()) :
  args.input.pointer (addCounter m request args env).mem = args.input.pointer m
    ∧ args.out.pointer (addCounter m request args env).mem = args.out.pointer m
    ∧ (args.hasOutLen = true → (addCounter m request args env).outLen = some 0)
  := by
  cases request with
  | none =>
      refine ⟨rfl, rfl, ?_⟩
      intro hout
      rw [addCounter_none, if_pos hout]
  | some request =>
      change (addCounterCommon m request args env).ret ≠ .ok () at h
      rcases addCounterCommon_cases m request args env with ⟨-, hmem, hlen⟩ | ⟨_, _, _, _, _, hadded⟩
      · change args.input.pointer (addCounterCommon m request args env).mem = _
          ∧ args.out.pointer (addCounterCommon m request args env).mem = _
          ∧ (_ → (addCounterCommon m request args env).outLen = _)
        rw [hmem, hlen]
        refine ⟨pointer_zeroScratch fun hno ho => hno (.inl ho),
          pointer_zeroScratch fun hno ho => hno (.inr (.inl ho)), ?_⟩
        intro hout
        rw [if_pos hout]
      · exact absurd hadded.ret h

end

end WolfCose
