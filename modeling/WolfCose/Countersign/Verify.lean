import WolfCose.Countersign.Add
import WolfCose.Sig.Sign

/-!
# Verifying a countersignature

`wc_Cose_VerifyCounterSignature` and `wc_Cose_VerifyCounterSignature0` of `wolfcose_countersign.c`.  The scratch buffer
has to be apart from everything else, also from the header that is returned, so the functions work on the memory in
which their arguments lie.
-/

namespace WolfCose

open Program Cbor Settings WolfCrypt

section

variable [WolfCrypt] [Settings]

/-- `wolfCose_CounterVerifyTbs` with a scratch buffer of `scratchSz` bytes. -/
def counterVerifyTbs (key : Key) (alg : Int) (tbs sig : Bytes) (scratchSz : Nat) : Checked Unit := do
  failWhen (lenFitsWord32 tbs.length = false ∨ lenFitsWord32 sig.length = false ∨
    lenFitsWord32 scratchSz = false) .invalidArg
  failWhen (key.alg ≠ algUnset ∧ key.alg ≠ alg) .coseBadAlg
  if algIsEddsa alg = true then verifyEddsa key alg tbs sig
  else if algIsEcdsa alg = true then verifyEcdsa false key alg (hashFor alg tbs) sig
  else if haveRsapss = true ∧ algIsPss alg = true then verifyPss key (hashFor alg tbs) sig scratchSz
  else if haveMldsa = true ∧ algIsMlDsa alg = true then verifyMlDsa key alg tbs sig
  else throw (.err .coseBadAlg)

/-- The arguments of `wc_Cose_VerifyCounterSignature`, with the place of the header that it returns. -/
structure CounterVerifyArgs where
  key : Option Key
  counterIndex : Nat
  input : Place
  detached : Place
  extAad : Place
  scratch : Place
  counterHdr : Place

namespace CounterVerifyArgs

/-- All lengths pass `wolfCose_LenFitsWord32`. -/
def lengthsFit (args : CounterVerifyArgs) : Prop :=
  lenFitsWord32 args.input.len = true ∧ lenFitsWord32 args.detached.len = true
    ∧ lenFitsWord32 args.extAad.len = true ∧ lenFitsWord32 args.scratch.len = true

omit [Settings] in
instance (args : CounterVerifyArgs) : Decidable args.lengthsFit := inferInstanceAs (Decidable (_ ∧ _))

/-- The scratch buffer shares memory with another argument. -/
def scratchAliases (args : CounterVerifyArgs) : Prop :=
  args.scratch.Overlaps args.input ∨ args.scratch.Overlaps args.detached ∨ args.scratch.Overlaps args.extAad
    ∨ args.scratch.Overlaps args.counterHdr

omit [Settings] in
instance (args : CounterVerifyArgs) : Decidable args.scratchAliases := inferInstanceAs (Decidable (_ ∨ _))

end CounterVerifyArgs

/-- The checks of `wc_Cose_VerifyCounterSignature` on its arguments. -/
def counterVerifyCheck (args : CounterVerifyArgs) : Checked Unit :=
  failWhen (args.key.isNone = true ∨ args.input.isNull = true ∨ args.scratch.isNull = true
    ∨ args.counterHdr.isNull = true ∨ (args.detached.isNull = true ∧ args.detached.len ≠ 0)
    ∨ (args.extAad.isNull = true ∧ args.extAad.len ≠ 0) ∨ (args.lengthsFit ∧ args.scratchAliases)
    ∨ ¬ args.lengthsFit) .invalidArg

/-- The value under a label or else under its legacy label, and whether it is that of the legacy label. -/
def labelledValue (span legacySpan : Option Span) : Checked (Span × Bool) :=
  match span, legacySpan with
  | some span, _ => return (span, false)
  | none, some span => return (span, true)
  | none, none => throw (.err .coseBadHdr)

/-- The value with the full countersignatures. -/
def counterValue (spans : CounterSpans) : Checked (Span × Bool) :=
  labelledValue spans.full spans.legacyFull

/-- A countersignature as it is verified: the target, its own headers and signature, whether it is a legacy one, and the
bytes to be signed. -/
structure CounterFound where
  target : CounterTarget
  headers : Headers
  sig : Bytes
  legacy : Bool
  tbs : Bytes

/-- The steps of `wc_Cose_VerifyCounterSignature` that find the countersignature and build its structure. -/
def counterVerifyFind (m : Memory) (key : Key) (args : CounterVerifyArgs) : Checked CounterFound := do
  let input := Buffer.ofBytes (m.read args.input.range)
  let target ← lift (parseCounterTarget input (args.detached.pointer m))
  let (span, legacy) ← counterValue target.spans
  let selected ← lift (selectFullCounter ((input.bytes.drop span.start).take (span.stop - span.start))
    args.counterIndex)
  let (headers, sig) ← decodeBuffer decodeFullCounter (.ofBytes selected)
  failWhen (headers.algProtected = false ∧ (key.alg = algUnset ∨ key.alg ≠ headers.hdr.alg)) .coseBadAlg
  let tbs ← lift (buildCounterStructure target (.mem headers.protectedData) (args.extAad.pointer m) false legacy
    (some (Buffer.ofBytes (m.read args.scratch.range))))
  return ⟨target, headers, sig, legacy, tbs⟩

/-- The steps of `wc_Cose_VerifyCounterSignature`; the result is the header. -/
def counterVerifyMessage (m : Memory) (args : CounterVerifyArgs) : Checked Hdr := do
  counterVerifyCheck args
  match args.key with
  | none => throw (.err .invalidArg)
  | some key => do
      let found ← counterVerifyFind m key args
      counterVerifyTbs key found.headers.hdr.alg found.tbs found.sig args.scratch.len
      return found.headers.hdr

/-- The result of a call: what it returns, the header that it stores, and the memory. -/
structure CounterVerifyOut where
  ret : Checked Unit
  hdr : Option Hdr
  mem : Memory

/-- `wc_Cose_VerifyCounterSignature`; a header that cannot be told is zeroed, and so is the scratch buffer unless it
shares memory or a length is too long. -/
def verifyCounterSignature (m : Memory) (args : CounterVerifyArgs) : CounterVerifyOut :=
  let mem :=
    if args.scratch.isNull = false ∧ args.lengthsFit ∧ ¬ args.scratchAliases then
      m.write args.scratch.range.start (List.replicate args.scratch.len 0)
    else m
  match counterVerifyMessage m args with
  | .ok hdr => ⟨.ok (), some hdr, mem⟩
  | .error fault => ⟨.error fault, if args.counterHdr.isNull = true then none else some .zero, mem⟩

/-! ### What is verified -/

theorem counterVerifyTbs_ok {key : Key} {alg : Int} {tbs sig : Bytes} {scratchSz : Nat}
    (h : counterVerifyTbs key alg tbs sig scratchSz = .ok ()) :
  (key.alg ≠ algUnset → key.alg = alg) ∧ key.Verified alg tbs sig
  := by
  simp only [counterVerifyTbs, bind_eq_ok, failWhen_eq_ok] at h
  obtain ⟨_, -, _, hpin, h⟩ := h
  constructor
  · intro hset
    by_contra hne
    exact hpin ⟨hset, hne⟩
  split at h
  · apply verifyEddsa_ok _ h
    assumption
  split at h
  · apply verifyEcdsa_ok _ (fun _ => hashFor_ok) h
    assumption
  split at h
  · rename_i hpss
    apply verifyPss_ok hpss.2 (fun _ => hashFor_ok) h
  split at h
  · apply verifyMlDsa_ok h
  · cases h

/-- What a successful verification of a countersignature establishes. -/
structure CounterVerified (m : Memory) (args : CounterVerifyArgs) (key : Key) (found : CounterFound) : Prop where
  target : parseCounterTarget (.ofBytes (m.read args.input.range)) (args.detached.pointer m) = .ok found.target
  selected : ∃ span selected, counterValue found.target.spans = .ok (span, found.legacy)
    ∧ selectFullCounter (((Buffer.ofBytes (m.read args.input.range)).bytes.drop span.start).take
      (span.stop - span.start)) args.counterIndex = .ok selected
    ∧ decodeBuffer decodeFullCounter (.ofBytes selected) = .ok (found.headers, found.sig)
  pinned : key.alg ≠ algUnset → key.alg = found.headers.hdr.alg
  protected_of_unset : key.alg = algUnset → found.headers.algProtected = true
  verified : key.Verified found.headers.hdr.alg (counterStructure found.target (.mem found.headers.protectedData)
    (args.extAad.pointer m) false found.legacy).bytes found.sig

/-- A call that succeeds has verified a countersignature of the message. -/
theorem verifyCounterSignature_ok {m : Memory} {args : CounterVerifyArgs}
    (h : (verifyCounterSignature m args).ret = .ok ()) :
  ∃ key found, args.key = some key ∧ (verifyCounterSignature m args).hdr = some found.headers.hdr
    ∧ CounterVerified m args key found
  := by
  unfold verifyCounterSignature at h ⊢
  cases hret : counterVerifyMessage m args with
  | error fault =>
      rw [hret] at h
      cases h
  | ok hdr =>
      simp only [counterVerifyMessage, bind_eq_ok] at hret
      obtain ⟨_, -, hret⟩ := hret
      split at hret
      · cases hret
      rename_i key hkey
      simp only [counterVerifyFind, bind_eq_ok, lift_eq_ok, failWhen_eq_ok, pure_eq_ok,
        buildCounterStructure_eq_ok] at hret
      obtain ⟨found, ⟨target, htarget, ⟨span, legacy⟩, hspan, selected, hselected, ⟨headers, sig⟩, hdec, _, hprot, tbs,
        ⟨-, -, -, -, -, -, rfl⟩, rfl⟩, _, hverify, rfl⟩ := hret
      obtain ⟨hpin, hverified⟩ := counterVerifyTbs_ok hverify
      refine ⟨key, _, hkey, rfl, htarget, ⟨span, selected, hspan, hselected, hdec⟩, hpin, ?_, hverified⟩
      intro hunset
      by_contra hne
      exact hprot ⟨by simpa using hne, .inl hunset⟩

/-! ### Abbreviated countersignatures -/

/-- The arguments of `wc_Cose_VerifyCounterSignature0`. -/
structure CounterVerifyArgs0 where
  counterSigner : Option Countersigner0
  input : Place
  detached : Place
  extAad : Place
  scratch : Place

namespace CounterVerifyArgs0

/-- All lengths pass `wolfCose_LenFitsWord32`. -/
def lengthsFit (args : CounterVerifyArgs0) : Prop :=
  lenFitsWord32 args.input.len = true ∧ lenFitsWord32 args.detached.len = true
    ∧ lenFitsWord32 args.extAad.len = true ∧ lenFitsWord32 args.scratch.len = true

omit [Settings] in
instance (args : CounterVerifyArgs0) : Decidable args.lengthsFit := inferInstanceAs (Decidable (_ ∧ _))

/-- The scratch buffer shares memory with another argument. -/
def scratchAliases (args : CounterVerifyArgs0) : Prop :=
  args.scratch.Overlaps args.input ∨ args.scratch.Overlaps args.detached ∨ args.scratch.Overlaps args.extAad

omit [Settings] in
instance (args : CounterVerifyArgs0) : Decidable args.scratchAliases := inferInstanceAs (Decidable (_ ∨ _))

/-- The key of the countersigner. -/
def key (args : CounterVerifyArgs0) : Option Key := args.counterSigner.bind Countersigner0.key

end CounterVerifyArgs0

/-- The checks of `wc_Cose_VerifyCounterSignature0` on its arguments. -/
def counterVerifyCheck0 (args : CounterVerifyArgs0) : Checked Unit :=
  failWhen (args.counterSigner.isNone = true ∨ args.key.isNone = true ∨ args.input.isNull = true
    ∨ args.scratch.isNull = true ∨ (args.detached.isNull = true ∧ args.detached.len ≠ 0)
    ∨ (args.extAad.isNull = true ∧ args.extAad.len ≠ 0) ∨ (args.lengthsFit ∧ args.scratchAliases)
    ∨ ¬ args.lengthsFit) .invalidArg

/-- The value with the abbreviated countersignature. -/
def counterValue0 (spans : CounterSpans) : Checked (Span × Bool) :=
  labelledValue spans.abbreviated spans.legacyAbbreviated

/-- The signature of an abbreviated countersignature is a byte string and nothing else. -/
def decodeCounter0 : Dec Bytes := do
  let sig ← decodeBstr
  decodeEnd
  return sig

/-- The steps of `wc_Cose_VerifyCounterSignature0` after its checks, with the algorithm and the key of the
countersigner. -/
def counterVerifyMessage0 (m : Memory) (algId : Int) (key : Key) (args : CounterVerifyArgs0) : Checked Unit := do
  let input := Buffer.ofBytes (m.read args.input.range)
  let target ← lift (parseCounterTarget input (args.detached.pointer m))
  let (span, legacy) ← counterValue0 target.spans
  let sig ← decodeBuffer decodeCounter0 (.ofBytes ((input.bytes.drop span.start).take (span.stop - span.start)))
  let tbs ← lift (buildCounterStructure target (.null 0) (args.extAad.pointer m) true legacy
    (some (Buffer.ofBytes (m.read args.scratch.range))))
  counterVerifyTbs key algId tbs sig args.scratch.len

/-- The result of a call: what it returns, and the memory. -/
structure CounterVerifyOut0 where
  ret : Checked Unit
  mem : Memory

/-- `wc_Cose_VerifyCounterSignature0`; the scratch buffer is zeroed unless it shares memory or a length is too long. -/
def verifyCounterSignature0 (m : Memory) (args : CounterVerifyArgs0) : CounterVerifyOut0 where
  ret := do
    counterVerifyCheck0 args
    match args.counterSigner with
    | some ⟨algId, some key⟩ => counterVerifyMessage0 m algId key args
    | _ => throw (.err .invalidArg)
  mem :=
    if args.scratch.isNull = false ∧ args.lengthsFit ∧ ¬ args.scratchAliases then
      m.write args.scratch.range.start (List.replicate args.scratch.len 0)
    else m

end

end WolfCose
