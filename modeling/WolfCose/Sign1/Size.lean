import WolfCose.Sign1.RoundTrip

/-!
# The size of a COSE_Sign1 message

`wc_CoseSign1_SignSize_ex` computes from lengths alone what `wc_CoseSign1_Sign_ex` writes.  Its sums
do not wrap, and the length it takes for the signature is the one of the signature that is made,
for every family of algorithms; so its result is the size of the message to the byte.
-/

namespace WolfCose

open Program Cbor Settings WolfCrypt

/-! ### Sums of sizes -/

/-- The size of a string of a length with its head. -/
def stringSize (len : Nat) : Nat := cborHeadSize len + len

theorem one_le_cborHeadSize (n : Nat) :
  1 ≤ cborHeadSize n
  := by
  unfold cborHeadSize
  repeat' split
  all_goals omega

section

variable [Settings]

/-- The size of a message for the lengths of its parts, as a sum of natural numbers. -/
def sign1Size (protectedLen kidLen payloadLen detachedLen sigLen : Nat) (flags : UInt32) : Nat :=
  (if flags &&& sign1Untagged = 0 then 1 else 0) + 1 + stringSize protectedLen
    + (1 + if kidLen ≠ 0 then 1 + stringSize kidLen else 0)
    + (if detachedLen ≠ 0 then 1 else stringSize payloadLen) + stringSize sigLen

theorem sizeAddString_iff {total len size : Nat} (h : total ≤ sizeMax) :
  sizeAddString total len = .ok size ↔ size = total + stringSize len ∧ size ≤ sizeMax
  := by
  have hhead := one_le_cborHeadSize len
  simp only [sizeAddString, cborStringSize, bind_eq_ok, sizeAdd_eq_ok, stringSize]
  constructor
  · rintro ⟨_, ⟨h₁, rfl⟩, h₂, rfl⟩
    exact ⟨rfl, by omega⟩
  · rintro ⟨rfl, hle⟩
    exact ⟨_, ⟨by omega, rfl⟩, by omega, rfl⟩

theorem sizeAddKid_iff {total kidLen size : Nat} (h : total ≤ sizeMax) :
  sizeAddKid total (kidLen ≠ 0) kidLen = .ok size
    ↔ size = total + (1 + if kidLen ≠ 0 then 1 + stringSize kidLen else 0) ∧ size ≤ sizeMax
  := by
  simp only [sizeAddKid, bind_eq_ok, sizeAdd_eq_ok, decide_eq_true_eq]
  by_cases hk : kidLen ≠ 0
  · have hhead := one_le_cborHeadSize kidLen
    simp only [if_pos hk, bind_eq_ok, sizeAdd_eq_ok, cborStringSize, stringSize]
    constructor
    · rintro ⟨_, ⟨h₁, rfl⟩, _, ⟨h₂, rfl⟩, _, ⟨h₃, rfl⟩, h₄, rfl⟩
      exact ⟨by omega, by omega⟩
    · rintro ⟨rfl, hle⟩
      exact ⟨_, ⟨by omega, rfl⟩, _, ⟨by omega, rfl⟩, _, ⟨by omega, rfl⟩, by omega, by omega⟩
  · simp only [if_neg hk, pure_eq_ok]
    constructor
    · rintro ⟨_, ⟨h₁, rfl⟩, rfl⟩
      exact ⟨rfl, by omega⟩
    · rintro ⟨rfl, hle⟩
      exact ⟨_, ⟨by omega, rfl⟩, rfl⟩

variable [WolfCrypt]

/-- The arguments that `wc_CoseSign1_SignSize_ex` computes a size for, with the lengths of the
signature and the protected header. -/
structure Sign1Sizes (key : Option Key) (alg : Int) (payloadLen detachedLen : Nat) (flags : UInt32)
    (sigLen protectedLen : Nat) : Prop where
  flags : flags &&& ~~~sign1Untagged = 0
  exclusive : payloadLen = 0 ∨ detachedLen = 0
  lengths : lenFitsWord32 payloadLen = true ∧ lenFitsWord32 detachedLen = true
  pin : key.any (fun key => key.alg ≠ algUnset ∧ key.alg ≠ alg) = false
  signature : signSigLen key alg = .ok sigLen
  encoded : ∃ protectedHdr, algProtectedHdr alg = .ok protectedHdr ∧ protectedHdr.length = protectedLen

/-- The size is the sum of the sizes of the parts, and it is computed exactly if it does not
exceed `SIZE_MAX`. -/
theorem sign1SignSizeEx_eq_ok {key : Option Key} {alg : Int} {kidLen payloadLen detachedLen size : Nat}
    {flags : UInt32} :
  sign1SignSizeEx key alg kidLen payloadLen detachedLen flags = .ok size
    ↔ ∃ sigLen protectedLen, Sign1Sizes key alg payloadLen detachedLen flags sigLen protectedLen
      ∧ size = sign1Size protectedLen kidLen payloadLen detachedLen sigLen flags ∧ size ≤ sizeMax
  := by
  have hmax := lt_sizeMax
  have tag : ∀ total, (if flags &&& sign1Untagged = 0 then sizeAdd 0 1 else .ok 0) = .ok total
      ↔ total = if flags &&& sign1Untagged = 0 then 1 else 0 := by
    intro total
    split
    · rw [sizeAdd_eq_ok]
      omega
    · rw [Except.ok.injEq, eq_comm]
  have content : ∀ total size, total ≤ sizeMax →
      ((if detachedLen ≠ 0 then sizeAdd total 1 else sizeAddString total payloadLen) = .ok size
        ↔ size = total + (if detachedLen ≠ 0 then 1 else stringSize payloadLen) ∧ size ≤ sizeMax) := by
    intro total size h
    split
    · rw [sizeAdd_eq_ok]
      omega
    · exact sizeAddString_iff h
  simp only [sign1SignSizeEx, bind_eq_ok, lift_eq_ok, failWhen_eq_ok, tag, sizeAdd_eq_ok]
  constructor
  · rintro ⟨_, hflags, _, hboth, _, hlen, _, hpin, sigLen, hsig, prot, hprot, _, rfl, _, ⟨h₁, rfl⟩, body, hbody,
      unprot, hunprot, total, htotal, hsize⟩
    have hle : (if flags &&& sign1Untagged = 0 then 1 else 0) + 1 ≤ sizeMax := by
      split at h₁ <;> split <;> omega
    obtain ⟨rfl, hle⟩ := (sizeAddString_iff hle).mp hbody
    obtain ⟨rfl, hle⟩ := (sizeAddKid_iff hle).mp hunprot
    obtain ⟨rfl, hle⟩ := (content _ _ hle).mp htotal
    obtain ⟨rfl, hle⟩ := (sizeAddString_iff hle).mp hsize
    refine ⟨sigLen, prot.length, ⟨?_, by omega, ?_, by simpa using hpin, hsig, prot, hprot, rfl⟩, rfl, hle⟩
    · exact Decidable.not_not.mp hflags
    · rw [not_or, Bool.not_eq_false, Bool.not_eq_false] at hlen
      exact hlen
  · rintro ⟨sigLen, _, ⟨hflags, hboth, hlen, hpin, hsig, prot, hprot, rfl⟩, rfl, hle⟩
    have hle' := hle
    unfold sign1Size at hle'
    have htag : (if flags &&& sign1Untagged = 0 then 1 else 0) ≤ 1 := by
      split <;> omega
    refine ⟨(), not_not.mpr hflags, (), by omega, (), ?_, (), by simpa using hpin, sigLen, hsig, prot, hprot, _, rfl,
      _, ⟨by omega, rfl⟩, _, (sizeAddString_iff ?_).mpr ⟨rfl, ?_⟩, _, (sizeAddKid_iff ?_).mpr ⟨rfl, ?_⟩, _,
      (content _ _ ?_).mpr ⟨rfl, ?_⟩, (sizeAddString_iff ?_).mpr ⟨rfl, hle⟩⟩
    · rw [not_or, Bool.not_eq_false, Bool.not_eq_false]
      exact hlen
    all_goals omega

/-! ### The length of the signature -/

/-- The documented length of the signatures of an HSS-LMS key: that of its parameter set. -/
def DocumentedLmsLength : Prop :=
  ∀ (key : LmsKey) (n : Nat) (tbs : Bytes) (env : Env) (sig : Bytes),
    (lmsSign key n tbs env).1.1 = some sig → lmsGetSigLen key = some sig.length

omit [Settings] in
/-- What a program without calls returns. -/
theorem Quiet.runs {α : Type} {p : Signing α} {Q : α → Prop} (h : Quiet p Q) {s s' : SignState} {a : α}
    (hr : Runs p s a s') :
  Q a
  := by
  have he := h s
  unfold Ends at he
  rw [hr] at he
  exact he.1

/-- Outside the families whose length depends on the key, it is that of the algorithm. -/
theorem signSigLen_of_sigSize {key : Key} {alg : Int} {n : Nat} (hed : ¬ isEddsa alg) (hpss : ¬ isPss alg)
    (hlms : alg ≠ algHssLms) (hsz : sigSize alg = .ok n) (hcrv : declaredCurveCheck key alg = .ok ()) :
  signSigLen (some key) alg = .ok n
  := by
  rw [signSigLen, if_neg hed, if_neg hpss, if_neg fun hl => hlms hl.2]
  simp only [bind_eq_ok, lift_eq_ok, pure_eq_ok]
  exact ⟨n, hsz, (), hcrv, rfl⟩

omit [WolfCrypt] in
/-- A key that fits the algorithm declares its type and curve. -/
theorem declaredCurveCheck_ok [WolfCrypt] {key : Key} {alg : Int}
    (hkty : key.kty = if algIsEcdsa alg = true then ktyEc2 else ktyOkp)
    (heddsa : algIsEcdsa alg = false → algIsEddsa alg = true) (hcrv : algCheckCrv alg key.crv = .ok ()) :
  declaredCurveCheck key alg = .ok ()
  := by
  have hexpected : (if algIsEcdsa alg = true then ktyEc2 else if algIsEddsa alg = true then ktyOkp else 0)
      = key.kty := by
    rw [hkty]
    split
    · rfl
    · rename_i h
      rw [if_pos (heddsa (by simpa using h))]
  unfold declaredCurveCheck
  cases hc : algToCrv alg with
  | error e => rfl
  | ok c =>
      dsimp only
      rw [hexpected]
      split
      · rename_i h
        simp only [bind_eq_ok, failWhen_eq_ok]
        refine ⟨(), fun hne => hne.2 rfl, ?_⟩
        exact fun hne => hne.2 (algCheckCrv_eq hcrv hc h.1)
      · rfl

theorem signSigLen_ecdsa {key : Key} {alg : Int} {coordSz : Nat} (halg : algIsEcdsa alg = true)
    (hkty : key.kty = ktyEc2) (hcrv : algCheckCrv alg key.crv = .ok ())
    (hcoord : crvKeySize key.crv = .ok coordSz) :
  signSigLen (some key) alg = .ok (coordSz * 2)
  := by
  have hval := algIsEcdsa_values halg
  obtain ⟨n, hsz⟩ : ∃ n, sigSize alg = .ok n := by
    unfold sigSize
    rcases algIsEcdsa_cases halg with h | h | h
    · rw [if_pos h]
      exact ⟨_, rfl⟩
    · split
      · exact ⟨_, rfl⟩
      · exact ⟨_, rfl⟩
    · split
      · exact ⟨_, rfl⟩
      split
      · exact ⟨_, rfl⟩
      · exact ⟨_, rfl⟩
  apply signSigLen_of_sigSize
  · intro h
    have := h.value
    omega
  · intro h
    have := h.values
    omega
  · unfold algHssLms
    omega
  · rw [sigSize_ecdsa halg hcrv hcoord hsz, hsz]
  · apply declaredCurveCheck_ok _ _ hcrv
    · rw [if_pos halg, hkty]
    · intro h
      rw [halg] at h
      cases h

theorem signSigLen_eddsa {key : Key} {alg : Int} {n : Nat} (halg : algIsEddsa alg = true)
    (hkty : key.kty = ktyOkp) (hcrv : algCheckCrv alg key.crv = .ok ())
    (hn : (haveEddsa = true ∧ key.crv = crvEd25519 ∧ n = 64)
      ∨ (haveEd448 = true ∧ key.crv = crvEd448 ∧ n = 114)) :
  signSigLen (some key) alg = .ok n
  := by
  have hne : crvEd25519 ≠ crvEd448 := by decide
  have hval := algIsEddsa_values halg
  by_cases hpoly : isEddsa alg
  · rw [signSigLen, if_pos hpoly, eddsaSigLen, if_neg (not_not.mpr hkty)]
    rcases hn with ⟨h, hc, rfl⟩ | ⟨h, hc, rfl⟩
    · rw [if_pos ⟨h, hc⟩]
    · rw [if_neg fun h' => hne (h'.2.symm.trans hc), if_pos ⟨h, hc⟩]
  · have hsz : sigSize alg = .ok n := by
      rcases sigSize_eddsa halg hpoly hcrv with ⟨-, hc, hsz⟩ | ⟨-, hc, hsz⟩
      · rcases hn with ⟨-, -, rfl⟩ | ⟨-, hc', -⟩
        · exact hsz
        · exact absurd (hc.symm.trans hc') hne
      · rcases hn with ⟨-, hc', -⟩ | ⟨-, -, rfl⟩
        · exact absurd (hc'.symm.trans hc) hne
        · exact hsz
    have hecdsa : algIsEcdsa alg = false := algIsEcdsa_eq_false (by omega)
    apply signSigLen_of_sigSize hpoly _ _ hsz
    · apply declaredCurveCheck_ok _ (fun _ => halg) hcrv
      rw [if_neg (by rw [hecdsa]; exact Bool.false_ne_true), hkty]
    · intro h
      have := h.values
      omega
    · unfold algHssLms
      omega

theorem signSigLen_mlDsa {key : Key} {alg : Int} {n : Nat} (halg : algIsMlDsa alg = true)
    (hsz : sigSize alg = .ok n) :
  signSigLen (some key) alg = .ok n
  := by
  have hval := algIsMlDsa_values halg
  have hcrv : algToCrv alg = .error .coseBadAlg := by
    have hf := curveFamily alg
    generalize algToCrv alg = r at hf
    cases hf with
    | es256 h => have := h.values; omega
    | es384 h => have := h.values; omega
    | es512 h => have := h.values; omega
    | eddsa h => have := h.value; omega
    | ed25519 _ h => unfold algEd25519 at h; omega
    | ed448 _ h => unfold algEd448 at h; omega
    | none => rfl
  apply signSigLen_of_sigSize _ _ _ hsz
  · rw [declaredCurveCheck, hcrv]
    rfl
  · intro h
    have := h.value
    omega
  · intro h
    have := h.values
    omega
  · unfold algHssLms
    omega

theorem signSigLen_pss {key : Key} {alg : Int} {n : Nat} (halg : algIsPss alg = true) {hashType : HashType}
    (hhash : algToHashType alg = .ok hashType) (hkey : rsaPssCheckKey key = .ok n) :
  signSigLen (some key) alg = .ok n
  := by
  have hval := algIsPss_values halg
  have hed : ¬ isEddsa alg := fun h => by
    have := h.value
    omega
  have hpss : isPss alg := by
    unfold algToHashType at hhash
    split at hhash
    · rename_i h
      have := h.values
      omega
    split at hhash
    · rename_i h
      have := h.values
      omega
    split at hhash
    · rename_i h
      have := h.values
      omega
    split at hhash
    · rename_i h
      unfold algEd25519 algEd448 at h
      rcases h with h | ⟨-, h⟩ | ⟨-, h⟩
      · exact absurd h hed
      · omega
      · omega
    split at hhash
    · exact .inl ‹_›
    split at hhash
    · exact .inr (.inl ‹_›)
    split at hhash
    · exact .inr (.inr ‹_›)
    · cases hhash
  rw [signSigLen, if_neg hed, if_pos hpss]
  exact hkey

theorem signSigLen_lms {key : Key} {lmsKey : LmsKey} {n : Nat} (hsigns : lmsSigns)
    (hcheck : lmsCheckKey key = .ok ()) (hkey : key.object = .lms lmsKey)
    (hlen : lmsGetSigLen lmsKey = some n) :
  signSigLen (some key) algHssLms = .ok n
  := by
  rw [signSigLen, if_neg not_isEddsa_hssLms, if_neg not_isPss_hssLms, if_pos ⟨hsigns, rfl⟩]
  simp only [lmsSigLen, bind_eq_ok, KeyObject.asLms_eq_ok]
  refine ⟨(), hcheck, lmsKey, hkey, ?_⟩
  rw [hlen]
  rfl

/-- A signature that is made has the length that is computed in advance. -/
theorem signSigLen_of_runs (hdoc : DocumentedLengths) (hlms : DocumentedLmsLength) {key : Key} {alg : Int}
    {tbs sig : Bytes} {scratchSz : Nat} {rng : Option Rng} {s s' : SignState}
    (h : Runs (sign1SignTbs key alg tbs scratchSz rng) s sig s') :
  signSigLen (some key) alg = .ok sig.length
  := by
  unfold sign1SignTbs at h
  split at h
  · obtain ⟨_, _, hcalls⟩ := runs_signDelegated h
    exact hcalls.length
  split at h
  · rename_i halg
    simp only [runs_bind, runs_check, failWhen_eq_ok, lift_eq_ok] at h
    obtain ⟨_, _, ⟨hkty, rfl⟩, _, _, ⟨hcrv, rfl⟩, h⟩ := h
    exact signSigLen_eddsa halg (Decidable.not_not.mp hkty) hcrv ((quiet_signEddsa hdoc).runs h)
  split at h
  · rename_i halg
    simp only [runs_bind, runs_check, failWhen_eq_ok, lift_eq_ok] at h
    obtain ⟨_, _, ⟨hkty, rfl⟩, _, _, ⟨hcrv, rfl⟩, _, _, ⟨-, rfl⟩, h⟩ := h
    obtain ⟨coordSz, hcoord, hlen⟩ := quiet_signEcdsa.runs h
    rw [hlen]
    exact signSigLen_ecdsa halg (Decidable.not_not.mp hkty) hcrv hcoord
  split at h
  · rename_i halg
    have hkey := (quiet_signPss hdoc).runs h
    simp only [signPss, runs_bind, runs_check] at h
    obtain ⟨_, _, ⟨-, rfl⟩, r, _, ⟨hdigest, rfl⟩, -⟩ := h
    exact signSigLen_pss halg.2 (hashFor_ok hdigest).1 hkey
  split at h
  · rename_i halg
    exact signSigLen_mlDsa halg.2 ((quiet_signMlDsa hdoc halg.1).runs h)
  split at h
  · rename_i halg
    obtain ⟨hhave, hlocal, rfl⟩ := halg
    simp only [signLms, runs_bind, runs_check, KeyObject.asLms_eq_ok] at h
    obtain ⟨_, _, ⟨hcheck, rfl⟩, lmsKey, _, ⟨hkey, rfl⟩, _, _, ⟨-, rfl⟩, h⟩ := h
    apply signSigLen_lms ⟨hhave, .inr hlocal⟩ hcheck hkey
    split at h
    · cases h
    · simp only [callLmsSign, runs_bind, runs_check, runs_get, runs_set, orCrypto_eq_ok] at h
      obtain ⟨_, _, ⟨-, rfl⟩, _, _, ⟨-, rfl⟩, _, _, ⟨rfl, rfl⟩, _, _, -, hsig, -⟩ := h
      exact hlms _ _ _ _ _ hsig
  · cases h

/-! ### The function -/

/-- The arguments with another output buffer. -/
def SignArgs.withOut (args : SignArgs) (out : Buffer) : SignArgs := { args with out := some out }

/-- A successful call, with what it prepares, signs and writes. -/
theorem sign1SignEx_runs {key : Option Key} {alg : Int} {kid : Pointer} {args : SignArgs} {flags : UInt32}
    {env : Env} (h : (sign1SignEx key alg kid args flags env).ret = .ok ()) :
  ∃ key' scratch out protectedHdr tbs sig s', key = some key' ∧ args.scratch = some scratch
    ∧ args.out = some out
    ∧ sign1Prepare key' alg kid args scratch out flags = .ok (protectedHdr, tbs)
    ∧ Runs (sign1SignTbs key' alg tbs scratch.bytes.length args.rng) ⟨env, []⟩ sig s'
    ∧ (sign1Fields flags protectedHdr kid args ++ stringBytes .bstr sig).length ≤ out.bytes.length
    ∧ (sign1SignEx key alg kid args flags env).outLen
      = some (sign1Fields flags protectedHdr kid args ++ stringBytes .bstr sig).length
  := by
  obtain ⟨ctx, s, hruns, hret⟩ := signFinish_ok h
  have hret' : sign1SignEx key alg kid args flags env = ⟨.ok (), some ctx.buf.bytes, some ctx.idx, s⟩ := hret
  rw [hret']
  split at hruns
  · rename_i key' scratch out hscratch hout
    simp only [sign1SignMessage, runs_bind, runs_check] at hruns
    obtain ⟨⟨protectedHdr, tbs⟩, _, ⟨hprep, rfl⟩, sig, s', hsig, henc, -⟩ := hruns
    have hemits := @emits_encodeSign1 _ _ flags protectedHdr kid args sig (sign1Prepare_ok hprep).1
    have hwrites := (encodeAt_eq_ok hemits).mp henc
    have hidx : ctx.idx = (sign1Fields flags protectedHdr kid args ++ stringBytes .bstr sig).length := by
      rw [hwrites.2, EncCtx.idx_put]
      exact Nat.zero_add _
    have hle := hwrites.idx_le (Nat.zero_le _)
    rw [hidx, hwrites.2, EncCtx.bufSz_put] at hle
    exact ⟨key', scratch, out, protectedHdr, tbs, sig, s', rfl, hscratch, hout, hprep, hsig, hle, by rw [hidx]⟩
  · cases hruns

/-- A call that prepares and signs a message succeeds if the message fits. -/
theorem sign1SignEx_of_runs {key : Key} {alg : Int} {kid : Pointer} {args : SignArgs} {flags : UInt32}
    {env : Env} {scratch out : Buffer} {protectedHdr tbs sig : Bytes} {s' : SignState}
    (hscratch : args.scratch = some scratch) (hout : args.out = some out)
    (hprep : sign1Prepare key alg kid args scratch out flags = .ok (protectedHdr, tbs))
    (hsig : Runs (sign1SignTbs key alg tbs scratch.bytes.length args.rng) ⟨env, []⟩ sig s')
    (hfit : (sign1Fields flags protectedHdr kid args ++ stringBytes .bstr sig).length ≤ out.bytes.length) :
  (sign1SignEx (some key) alg kid args flags env).ret = .ok ()
  := by
  have hemits := @emits_encodeSign1 _ _ flags protectedHdr kid args sig (sign1Prepare_ok hprep).1
  have hroom : (EncCtx.init out).idx
      + (sign1Fields flags protectedHdr kid args ++ stringBytes .bstr sig).length ≤ (EncCtx.init out).bufSz := by
    simpa only [EncCtx.init, EncCtx.bufSz, Nat.zero_add] using hfit
  have henc := encodeAt_of_fits hemits hroom
  have hruns : Runs (sign1SignMessage key alg kid args scratch out flags) ⟨env, []⟩
      ((EncCtx.init out).put (sign1Fields flags protectedHdr kid args ++ stringBytes .bstr sig)) s' := by
    simp only [sign1SignMessage, runs_bind, runs_check]
    exact ⟨(protectedHdr, tbs), _, ⟨hprep, rfl⟩, sig, s', hsig, henc, rfl⟩
  unfold sign1SignEx
  rw [hscratch, hout]
  unfold signFinish
  unfold Runs at hruns
  dsimp only
  rw [hruns]

/-- The message has the size that is computed from the lengths of its parts. -/
theorem length_sign1Message {kid : Pointer} {args : SignArgs} {flags : UInt32} {protectedHdr sig : Bytes}
    (hkid : kidConsistent kid)
    (hexclusive : args.payload.isNull = true ∨ args.detached.isNull = true)
    (hpayload : args.payload.Valid) (hdetached : args.detached.Valid) :
  (sign1Fields flags protectedHdr kid args ++ stringBytes .bstr sig).length
    = sign1Size protectedHdr.length kid.len args.payload.len args.detached.len sig.length flags
  := by
  have htag : (if flags &&& sign1Untagged = 0 then preferredHead .tag tagSign1 else []).length
      = if flags &&& sign1Untagged = 0 then 1 else 0 := by
    split <;> rfl
  have harray : (preferredHead .array 4).length = 1 := rfl
  have hkidBytes : (kidBytes kid).length = 1 + if kid.len ≠ 0 then 1 + stringSize kid.len else 0 := by
    have h₁ : cborHeadSize 1 = 1 := rfl
    have h₄ : cborHeadSize hdrKid.toNat = 1 := rfl
    unfold kidBytes
    by_cases hk : hasKid kid
    · have hvalid : kid.Valid := fun hn => absurd (hk.1.symm.trans hn) Bool.false_ne_true
      rw [if_pos hk, if_pos hk, if_pos (Nat.ne_of_gt hk.2)]
      simp only [List.length_append, length_preferredHead, length_stringBytes, h₁, h₄, stringSize, hvalid.len_eq]
    · have hlen : kid.len = 0 := by
        by_contra hne
        have hpos := Nat.pos_of_ne_zero hne
        exact hk ⟨hkid.mpr hpos, hpos⟩
      rw [if_neg hk, if_neg hk, if_neg (not_not.mpr hlen)]
      rfl
  have hcontent : (payloadBytes args).length
      = if args.detached.len ≠ 0 then 1 else stringSize args.payload.len := by
    unfold payloadBytes
    by_cases hd : args.isDetached = true
    · have hnull : args.payload.isNull = true := by
        apply hexclusive.resolve_right
        intro h
        rw [SignArgs.isDetached, h] at hd
        exact Bool.false_ne_true hd
      rw [if_pos hd, hpayload hnull]
      split <;> rfl
    · have hnull : args.detached.isNull = true := by
        simpa [SignArgs.isDetached] using hd
      rw [if_neg hd, hdetached hnull, if_neg (not_not.mpr rfl), length_stringBytes, stringSize, hpayload.len_eq]
  simp only [sign1Fields, List.length_append, htag, harray, hkidBytes, hcontent, length_stringBytes]
  unfold sign1Size stringSize
  omega

/-- The checks before a message is signed depend on the output buffer by its size only. -/
theorem sign1Prepare_out {key : Key} {alg : Int} {kid : Pointer} {args : SignArgs} {scratch out out' : Buffer}
    {flags : UInt32} {r : Bytes × Bytes} {size : Nat}
    (h : sign1Prepare key alg kid args scratch out flags = .ok r)
    (hsize : sign1SignSizeEx (some key) alg kid.len args.payload.len args.detached.len flags = .ok size)
    (hroom : size ≤ out'.bytes.length) (hle : out'.bytes.length ≤ out.bytes.length) :
  sign1Prepare key alg kid (args.withOut out') scratch out' flags = .ok r
  := by
  simp only [sign1Prepare, bind_eq_ok, lift_eq_ok, failWhen_eq_ok] at h ⊢
  obtain ⟨_, hargs, _, hrng, _, hflags, _, hlen, _, hkid, _, hboth, _, hcan, _, hpin, prot, hprot, tbs, htbs, h⟩ := h
  refine ⟨(), hargs, (), hrng, (), hflags, (), ?_, (), hkid, (), hboth, (), hcan, (), hpin, prot, hprot, tbs, htbs, ?_⟩
  · rw [Decidable.not_not] at hlen ⊢
    obtain ⟨h₁, h₂, h₃, h₄, h₅⟩ := hlen
    refine ⟨h₁, h₂, h₃, h₄, ?_⟩
    unfold lenFitsWord32 at h₅ ⊢
    rw [decide_eq_true_eq] at h₅ ⊢
    omega
  · split at h
    · rename_i hc
      rw [if_pos hc]
      simp only [bind_eq_ok, failWhen_eq_ok] at h ⊢
      obtain ⟨_, hn, _, -, h⟩ := h
      exact ⟨size, hsize, (), Nat.not_lt.mpr hroom, h⟩
    · rename_i hc
      rw [if_neg hc]
      exact h

/-- The size that is computed in advance is the size of the message: it is enough, and nothing
smaller is. -/
theorem sign1_size_exact (hdoc : DocumentedLengths) (hlms : DocumentedLmsLength) :
  (∀ (key : Option Key) (alg : Int) (kid : Pointer) (args : SignArgs) (flags : UInt32) (env : Env),
      args.payload.Valid → args.detached.Valid → (sign1SignEx key alg kid args flags env).ret = .ok () →
      ∃ size, sign1SignSizeEx key alg kid.len args.payload.len args.detached.len flags = .ok size
        ∧ (sign1SignEx key alg kid args flags env).outLen = some size
        ∧ (∀ out : Buffer, out.bytes.length = size →
            (sign1SignEx key alg kid (args.withOut out) flags env).ret = .ok ())
        ∧ ∀ out : Buffer, out.bytes.length < size →
            (sign1SignEx key alg kid (args.withOut out) flags env).ret ≠ .ok ())
    ∧ ∀ (key : Option Key) (alg : Int) (kidLen payloadLen detachedLen size : Nat) (flags : UInt32),
      sign1SignSizeEx key alg kidLen payloadLen detachedLen flags = .ok size
        ↔ ∃ sigLen protectedLen, Sign1Sizes key alg payloadLen detachedLen flags sigLen protectedLen
          ∧ size = sign1Size protectedLen kidLen payloadLen detachedLen sigLen flags ∧ size ≤ sizeMax
  := by
  refine ⟨?_, fun _ _ _ _ _ _ _ => sign1SignSizeEx_eq_ok⟩
  intro key alg kid args flags env hpayload hdetached hret
  obtain ⟨key, scratch, out, protectedHdr, tbs, sig, s', rfl, hscratch, hout, hprep, hsig, hfit, hlen⟩ :=
    sign1SignEx_runs hret
  have hprepared := sign1Prepare_prepared hprep
  obtain ⟨-, hkid, hprot, -⟩ := sign1Prepare_ok hprep
  have hmessage := @length_sign1Message _ _ kid args flags protectedHdr sig hkid hprepared.exclusive hpayload
    hdetached
  have hsize : sign1SignSizeEx (some key) alg kid.len args.payload.len args.detached.len flags
      = .ok (sign1Fields flags protectedHdr kid args ++ stringBytes .bstr sig).length := by
    refine sign1SignSizeEx_eq_ok.mpr ⟨sig.length, protectedHdr.length, ⟨?_, ?_, ?_, ?_, ?_, ?_⟩, hmessage, ?_⟩
    · simp only [sign1Prepare, bind_eq_ok, failWhen_eq_ok] at hprep
      obtain ⟨_, -, _, -, _, hflags, -⟩ := hprep
      exact Decidable.not_not.mp hflags
    · rcases hprepared.exclusive with h | h
      · exact .inl (hpayload h)
      · exact .inr (hdetached h)
    · exact ⟨hprepared.lengths.1, hprepared.lengths.2.1⟩
    · simp only [sign1Prepare, bind_eq_ok, failWhen_eq_ok] at hprep
      obtain ⟨_, -, _, -, _, -, _, -, _, -, _, -, _, -, _, hpin, -⟩ := hprep
      simpa using hpin
    · exact signSigLen_of_runs hdoc hlms hsig
    · exact ⟨protectedHdr, hprot, rfl⟩
    · exact Nat.le_trans hfit out.length_le
  refine ⟨_, hsize, hlen, ?_, ?_⟩
  · intro out' hout'
    have hprep' : sign1Prepare key alg kid (args.withOut out') scratch out' flags = .ok (protectedHdr, tbs) := by
      apply sign1Prepare_out hprep hsize
      · exact Nat.le_of_eq hout'.symm
      · rw [hout']
        exact hfit
    exact sign1SignEx_of_runs hscratch rfl hprep' hsig (Nat.le_of_eq hout'.symm)
  · intro out' hlt hret'
    obtain ⟨key', scratch', out₁, prot', tbs', sig', s₁, hkey, hscratch', hout₁, hprep', hsig', hfit', -⟩ :=
      sign1SignEx_runs hret'
    obtain rfl := Option.some.inj hkey
    obtain rfl := Option.some.inj (hscratch.symm.trans hscratch')
    obtain rfl := Option.some.inj hout₁
    -- the same protected header and the same bytes are signed, so the message is the same
    have hprot' := (sign1Prepare_ok hprep').2.2.1
    obtain rfl := Except.ok.inj (hprot.symm.trans hprot')
    have htbs : tbs' = tbs := by
      rw [(sign1Prepare_prepared hprep').structure_eq, hprepared.structure_eq]
      rfl
    subst htbs
    obtain ⟨rfl, -⟩ := hsig.unique hsig'
    exact absurd hfit' (Nat.not_le.mpr hlt)

end

section Instances

attribute [local instance] defaultSettings sign1Crypt

set_option maxRecDepth 4000 in
/-- A message with a key identifier of one byte, the payload "hi" and a signature of Ed25519. -/
theorem sign1_size_exact_instance :
  let args := ed25519SigningArgs (some ())
  let key := Key.ofEd25519 ed25519Secret true
  ∃ size, sign1SignSizeEx (some key) (-19) 1 2 0 0 = .ok size
    ∧ (sign1SignEx (some key) (-19) (.mem [7]) args 0 ()).outLen = some size
    ∧ (∀ out : Buffer, out.bytes.length = size →
        (sign1SignEx (some key) (-19) (.mem [7]) (args.withOut out) 0 ()).ret = .ok ())
    ∧ ∀ out : Buffer, out.bytes.length < size →
        (sign1SignEx (some key) (-19) (.mem [7]) (args.withOut out) 0 ()).ret ≠ .ok ()
  := by
  intro args key
  have hlms : DocumentedLmsLength := by rintro _ _ _ _ _ ⟨⟩
  apply (sign1_size_exact (documentedLengths_ed25519 [sign1Answer] (by decide)) hlms).1 (some key) (-19) (.mem [7])
    args 0 ()
  · exact Pointer.valid_mem _
  · exact fun _ => rfl
  · rfl

end Instances

end WolfCose
