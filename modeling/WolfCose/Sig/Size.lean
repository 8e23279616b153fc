import WolfCose.Hdr.Decode
import WolfCose.Codec.Encode
import WolfCose.Sig.Verify

/-!
# Sizes of what is encoded

The size arithmetic of `wolfcose_key.c` and the length of a signature before it is made.  The
sizes are exact: they are the lengths of what the encoder writes.
-/

namespace WolfCose

open Program Cbor Settings WolfCrypt

section

variable [Settings]

/-- `wolfCose_SizeAdd` -/
def sizeAdd (total add : Nat) : Except Err Nat :=
  if add > sizeMax - total then .error .invalidArg else .ok (total + add)

omit [Settings] in
/-- `wolfCose_CborHeadSize` -/
def cborHeadSize (val : Nat) : Nat :=
  if val ≤ 23 then 1
  else if val ≤ 0xFF then 2
  else if val ≤ 0xFFFF then 3
  else if val ≤ 0xFFFFFFFF then 5
  else 9

omit [Settings] in
theorem cborHeadSize_le (val : Nat) :
  cborHeadSize val ≤ if val ≤ 0xFFFFFFFF then 5 else 9
  := by
  unfold cborHeadSize
  repeat' split
  all_goals omega

/-- `wolfCose_CborStringSize` -/
def cborStringSize (len : Nat) : Except Err Nat :=
  sizeAdd (cborHeadSize len) len

/-- What `wolfCose_EncodeProtectedHdr` leaves in a buffer for protected headers. -/
def algProtectedHdr (alg : Int) : Except Err Bytes :=
  encodeInto (encodeProtectedHdr alg)
    ⟨List.replicate protectedHdrMax 0, by
      rw [List.length_replicate]
      exact protectedHdrMax_le⟩

@[simp]
theorem sizeAdd_eq_ok {total add size : Nat} :
  sizeAdd total add = .ok size ↔ add ≤ sizeMax - total ∧ total + add = size
  := by
  unfold sizeAdd
  split <;> rename_i h
  · constructor
    · rintro ⟨⟩
    · rintro ⟨hle, -⟩
      omega
  · rw [Except.ok.injEq]
    constructor
    · exact fun he => ⟨by omega, he⟩
    · exact fun he => he.2

omit [Settings] in
theorem length_preferredHead (m : MajorType) (v : Nat) :
  (preferredHead m v).length = cborHeadSize v
  := by
  rw [preferredHead, length_headBytes]
  unfold Width.preferred cborHeadSize
  repeat' split
  all_goals rfl

omit [Settings] in
theorem length_stringBytes (m : MajorType) (data : Bytes) :
  (stringBytes m data).length = cborHeadSize data.length + data.length
  := by
  rw [stringBytes, List.length_append, length_preferredHead]

/-- The size of a string is the length of its encoding. -/
theorem cborStringSize_eq_ok {m : MajorType} {data : Bytes} {size : Nat}
    (h : cborStringSize data.length = .ok size) :
  (stringBytes m data).length = size
  := by
  rw [cborStringSize, sizeAdd_eq_ok] at h
  rw [length_stringBytes, h.2]

/-- The head of a container is as long as that of a string of this length. -/
theorem cborStringSize_sub {m : MajorType} {n size : Nat} (h : cborStringSize n = .ok size) :
  (preferredHead m n).length = size - n
  := by
  rw [cborStringSize, sizeAdd_eq_ok] at h
  rw [length_preferredHead, ← h.2, Nat.add_sub_cancel]

end

/-! ### The length of a signature -/

section

variable [Settings] [WolfCrypt]

/-- The algorithms of RSASSA-PSS that the build has. -/
def isPss (alg : Int) : Prop :=
  (havePs256 = true ∧ alg = algPs256) ∨ (havePs384 = true ∧ alg = algPs384)
    ∨ (havePs512 = true ∧ alg = algPs512)

omit [WolfCrypt] in
instance (alg : Int) : Decidable (isPss alg) := inferInstanceAs (Decidable (_ ∨ _))

/-- The case of `wolfCose_SignSigLen` for the polymorphic EdDSA algorithm. -/
def eddsaSigLen (key : Option Key) : Checked Nat :=
  match key with
  | none =>
      if haveEddsa = true ∧ haveEd448 = true then .error (.err .invalidArg)
      else if haveEddsa = true then .ok 64
      else .ok 114
  | some key =>
      if key.kty ≠ ktyOkp then .error (.err .coseKeyType)
      else if haveEddsa = true ∧ key.crv = crvEd25519 then .ok 64
      else if haveEd448 = true ∧ key.crv = crvEd448 then .ok 114
      else .error (.err .coseKeyType)

/-- The case of `wolfCose_SignSigLen` for HSS-LMS. -/
def lmsSigLen (key : Option Key) : Checked Nat :=
  match key with
  | none => .error (.err .coseKeyType)
  | some key => do
      lmsCheckKey key
      let lmsKey ← key.object.asLms
      match lmsGetSigLen lmsKey with
      | some sigLen => return sigLen
      | none => throw (.err .coseKeyType)

/-- The check of `wolfCose_SignSigLen` on the key type and curve that a key declares. -/
def declaredCurveCheck (key : Key) (alg : Int) : Checked Unit :=
  match algToCrv alg with
  | .ok expectedCrv =>
      let expectedKty := if algIsEcdsa alg = true then ktyEc2 else if algIsEddsa alg = true then ktyOkp else 0
      if expectedCrv ≠ 0 ∧ expectedKty ≠ 0 then do
        failWhen (key.kty ≠ 0 ∧ key.kty ≠ expectedKty) .coseKeyType
        failWhen (key.crv ≠ 0 ∧ key.crv ≠ expectedCrv) .coseBadAlg
      else return ()
  | .error _ => return ()

/-- Whether the build signs with HSS-LMS keys: itself or by a callback. -/
def lmsSigns : Prop := haveLms = true ∧ (extSign = true ∨ lmsVerifyOnly = false)

omit [WolfCrypt] in
instance : Decidable lmsSigns := inferInstanceAs (Decidable (_ ∧ _))

/-- `wolfCose_SignSigLen` -/
def signSigLen (key : Option Key) (alg : Int) : Checked Nat :=
  if isEddsa alg then eddsaSigLen key
  else if isPss alg then
    match key with
    | none => .error (.err .invalidArg)
    | some key => rsaPssCheckKey key
  else if lmsSigns ∧ alg = algHssLms then lmsSigLen key
  else do
    let expSigLen ← lift (sigSize alg)
    match key with
    | none => return expSigLen
    | some key =>
        declaredCurveCheck key alg
        return expSigLen

/-! ### Lengths for the families of algorithms -/

omit [WolfCrypt] in
theorem isEs256.values {alg : Int} (h : isEs256 alg) :
  alg = -7 ∨ alg = -9
  := by
  obtain ⟨-, ⟨-, rfl⟩ | rfl⟩ := h
  · exact .inl rfl
  · exact .inr rfl

omit [WolfCrypt] in
theorem isEs384.values {alg : Int} (h : isEs384 alg) :
  alg = -35 ∨ alg = -51
  := by
  obtain ⟨-, ⟨-, rfl⟩ | rfl⟩ := h
  · exact .inl rfl
  · exact .inr rfl

omit [WolfCrypt] in
theorem isEs512.values {alg : Int} (h : isEs512 alg) :
  alg = -36 ∨ alg = -52
  := by
  obtain ⟨-, ⟨-, rfl⟩ | rfl⟩ := h
  · exact .inl rfl
  · exact .inr rfl

omit [WolfCrypt] in
theorem isEddsa.value {alg : Int} (h : isEddsa alg) :
  alg = -8
  := h.2.2

omit [WolfCrypt] in
theorem isPss.values {alg : Int} (h : isPss alg) :
  alg = -37 ∨ alg = -38 ∨ alg = -39
  := by
  obtain ⟨-, rfl⟩ | ⟨-, rfl⟩ | ⟨-, rfl⟩ := h
  · exact .inl rfl
  · exact .inr (.inl rfl)
  · exact .inr (.inr rfl)

/-- The size of the algorithm is the length of its signature, outside the three families where
it depends on the key. -/
theorem signSigLen_sigSize {key : Key} {alg : Int} {n : Nat} (h : signSigLen (some key) alg = .ok n)
    (hed : ¬ isEddsa alg) (hpss : ¬ isPss alg) (hlms : alg ≠ algHssLms) :
  sigSize alg = .ok n
  := by
  rw [signSigLen, if_neg hed, if_neg hpss, if_neg fun hl => hlms hl.2] at h
  simp only [bind_eq_ok, lift_eq_ok, pure_eq_ok] at h
  obtain ⟨_, hsz, _, -, rfl⟩ := h
  exact hsz

/-- The families of algorithms that are bound to a curve, with the curve. -/
inductive CurveFamily (alg : Int) : Except Err Int → Prop where
  | es256 : isEs256 alg → CurveFamily alg (.ok crvP256)
  | es384 : isEs384 alg → CurveFamily alg (.ok crvP384)
  | es512 : isEs512 alg → CurveFamily alg (.ok crvP521)
  | eddsa : isEddsa alg → CurveFamily alg (.ok 0)
  | ed25519 : haveEddsa = true → alg = algEd25519 → CurveFamily alg (.ok crvEd25519)
  | ed448 : haveEd448 = true → alg = algEd448 → CurveFamily alg (.ok crvEd448)
  | none : ¬ isEs256 alg → ¬ isEs384 alg → ¬ isEs512 alg → ¬ isEddsa alg →
      ¬ (haveEddsa = true ∧ alg = algEd25519) → ¬ (haveEd448 = true ∧ alg = algEd448) →
      CurveFamily alg (.error .coseBadAlg)

omit [WolfCrypt] in
theorem curveFamily (alg : Int) :
  CurveFamily alg (algToCrv alg)
  := by
  unfold algToCrv
  split
  · exact .es256 ‹_›
  split
  · exact .es384 ‹_›
  split
  · exact .es512 ‹_›
  split
  · exact .eddsa ‹_›
  split
  · rename_i h
    exact .ed25519 h.1 h.2
  split
  · rename_i h
    exact .ed448 h.1 h.2
  · exact .none ‹_› ‹_› ‹_› ‹_› ‹_› ‹_›

omit [WolfCrypt] in
theorem algIsEcdsa_cases {alg : Int} (h : algIsEcdsa alg = true) :
  isEs256 alg ∨ isEs384 alg ∨ isEs512 alg
  := by
  unfold algIsEcdsa at h
  have hf := curveFamily alg
  generalize algToCrv alg = r at h hf
  cases hf with
  | es256 h₁ => exact .inl h₁
  | es384 h₁ => exact .inr (.inl h₁)
  | es512 h₁ => exact .inr (.inr h₁)
  | eddsa => exact absurd h (by decide)
  | ed25519 => exact absurd h (by decide)
  | ed448 => exact absurd h (by decide)
  | none => exact absurd h (by decide)

omit [WolfCrypt] in
theorem algIsEddsa_cases {alg : Int} (h : algIsEddsa alg = true) :
  isEddsa alg ∨ (haveEddsa = true ∧ alg = algEd25519) ∨ (haveEd448 = true ∧ alg = algEd448)
  := by
  unfold algIsEddsa at h
  have hf := curveFamily alg
  generalize algToCrv alg = r at h hf
  cases hf with
  | es256 => exact absurd h (by decide)
  | es384 => exact absurd h (by decide)
  | es512 => exact absurd h (by decide)
  | eddsa h₁ => exact .inl h₁
  | ed25519 h₁ h₂ => exact .inr (.inl ⟨h₁, h₂⟩)
  | ed448 h₁ h₂ => exact .inr (.inr ⟨h₁, h₂⟩)
  | none => exact absurd h (by decide)

omit [WolfCrypt] in
/-- A curve that fits an algorithm is the one of the algorithm. -/
theorem algCheckCrv_eq {alg crv expectedCrv : Int} (h : algCheckCrv alg crv = .ok ())
    (hcrv : algToCrv alg = .ok expectedCrv) (hne : expectedCrv ≠ 0) :
  crv = expectedCrv
  := by
  rw [algCheckCrv, hcrv] at h
  by_contra hcc
  simp only at h
  rw [if_pos ⟨hne, hcc⟩] at h
  cases h

omit [WolfCrypt] in
/-- The size of an ECDSA algorithm is that of two coordinates of its curve. -/
theorem sigSize_ecdsa {alg crv : Int} {n coordSz : Nat} (halg : algIsEcdsa alg = true)
    (hcrv : algCheckCrv alg crv = .ok ()) (hcoord : crvKeySize crv = .ok coordSz)
    (hsz : sigSize alg = .ok n) :
  coordSz * 2 = n
  := by
  have curve {c : Int} {k m : Nat} (hc : algToCrv alg = .ok c) (hne : c ≠ 0) (hk : crvKeySize c = .ok k)
      (hm : sigSize alg = .ok m) (hkm : k * 2 = m) : coordSz * 2 = n := by
    rw [algCheckCrv_eq hcrv hc hne, hk] at hcoord
    rw [hm] at hsz
    rw [← Except.ok.inj hcoord, ← Except.ok.inj hsz, hkm]
  rcases algIsEcdsa_cases halg with h | h | h
  · exact curve (if_pos h) (by decide) rfl (if_pos h) rfl
  · have h₁ : ¬ isEs256 alg := fun h₁ => by
      have := h.values
      have := h₁.values
      omega
    apply curve (c := crvP384) (k := 48) (m := 96) _ (by decide) rfl _ rfl
    · rw [algToCrv, if_neg h₁, if_pos h]
    · rw [sigSize, if_neg h₁, if_pos h]
  · have h₁ : ¬ isEs256 alg := fun h₁ => by
      have := h.values
      have := h₁.values
      omega
    have h₂ : ¬ isEs384 alg := fun h₂ => by
      have := h.values
      have := h₂.values
      omega
    apply curve (c := crvP521) (k := 66) (m := 132) _ (by decide) rfl _ rfl
    · rw [algToCrv, if_neg h₁, if_neg h₂, if_pos h]
    · rw [sigSize, if_neg h₁, if_neg h₂, if_pos h]

omit [WolfCrypt] in
/-- The size of an EdDSA algorithm that is bound to a curve. -/
theorem sigSize_eddsa {alg crv : Int} (halg : algIsEddsa alg = true) (hpoly : ¬ isEddsa alg)
    (hcrv : algCheckCrv alg crv = .ok ()) :
  (haveEddsa = true ∧ crv = crvEd25519 ∧ sigSize alg = .ok 64)
    ∨ (haveEd448 = true ∧ crv = crvEd448 ∧ sigSize alg = .ok 114)
  := by
  rcases algIsEddsa_cases halg with h | ⟨h, rfl⟩ | ⟨h, rfl⟩
  · exact absurd h hpoly
  · have hc : algToCrv algEd25519 = .ok crvEd25519 := by
      simp [algToCrv, isEs256, isEs384, isEs512, isEddsa, algEs256, algEsp256, algEs384, algEsp384,
        algEs512, algEsp512, algEddsa, algEd25519, h]
    refine .inl ⟨h, algCheckCrv_eq hcrv hc (by decide), ?_⟩
    simp [sigSize, isEs256, isEs384, isEs512, isEddsa, algEs256, algEsp256, algEs384, algEsp384,
      algEs512, algEsp512, algEddsa, algEd25519, h]
  · have hc : algToCrv algEd448 = .ok crvEd448 := by
      simp [algToCrv, isEs256, isEs384, isEs512, isEddsa, algEs256, algEsp256, algEs384, algEsp384,
        algEs512, algEsp512, algEddsa, algEd25519, algEd448, h]
    refine .inr ⟨h, algCheckCrv_eq hcrv hc (by decide), ?_⟩
    simp [sigSize, isEs256, isEs384, isEs512, isEddsa, algEs256, algEsp256, algEs384, algEsp384,
      algEs512, algEsp512, algEddsa, algEd25519, algEd448, h]

omit [WolfCrypt] in
theorem not_isEddsa_hssLms :
  ¬ isEddsa algHssLms
  := fun h => absurd h.value (by decide)

omit [WolfCrypt] in
theorem not_isPss_hssLms :
  ¬ isPss algHssLms
  := fun h => absurd h.values (by decide)

/-- The length of an HSS-LMS signature is that of the parameter set of the attached key. -/
theorem signSigLen_hssLms {key : Key} {n : Nat} (h : signSigLen (some key) algHssLms = .ok n) :
  lmsSigns ∧ ∃ lmsKey, key.object = .lms lmsKey ∧ lmsGetSigLen lmsKey = some n
  := by
  rw [signSigLen, if_neg not_isEddsa_hssLms, if_neg not_isPss_hssLms] at h
  split at h
  · rename_i hlms
    simp only [lmsSigLen, bind_eq_ok, KeyObject.asLms_eq_ok] at h
    obtain ⟨_, -, lmsKey, hkey, h⟩ := h
    refine ⟨hlms.1, lmsKey, hkey, ?_⟩
    split at h
    · rename_i hlen
      rw [pure_eq_ok] at h
      rw [hlen, h]
    · cases h
  · rw [bind_eq_ok] at h
    obtain ⟨_, hsz, -⟩ := h
    rw [lift_eq_ok, sigSize_hssLms] at hsz
    cases hsz

end

end WolfCose
