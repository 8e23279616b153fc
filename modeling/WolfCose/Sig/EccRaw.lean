import WolfCose.Sig.Runs

/-!
# The buffer of a raw ECDSA signature

`wolfCose_EccSignRaw` of `wolfcose_ecc.c`, with the buffer that it writes to.  wolfCrypt writes the two
integers of a signature to the halves of the buffer without leading zeros, and they are moved to the
ends of the halves in place.
-/

namespace WolfCose

open Program Settings WolfCrypt

/-! ### The buffer -/

/-- The buffer when `wc_ecc_sig_to_rs` returns: the integers at the start of its halves. -/
def eccSigToRsBuffer (sigBuf : Bytes) (coordSz : Nat) (r s : Bytes) : Bytes :=
  let sigBuf := sigBuf.fill 0 (coordSz * 2)
  let sigBuf := sigBuf.overwrite 0 r
  sigBuf.overwrite coordSz s

/-- The steps of `wolfCose_EccSignRaw` that right-justify the integers. -/
def eccRightJustify (sigBuf : Bytes) (coordSz rLen sLen : Nat) : Bytes :=
  let sigBuf := sigBuf.move (coordSz - rLen) 0 rLen
  let sigBuf := sigBuf.fill 0 (coordSz - rLen)
  let sigBuf := sigBuf.move (coordSz + (coordSz - sLen)) coordSz sLen
  sigBuf.fill coordSz (coordSz - sLen)

/-- Zeros in front do not change the integer that bytes spell. -/
theorem ofBe_leftPad (n : Nat) (bs : Bytes) :
  Bytes.ofBe (leftPad n bs) = Bytes.ofBe bs
  := by
  rw [leftPad]
  induction n - bs.length with
  | zero => rfl
  | succ k ih =>
      rw [List.replicate_succ, List.cons_append, Bytes.ofBe_cons, ih, UInt8.toNat_zero, Nat.zero_mul, Nat.zero_add]

/-- Whatever else wolfCrypt leaves in the halves of the buffer, the integers at their start are right-justified
and padded with zeros. -/
theorem eccRightJustify_eq {r gapR s gapS rest : Bytes} {coordSz : Nat} (hr : coordSz = r.length + gapR.length)
    (hs : coordSz = s.length + gapS.length) :
  eccRightJustify (r ++ gapR ++ (s ++ gapS ++ rest)) coordSz r.length s.length
    = leftPad coordSz r ++ leftPad coordSz s ++ rest
  := by
  have hfirst := @Bytes.fill_move [] r gapR (s ++ gapS ++ rest) 0 coordSz rfl hr
  rw [Nat.zero_add, List.nil_append, List.nil_append] at hfirst
  have hlen : coordSz = (leftPad coordSz r).length := (length_leftPad (by omega)).symm
  have hsecond := @Bytes.fill_move (leftPad coordSz r) s gapS rest coordSz coordSz hlen hs
  dsimp only [eccRightJustify]
  rw [hfirst]
  exact hsecond.trans (List.append_assoc _ _ _).symm

/-- A buffer holds two integers in big-endian order, in fields of `coordSz` bytes before what it had there. -/
structure HoldsRaw (coordSz : Nat) (r s sigBuf buf : Bytes) : Prop where
  layout : buf = leftPad coordSz r ++ leftPad coordSz s ++ sigBuf.drop (coordSz * 2)
  width : (leftPad coordSz r).length = coordSz ∧ (leftPad coordSz s).length = coordSz
  value : Bytes.ofBe (leftPad coordSz r) = Bytes.ofBe r ∧ Bytes.ofBe (leftPad coordSz s) = Bytes.ofBe s

/-- Integers that wolfCrypt writes to the halves of the buffer have fixed widths in the end. -/
theorem holdsRaw_eccRightJustify {sigBuf r s : Bytes} {coordSz : Nat} (hbuf : coordSz * 2 ≤ sigBuf.length)
    (hr : r.length ≤ coordSz) (hs : s.length ≤ coordSz) :
  HoldsRaw coordSz r s sigBuf (eccRightJustify (eccSigToRsBuffer sigBuf coordSz r s) coordSz r.length s.length)
  := by
  constructor
  · have hzeros : sigBuf.fill 0 (coordSz * 2)
        = List.replicate (coordSz * 2) 0 ++ sigBuf.drop (coordSz * 2) := by
      rw [Bytes.fill, Bytes.overwrite_eq (by rw [List.length_replicate]; omega), List.take_zero, List.nil_append,
        List.length_replicate, Nat.zero_add]
    have hsplit : sigBuf.fill 0 (coordSz * 2) = List.replicate coordSz 0
        ++ (List.replicate coordSz 0 ++ sigBuf.drop (coordSz * 2)) := by
      rw [hzeros, Nat.mul_two, ← List.replicate_append_replicate, List.append_assoc]
    have hhalf {bs : Bytes} (h : bs.length ≤ coordSz) : Bytes.overwrite (List.replicate coordSz 0) 0 bs
        = bs ++ List.replicate (coordSz - bs.length) 0 := by
      rw [Bytes.overwrite_eq (by rw [List.length_replicate]; omega), List.take_zero, List.nil_append, Nat.zero_add,
        List.drop_replicate]
    have hfirst := @Bytes.overwrite_middle [] (List.replicate coordSz 0)
      (List.replicate coordSz 0 ++ sigBuf.drop (coordSz * 2)) 0 r (by rw [List.length_replicate]; omega)
    rw [List.length_nil, Nat.zero_add, List.nil_append, List.nil_append, hhalf hr] at hfirst
    have hpad : coordSz = (r ++ List.replicate (coordSz - r.length) 0).length := by
      rw [List.length_append, List.length_replicate]
      omega
    have hsecond := @Bytes.overwrite_middle (r ++ List.replicate (coordSz - r.length) 0) (List.replicate coordSz 0)
      (sigBuf.drop (coordSz * 2)) 0 s (by rw [List.length_replicate]; omega)
    rw [← hpad, Nat.add_zero, hhalf hs] at hsecond
    have hbuffer : eccSigToRsBuffer sigBuf coordSz r s = r ++ List.replicate (coordSz - r.length) 0
        ++ (s ++ List.replicate (coordSz - s.length) 0 ++ sigBuf.drop (coordSz * 2)) := by
      dsimp only [eccSigToRsBuffer]
      rw [hsplit, hfirst, hsecond]
    rw [hbuffer]
    apply eccRightJustify_eq
    · rw [List.length_replicate]
      omega
    · rw [List.length_replicate]
      omega
  · exact ⟨length_leftPad hr, length_leftPad hs⟩
  · exact ⟨ofBe_leftPad _ _, ofBe_leftPad _ _⟩

/-! ### The function -/

section

variable [WolfCrypt] [Settings]

/-- `wolfCose_EccSignRaw` with the buffer of the caller and the length of it; the result is what the buffer has
in the end and the length of the signature. -/
def eccSignRawInto (digest sigBuf : Bytes) (sigLen coordSz : Nat) (hashType : HashType) (rng : Option Rng)
    (eccKey : KeyObject) : Signing (Bytes × Nat) := do
  match rng with
  | none => throw (.err .invalidArg)
  | some rng =>
      check (failWhen (eccKey.isNull = true) .invalidArg)
      check (failWhen (sigLen < coordSz * 2) .bufferTooSmall)
      let eccKey ← check eccKey.asEcc
      let eccKey ← check (eccSigningKey eccKey hashType)
      let derSig ← withEnv (eccSignHash digest rng eccKey)
      let derSig ← check (orCrypto derSig)
      let (r, s) ← check (orCrypto (eccSigToRs derSig))
      check (failWhen (r.length > coordSz ∨ s.length > coordSz) .crypto)
      let sigBuf := eccSigToRsBuffer sigBuf coordSz r s
      let sigBuf := eccRightJustify sigBuf coordSz r.length s.length
      return (sigBuf, coordSz * 2)

/-- The steps of `wolfCose_EccSignRaw` that get the two integers of a signature. -/
def eccSignIntegers (digest : Bytes) (sigLen coordSz : Nat) (hashType : HashType) (rng : Option Rng)
    (eccKey : KeyObject) : Signing (Bytes × Bytes) := do
  match rng with
  | none => throw (.err .invalidArg)
  | some rng =>
      check (failWhen (eccKey.isNull = true) .invalidArg)
      check (failWhen (sigLen < coordSz * 2) .bufferTooSmall)
      let eccKey ← check eccKey.asEcc
      let eccKey ← check (eccSigningKey eccKey hashType)
      let derSig ← withEnv (eccSignHash digest rng eccKey)
      let derSig ← check (orCrypto derSig)
      let (r, s) ← check (orCrypto (eccSigToRs derSig))
      check (failWhen (r.length > coordSz ∨ s.length > coordSz) .crypto)
      return (r, s)

variable {digest sigBuf : Bytes} {sigLen coordSz : Nat} {hashType : HashType} {rng : Option Rng} {eccKey : KeyObject}
  {st st' : SignState}

/-- The integers are written to the buffer and right-justified. -/
theorem eccSignRawInto_eq :
  eccSignRawInto digest sigBuf sigLen coordSz hashType rng eccKey = do
    let (r, s) ← eccSignIntegers digest sigLen coordSz hashType rng eccKey
    return (eccRightJustify (eccSigToRsBuffer sigBuf coordSz r s) coordSz r.length s.length, coordSz * 2)
  := by
  cases rng with
  | none => rfl
  | some generator => simp only [eccSignRawInto, eccSignIntegers, bind_assoc, pure_bind]

/-- Where the buffer is left out, the integers are padded and put together. -/
theorem eccSignRaw_eq :
  eccSignRaw digest sigLen coordSz hashType rng eccKey = do
    let (r, s) ← eccSignIntegers digest sigLen coordSz hashType rng eccKey
    return leftPad coordSz r ++ leftPad coordSz s
  := by
  cases rng with
  | none => rfl
  | some generator => simp only [eccSignRaw, eccSignIntegers, bind_assoc, pure_bind]

/-- The signature that a call is about: wolfCrypt signs the digest, and the signature consists of two integers
that fit in the coordinates. -/
structure SignsRaw (digest : Bytes) (sigLen coordSz : Nat) (hashType : HashType) (rng : Option Rng)
    (eccKey : KeyObject) (st : SignState) (r s : Bytes) (st' : SignState) : Prop where
  signed : ∃ generator key signKey derSig, rng = some generator ∧ eccKey = .ecc key
    ∧ eccSigningKey key hashType = .ok signKey ∧ eccSignHash digest generator signKey st.env = (some derSig, st'.env)
    ∧ eccSigToRs derSig = some (r, s)
  room : coordSz * 2 ≤ sigLen
  fits : r.length ≤ coordSz ∧ s.length ≤ coordSz
  invocations : st'.invocations = st.invocations

/-- A call gets two integers exactly if wolfCrypt makes two that fit, for which there is room. -/
theorem runs_eccSignIntegers {r s : Bytes} :
  Runs (eccSignIntegers digest sigLen coordSz hashType rng eccKey) st (r, s) st'
    ↔ SignsRaw digest sigLen coordSz hashType rng eccKey st r s st'
  := by
  constructor
  · intro h
    cases rng with
    | none => simp [eccSignIntegers] at h
    | some generator =>
        simp only [eccSignIntegers, runs_bind, runs_check, runs_withEnv, runs_pure, failWhen_eq_ok, orCrypto_eq_ok,
          KeyObject.asEcc_eq_ok] at h
        obtain ⟨_, _, ⟨-, rfl⟩, _, _, ⟨hroom, rfl⟩, key, _, ⟨rfl, rfl⟩, signKey, _, ⟨hkey, rfl⟩, _, _, ⟨rfl, rfl⟩,
          derSig, _, ⟨hder, rfl⟩, ⟨r', s'⟩, _, ⟨hrs, rfl⟩, _, _, ⟨hle, rfl⟩, he, rfl⟩ := h
        rw [not_or, Nat.not_lt, Nat.not_lt] at hle
        obtain ⟨rfl, rfl⟩ := Prod.mk.inj he
        exact ⟨⟨generator, key, signKey, derSig, rfl, rfl, hkey, Prod.ext hder rfl, hrs⟩,
          Nat.le_of_not_lt hroom, hle, rfl⟩
  · rintro ⟨⟨generator, key, signKey, derSig, rfl, rfl, hkey, hsign, hrs⟩, hroom, hle, hinv⟩
    obtain ⟨env', invocations'⟩ := st'
    obtain rfl : invocations' = st.invocations := hinv
    simp only [eccSignIntegers, runs_bind, runs_check, runs_withEnv, runs_pure, failWhen_eq_ok, orCrypto_eq_ok,
      KeyObject.asEcc_eq_ok]
    exact ⟨(), _, ⟨Bool.false_ne_true, rfl⟩, (), _, ⟨Nat.not_lt_of_le hroom, rfl⟩, key, _, ⟨rfl, rfl⟩, signKey, _,
      ⟨hkey, rfl⟩, some derSig, ⟨env', st.invocations⟩, ⟨by rw [hsign], by rw [hsign]⟩, derSig, _, ⟨rfl, rfl⟩, (r, s),
      _, ⟨hrs, rfl⟩, (), _, ⟨by rw [not_or, Nat.not_lt, Nat.not_lt]; exact hle, rfl⟩, rfl, rfl⟩

/-- The signature without its buffer is the start of the buffer. -/
theorem runs_eccSignRaw_iff (hbuf : sigLen ≤ sigBuf.length) {sig : Bytes} :
  Runs (eccSignRaw digest sigLen coordSz hashType rng eccKey) st sig st'
    ↔ ∃ buf, Runs (eccSignRawInto digest sigBuf sigLen coordSz hashType rng eccKey) st (buf, sig.length) st'
      ∧ sig = buf.take sig.length
  := by
  have hlayout {r s : Bytes} (h : SignsRaw digest sigLen coordSz hashType rng eccKey st r s st') :=
    holdsRaw_eccRightJustify (Nat.le_trans h.room hbuf) h.fits.1 h.fits.2
  have hpadded {r s : Bytes} (h : SignsRaw digest sigLen coordSz hashType rng eccKey st r s st') :
      (leftPad coordSz r ++ leftPad coordSz s).length = coordSz * 2 := by
    rw [List.length_append, (hlayout h).width.1, (hlayout h).width.2, Nat.mul_two]
  rw [eccSignRaw_eq, eccSignRawInto_eq]
  simp only [runs_bind, runs_pure]
  constructor
  · rintro ⟨⟨r, s⟩, _, h, rfl, rfl⟩
    have hsigns := runs_eccSignIntegers.mp h
    refine ⟨_, ⟨(r, s), _, h, Prod.ext rfl (hpadded hsigns).symm, rfl⟩, ?_⟩
    rw [(hlayout hsigns).layout, List.take_left]
  · rintro ⟨buf, ⟨⟨r, s⟩, _, h, he, rfl⟩, hsig⟩
    have hsigns := runs_eccSignIntegers.mp h
    obtain ⟨rfl, hlen⟩ := Prod.mk.inj he
    refine ⟨(r, s), _, h, ?_, rfl⟩
    rw [hsig, ← hlen, ← hpadded hsigns, (hlayout hsigns).layout, List.take_left]

/-- Raw signatures have a fixed width: for all integers that wolfCrypt makes, of whatever lengths up to that of a
coordinate, the buffer holds both in fields of that length, and the reported length is that of two fields.  The signing
functions take the signature from the start of the buffer. -/
theorem eccSignRaw_fixed_width {digest sigBuf : Bytes} {sigLen : Nat} (hbuf : sigLen ≤ sigBuf.length) (coordSz : Nat)
    (hashType : HashType) (rng : Option Rng) (eccKey : KeyObject) (st st' : SignState) :
  (∀ buf len, Runs (eccSignRawInto digest sigBuf sigLen coordSz hashType rng eccKey) st (buf, len) st' →
    ∃ r s, SignsRaw digest sigLen coordSz hashType rng eccKey st r s st' ∧ HoldsRaw coordSz r s sigBuf buf
      ∧ len = coordSz * 2)
  ∧ (∀ r s, SignsRaw digest sigLen coordSz hashType rng eccKey st r s st' →
    ∃ buf, Runs (eccSignRawInto digest sigBuf sigLen coordSz hashType rng eccKey) st (buf, coordSz * 2) st'
      ∧ HoldsRaw coordSz r s sigBuf buf)
  ∧ ∀ sig, Runs (eccSignRaw digest sigLen coordSz hashType rng eccKey) st sig st'
    ↔ ∃ buf, Runs (eccSignRawInto digest sigBuf sigLen coordSz hashType rng eccKey) st (buf, sig.length) st'
      ∧ sig = buf.take sig.length
  := by
  refine ⟨?_, ?_, fun sig => runs_eccSignRaw_iff hbuf⟩
  all_goals
    rw [eccSignRawInto_eq]
    simp only [runs_bind, runs_pure]
  · rintro buf len ⟨⟨r, s⟩, _, h, he, rfl⟩
    have hsigns := runs_eccSignIntegers.mp h
    obtain ⟨rfl, rfl⟩ := Prod.mk.inj he
    exact ⟨r, s, hsigns, holdsRaw_eccRightJustify (Nat.le_trans hsigns.room hbuf) hsigns.fits.1 hsigns.fits.2, rfl⟩
  · intro r s hsigns
    exact ⟨_, ⟨(r, s), st', runs_eccSignIntegers.mpr hsigns, rfl, rfl⟩,
      holdsRaw_eccRightJustify (Nat.le_trans hsigns.room hbuf) hsigns.fits.1 hsigns.fits.2⟩

end

section Instances

attribute [local instance] defaultSettings

/-- The SHA-256 digest of a message of three bytes. -/
def recordedDigest : Bytes :=
  [0xEB, 0x3B, 0xE2, 0x30, 0xBB, 0xD2, 0x84, 0x4B, 0x1F, 0x5D, 0x8F, 0x2E, 0x4F, 0xAB, 0x9F, 0xFB, 0xA8, 0xAB,
   0x22, 0xCF, 0xEE, 0xB6, 0x9C, 0x4C, 0x13, 0x61, 0x99, 0x3B, 0xA4, 0xF3, 0x77, 0xB9]

/-- The deterministic signature of the digest, in the encoding of X9.62. -/
def recordedDerSig : Bytes :=
  [0x30, 0x44, 0x02, 0x21, 0x00, 0xE9, 0xAD, 0x93, 0x7B, 0xDB, 0xE9, 0x5E, 0xA8, 0x92, 0x51, 0xBC, 0x94, 0x49,
   0x2E, 0xB0, 0xC0, 0xC4, 0x29, 0x4B, 0x53, 0x57, 0x67, 0xE4, 0xB1, 0x14, 0x61, 0xB5, 0xA3, 0xAA, 0x31, 0x92,
   0x7B, 0x02, 0x1F, 0x06, 0xC6, 0x7B, 0xED, 0x73, 0x18, 0xCD, 0xC1, 0x1C, 0xFD, 0xD1, 0x15, 0x4D, 0x76, 0x3F,
   0x35, 0x29, 0x88, 0x56, 0xC6, 0x5F, 0x79, 0x6C, 0x80, 0x7E, 0xFE, 0x7F, 0xBA, 0xCE, 0x64, 0xC2]

/-- The integers of the signature; the second one has 31 bytes. -/
def recordedRs : Bytes × Bytes :=
  ([0xE9, 0xAD, 0x93, 0x7B, 0xDB, 0xE9, 0x5E, 0xA8, 0x92, 0x51, 0xBC, 0x94, 0x49, 0x2E, 0xB0, 0xC0, 0xC4, 0x29,
    0x4B, 0x53, 0x57, 0x67, 0xE4, 0xB1, 0x14, 0x61, 0xB5, 0xA3, 0xAA, 0x31, 0x92, 0x7B],
    [0x06, 0xC6, 0x7B, 0xED, 0x73, 0x18, 0xCD, 0xC1, 0x1C, 0xFD, 0xD1, 0x15, 0x4D, 0x76, 0x3F, 0x35, 0x29, 0x88,
     0x56, 0xC6, 0x5F, 0x79, 0x6C, 0x80, 0x7E, 0xFE, 0x7F, 0xBA, 0xCE, 0x64, 0xC2])

/-- A wolfCrypt that makes this signature. -/
@[reducible]
def recordedEcdsaCrypt : WolfCrypt :=
  { failingCrypt with
    eccSetDeterministicEx := fun key _ => some key
    eccSignHash := fun digest _ (key : Bytes) env =>
      (if digest = recordedDigest ∧ key = p256Private then some recordedDerSig else none, env)
    eccSigToRs := fun derSig => if derSig = recordedDerSig then some recordedRs else none }

attribute [local instance] recordedEcdsaCrypt

/-- The signature whose second integer is shorter than a coordinate has fixed width in a buffer of 66 bytes. -/
theorem eccSignRaw_fixed_width_instance :
  ∃ buf, Runs (eccSignRawInto recordedDigest (List.replicate 66 0xFF) 66 32 .sha256 (some ()) (.ecc p256Private))
      ⟨(), []⟩ (buf, 64) ⟨(), []⟩
    ∧ HoldsRaw 32 recordedRs.1 recordedRs.2 (List.replicate 66 0xFF) buf
  := by
  have hbuf : 66 ≤ (List.replicate 66 (0xFF : UInt8)).length := by decide
  refine (eccSignRaw_fixed_width hbuf 32 .sha256 (some ()) (.ecc p256Private) ⟨(), []⟩ ⟨(), []⟩).2.1 _ _ ?_
  refine ⟨⟨(), p256Private, p256Private, recordedDerSig, rfl, rfl, rfl, ?_, ?_⟩, by decide, by decide, rfl⟩
  · rfl
  · exact if_pos rfl

end Instances

end WolfCose
