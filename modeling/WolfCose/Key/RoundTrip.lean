import WolfCose.Key.Admitted
import WolfCose.Key.SizeExact
import WolfCose.Encrypt.Opened

/-!
# Encoding and decoding a key

A key that is decoded from the encoding of another one has the parameters and the components of that key, so
that it is encoded to the same bytes again, if the imports of wolfCrypt keep what they import.
-/

namespace WolfCose

open Program Cbor Settings KeySettings WolfCrypt RecipientCrypt RecipientSettings KeyCrypt

section

variable [Settings] [KeySettings] [WolfCrypt] [RecipientCrypt] [KeyCrypt] {key : Key} {flags : UInt32}
  {material material' : Material}

/-! ### Imports -/

omit [Settings] [KeySettings] in
/-- What is documented of the imports of wolfCrypt: the components that have been imported are those that are
exported.  The coordinates and the private key of a curve have its size, and the components of an RSA key are
those of some key. -/
structure DocumentedImports : Prop where
  eccPublic : ∀ {key key' : EccKey} {crv : Int} {wcCrv : WcCurve} {sz : Nat} {x y : Bytes},
    crvToWcCurve crv = .ok wcCrv → crvKeySize crv = .ok sz → x.length = sz → y.length = sz →
    eccImportUnsignedEx key x y none wcCrv = (true, key') → eccExportPublicRaw key' 66 = some (x, y)
  eccPrivate : ∀ {key key' : EccKey} {crv : Int} {wcCrv : WcCurve} {sz : Nat} {x y d : Bytes},
    crvToWcCurve crv = .ok wcCrv → crvKeySize crv = .ok sz → x.length = sz → y.length = sz → d.length = sz →
    eccImportUnsignedEx key x y (some d) wcCrv = (true, key') →
    eccExportPublicRaw key' 66 = some (x, y) ∧ eccExportPrivateOnly key' 66 = some d
  ed25519Public : ∀ {key key' : Ed25519Key} {x : Bytes}, x.length = 32 →
    ed25519ImportPublic key x = (true, key') → ed25519ExportPublic key' 57 = some x
  ed25519Private : ∀ {key key' : Ed25519Key} {d x : Bytes}, d.length = 32 → x.length = 32 →
    ed25519ImportPrivateKey key d x = (true, key') →
    ed25519ExportPublic key' 57 = some x ∧ ed25519ExportPrivateOnly key' 57 = some d
  ed448Public : ∀ {key key' : Ed448Key} {x : Bytes}, x.length = 57 →
    ed448ImportPublic key x = (true, key') → ed448ExportPublic key' 57 = some x
  ed448Private : ∀ {key key' : Ed448Key} {d x : Bytes}, d.length = 57 → x.length = 57 →
    ed448ImportPrivateKey key d x = (true, key') →
    ed448ExportPublic key' 57 = some x ∧ ed448ExportPrivateOnly key' 57 = some d
  rsaPublic : ∀ {source key key' : RsaKey} {nSz : Nat} {e n : Bytes},
    rsaFlattenPublicKey source rsaEMaxSz nSz = some (e, n) → rsaPublicKeyDecodeRaw key n e = (true, key') →
    rsaFlattenPublicKey key' rsaEMaxSz nSz = some (e, n)
  rsaPrivate : ∀ {source key key' : RsaKey} {nSz : Nat} {e n : Bytes} {priv : RsaPrivate},
    rsaFlattenPublicKey source rsaEMaxSz nSz = some (e, n) → RsaExports source priv →
    rsaPrivateKeyDecodeRaw key n e priv.d priv.qInv priv.p priv.q priv.dP priv.dQ = (true, key') →
    rsaFlattenPublicKey key' rsaEMaxSz nSz = some (e, n) ∧ RsaExports key' priv ∧ rsaHasDevice key' = rsaHasDevice key
  mlDsaPublic : ∀ {key key' : MlDsaKey} {pub : Bytes}, mlDsaImportPubRaw key pub = (true, key') →
    mlDsaExportPubRaw key' pub.length = some pub
  mlDsaSeed : ∀ {key key' : MlDsaKey} {n : Nat} {pub seed : Bytes}, mlDsaExportPubRaw key n = some pub →
    mlDsaMakeKeyFromSeed key seed = (true, key') → mlDsaExportPubRaw key' n = some ((mlDsaP key').take pub.length)
  lmsPublic : ∀ {key key' : LmsKey} {pub : Bytes}, lmsImportPubRaw key pub = (true, key') →
    lmsExportPubRaw key' hssMaxPublicKeyLen = some pub ∧ lmsState key' ≠ .other

/-! ### The components are those of the key -/

omit [Settings] [KeySettings] [WolfCrypt] [RecipientCrypt] [KeyCrypt] in
theorem Emitted.unique {α : Type} {emits : Bool} {p p' : α → Prop} {o o' : Option α} (h : Emitted emits p o)
    (h' : Emitted emits p' o') (hp : ∀ {a a'}, p a → p' a' → a = a') :
  o = o'
  := by
  have hsome : o.isSome = o'.isSome := h.isSome_eq.trans h'.isSome_eq.symm
  cases o with
  | none =>
      cases o' with
      | none => rfl
      | some a => cases hsome
  | some a =>
      cases o' with
      | none => cases hsome
      | some a' => rw [hp h.2 h'.2]

omit [Settings] [KeySettings] [RecipientCrypt] in
theorem RsaExports.unique {rsaKey : RsaKey} {priv priv' : RsaPrivate} (h : RsaExports rsaKey priv)
    (h' : RsaExports rsaKey priv') :
  priv = priv'
  := by
  obtain ⟨d, modSz, rfl, hd, -, -, hpadded⟩ := h.d
  obtain ⟨d', modSz', rfl, hd', -, -, hpadded'⟩ := h'.d
  obtain rfl := Option.some.inj (hd.symm.trans hd')
  have hcrt := h.crt
  have hcrt' := h'.crt
  simp only [List.forall_mem_cons] at hcrt hcrt'
  obtain ⟨⟨hp, -⟩, ⟨hq, -⟩, ⟨hdP, -⟩, ⟨hdQ, -⟩, ⟨hu, -⟩, -⟩ := hcrt
  obtain ⟨⟨hp', -⟩, ⟨hq', -⟩, ⟨hdP', -⟩, ⟨hdQ', -⟩, ⟨hu', -⟩, -⟩ := hcrt'
  obtain ⟨d₁, p, q, dP, dQ, u⟩ := priv
  obtain ⟨d₂, p', q', dP', dQ', u'⟩ := priv'
  rw [RsaPrivate.mk.injEq]
  exact ⟨hpadded.trans hpadded'.symm, Option.some.inj (hp.symm.trans hp'), Option.some.inj (hq.symm.trans hq'),
    Option.some.inj (hdP.symm.trans hdP'), Option.some.inj (hdQ.symm.trans hdQ'), Option.some.inj (hu.symm.trans hu')⟩

/-- A key has one material only. -/
theorem KeyHas.unique (hdoc : DocumentedExports) (h : KeyHas key flags material) (h' : KeyHas key flags material') :
  material = material'
  := by
  have hkty : ∀ {kty kty' : Int}, key.kty = kty → key.kty = kty' → kty ≠ kty' → material = material' := by
    intro kty kty' heq heq' hne
    exact absurd (heq.symm.trans heq') hne
  cases h with
  | ec2 _ hktyEq hobject _ hpublic _ _ hprivate =>
      cases h' with
      | ec2 _ _ hobject' _ hpublic' _ _ hprivate' =>
          obtain rfl := KeyObject.ecc.inj (hobject.symm.trans hobject')
          obtain ⟨rfl, rfl⟩ := Prod.mk.inj (Option.some.inj (hpublic.symm.trans hpublic'))
          rw [hprivate.unique hprivate' fun ha hb => Option.some.inj (ha.1.symm.trans hb.1)]
      | rsa _ h' => exact hkty hktyEq h' (by decide)
      | akp _ h' => exact hkty hktyEq h' (by decide)
      | lms _ h' => exact hkty hktyEq h' (by decide)
      | okp h' => exact hkty hktyEq h' (by decide)
      | symmetric h' => exact hkty hktyEq h' (by decide)
  | rsa _ hktyEq hobject hn hpos hle hprivate =>
      cases h' with
      | rsa _ _ hobject' hn' hpos' hle' hprivate' =>
          obtain rfl := KeyObject.rsa.inj (hobject.symm.trans hobject')
          have hmod := (hdoc.rsaPublic hn).1.trans (hdoc.rsaPublic hn').1.symm
          have hflatten := (hdoc.rsaPublic hn).2.2.2 _ ((Int.ofNat.inj hmod).trans_le (hdoc.rsaPublic hn').2.2.1)
          obtain ⟨rfl, rfl⟩ := Prod.mk.inj (Option.some.inj (hflatten.symm.trans hn'))
          rw [hprivate.unique hprivate' RsaExports.unique]
      | ec2 _ h' => exact hkty hktyEq h' (by decide)
      | akp _ h' => exact hkty hktyEq h' (by decide)
      | lms _ h' => exact hkty hktyEq h' (by decide)
      | okp h' => exact hkty hktyEq h' (by decide)
      | symmetric h' => exact hkty hktyEq h' (by decide)
  | akp _ hktyEq hobject _ hpub _ _ hprivate =>
      cases h' with
      | akp _ _ hobject' _ hpub' _ _ hprivate' =>
          obtain rfl := KeyObject.mldsa.inj (hobject.symm.trans hobject')
          have hlen := (hdoc.mlDsaPublic hpub).1.symm.trans (hdoc.mlDsaPublic hpub').1
          have hexport := (hdoc.mlDsaPublic hpub).2.2 _
            ((Int.ofNat.inj (Option.some.inj hlen)).trans_le (hdoc.mlDsaPublic hpub').2.1)
          obtain rfl := Option.some.inj (hexport.symm.trans hpub')
          rw [hprivate.unique hprivate' fun ha hb => ha.trans hb.symm]
      | ec2 _ h' => exact hkty hktyEq h' (by decide)
      | rsa _ h' => exact hkty hktyEq h' (by decide)
      | lms _ h' => exact hkty hktyEq h' (by decide)
      | okp h' => exact hkty hktyEq h' (by decide)
      | symmetric h' => exact hkty hktyEq h' (by decide)
  | lms _ hktyEq hcheck hpub =>
      cases h' with
      | lms _ _ hcheck' hpub' =>
          obtain rfl := Except.ok.inj (hcheck.symm.trans hcheck')
          rw [Option.some.inj (hpub.symm.trans hpub')]
      | ec2 _ h' => exact hkty hktyEq h' (by decide)
      | rsa _ h' => exact hkty hktyEq h' (by decide)
      | akp _ h' => exact hkty hktyEq h' (by decide)
      | okp h' => exact hkty hktyEq h' (by decide)
      | symmetric h' => exact hkty hktyEq h' (by decide)
  | okp hktyEq hpublic hprivate =>
      cases h' with
      | okp _ hpublic' hprivate' =>
          obtain rfl := Except.ok.inj (hpublic.symm.trans hpublic')
          rw [hprivate.unique hprivate' fun ha hb => Except.ok.inj (ha.symm.trans hb)]
      | ec2 _ h' => exact hkty hktyEq h' (by decide)
      | rsa _ h' => exact hkty hktyEq h' (by decide)
      | akp _ h' => exact hkty hktyEq h' (by decide)
      | lms _ h' => exact hkty hktyEq h' (by decide)
      | symmetric h' => exact hkty hktyEq h' (by decide)
  | symmetric hktyEq _ hk =>
      cases h' with
      | symmetric _ _ hk' =>
          rw [Pointer.mem.inj (Except.ok.inj (hk.symm.trans hk'))]
      | ec2 _ h' => exact hkty hktyEq h' (by decide)
      | rsa _ h' => exact hkty hktyEq h' (by decide)
      | akp _ h' => exact hkty hktyEq h' (by decide)
      | lms _ h' => exact hkty hktyEq h' (by decide)
      | okp h' => exact hkty hktyEq h' (by decide)

/-! ### What is imported -/

omit [Settings] [KeySettings] [RecipientCrypt] [KeyCrypt] in
theorem runs_imported {ok : Bool} {object : KeyObject} {hasPrivate : Bool} {start key' : Key} {u : Unit} :
  Runs (imported ok object hasPrivate) start u key' ↔ ok = true ∧ { start with object, hasPrivate } = key'
  := by
  simp only [imported, pureStep, runs_bind, runs_modify, runs_ofExcept, failWhen_eq_ok, Bool.not_eq_false]
  constructor
  · rintro ⟨_, _, rfl, hok, rfl⟩
    exact ⟨hok, rfl⟩
  · rintro ⟨hok, rfl⟩
    exact ⟨(), _, rfl, hok, rfl⟩

omit [Settings] [KeySettings] [WolfCrypt] [RecipientCrypt] [KeyCrypt] in
/-- The object that is attached to a key of the given type. -/
theorem attached_of_check {kty crv : Int} {attached : AttachedType}
    (h : keyAttachedTypeCheck kty crv attached = .ok ()) (hne : attached ≠ .none) :
  (kty = ktyEc2 → attached = .ecc) ∧ (kty = ktyRsa → attached = .rsa) ∧ (kty = ktyAkp → attached = .mldsa)
    ∧ (kty = ktyHssLms → attached = .lms)
    ∧ (kty = ktyOkp → attached = .ed25519 ∧ crv = crvEd25519 ∨ attached = .ed448 ∧ crv = crvEd448)
  := by
  cases attached with
  | none => exact absurd rfl hne
  | _ =>
      simp only [keyAttachedTypeCheck, rejectIf_eq_ok, not_or, Decidable.not_not] at h
      simp_all [ktyEc2, ktyRsa, ktyAkp, ktyHssLms, ktyOkp, ktySymmetric]

variable {vars : KeyVars} {start key' : Key} {x y d : Bytes}

omit [Settings] [KeySettings] [RecipientCrypt] in
theorem importEcc_public [RecipientSettings] (hx : vars.x = some x) (hy : vars.y = some y) (hd : vars.d = none)
    (h : Runs (importEcc vars) start () key') :
  ∃ ecc ecc' wcCrv coordSz, crvToWcCurve start.crv = .ok wcCrv ∧ crvKeySize start.crv = .ok coordSz
    ∧ eccImportUnsignedEx ecc (x.take coordSz) (y.take coordSz) none wcCrv = (true, ecc')
    ∧ key' = { start with object := .ecc ecc' }
  := by
  simp only [importEcc, hx, hy, hd, pureStep, runs_bind, runs_get, runs_ofExcept, lift_eq_ok] at h
  obtain ⟨_, _, ⟨rfl, rfl⟩, ecc, _, ⟨-, rfl⟩, wcCrv, _, ⟨hcurve, rfl⟩, coordSz, _, ⟨hsize, rfl⟩, _, _, ⟨-, rfl⟩, h⟩ := h
  obtain ⟨hok, rfl⟩ := runs_imported.mp h
  exact ⟨ecc, _, wcCrv, coordSz, hcurve, hsize, Prod.ext hok rfl, rfl⟩

omit [Settings] [KeySettings] [RecipientCrypt] in
theorem importEcc_private [RecipientSettings] (hx : vars.x = some x) (hy : vars.y = some y) (hd : vars.d = some d)
    (h : Runs (importEcc vars) start () key') :
  ∃ ecc ecc' wcCrv coordSz, crvToWcCurve start.crv = .ok wcCrv ∧ crvKeySize start.crv = .ok coordSz
    ∧ eccImportUnsignedEx ecc (x.take coordSz) (y.take coordSz) (some (d.take coordSz)) wcCrv = (true, ecc')
    ∧ key' = { start with object := .ecc ecc', hasPrivate := true }
  := by
  simp only [importEcc, hx, hy, hd, pureStep, runs_bind, runs_get, runs_ofExcept, lift_eq_ok] at h
  obtain ⟨_, _, ⟨rfl, rfl⟩, ecc, _, ⟨-, rfl⟩, _, _, ⟨-, rfl⟩, wcCrv, _, ⟨hcurve, rfl⟩, coordSz, _, ⟨hsize, rfl⟩, _, _,
    ⟨-, rfl⟩, h⟩ := h
  unfold importedEccPrivate at h
  by_cases hok : (eccImportUnsignedEx ecc (x.take coordSz) (y.take coordSz) (some (d.take coordSz)) wcCrv).1 = true
  · rw [if_pos hok] at h
    obtain ⟨-, rfl⟩ := runs_imported.mp h
    exact ⟨ecc, _, wcCrv, coordSz, hcurve, hsize, Prod.ext hok rfl, rfl⟩
  · rw [if_neg hok] at h
    cases (runs_imported.mp h).1

omit [Settings] [KeySettings] [RecipientCrypt] in
theorem importRsa_public {n e : Bytes} (hn : vars.n = some n) (hx : vars.x = some e) (hy : vars.y = none)
    (h : Runs (importRsa vars) start () key') :
  ∃ rsa rsa', rsaPublicKeyDecodeRaw rsa n e = (true, rsa')
    ∧ key' = { start with object := .rsa rsa', hasPrivate := false }
  := by
  simp only [importRsa, hn, hx, hy, pureStep, runs_bind, runs_get, runs_ofExcept] at h
  obtain ⟨_, _, ⟨rfl, rfl⟩, rsa, _, ⟨-, rfl⟩, h⟩ := h
  obtain ⟨hok, rfl⟩ := runs_imported.mp h
  refine ⟨rsa, _, Prod.ext hok rfl, ?_⟩
  rw [hok, Bool.not_true, Bool.and_false]

omit [Settings] [KeySettings] [RecipientCrypt] in
theorem importRsa_private {n e p q u : Bytes} (hn : vars.n = some n) (hx : vars.x = some e) (hy : vars.y = some d)
    (hd : vars.d = some p) (hq : vars.q = some q) (hqi : vars.qi = some u)
    (h : Runs (importRsa vars) start () key') :
  ∃ rsa rsa', start.object = .rsa rsa
    ∧ rsaPrivateKeyDecodeRaw rsa n e d u p q (vars.dp.getD []) (vars.dq.getD []) = (true, rsa')
    ∧ key' = { start with object := .rsa rsa', hasPrivate := true }
  := by
  simp only [importRsa, hn, hx, hy, hd, hq, hqi, pureStep, runs_bind, runs_get, runs_ofExcept,
    KeyObject.asRsa_eq_ok] at h
  obtain ⟨_, _, ⟨rfl, rfl⟩, rsa, _, ⟨hobject, rfl⟩, h⟩ := h
  obtain ⟨hok, rfl⟩ := runs_imported.mp h
  refine ⟨rsa, _, hobject, Prod.ext hok rfl, ?_⟩
  rw [hok, Bool.or_true]

omit [Settings] [KeySettings] [RecipientCrypt] in
theorem importLms_ok {pub : Bytes} (hn : vars.n = some pub) (h : Runs (importLms vars) start () key') :
  ∃ lms lms', lmsImportPubRaw lms pub = (true, lms') ∧ key' = { start with object := .lms lms', hasPrivate := false }
  := by
  simp only [importLms, hn, Option.getD_some, pureStep, runs_bind, runs_get, runs_ofExcept] at h
  obtain ⟨_, _, ⟨rfl, rfl⟩, lms, _, ⟨-, rfl⟩, h⟩ := h
  obtain ⟨hok, rfl⟩ := runs_imported.mp h
  refine ⟨lms, _, Prod.ext hok rfl, ?_⟩
  rw [hok, Bool.not_true, Bool.and_false]

omit [Settings] [KeySettings] [RecipientCrypt] [KeyCrypt] in
theorem importEdwards_public {κ : Type} {object : κ → KeyObject} {importPublic : κ → Bytes → Bool × κ}
    {importPrivateKey : κ → Bytes → Bytes → Bool × κ} {importPrivateOnly : κ → Bytes → Bool × κ}
    {makePublic : κ → Bool × κ} {clearPrivate : κ → κ} {ed : κ} (hx : vars.x = some x) (hd : vars.d = none)
    (h : Runs (importEdwards object importPublic importPrivateKey importPrivateOnly makePublic clearPrivate ed vars)
      start () key') :
  ∃ ed', importPublic ed x = (true, ed') ∧ key' = { start with object := object ed' }
  := by
  simp only [importEdwards, hx, hd, runs_bind, runs_get] at h
  obtain ⟨_, _, ⟨rfl, rfl⟩, h⟩ := h
  obtain ⟨hok, rfl⟩ := runs_imported.mp h
  exact ⟨_, Prod.ext hok rfl, rfl⟩

omit [Settings] [KeySettings] [RecipientCrypt] [KeyCrypt] in
theorem importEdwards_private {κ : Type} {object : κ → KeyObject} {importPublic : κ → Bytes → Bool × κ}
    {importPrivateKey : κ → Bytes → Bytes → Bool × κ} {importPrivateOnly : κ → Bytes → Bool × κ}
    {makePublic : κ → Bool × κ} {clearPrivate : κ → κ} {ed : κ} (hx : vars.x = some x) (hd : vars.d = some d)
    (h : Runs (importEdwards object importPublic importPrivateKey importPrivateOnly makePublic clearPrivate ed vars)
      start () key') :
  ∃ ed', importPrivateKey ed d x = (true, ed') ∧ key' = { start with object := object ed', hasPrivate := true }
  := by
  simp only [importEdwards, hx, hd, runs_bind, runs_get] at h
  obtain ⟨_, _, ⟨rfl, rfl⟩, h⟩ := h
  obtain ⟨hok, rfl⟩ := runs_imported.mp h
  refine ⟨_, Prod.ext hok rfl, ?_⟩
  rw [hok, Bool.or_true]

omit [Settings] [KeySettings] [RecipientCrypt] [KeyCrypt] in
/-- A key of one of the curves with a public key has a private one exactly if one has been imported. -/
theorem importEdwards_ok {κ : Type} {object : κ → KeyObject} {importPublic : κ → Bytes → Bool × κ}
    {importPrivateKey : κ → Bytes → Bytes → Bool × κ} {importPrivateOnly : κ → Bytes → Bool × κ}
    {makePublic : κ → Bool × κ} {clearPrivate : κ → κ} {ed : κ} (hx : vars.x = some x)
    (hprivate : start.hasPrivate = false)
    (h : Runs (importEdwards object importPublic importPrivateKey importPrivateOnly makePublic clearPrivate ed vars)
      start () key') :
  ∃ ed', (vars.d = none ∧ importPublic ed x = (true, ed')
      ∨ ∃ d, vars.d = some d ∧ importPrivateKey ed d x = (true, ed'))
    ∧ key' = { start with object := object ed', hasPrivate := vars.d.isSome }
  := by
  cases hd : vars.d with
  | none =>
      obtain ⟨ed', hok, rfl⟩ := importEdwards_public hx hd h
      refine ⟨ed', .inl ⟨rfl, hok⟩, ?_⟩
      rw [Option.isSome_none, ← hprivate]
  | some d =>
      obtain ⟨ed', hok, rfl⟩ := importEdwards_private hx hd h
      exact ⟨ed', .inr ⟨d, rfl, hok⟩, rfl⟩

omit [KeySettings] [RecipientCrypt] in
theorem importOkp_ok (hx : vars.x = some x) (hprivate : start.hasPrivate = false)
    (h : Runs (importOkp vars) start () key') :
  (haveEddsa = true ∧ start.crv = crvEd25519 ∧ ∃ ed ed',
      (vars.d = none ∧ ed25519ImportPublic ed x = (true, ed')
        ∨ ∃ d, vars.d = some d ∧ ed25519ImportPrivateKey ed d x = (true, ed'))
      ∧ key' = { start with object := .ed25519 ed', hasPrivate := vars.d.isSome })
    ∨ (haveEd448 = true ∧ start.crv = crvEd448 ∧ ∃ ed ed',
      (vars.d = none ∧ ed448ImportPublic ed x = (true, ed')
        ∨ ∃ d, vars.d = some d ∧ ed448ImportPrivateKey ed d x = (true, ed'))
      ∧ key' = { start with object := .ed448 ed', hasPrivate := vars.d.isSome })
  := by
  simp only [importOkp, pureStep, runs_bind, runs_get, runs_ofExcept, runs_ite] at h
  obtain ⟨_, _, ⟨rfl, rfl⟩, _, _, ⟨-, rfl⟩, ⟨hcrv, h⟩ | ⟨-, ⟨hcrv, h⟩ | ⟨-, h⟩⟩⟩ := h
  · obtain ⟨ed, _, ⟨-, rfl⟩, himport⟩ := h
    obtain ⟨ed', hok, rfl⟩ := importEdwards_ok hx hprivate himport
    exact .inl ⟨hcrv.1, hcrv.2.1, ed, ed', hok, rfl⟩
  · obtain ⟨ed, _, ⟨-, rfl⟩, himport⟩ := h
    obtain ⟨ed', hok, rfl⟩ := importEdwards_ok hx hprivate himport
    exact .inr ⟨hcrv.1, hcrv.2.1, ed, ed', hok, rfl⟩
  · exact absurd h (runs_throw _ _ _ _)

omit [RecipientCrypt] in
theorem importMlDsa_public {pub : Bytes} (hn : vars.n = some pub) (hx : vars.x = none)
    (h : Runs (importMlDsa vars) start () key') :
  ∃ mldsa mldsa', mlDsaImportPubRaw mldsa pub = (true, mldsa') ∧ key' = { start with object := .mldsa mldsa' }
  := by
  simp only [importMlDsa, hn, hx, Option.getD_some, pureStep, runs_bind, runs_get, runs_ofExcept, runs_pure] at h
  obtain ⟨_, _, ⟨rfl, rfl⟩, level, _, ⟨-, rfl⟩, _, _, ⟨-, rfl⟩, mldsa, _, ⟨-, rfl⟩, _, _, hparams, _, _, hpub, -, rfl⟩ := h
  obtain ⟨-, rfl⟩ := runs_imported.mp hparams
  obtain ⟨hok, rfl⟩ := runs_imported.mp hpub
  exact ⟨_, _, Prod.ext hok rfl, rfl⟩

omit [Settings] [KeySettings] [RecipientCrypt] in
theorem importMlDsaSeed_ok {pub seed : Bytes} {mldsa : MlDsaKey} {level : Nat}
    (h : Runs (importMlDsaSeed pub seed mldsa level) start () key') :
  ∃ derived, mlDsaMakeKeyFromSeed mldsa seed = (true, derived) ∧ (mlDsaP derived).take pub.length = pub
    ∧ key' = { start with object := .mldsa derived, hasPrivate := true, mldsaSeed := .mem seed }
  := by
  have hfailed : ∀ {failed : Importing Unit} {e : Err}, ¬ Runs (do failed; throw (.err e)) start () key' := by
    intro failed e hrun
    rw [runs_bind] at hrun
    obtain ⟨_, s, -, hthrow⟩ := hrun
    exact runs_throw _ _ _ _ hthrow
  unfold importMlDsaSeed at h
  generalize hmake : mlDsaMakeKeyFromSeed mldsa seed = result at h
  obtain ⟨ok, derived⟩ := result
  dsimp only at h
  by_cases hbad : ok = true ∧ (mlDsaP derived).take pub.length ≠ pub
  · rw [if_pos hbad] at h
    exact absurd h hfailed
  by_cases hok : ok = true
  · rw [if_neg hbad, if_pos hok, runs_modify] at h
    subst hok
    exact ⟨derived, rfl, not_not.mp fun hne => hbad ⟨rfl, hne⟩, h.symm⟩
  · rw [if_neg hbad, if_neg hok] at h
    exact absurd h hfailed

omit [RecipientCrypt] in
theorem importMlDsa_seed {pub seed : Bytes} (hn : vars.n = some pub) (hx : vars.x = some seed)
    (hmake : mlDsaNoMakeKey = false) (h : Runs (importMlDsa vars) start () key') :
  ∃ mldsa mldsa' derived, mlDsaImportPubRaw mldsa pub = (true, mldsa')
    ∧ mlDsaMakeKeyFromSeed mldsa' seed = (true, derived) ∧ (mlDsaP derived).take pub.length = pub
    ∧ key' = { start with object := .mldsa derived, hasPrivate := true, mldsaSeed := .mem seed }
  := by
  simp only [importMlDsa, hn, hx, hmake, Option.getD_some, pureStep, runs_bind, runs_get, runs_ofExcept,
    Bool.false_eq_true, if_false] at h
  obtain ⟨_, _, ⟨rfl, rfl⟩, level, _, ⟨-, rfl⟩, _, _, ⟨-, rfl⟩, mldsa, _, ⟨-, rfl⟩, _, _, hparams, _, _, hpub, hseed⟩ := h
  obtain ⟨-, rfl⟩ := runs_imported.mp hparams
  obtain ⟨hok, rfl⟩ := runs_imported.mp hpub
  obtain ⟨derived, hmake, hpub, rfl⟩ := importMlDsaSeed_ok hseed
  exact ⟨_, _, derived, Prod.ext hok rfl, hmake, hpub, rfl⟩

omit [Settings] [KeySettings] [RecipientCrypt] [KeyCrypt] in
theorem importSymmetric_ok {b : UInt8} {k : Bytes} (hn : vars.n = some (b :: k))
    (h : Runs (importSymmetric vars) start () key') :
  key' = { start with object := .symm (b :: k), symmKeyLen := (b :: k).length, hasPrivate := true }
  := by
  simp only [importSymmetric, hn, runs_modify] at h
  exact h.symm

end

/-! ### The components that are decoded -/

section

variable [Settings] [KeySettings] [RecipientSettings] [WolfCrypt] [RecipientCrypt] [KeyCrypt] {key target key' : Key}
  {flags : UInt32} {material : Material}

omit [KeySettings] [RecipientSettings] [RecipientCrypt] [KeyCrypt] in
/-- A key without a private part emits none. -/
theorem emitsPrivate_public (h : key'.hasPrivate = false) :
  keyEmitsPrivate key' flags = false
  := by
  simp [keyEmitsPrivate, h]

omit [KeySettings] [RecipientSettings] [RecipientCrypt] [KeyCrypt] in
/-- The flags with which a key emits its private part let another one emit its own. -/
theorem emitsPrivate_private (hkey : keyEmitsPrivate key flags = true) (h : key'.hasPrivate = true)
    (hdelegated : key'.delegated = false) :
  keyEmitsPrivate key' flags = true
  := by
  simp only [keyEmitsPrivate, Bool.and_eq_true] at hkey
  simp only [keyEmitsPrivate, h, hdelegated, hkey.1.2]
  rfl

omit [RecipientCrypt] in
/-- The parameters of a key that is decoded are those of the key that has been encoded. -/
theorem params_of_encoded (himport : Runs (importKey (key.found material)) (target.walked (key.found material)) () key') :
  key'.kty = key.kty ∧ key'.alg = key.alg ∧ key'.crv = (key.found material).crv
    ∧ key'.kid = (if hasKid key.kid then .mem key.kid.bytes else .null 0) ∧ key'.attachedType = target.attachedType
    ∧ key'.delegated = target.delegated
  := by
  have hparams := params_of_decoded himport
  have hkid : (key.found material).kid = if hasKid key.kid then some key.kid.bytes else none := by
    unfold Key.found Material.store
    split <;> rfl
  refine ⟨?_, ?_, congrArg KeyParams.crv hparams, ?_, congrArg KeyParams.attachedType hparams, ?_⟩
  · exact (congrArg KeyParams.kty hparams).trans (kty_found key material)
  · exact (congrArg KeyParams.alg hparams).trans (alg_found key material)
  · rw [show key'.kid = _ from congrArg KeyParams.kid hparams]
    change Option.elim (key.found material).kid (Pointer.null 0) Pointer.mem = _
    rw [hkid]
    split
    · rfl
    · rfl
  · have hsignCb : key'.signCb = target.signCb := congrArg KeyParams.signCb hparams
    unfold Key.delegated
    rw [hsignCb]

omit [RecipientSettings] in
theorem KeyHas.of_ed25519 {ed : Ed25519Key} {x : Bytes} {d : Option Bytes} (hhave : haveEddsa = true)
    (hkty : key.kty = ktyOkp) (hcrv : key.crv = crvEd25519) (hobject : key.object = .ed25519 ed)
    (hpublic : ed25519ExportPublic ed 57 = some x)
    (hprivate : Emitted (keyEmitsPrivate key flags) (fun d => ed25519ExportPrivateOnly ed 57 = some d) d) :
  KeyHas key flags (.okp key.crv x d)
  := by
  refine .okp hkty (exportOkpPublic_eq_ok.mpr (.inl ⟨hhave, hcrv, ed, hobject, hpublic⟩)) ?_
  cases d with
  | none => exact hprivate
  | some d => exact ⟨hprivate.1, exportOkpPrivate_eq_ok.mpr (.inl ⟨hhave, hcrv, ed, hobject, hprivate.2⟩)⟩

omit [RecipientSettings] in
theorem KeyHas.of_ed448 {ed : Ed448Key} {x : Bytes} {d : Option Bytes} (hhave : haveEd448 = true)
    (hkty : key.kty = ktyOkp) (hcrv : key.crv = crvEd448) (hobject : key.object = .ed448 ed)
    (hpublic : ed448ExportPublic ed 57 = some x)
    (hprivate : Emitted (keyEmitsPrivate key flags) (fun d => ed448ExportPrivateOnly ed 57 = some d) d) :
  KeyHas key flags (.okp key.crv x d)
  := by
  refine .okp hkty (exportOkpPublic_eq_ok.mpr (.inr ⟨hhave, hcrv, ed, hobject, hpublic⟩)) ?_
  cases d with
  | none => exact hprivate
  | some d => exact ⟨hprivate.1, exportOkpPrivate_eq_ok.mpr (.inr ⟨hhave, hcrv, ed, hobject, hprivate.2⟩)⟩

/-- A key `key'` that has been decoded, into the attached object of `target`, from the encoding of a key. -/
structure Redecoded (key target key' : Key) (material : Material) : Prop where
  delegated : target.delegated = false
  attached : target.attachedType ≠ .none ∨ key.kty = ktySymmetric
  device : ∀ rsa, target.object = .rsa rsa → rsaHasDevice rsa = false
  type : keyAttachedTypeCheck key.kty (key.found material).crv target.attachedType = .ok ()
  admitted : material.Admitted key.alg target.attachedType
  imported : Runs (importKey (key.found material)) (target.walked (key.found material)) () key'

namespace Redecoded

omit [RecipientCrypt] in
theorem notDelegated (h : Redecoded key target key' material) :
  key'.delegated = false
  := (params_of_encoded h.imported).2.2.2.2.2.trans h.delegated

omit [RecipientCrypt] in
/-- A key of another type than a symmetric one is decoded into an object that is attached. -/
theorem attached_ne (h : Redecoded key target key' material) {kty : Int} (hkty : key.kty = kty)
    (hne : kty ≠ ktySymmetric) :
  target.attachedType ≠ .none
  := h.attached.resolve_right fun hsymm => hne (hkty.symm.trans hsymm)

omit [RecipientCrypt] in
/-- The import depends on the type of the key that has been encoded. -/
theorem import_eq (h : Redecoded key target key' material) :
  Runs (if haveEcc = true ∧ key.kty = ktyEc2 ∧ target.attachedType = .ecc then importEcc (key.found material)
    else if haveRsapss = true ∧ key.kty = ktyRsa ∧ target.attachedType = .rsa then importRsa (key.found material)
    else if haveMldsa = true ∧ key.kty = ktyAkp ∧ target.attachedType = .mldsa then importMlDsa (key.found material)
    else if haveLms = true ∧ key.kty = ktyHssLms ∧ target.attachedType = .lms then importLms (key.found material)
    else if (haveEddsa = true ∨ haveEd448 = true) ∧ key.kty = ktyOkp ∧ target.attachedType ≠ .none then
      importOkp (key.found material)
    else if key.kty = ktySymmetric then importSymmetric (key.found material)
    else return ()) (target.walked (key.found material)) () key'
  := by
  have himport := h.imported
  have hkty : (target.walked (key.found material)).kty = key.kty := kty_found key material
  unfold importKey at himport
  rw [runs_bind] at himport
  obtain ⟨_, _, hget, himport⟩ := himport
  obtain ⟨rfl, rfl⟩ := (runs_get _ _ _).mp hget
  rwa [hkty] at himport

/-- The coordinates and the private key of a curve. -/
theorem ec2 (himp : DocumentedImports) {coordSz : Nat} {x y : Bytes} {d : Option Bytes} {p : Bytes → Prop}
    (h : Redecoded key target key' (.ec2 key.crv x y d)) (hecc : haveEcc = true) (hkty : key.kty = ktyEc2)
    (hcoord : crvKeySize key.crv = .ok coordSz) (hx : x.length = coordSz) (hy : y.length = coordSz)
    (hd : Emitted (keyEmitsPrivate key flags) p d) (hp : ∀ d, p d → d.length = coordSz) :
  KeyHas key' flags (.ec2 key.crv x y d)
  := by
  obtain ⟨hkty', -, hcrv', -, -, -⟩ := params_of_encoded h.imported
  have hatt := (attached_of_check h.type (h.attached_ne hkty (by decide))).1 hkty
  have himport := h.import_eq
  rw [if_pos ⟨hecc, hkty, hatt⟩] at himport
  change key'.crv = key.crv at hcrv'
  have hcoord' : crvKeySize (target.walked (key.found (.ec2 key.crv x y d))).crv = .ok coordSz := hcoord
  rw [← hcrv']
  cases d with
  | none =>
      obtain ⟨ecc, ecc', wcCrv, sz, hcurve, hsize, hok, rfl⟩ := importEcc_public rfl rfl rfl himport
      obtain rfl := Except.ok.inj (hcoord'.symm.trans hsize)
      rw [List.take_of_length_le hx.le, List.take_of_length_le hy.le] at hok
      exact .ec2 hecc (hkty'.trans hkty) rfl hcoord (himp.eccPublic hcurve hcoord hx hy hok) hx hy
        (emitsPrivate_public rfl)
  | some d =>
      obtain ⟨ecc, ecc', wcCrv, sz, hcurve, hsize, hok, rfl⟩ := importEcc_private rfl rfl rfl himport
      obtain rfl := Except.ok.inj (hcoord'.symm.trans hsize)
      have hd' := hp d hd.2
      rw [List.take_of_length_le hx.le, List.take_of_length_le hy.le, List.take_of_length_le hd'.le] at hok
      obtain ⟨hpublic, hprivate⟩ := himp.eccPrivate hcurve hcoord hx hy hd' hok
      exact .ec2 hecc (hkty'.trans hkty) rfl hcoord hpublic hx hy
        ⟨emitsPrivate_private hd.1 rfl h.notDelegated, hprivate, hd'⟩

/-- The public key, and the private one where the key is not in a device. -/
theorem rsa (himp : DocumentedImports) {rsaKey : RsaKey} {n e : Bytes} {nSz : Nat} {priv : Option RsaPrivate}
    (h : Redecoded key target key' (.rsa n e priv)) (hpss : haveRsapss = true) (hkty : key.kty = ktyRsa)
    (hn : rsaFlattenPublicKey rsaKey rsaEMaxSz nSz = some (e, n)) (hpos : 0 < n.length) (hle : n.length ≤ 65535)
    (hpriv : Emitted (haveRsaPrivateKey && keyEmitsPrivate key flags && !rsaHasDevice rsaKey) (RsaExports rsaKey) priv) :
  KeyHas key' flags (.rsa n e priv)
  := by
  obtain ⟨hkty', -⟩ := params_of_encoded h.imported
  have hatt := (attached_of_check h.type (h.attached_ne hkty (by decide))).2.1 hkty
  have himport : Runs (importRsa (key.found (.rsa n e priv))) (target.walked (key.found (.rsa n e priv))) () key' := by
    simpa [hkty, hpss, hatt, ktyEc2, ktyRsa] using h.import_eq
  cases priv with
  | none =>
      obtain ⟨rsa, rsa', hok, rfl⟩ := importRsa_public rfl rfl rfl himport
      refine .rsa hpss (hkty'.trans hkty) rfl (himp.rsaPublic hn hok) hpos hle ?_
      change (_ && _ && _) = false
      rw [emitsPrivate_public rfl, Bool.and_false, Bool.false_and]
  | some priv =>
      obtain ⟨rsa, rsa', hrsa, hok, rfl⟩ := importRsa_private rfl rfl rfl rfl rfl rfl himport
      have hobject : (target.walked (key.found (.rsa n e (some priv)))).object = target.object :=
        if_neg (by rw [hatt]; decide)
      rw [hobject] at hrsa
      obtain ⟨hpublic, hprivate, hdevice⟩ := himp.rsaPrivate hn hpriv.2 hok
      have hemits := hpriv.1
      simp only [Bool.and_eq_true] at hemits
      refine .rsa hpss (hkty'.trans hkty) rfl hpublic hpos hle ⟨?_, hprivate⟩
      rw [hemits.1.1, emitsPrivate_private hemits.1.2 rfl h.notDelegated, hdevice, h.device _ hrsa]
      rfl

/-- The public key, and the seed that it is derived from. -/
theorem akp (himp : DocumentedImports) {pub : Bytes} {seed : Option Bytes}
    (h : Redecoded key target key' (.akp pub seed)) (hmldsa : haveMldsa = true) (hkty : key.kty = ktyAkp)
    (halg : key.alg ≠ algUnset) (hpos : 256 ≤ pub.length) (hle : pub.length ≤ 65535)
    (hseed : Emitted (mlDsaEmitsPrivate key flags) (fun seed => seed = key.mldsaSeed.bytes) seed) :
  KeyHas key' flags (.akp pub seed)
  := by
  obtain ⟨hkty', halg', -⟩ := params_of_encoded h.imported
  have hatt := (attached_of_check h.type (h.attached_ne hkty (by decide))).2.2.1 hkty
  have himport : Runs (importMlDsa (key.found (.akp pub seed))) (target.walked (key.found (.akp pub seed))) () key' := by
    simpa [hkty, hmldsa, hatt, ktyEc2, ktyRsa, ktyAkp] using h.import_eq
  cases seed with
  | none =>
      obtain ⟨mldsa, mldsa', hok, rfl⟩ := importMlDsa_public rfl rfl himport
      refine .akp hmldsa (hkty'.trans hkty) rfl (halg' ▸ halg) (himp.mlDsaPublic hok) hpos hle ?_
      change (_ && _ && _) = false
      rw [emitsPrivate_public rfl, Bool.false_and, Bool.false_and]
  | some seed =>
      have hmake : mlDsaNoMakeKey = false := by
        by_contra hmake
        exact h.admitted.2 ⟨Bool.eq_true_of_not_eq_false hmake, rfl, hatt⟩
      obtain ⟨mldsa, mldsa', derived, hok, hderived, hsame, rfl⟩ := importMlDsa_seed rfl rfl hmake himport
      have hpub := himp.mlDsaSeed (himp.mlDsaPublic hok) hderived
      rw [hsame] at hpub
      have hemits := hseed.1
      have hlen := length_mldsaSeed hemits hseed.2
      simp only [mlDsaEmitsPrivate, Bool.and_eq_true] at hemits
      refine .akp hmldsa (hkty'.trans hkty) rfl (halg' ▸ halg) hpub hpos hle ⟨?_, rfl⟩
      unfold mlDsaEmitsPrivate
      rw [emitsPrivate_private hemits.1.1 rfl h.notDelegated, Bool.true_and, Bool.and_eq_true, decide_eq_true_eq]
      exact ⟨rfl, hlen⟩

/-- The public key of a hierarchy. -/
theorem lms (himp : DocumentedImports) {lmsKey : LmsKey} {pub : Bytes} (h : Redecoded key target key' (.lms pub))
    (hlms : haveLms = true) (hkty : key.kty = ktyHssLms) (hcheck : lmsKeyCheckEncode key = .ok lmsKey) :
  KeyHas key' flags (.lms pub)
  := by
  obtain ⟨hkty', halg', -, -, hattached', -⟩ := params_of_encoded h.imported
  have hatt := (attached_of_check h.type (h.attached_ne hkty (by decide))).2.2.2.1 hkty
  have himport : Runs (importLms (key.found (.lms pub))) (target.walked (key.found (.lms pub))) () key' := by
    simpa [hkty, hlms, hatt, ktyEc2, ktyRsa, ktyAkp, ktyHssLms] using h.import_eq
  obtain ⟨lms, lms', hok, rfl⟩ := importLms_ok rfl himport
  obtain ⟨hpub, hstate⟩ := himp.lmsPublic hok
  refine .lms hlms (hkty'.trans hkty) (lmsKeyCheckEncode_eq_ok.mpr ⟨hattached'.trans hatt, rfl, ?_, hstate⟩) hpub
  rw [halg']
  exact (lmsKeyCheckEncode_eq_ok.mp hcheck).2.2.1

/-- The public key and the private one of an Edwards curve. -/
theorem okp (hdoc : DocumentedExports) (himp : DocumentedImports) {x : Bytes} {d : Option Bytes}
    (h : Redecoded key target key' (.okp key.crv x d)) (hkty : key.kty = ktyOkp)
    (hhas : KeyHas key flags (.okp key.crv x d)) (hemits : d.isSome = true → keyEmitsPrivate key flags = true) :
  KeyHas key' flags (.okp key.crv x d)
  := by
  obtain ⟨hkty', -⟩ := params_of_encoded h.imported
  obtain ⟨hhave, sz, hsizes, -, hx, hd⟩ := hhas.okp_sizes hdoc
  have hatt := h.attached_ne hkty (by decide)
  have himport : Runs (importOkp (key.found (.okp key.crv x d))) (target.walked (key.found (.okp key.crv x d))) () key' := by
    simpa [hkty, hhave, hatt, ktyEc2, ktyRsa, ktyAkp, ktyHssLms, ktyOkp] using h.import_eq
  have hsize : ∀ {n : Nat}, okpSizes key.crv = .ok (n, n) →
      x.length = n ∧ ∀ data, d = some data → data.length = n := by
    intro n h
    obtain ⟨rfl, -⟩ := Prod.mk.inj (Except.ok.inj (hsizes.symm.trans h))
    exact ⟨hx, hd⟩
  have hcurves : ¬ (haveEddsa = true ∧ crvEd448 = crvEd25519) := by
    rintro ⟨-, ⟨⟩⟩
  rcases importOkp_ok rfl rfl himport with ⟨hhave, hcrv, ed, ed', hok, rfl⟩ | ⟨hhave, hcrv, ed, ed', hok, rfl⟩
  · change key.crv = crvEd25519 at hcrv
    obtain ⟨hx, hd⟩ := hsize (if_pos ⟨hhave, hcrv⟩)
    rcases hok with ⟨hnone, hok⟩ | ⟨data, hsome, hok⟩
    · obtain rfl : d = none := hnone
      exact .of_ed25519 hhave (hkty'.trans hkty) hcrv rfl (himp.ed25519Public hx hok) (emitsPrivate_public rfl)
    · obtain rfl : d = some data := hsome
      obtain ⟨hpublic', hd'⟩ := himp.ed25519Private (hd _ rfl) hx hok
      exact .of_ed25519 hhave (hkty'.trans hkty) hcrv rfl hpublic'
        ⟨emitsPrivate_private (hemits rfl) rfl h.notDelegated, hd'⟩
  · change key.crv = crvEd448 at hcrv
    have hsizes' : okpSizes key.crv = .ok (57, 57) := by
      unfold okpSizes
      rw [hcrv, if_neg hcurves, if_pos ⟨hhave, rfl⟩]
    obtain ⟨hx, hd⟩ := hsize hsizes'
    rcases hok with ⟨hnone, hok⟩ | ⟨data, hsome, hok⟩
    · obtain rfl : d = none := hnone
      exact .of_ed448 hhave (hkty'.trans hkty) hcrv rfl (himp.ed448Public hx hok) (emitsPrivate_public rfl)
    · obtain rfl : d = some data := hsome
      obtain ⟨hpublic', hd'⟩ := himp.ed448Private (hd _ rfl) hx hok
      exact .of_ed448 hhave (hkty'.trans hkty) hcrv rfl hpublic'
        ⟨emitsPrivate_private (hemits rfl) rfl h.notDelegated, hd'⟩

/-- The value of a symmetric key. -/
theorem symmetric {k : Bytes} (h : Redecoded key target key' (.symmetric k)) (hkty : key.kty = ktySymmetric)
    (hcheck : symmetricKeyCheckEncode key flags = .ok ()) (hk : key.symmKey = .ok (.mem k)) :
  KeyHas key' flags (.symmetric k)
  := by
  obtain ⟨hkty', -⟩ := params_of_encoded h.imported
  have hdelegated := h.notDelegated
  have himport : Runs (importSymmetric (key.found (.symmetric k))) (target.walked (key.found (.symmetric k))) () key' := by
    simpa [hkty, ktyEc2, ktyRsa, ktyAkp, ktyHssLms, ktyOkp, ktySymmetric] using h.import_eq
  simp only [symmetricKeyCheckEncode, bind_eq_ok, failWhen_eq_ok, exists_const, not_or] at hcheck
  have hlen : k ≠ [] := by
    rintro rfl
    exact hcheck.2.1.2 (len_symmKey hk).symm
  obtain ⟨b, k, rfl⟩ := List.exists_cons_of_ne_nil hlen
  obtain rfl := importSymmetric_ok rfl himport
  refine .symmetric (hkty'.trans hkty) ?_ (by simp [Key.symmKey, KeyObject.asSymm])
  simp only [symmetricKeyCheckEncode, bind_eq_ok, failWhen_eq_ok, exists_const, not_or]
  refine ⟨hcheck.1, ⟨by simp [KeyObject.isNull], by simp⟩, ?_⟩
  rw [hdelegated]
  simp

/-- A key that has been decoded has the components of the key that has been encoded. -/
theorem keyHas (hdoc : DocumentedExports) (himp : DocumentedImports) (h : Redecoded key target key' material)
    (hhas : KeyHas key flags material) :
  KeyHas key' flags material
  := by
  have hokp := hhas
  cases hhas with
  | ec2 hecc hkty _ hcoord _ hx hy hprivate => exact h.ec2 himp hecc hkty hcoord hx hy hprivate fun _ hd => hd.2
  | rsa hpss hkty _ hn hpos hle hprivate => exact h.rsa himp hpss hkty hn hpos hle hprivate
  | akp hmldsa hkty _ halg _ hpos hle hseed => exact h.akp himp hmldsa hkty halg hpos hle hseed
  | lms hlms hkty hcheck _ => exact h.lms himp hlms hkty hcheck
  | okp hkty _ hprivate => exact h.okp hdoc himp hkty hokp fun hd => hprivate.isSome_eq.symm.trans hd
  | symmetric hkty hcheck hk => exact h.symmetric hkty hcheck hk

end Redecoded

/-! ### Round trips -/

omit [Settings] [KeySettings] [RecipientSettings] [RecipientCrypt] [KeyCrypt] in
/-- The entries that are common to all keys depend on the type, the kid and the algorithm. -/
theorem encoding_congr (hkty : key'.kty = key.kty) (halg : key'.alg = key.alg)
    (hkid : key'.kid = if hasKid key.kid then .mem key.kid.bytes else .null 0) :
  key'.encoding material = key.encoding material
  := by
  have hcommon : key'.commonEntries = key.commonEntries := by
    unfold Key.commonEntries
    rw [hkty, halg, hkid]
    by_cases h : hasKid key.kid
    · have h' : hasKid (Pointer.mem key.kid.bytes) := by
        cases hpointer : key.kid with
        | null len =>
            rw [hpointer] at h
            cases h.1
        | mem bs =>
            rw [hpointer] at h
            exact h
      rw [if_pos h, if_pos h', if_pos h]
      rfl
    · have h' : ¬ hasKid (Pointer.null 0) := by
        rintro ⟨⟨⟩, -⟩
      rw [if_neg h, if_neg h', if_neg h]
  unfold Key.encoding
  rw [hcommon]

omit [RecipientSettings] in
/-- What a call that encodes a key has written. -/
theorem keyHas_of_encoded (hdoc : DocumentedExports) {out : Buffer} {len : Nat}
    (h : (keyEncodeEx (some key) (some out) (some len) flags).ret = .ok ()) :
  flags &&& ~~~keyPublicOnly = 0 ∧ ∃ bytes outLen material,
    (keyEncodeEx (some key) (some out) (some len) flags).out = some bytes
    ∧ (keyEncodeEx (some key) (some out) (some len) flags).outLen = some outLen ∧ bytes.length = out.bytes.length
    ∧ outLen = (key.encoding material).length ∧ KeyHas key flags material ∧ bytes.take outLen = key.encoding material
  := by
  obtain ⟨hflags, ctx, hmap, hout, houtLen⟩ := keyEncodeEx_ok h
  obtain ⟨material, hhas, hwrote⟩ := keyEncodeMap_ok hdoc hmap
  refine ⟨hflags, _, _, material, hout, houtLen, hwrote.bufSz, hwrote.idx, hhas, ?_⟩
  rw [hwrote.idx]
  exact hwrote.bytes

/-- A key that has been encoded is decoded into a target exactly if its map is not too large, an object of its
type is attached to the target or none, the decoder admits its components, and they are imported. -/
theorem key_decodes_iff (hdoc : DocumentedExports) {out : Buffer} {len : Nat} (halg : inInt32Range key.alg = true)
    (hret : (keyEncodeEx (some key) (some out) (some len) flags).ret = .ok ()) :
  ∃ bytes outLen material, (keyEncodeEx (some key) (some out) (some len) flags).out = some bytes
    ∧ (keyEncodeEx (some key) (some out) (some len) flags).outLen = some outLen ∧ KeyHas key flags material
    ∧ ∀ (input : Buffer) (target key' : Key), input.bytes = bytes.take outLen → target.delegated = false →
      (keyDecode (some target) (some input) = (.ok (), some key')
        ↔ (key.commonEntries ++ material.entries).length ≤ maxMapItems
          ∧ keyAttachedTypeCheck key.kty (key.found material).crv target.attachedType = .ok ()
          ∧ material.Admitted key.alg target.attachedType
          ∧ Runs (importKey (key.found material)) (target.walked (key.found material)) () key')
  := by
  obtain ⟨-, bytes, outLen, material, hout, houtLen, -, -, hhas, hbytes⟩ := keyHas_of_encoded hdoc hret
  refine ⟨bytes, outLen, material, hout, houtLen, hhas, ?_⟩
  intro input target key' hinput hdelegated
  exact hhas.keyDecode_iff hdoc halg (hinput.trans hbytes) hdelegated

/-- A key that is decoded from an encoded one, into an attached object that is not in a device, has the type,
the algorithm and the kid of that key.  It is encoded into every buffer that suffices, and whatever buffer it is
encoded into starts with the same bytes. -/
theorem key_round_trip (hdoc : DocumentedExports) (himp : DocumentedImports) {out : Buffer} {len : Nat}
    (halg : inInt32Range key.alg = true)
    (hret : (keyEncodeEx (some key) (some out) (some len) flags).ret = .ok ()) :
  ∃ bytes outLen, (keyEncodeEx (some key) (some out) (some len) flags).out = some bytes
    ∧ (keyEncodeEx (some key) (some out) (some len) flags).outLen = some outLen
    ∧ ∀ (input : Buffer) (target key' : Key), input.bytes = bytes.take outLen →
      target.attachedType ≠ .none ∨ key.kty = ktySymmetric →
      (∀ rsa, target.object = .rsa rsa → rsaHasDevice rsa = false) →
      keyDecode (some target) (some input) = (.ok (), some key') →
      key'.kty = key.kty ∧ key'.alg = key.alg
        ∧ key'.kid = (if hasKid key.kid then .mem key.kid.bytes else .null 0)
        ∧ ∀ (out' : Buffer) (len' : Nat),
          (out'.Suffices outLen → (keyEncodeEx (some key') (some out') (some len') flags).ret = .ok ())
            ∧ ((keyEncodeEx (some key') (some out') (some len') flags).ret = .ok () →
              ∃ rest, keyEncodeEx (some key') (some out') (some len') flags
                  = ⟨.ok (), some (input.bytes ++ rest), some outLen⟩
                ∧ outLen + rest.length = out'.bytes.length)
  := by
  obtain ⟨hflags, bytes, outLen, material, hout, houtLen, -, hlen, hhas, hbytes⟩ := keyHas_of_encoded hdoc hret
  refine ⟨bytes, outLen, hout, houtLen, ?_⟩
  intro input target key' hinput hattached hdevice hdecode
  have hdelegated : target.delegated = false := (keyDecode_eq_ok.mp hdecode).2.1
  obtain ⟨-, htype, hadmitted, himport⟩ := (hhas.keyDecode_iff hdoc halg (hinput.trans hbytes) hdelegated).mp hdecode
  obtain ⟨hkty', halg', -, hkid', -, -⟩ := params_of_encoded himport
  have hhas' := Redecoded.keyHas hdoc himp ⟨hdelegated, hattached, hdevice, htype, hadmitted, himport⟩ hhas
  have hencoding := @encoding_congr _ key key' material hkty' halg' hkid'
  refine ⟨hkty', halg', hkid', ?_⟩
  intro out' len'
  constructor
  · intro hsuffices
    apply keyEncodeEx_of_keyHas hdoc hhas' hflags
    rwa [hencoding, ← hlen]
  · intro hret'
    obtain ⟨-, bytes', outLen', material', hout', houtLen', hsize', hlen', hhas'', hbytes'⟩ := keyHas_of_encoded hdoc hret'
    obtain rfl := hhas'.unique hdoc hhas''
    rw [hencoding] at hlen' hbytes'
    obtain rfl : outLen' = outLen := hlen'.trans hlen.symm
    have htake : input.bytes = bytes'.take outLen' := by
      rw [hinput, hbytes, hbytes']
    refine ⟨bytes'.drop outLen', ?_, ?_⟩
    · rw [htake, List.take_append_drop]
      exact CreateOut.ext hret' hout' houtLen'
    · have hle : outLen' ≤ bytes'.length := by
        rw [hlen, ← hbytes']
        exact (List.take_sublist _ _).length_le
      rw [List.length_drop, ← hsize']
      omega

end

/-! ### Examples -/

section Instances

attribute [local instance] defaultSettings sampleKeyWolfCrypt sampleKeySettings failingRecipientCrypt
attribute [local instance] defaultRecipientSettings

/-- The sample keys with the imports of one key pair of Ed25519. -/
@[reducible]
def importingKeyCrypt : KeyCrypt :=
  { sampleKeyCrypt with
    ed25519ImportPublic := fun _ x => (decide (x = ed25519Public), x)
    ed25519ImportPrivateKey := fun _ d x => (decide (d = ed25519Secret ∧ x = ed25519Public), x ++ d) }

attribute [local instance] importingKeyCrypt

theorem documentedExports_importing :
  DocumentedExports
  := by
  obtain ⟨hecc, hed25519, hed25519Priv, hed448, hed448Priv, hrsa, hexponent, hrsaPriv, hmldsa, hlms⟩ :=
    documentedExports_sample
  exact ⟨@hecc, @hed25519, @hed25519Priv, @hed448, @hed448Priv, @hrsa, @hexponent, @hrsaPriv, @hmldsa, @hlms⟩

theorem documentedImports_importing :
  DocumentedImports
  := by
  constructor
  · rintro _ _ _ _ _ _ _ _ _ _ _ ⟨⟩
  · rintro _ _ _ _ _ _ _ _ _ _ _ _ _ ⟨⟩
  · intro key key' x hx h
    obtain ⟨-, rfl⟩ := Prod.mk.inj h
    dsimp only [KeyCrypt.ed25519ExportPublic]
    rw [if_pos (.inl hx), List.take_of_length_le hx.le]
  · intro key key' d x hd hx h
    obtain ⟨-, rfl⟩ := Prod.mk.inj h
    have hlen : (x ++ d).length = 64 := by
      rw [List.length_append, hd, hx]
    dsimp only [KeyCrypt.ed25519ExportPublic, KeyCrypt.ed25519ExportPrivateOnly]
    rw [if_pos (.inr hlen), if_pos hlen, ← hx, List.take_left, List.drop_left]
    exact ⟨rfl, rfl⟩
  · rintro _ _ _ _ ⟨⟩
  · rintro _ _ _ _ _ _ ⟨⟩
  · rintro _ _ _ _ _ _ _ ⟨⟩
  · rintro _ _ _ _ _ _ _ _ _ ⟨⟩
  · rintro _ _ _ ⟨⟩
  · rintro _ _ _ _ _ _ ⟨⟩
  · rintro _ _ _ ⟨⟩

/-- The encoding of the key pair of Ed25519. -/
def encodedEd25519Key : Buffer :=
  .ofBytes ([0xA6, 0x01, 0x01, 0x02, 0x42, 0x31, 0x31, 0x03, 0x27, 0x20, 0x06, 0x21, 0x58, 0x20]
    ++ ed25519Public ++ [0x23, 0x58, 0x20] ++ ed25519Secret)

/-- A key to which an empty Ed25519 key is attached. -/
def freshEd25519Key : Key :=
  { Key.zero with kty := ktyOkp, crv := crvEd25519, object := .ed25519 ([] : Bytes), attachedType := .ed25519 }

/-- The key pair is decoded into the fresh key. -/
theorem key_decodes_ed25519 :
  ∃ bytes outLen material, (keyEncodeEx (some sampleEd25519Key) (some encodedEd25519Key) (some 0) 0).out = some bytes
    ∧ (keyEncodeEx (some sampleEd25519Key) (some encodedEd25519Key) (some 0) 0).outLen = some outLen
    ∧ KeyHas sampleEd25519Key 0 material
    ∧ ∀ (input : Buffer) (key' : Key), input.bytes = bytes.take outLen →
      (keyDecode (some freshEd25519Key) (some input) = (.ok (), some key')
        ↔ (sampleEd25519Key.commonEntries ++ material.entries).length ≤ maxMapItems
          ∧ keyAttachedTypeCheck ktyOkp (sampleEd25519Key.found material).crv .ed25519 = .ok ()
          ∧ material.Admitted algEddsa .ed25519
          ∧ Runs (importKey (sampleEd25519Key.found material))
            (freshEd25519Key.walked (sampleEd25519Key.found material)) () key')
  := by
  have hret : (keyEncodeEx (some sampleEd25519Key) (some encodedEd25519Key) (some 0) 0).ret = .ok () := by
    decide +kernel
  obtain ⟨bytes, outLen, material, hout, houtLen, hhas, hall⟩ := key_decodes_iff documentedExports_importing rfl hret
  exact ⟨bytes, outLen, material, hout, houtLen, hhas, fun input key' hinput => hall input freshEd25519Key key' hinput rfl⟩

/-- The key that has been decoded is encoded to the same bytes. -/
theorem key_round_trip_ed25519 :
  ∃ key', keyDecode (some freshEd25519Key) (some encodedEd25519Key) = (.ok (), some key') ∧ key'.kid = .mem [0x31, 0x31]
    ∧ ∀ (out' : Buffer) (len' : Nat),
      (out'.Suffices 81 → (keyEncodeEx (some key') (some out') (some len') 0).ret = .ok ())
        ∧ ((keyEncodeEx (some key') (some out') (some len') 0).ret = .ok () →
          ∃ rest, keyEncodeEx (some key') (some out') (some len') 0
              = ⟨.ok (), some (encodedEd25519Key.bytes ++ rest), some 81⟩
            ∧ 81 + rest.length = out'.bytes.length)
  := by
  have hret : (keyEncodeEx (some sampleEd25519Key) (some encodedEd25519Key) (some 0) 0).ret = .ok () := by
    decide +kernel
  have hwritten : (keyEncodeEx (some sampleEd25519Key) (some encodedEd25519Key) (some 0) 0).out
      = some encodedEd25519Key.bytes := by decide +kernel
  have hlen : (keyEncodeEx (some sampleEd25519Key) (some encodedEd25519Key) (some 0) 0).outLen = some 81 := by
    decide +kernel
  have hdecode : keyDecode (some freshEd25519Key) (some encodedEd25519Key) = (.ok (), some sampleEd25519Key) := rfl
  obtain ⟨bytes, outLen, hout, houtLen, hall⟩ :=
    key_round_trip documentedExports_importing documentedImports_importing rfl hret
  obtain rfl := Option.some.inj (hwritten.symm.trans hout)
  obtain rfl := Option.some.inj (hlen.symm.trans houtLen)
  obtain ⟨-, -, hkid, hencode⟩ := hall encodedEd25519Key freshEd25519Key _ rfl (.inl (by decide)) (by rintro _ ⟨⟩) hdecode
  exact ⟨_, hdecode, hkid, hencode⟩

end Instances

end WolfCose
