import WolfCose.Key.Decodable
import WolfCose.Key.Typed

/-!
# The checks of an encoded key

Behind the walk `wc_CoseKey_Decode` checks the components by the type of the key.  Those that
`wc_CoseKey_Encode_ex` has written have the sizes that are asked for, so that the checks refuse a few kinds of
keys only, and otherwise the import gets the components as they have been exported.
-/

namespace WolfCose

open Program Cbor Settings KeySettings WolfCrypt RecipientCrypt RecipientSettings KeyCrypt

section
variable [Settings] [KeySettings] {vars : KeyVars} {attached : AttachedType}

theorem checkRsaVars_of_ne (h : vars.kty ≠ ktyRsa) :
  checkRsaVars vars attached = .ok ()
    ↔ (∀ data ∈ [vars.n, vars.x, vars.y, vars.d], lenFitsWord32 (lenOf data) = true)
      ∧ (haveRsaPrivateKeyDecode = true →
        ∀ data ∈ [vars.q, vars.dp, vars.dq, vars.qi], lenFitsWord32 (lenOf data) = true)
  := by
  simp [checkRsaVars, rsaChecked, h, bind_eq_ok]

theorem checkEc2Vars_of_ne (h : vars.kty ≠ ktyEc2) :
  checkEc2Vars vars = .ok ()
  := by
  simp [checkEc2Vars, h]

omit [KeySettings] in
theorem checkOkpVars_of_ne (h : vars.kty ≠ ktyOkp) :
  checkOkpVars vars = .ok ()
  := by
  simp [checkOkpVars, h]

theorem checkAkpLmsVars_of_ne (h : vars.kty ≠ ktyAkp) (h' : vars.kty ≠ ktyHssLms) :
  checkAkpLmsVars vars attached = .ok ()
  := by
  simp [checkAkpLmsVars, h, h', bind_eq_ok]

/-- The checks behind a walk that has read the whole map. -/
theorem checkKeyVars_eq_ok {ctx : DecCtx} (hend : ctx.idx = ctx.bufSz) (hkty : vars.kty ≠ 0)
    (hinvalid : vars.rsaPrivateTypeInvalid = false) :
  checkKeyVars vars attached ctx = .ok ()
    ↔ checkRsaVars vars attached = .ok () ∧ checkEc2Vars vars = .ok () ∧ checkOkpVars vars = .ok ()
      ∧ keyAttachedTypeCheck vars.kty vars.crv attached = .ok () ∧ checkAkpLmsVars vars attached = .ok ()
  := by
  simp only [checkKeyVars, bind_eq_ok, rejectIf_eq_ok, hend, hkty, hinvalid]
  constructor
  · rintro ⟨_, -, _, -, _, -, _, hrsa, _, hec2, _, hokp, _, htype, hakp⟩
    exact ⟨hrsa, hec2, hokp, htype, hakp⟩
  · rintro ⟨hrsa, hec2, hokp, htype, hakp⟩
    exact ⟨(), by simp, (), by simp, (), by simp, (), hrsa, (), hec2, (), hokp, (), htype, hakp⟩

omit [Settings] [KeySettings] in
theorem keyAttachedTypeCheck_rsa {crv : Int} (h : keyAttachedTypeCheck ktyRsa crv attached = .ok ()) :
  attached = .none ∨ attached = .rsa
  := by
  cases attached with
  | none => exact .inl rfl
  | rsa => exact .inr rfl
  | _ => simp [keyAttachedTypeCheck, ktyRsa, ktyEc2, ktyOkp, ktyAkp, ktySymmetric, ktyHssLms] at h

end

section

variable [Settings] [KeySettings] [WolfCrypt] [RecipientCrypt] [KeyCrypt] {key : Key} {flags : UInt32}
  {material : Material} {attached : AttachedType}

/-- The components of a key are taken by the decoder, with the algorithm of the key and the attached type. -/
def Material.Admitted (alg : Int) (attached : AttachedType) : Material → Prop
  | ec2 crv _ _ _ => crv ∈ [crvP256, crvP384, crvP521]
  | rsa n e _ => 24 ≤ n.length ∧ e ≠ []
  | akp _ seed => isMlDsaAlg alg ∧ ¬ (mlDsaNoMakeKey = true ∧ seed.isSome = true ∧ attached = .mldsa)
  | lms pub => lenFitsWord32 pub.length = true
  | okp _ _ _ => True
  | symmetric k => lenFitsWord32 k.length = true

omit [Settings] [KeySettings] [WolfCrypt] [RecipientCrypt] [KeyCrypt] in
/-- A short component fits. -/
theorem lenFits_of_le {n : Nat} (h : n ≤ 65535) :
  lenFitsWord32 n = true
  := by
  unfold lenFitsWord32
  rw [decide_eq_true_eq]
  omega

omit [Settings] [KeySettings] [RecipientCrypt] [KeyCrypt] in
theorem kty_found (key : Key) (material : Material) :
  (key.found material).kty = key.kty
  := by
  unfold Key.found Material.store
  split <;> rfl

omit [Settings] [KeySettings] [RecipientCrypt] [KeyCrypt] in
theorem alg_found (key : Key) (material : Material) :
  (key.found material).alg = key.alg
  := by
  unfold Key.found Material.store
  split <;> rfl

omit [Settings] [KeySettings] [RecipientCrypt] [KeyCrypt] in
theorem rsaPrivateTypeInvalid_found (key : Key) (material : Material) :
  (key.found material).rsaPrivateTypeInvalid = false
  := by
  unfold Key.found Material.store
  split <;> rfl

omit [Settings] [KeySettings] [WolfCrypt] [RecipientCrypt] [KeyCrypt] in
theorem lenFits_none :
  lenFitsWord32 (lenOf none) = true
  := rfl

omit [RecipientCrypt] [KeyCrypt] in
/-- Of a key that is not an RSA key only the lengths are checked here. -/
theorem checkRsa_found (n x y d : Option Bytes) (hkty : key.kty ≠ ktyRsa)
    (hn : (key.found material).n = n) (hx : (key.found material).x = x) (hy : (key.found material).y = y)
    (hd : (key.found material).d = d) (hq : (key.found material).q = none) (hdp : (key.found material).dp = none)
    (hdq : (key.found material).dq = none) (hqi : (key.found material).qi = none) :
  checkRsaVars (key.found material) attached = .ok () ↔ ∀ data ∈ [n, x, y, d], lenFitsWord32 (lenOf data) = true
  := by
  rw [checkRsaVars_of_ne (by rwa [kty_found]), hn, hx, hy, hd, hq, hdp, hdq, hqi]
  simp [lenFits_none]

/-- The checks that depend on the family of the key. -/
def FamilyChecks (vars : KeyVars) (attached : AttachedType) : Prop :=
  checkRsaVars vars attached = .ok () ∧ checkEc2Vars vars = .ok () ∧ checkOkpVars vars = .ok ()
    ∧ checkAkpLmsVars vars attached = .ok ()

omit [RecipientCrypt] [KeyCrypt] in
theorem familyChecks_symmetric {k : Bytes} (hkty : key.kty = ktySymmetric) :
  FamilyChecks (key.found (.symmetric k)) attached ↔ lenFitsWord32 k.length = true
  := by
  have hne : ∀ kty, ktySymmetric ≠ kty → (key.found (.symmetric k)).kty ≠ kty := by
    intro kty h
    rwa [kty_found, hkty]
  unfold FamilyChecks
  rw [checkEc2Vars_of_ne (hne _ (by decide)), checkOkpVars_of_ne (hne _ (by decide)),
    checkAkpLmsVars_of_ne (hne _ (by decide)) (hne _ (by decide)),
    checkRsa_found (some k) none none none (by rw [hkty]; decide) rfl rfl rfl rfl rfl rfl rfl rfl]
  simp only [List.forall_mem_cons, lenFits_none, and_true, List.not_mem_nil, false_imp_iff, implies_true]
  rfl

omit [RecipientCrypt] [KeyCrypt] in
theorem familyChecks_lms {pub : Bytes} (hkty : key.kty = ktyHssLms) (halg : key.alg = algUnset ∨ key.alg = algHssLms) :
  FamilyChecks (key.found (.lms pub)) attached ↔ lenFitsWord32 pub.length = true
  := by
  have hne : ∀ kty, ktyHssLms ≠ kty → (key.found (.lms pub)).kty ≠ kty := by
    intro kty h
    rwa [kty_found, hkty]
  have hlms : checkAkpLmsVars (key.found (.lms pub)) attached = .ok () := by
    have hakp : ktyHssLms ≠ ktyAkp := by decide
    simp only [checkAkpLmsVars, bind_eq_ok, rejectIf_eq_ok, kty_found, alg_found, hkty, hakp, false_and, and_false,
      not_false_eq_true, exists_const, true_and]
    constructor
    · rintro ⟨hunset, hlms⟩
      exact halg.elim hunset hlms
    · simp [Key.found, Material.store, KeyVars.init]
  unfold FamilyChecks
  rw [checkEc2Vars_of_ne (hne _ (by decide)), checkOkpVars_of_ne (hne _ (by decide)), hlms,
    checkRsa_found (some pub) none none none (by rw [hkty]; decide) rfl rfl rfl rfl rfl rfl rfl rfl]
  simp only [List.forall_mem_cons, lenFits_none, and_true, List.not_mem_nil, false_imp_iff, implies_true]
  rfl

omit [RecipientCrypt] [KeyCrypt] in
theorem familyChecks_akp {pub : Bytes} {seed : Option Bytes} (hkty : key.kty = ktyAkp) (hpub : pub.length ≤ 65535)
    (hseed : ∀ s, seed = some s → s.length = mlDsaSeedSz) :
  FamilyChecks (key.found (.akp pub seed)) attached
    ↔ isMlDsaAlg key.alg ∧ ¬ (mlDsaNoMakeKey = true ∧ seed.isSome = true ∧ attached = .mldsa)
  := by
  have hne : ∀ kty, ktyAkp ≠ kty → (key.found (.akp pub seed)).kty ≠ kty := by
    intro kty h
    rwa [kty_found, hkty]
  have hseedLen : lenFitsWord32 (lenOf seed) = true ∧ ¬ (seed.isSome = true ∧ lenOf seed ≠ mlDsaSeedSz) := by
    cases seed with
    | none => exact ⟨rfl, by simp⟩
    | some s =>
        have hlen := hseed s rfl
        simp only [lenOf, Option.map_some, Option.getD_some, hlen]
        exact ⟨rfl, by simp⟩
  have hakp : checkAkpLmsVars (key.found (.akp pub seed)) attached = .ok () ↔
      isMlDsaAlg key.alg ∧ ¬ (mlDsaNoMakeKey = true ∧ seed.isSome = true ∧ attached = .mldsa) := by
    have hx : (key.found (.akp pub seed)).x = seed := rfl
    have hn : (key.found (.akp pub seed)).n = some pub := rfl
    have hlms : ktyAkp ≠ ktyHssLms := by decide
    simp only [checkAkpLmsVars, bind_eq_ok, rejectIf_eq_ok, kty_found, alg_found, hkty, hx, hn, hlms, true_and,
      Option.isNone_some, Bool.false_eq_true, not_false_eq_true, false_and, exists_const, hseedLen.2, not_not, and_true]
  unfold FamilyChecks
  rw [checkEc2Vars_of_ne (hne _ (by decide)), checkOkpVars_of_ne (hne _ (by decide)), hakp,
    checkRsa_found (some pub) seed none none (by rw [hkty]; decide) rfl rfl rfl rfl rfl rfl rfl rfl]
  have hpubLen : lenFitsWord32 (lenOf (some pub)) = true := lenFits_of_le hpub
  simp only [List.forall_mem_cons, lenFits_none, hseedLen.1, hpubLen, true_and, List.not_mem_nil, false_imp_iff,
    implies_true]

omit [RecipientCrypt] [KeyCrypt] in
theorem familyChecks_okp {x : Bytes} {d : Option Bytes} {sz : Nat} (hkty : key.kty = ktyOkp)
    (hhave : haveEddsa = true ∨ haveEd448 = true) (hsizes : okpSizes key.crv = .ok (sz, sz)) (hsz : sz ≤ 57)
    (hx : x.length = sz) (hd : ∀ data, d = some data → data.length = sz) :
  FamilyChecks (key.found (.okp key.crv x d)) attached
  := by
  have hne : ∀ kty, ktyOkp ≠ kty → (key.found (.okp key.crv x d)).kty ≠ kty := by
    intro kty h
    rwa [kty_found, hkty]
  have hdLen : lenFitsWord32 (lenOf d) = true ∧ ¬ (d.isSome = true ∧ lenOf d ≠ sz) := by
    cases d with
    | none => exact ⟨rfl, by simp⟩
    | some data =>
        have hlen := hd data rfl
        refine ⟨lenFits_of_le ?_, ?_⟩
        · change data.length ≤ 65535
          omega
        · rintro ⟨-, hne⟩
          exact hne hlen
  have hokp : checkOkpVars (key.found (.okp key.crv x d)) = .ok () := by
    unfold checkOkpVars
    rw [if_pos ⟨hhave, by rw [kty_found, hkty]⟩]
    have hcrv : (key.found (.okp key.crv x d)).crv = key.crv := rfl
    have hfoundX : (key.found (.okp key.crv x d)).x = some x := rfl
    have hfoundD : (key.found (.okp key.crv x d)).d = d := rfl
    simp only [bind_eq_ok, rejectIf_eq_ok, hcrv, hfoundX, hfoundD, hsizes, Except.ok.injEq, exists_eq_left']
    refine ⟨(), by simp, ?_⟩
    rintro (⟨-, hne⟩ | hbad)
    · exact hne hx
    · exact hdLen.2 hbad
  have hxLen : lenFitsWord32 (lenOf (some x)) = true := by
    apply lenFits_of_le
    change x.length ≤ 65535
    omega
  unfold FamilyChecks
  rw [checkEc2Vars_of_ne (hne _ (by decide)), checkAkpLmsVars_of_ne (hne _ (by decide)) (hne _ (by decide)),
    checkRsa_found none (some x) none d (by rw [hkty]; decide) rfl rfl rfl rfl rfl rfl rfl rfl]
  refine ⟨?_, rfl, hokp, rfl⟩
  simp only [List.forall_mem_cons, lenFits_none, hdLen.1, hxLen, true_and, List.not_mem_nil, false_imp_iff,
    implies_true]

omit [Settings] [KeySettings] [WolfCrypt] [RecipientCrypt] [KeyCrypt] in
/-- The size of the coordinates on a curve. -/
theorem crvKeySize_le {crv : Int} {n : Nat} (h : crvKeySize crv = .ok n) :
  n ≤ 66
  := by
  unfold crvKeySize at h
  repeat' split at h
  all_goals cases h
  all_goals decide

omit [RecipientCrypt] [KeyCrypt] in
theorem familyChecks_ec2 {x y : Bytes} {d : Option Bytes} {coordSz : Nat} (hecc : haveEcc = true)
    (hkty : key.kty = ktyEc2) (hcoord : crvKeySize key.crv = .ok coordSz) (hx : x.length = coordSz)
    (hy : y.length = coordSz) (hd : ∀ data, d = some data → data.length = coordSz) :
  FamilyChecks (key.found (.ec2 key.crv x y d)) attached ↔ key.crv ∈ [crvP256, crvP384, crvP521]
  := by
  have hne : ∀ kty, ktyEc2 ≠ kty → (key.found (.ec2 key.crv x y d)).kty ≠ kty := by
    intro kty h
    rwa [kty_found, hkty]
  have hle := crvKeySize_le hcoord
  have hdLen : lenFitsWord32 (lenOf d) = true ∧ ¬ (d.isSome = true ∧ lenOf d ≠ coordSz) := by
    cases d with
    | none => exact ⟨rfl, by simp⟩
    | some data =>
        have hlen := hd data rfl
        refine ⟨lenFits_of_le ?_, ?_⟩
        · change data.length ≤ 65535
          omega
        · rintro ⟨-, hne⟩
          exact hne hlen
  have hxLen : lenFitsWord32 (lenOf (some x)) = true := by
    apply lenFits_of_le
    change x.length ≤ 65535
    omega
  have hyLen : lenFitsWord32 (lenOf (some y)) = true := by
    apply lenFits_of_le
    change y.length ≤ 65535
    omega
  have hec2 : checkEc2Vars (key.found (.ec2 key.crv x y d)) = .ok () ↔ key.crv ∈ [crvP256, crvP384, crvP521] := by
    have hcrv : (key.found (.ec2 key.crv x y d)).crv = key.crv := rfl
    have hfoundX : (key.found (.ec2 key.crv x y d)).x = some x := rfl
    have hfoundY : (key.found (.ec2 key.crv x y d)).y = some y := rfl
    have hfoundD : (key.found (.ec2 key.crv x y d)).d = d := rfl
    unfold checkEc2Vars
    rw [if_pos ⟨hecc, by rw [kty_found, hkty]⟩]
    simp only [bind_eq_ok, rejectIf_eq_ok, hcrv, hfoundX, hfoundY, hfoundD, hcoord, Except.ok.injEq, exists_eq_left',
      Option.isNone_some, Option.isSome_some, List.mem_cons, List.not_mem_nil, or_false]
    constructor
    · rintro ⟨-, -, -, hcurve, -⟩
      by_contra hnot
      exact hcurve ⟨fun h => hnot (.inl h), fun h => hnot (.inr (.inl h)), fun h => hnot (.inr (.inr h))⟩
    · intro hcurve
      refine ⟨(), by simp, (), ?_, ?_⟩
      · rintro ⟨h256, h384, h521⟩
        exact hcurve.elim h256 fun h => h.elim h384 h521
      · rintro (⟨-, hbad⟩ | ⟨-, hbad⟩ | hbad)
        · exact hbad hx
        · exact hbad hy
        · exact hdLen.2 hbad
  unfold FamilyChecks
  rw [checkOkpVars_of_ne (hne _ (by decide)), checkAkpLmsVars_of_ne (hne _ (by decide)) (hne _ (by decide)), hec2,
    checkRsa_found none (some x) (some y) d (by rw [hkty]; decide) rfl rfl rfl rfl rfl rfl rfl rfl]
  simp only [List.forall_mem_cons, lenFits_none, hdLen.1, hxLen, hyLen, true_and, and_true, List.not_mem_nil,
    false_imp_iff, implies_true]

omit [WolfCrypt] [RecipientCrypt] [KeyCrypt] in
theorem checkRsaVars_public {vars : KeyVars} {n e : Bytes} (hchecked : rsaChecked vars attached)
    (hn : vars.n = some n) (hx : vars.x = some e) (hnLen : lenFitsWord32 (lenOf (some n)) = true)
    (heLen : lenFitsWord32 (lenOf (some e)) = true)
    (hnone : [vars.y, vars.d, vars.q, vars.dp, vars.dq, vars.qi] = List.replicate 6 none) :
  checkRsaVars vars attached = .ok () ↔ ¬ (lenOf (some n) = 0 ∨ lenOf (some e) = 0)
  := by
  simp only [List.replicate, List.cons.injEq, and_true] at hnone
  obtain ⟨hy, hd, hq, hdp, hdq, hqi⟩ := hnone
  simp only [checkRsaVars, bind_eq_ok, rejectIf_eq_ok, hchecked, true_and, exists_const, hn, hx, hy, hd, hq, hdp, hdq,
    hqi, hnLen, heLen, lenFits_none]
  simp

omit [WolfCrypt] [RecipientCrypt] [KeyCrypt] in
theorem checkRsaVars_private {vars : KeyVars} {n e d p q dP dQ u : Bytes} (hchecked : rsaChecked vars attached)
    (hn : vars.n = some n) (hx : vars.x = some e) (hnLen : n.length ≤ 65535)
    (heLen : lenFitsWord32 (lenOf (some e)) = true) (hdecode : haveRsaPrivateKeyDecode = true)
    (hsome : [vars.y, vars.d, vars.q, vars.dp, vars.dq, vars.qi] = [some d, some p, some q, some dP, some dQ, some u])
    (hd : d.length = n.length) (hcrt : ∀ data ∈ [p, q, dP, dQ, u], data.length = (n.length + 1) / 2) :
  checkRsaVars vars attached = .ok () ↔ ¬ (lenOf (some n) = 0 ∨ lenOf (some e) = 0)
  := by
  simp only [List.cons.injEq, and_true] at hsome
  obtain ⟨hyEq, hdEq, hqEq, hdpEq, hdqEq, hqiEq⟩ := hsome
  simp only [List.forall_mem_cons] at hcrt
  obtain ⟨hp, hq, hdP, hdQ, hu, -⟩ := hcrt
  have hlen : ∀ data : Bytes, lenOf (some data) = data.length := fun _ => rfl
  have hfits : ∀ data : Bytes, data.length ≤ 65535 → lenFitsWord32 data.length = true := fun _ h => lenFits_of_le h
  rw [hlen] at heLen
  simp only [checkRsaVars, bind_eq_ok, rejectIf_eq_ok, hchecked, true_and, exists_const, hn, hx, hyEq, hdEq, hqEq,
    hdpEq, hdqEq, hqiEq, hlen, heLen, hdecode, hfits n hnLen, hfits d (by omega), hfits p (by omega),
    hfits q (by omega), hfits dP (by omega), hfits dQ (by omega), hfits u (by omega)]
  have hwidths : ¬ (d.length > n.length ∨ p.length > n.length - n.length / 2 ∨ q.length > n.length - n.length / 2 ∨
      dP.length > n.length - n.length / 2 ∨ dQ.length > n.length - n.length / 2 ∨
      u.length > n.length - n.length / 2) := by
    omega
  simp only [hwidths]
  simp

omit [RecipientCrypt] [KeyCrypt] in
/-- The checks of an RSA key with components of the widths that the encoder writes. -/
theorem familyChecks_rsa {n e : Bytes} {priv : Option RsaPrivate} (hkty : key.kty = ktyRsa) (hpss : haveRsapss = true)
    (hattached : attached = .none ∨ attached = .rsa) (hpos : 0 < n.length) (hle : n.length ≤ 65535) (he : e.length ≤ 8)
    (hpriv : ∀ p, priv = some p → haveRsaPrivateKeyDecode = true ∧ p.d.length = n.length
      ∧ ∀ data ∈ [p.p, p.q, p.dP, p.dQ, p.qInv], data.length = (n.length + 1) / 2) :
  FamilyChecks (key.found (.rsa n e priv)) attached ↔ e ≠ []
  := by
  have hne : ∀ kty, ktyRsa ≠ kty → (key.found (.rsa n e priv)).kty ≠ kty := by
    intro kty h
    rwa [kty_found, hkty]
  have hchecked : rsaChecked (key.found (.rsa n e priv)) attached := ⟨hpss, by rw [kty_found, hkty], hattached⟩
  have heLen : lenFitsWord32 (lenOf (some e)) = true := by
    apply lenFits_of_le
    change e.length ≤ 65535
    omega
  have hrsa : checkRsaVars (key.found (.rsa n e priv)) attached = .ok () ↔
      ¬ (lenOf (some n) = 0 ∨ lenOf (some e) = 0) := by
    cases priv with
    | none => exact checkRsaVars_public hchecked rfl rfl (lenFits_of_le hle) heLen rfl
    | some p =>
        obtain ⟨hdecode, hd, hcrt⟩ := hpriv p rfl
        exact checkRsaVars_private hchecked rfl rfl hle heLen hdecode rfl hd hcrt
  have hnonempty : ¬ (lenOf (some n) = 0 ∨ lenOf (some e) = 0) ↔ e ≠ [] := by
    rw [not_or, ← List.length_pos_iff]
    change n.length ≠ 0 ∧ e.length ≠ 0 ↔ 0 < e.length
    omega
  unfold FamilyChecks
  rw [checkEc2Vars_of_ne (hne _ (by decide)), checkOkpVars_of_ne (hne _ (by decide)),
    checkAkpLmsVars_of_ne (hne _ (by decide)) (hne _ (by decide)), hrsa, hnonempty]
  simp only [and_true]

/-! ### Keys that are decoded -/

/-- The heads of the components of a key are preferred unless it is an RSA key with a short modulus. -/
theorem KeyHas.preferred_iff (hdoc : DocumentedExports) (h : KeyHas key flags material) :
  (∀ e ∈ material.entries, e.2.Preferred) ↔ ∀ n e priv, material = .rsa n e priv → 24 ≤ n.length
  := by
  have hoptional : ∀ {label : Int} {data : Option Bytes}, ∀ e ∈ optionalEntry label data, e.2.Preferred := by
    intro label data e he
    obtain ⟨bs, -, rfl⟩ := List.mem_map.mp he
    trivial
  cases h with
  | ec2 =>
      apply iff_of_true
      · simp only [Material.entries, List.forall_mem_append, List.forall_mem_cons]
        exact ⟨⟨trivial, trivial, trivial, by simp⟩, hoptional⟩
      · rintro n e priv ⟨⟩
  | @rsa _ n e _ priv _ _ _ hn _ _ hprivate =>
      constructor
      · rintro hall _ _ _ ⟨⟩
        exact hall (keyLabelCrv, .reserved n) (by simp [Material.entries])
      · intro hlong
        have hle := hlong n e priv rfl
        simp only [Material.entries, List.forall_mem_append, List.forall_mem_cons]
        refine ⟨⟨hle, trivial, by simp⟩, ?_⟩
        intro entry hentry
        obtain ⟨p, hp, hmem⟩ := List.mem_flatMap.mp hentry
        have hwidth := ((hprivate.of_eq_some (Option.mem_toList.mp hp)).widths hdoc hn).1
        simp only [RsaPrivate.entries, List.mem_cons, List.not_mem_nil, or_false] at hmem
        rcases hmem with rfl | rfl | rfl | rfl | rfl | rfl
        · exact hle.trans_eq hwidth.symm
        all_goals trivial
  | @akp _ pub _ _ _ _ _ _ _ hpos =>
      apply iff_of_true
      · simp only [Material.entries, List.forall_mem_cons]
        refine ⟨?_, hoptional⟩
        change 24 ≤ pub.length
        omega
      · rintro n e priv ⟨⟩
  | lms =>
      apply iff_of_true
      · simp only [Material.entries, List.forall_mem_singleton]
        trivial
      · rintro n e priv ⟨⟩
  | okp =>
      apply iff_of_true
      · simp only [Material.entries, List.forall_mem_append, List.forall_mem_cons]
        exact ⟨⟨trivial, trivial, by simp⟩, hoptional⟩
      · rintro n e priv ⟨⟩
  | symmetric =>
      apply iff_of_true
      · simp only [Material.entries, List.forall_mem_singleton]
        trivial
      · rintro n e priv ⟨⟩

omit [KeySettings] [RecipientCrypt] in
/-- The object of an OKP key whose private key is exported. -/
theorem exportOkpPrivate_eq_ok {d : Bytes} :
  exportOkpPrivate key = .ok d
    ↔ (haveEddsa = true ∧ key.crv = crvEd25519
        ∧ ∃ edKey, key.object = .ed25519 edKey ∧ ed25519ExportPrivateOnly edKey 57 = some d)
      ∨ (haveEd448 = true ∧ key.crv = crvEd448
        ∧ ∃ edKey, key.object = .ed448 edKey ∧ ed448ExportPrivateOnly edKey 57 = some d)
  := by
  have hne : crvEd25519 ≠ crvEd448 := by decide
  unfold exportOkpPrivate
  by_cases h25519 : haveEddsa = true ∧ key.crv = crvEd25519
  · rw [if_pos h25519]
    simp only [bind_eq_ok, KeyObject.asEd25519_eq_ok, orCrypto_eq_ok, h25519, hne, true_and, false_and, and_false,
      or_false]
  by_cases h448 : haveEd448 = true ∧ key.crv = crvEd448
  · rw [if_neg h25519, if_pos h448]
    simp only [bind_eq_ok, KeyObject.asEd448_eq_ok, orCrypto_eq_ok, h448, hne.symm, true_and, false_and, and_false,
      false_or]
  · rw [if_neg h25519, if_neg h448]
    constructor
    · rintro ⟨⟩
    · rintro (⟨hhave, hcrv, -⟩ | ⟨hhave, hcrv, -⟩)
      · exact absurd ⟨hhave, hcrv⟩ h25519
      · exact absurd ⟨hhave, hcrv⟩ h448

/-- An OKP key has the sizes of its curve. -/
theorem KeyHas.okp_sizes (hdoc : DocumentedExports) {x : Bytes} {d : Option Bytes}
    (h : KeyHas key flags (.okp key.crv x d)) :
  (haveEddsa = true ∨ haveEd448 = true)
    ∧ ∃ sz, okpSizes key.crv = .ok (sz, sz) ∧ sz ≤ 57 ∧ x.length = sz ∧ ∀ data, d = some data → data.length = sz
  := by
  have hne : crvEd448 ≠ crvEd25519 := by decide
  cases h with
  | okp _ hpublic hprivate =>
      rcases exportOkpPublic_eq_ok.mp hpublic with ⟨hhave, hcrv, ed, hobject, hx⟩ | ⟨hhave, hcrv, ed, hobject, hx⟩
      · refine ⟨.inl hhave, 32, if_pos ⟨hhave, hcrv⟩, by decide, hdoc.ed25519Public hx, ?_⟩
        intro data hdata
        rcases exportOkpPrivate_eq_ok.mp (hprivate.of_eq_some hdata) with ⟨-, -, _, -, hd⟩ | ⟨-, hcrv', -⟩
        · exact hdoc.ed25519Private hd
        · exact absurd (hcrv'.symm.trans hcrv) hne
      · refine ⟨.inr hhave, 57, ?_, by decide, hdoc.ed448Public hx, ?_⟩
        · unfold okpSizes
          rw [hcrv, if_neg (fun h => hne h.2), if_pos ⟨hhave, rfl⟩]
        · intro data hdata
          rcases exportOkpPrivate_eq_ok.mp (hprivate.of_eq_some hdata) with ⟨-, hcrv', -⟩ | ⟨-, -, _, -, hd⟩
          · exact absurd (hcrv.symm.trans hcrv') hne
          · exact hdoc.ed448Private hd

/-- The walk and the checks take the components of a key exactly if they are admitted. -/
theorem KeyHas.admitted_iff (hdoc : DocumentedExports) (h : KeyHas key flags material) {ctx : DecCtx}
    (hend : ctx.idx = ctx.bufSz) :
  (∀ e ∈ material.entries, e.2.Preferred) ∧ checkKeyVars (key.found material) attached ctx = .ok ()
    ↔ keyAttachedTypeCheck key.kty (key.found material).crv attached = .ok () ∧ material.Admitted key.alg attached
  := by
  have hfamily : keyAttachedTypeCheck key.kty (key.found material).crv attached = .ok () →
      ((∀ e ∈ material.entries, e.2.Preferred) ∧ FamilyChecks (key.found material) attached ↔
        material.Admitted key.alg attached) := by
    intro htype
    rw [h.preferred_iff hdoc]
    have hokp := h
    cases h with
    | ec2 hecc hkty _ hcoord _ hx hy hprivate =>
        rw [familyChecks_ec2 hecc hkty hcoord hx hy fun data hdata => (hprivate.of_eq_some hdata).2]
        apply and_iff_right
        rintro n e priv ⟨⟩
    | @rsa _ n e _ priv hpss hkty _ hn hpos hle hprivate =>
        rw [hkty] at htype
        have hpriv : ∀ p, priv = some p → haveRsaPrivateKeyDecode = true ∧ p.d.length = n.length
            ∧ ∀ data ∈ [p.p, p.q, p.dP, p.dQ, p.qInv], data.length = (n.length + 1) / 2 := by
          rintro p rfl
          have hemits := hprivate.1
          simp only [Bool.and_eq_true] at hemits
          exact ⟨(decode_of_haveRsaPrivateKey hemits.1.1).1, hprivate.2.widths hdoc hn⟩
        rw [familyChecks_rsa hkty hpss (keyAttachedTypeCheck_rsa htype) hpos hle (hdoc.rsaPublic hn).2.1 hpriv]
        constructor
        · rintro ⟨hlong, he⟩
          exact ⟨hlong n e priv rfl, he⟩
        · rintro ⟨hlong, he⟩
          refine ⟨?_, he⟩
          rintro _ _ _ ⟨⟩
          exact hlong
    | @akp _ _ _ seed _ hkty _ _ _ _ hle hprivate =>
        have hseed : ∀ s, seed = some s → s.length = mlDsaSeedSz := by
          intro s hs
          have hemits := hprivate.isSome_eq
          rw [hs] at hemits
          exact length_mldsaSeed hemits.symm (hprivate.of_eq_some hs)
        rw [familyChecks_akp hkty hle hseed]
        apply and_iff_right
        rintro n e priv ⟨⟩
    | lms _ hkty hcheck =>
        simp only [lmsKeyCheckEncode, bind_eq_ok, failWhen_eq_ok, exists_const] at hcheck
        have halg : key.alg = algUnset ∨ key.alg = algHssLms := by
          by_contra hnot
          exact hcheck.2.2.1 ⟨fun h => hnot (.inl h), fun h => hnot (.inr h)⟩
        rw [familyChecks_lms hkty halg]
        apply and_iff_right
        rintro n e priv ⟨⟩
    | okp hkty hpublic =>
        obtain ⟨hhave, sz, hsizes, hsz, hx, hd⟩ := hokp.okp_sizes hdoc
        apply iff_of_true
        · refine ⟨?_, familyChecks_okp hkty hhave hsizes hsz hx hd⟩
          rintro n e priv ⟨⟩
        · trivial
    | symmetric hkty =>
        rw [familyChecks_symmetric hkty]
        apply and_iff_right
        rintro n e priv ⟨⟩
  rw [checkKeyVars_eq_ok hend (by rw [kty_found]; exact h.kty_inRange.1.ne') (rsaPrivateTypeInvalid_found key material),
    kty_found]
  constructor
  · rintro ⟨hpreferred, hrsa, hec2, hokp, htype, hakp⟩
    exact ⟨htype, (hfamily htype).mp ⟨hpreferred, hrsa, hec2, hokp, hakp⟩⟩
  · rintro ⟨htype, hadmitted⟩
    obtain ⟨hpreferred, hrsa, hec2, hokp, hakp⟩ := (hfamily htype).mpr hadmitted
    exact ⟨hpreferred, hrsa, hec2, hokp, htype, hakp⟩

end

section

variable [Settings] [KeySettings] [RecipientSettings] [WolfCrypt] [RecipientCrypt] [KeyCrypt] {key : Key}
  {flags : UInt32} {material : Material}

/-- A key is decoded from the encoding of its components exactly if the map is not too large, the components
are admitted, the attached object is of their type, and they are imported. -/
theorem KeyHas.keyDecode_iff (hdoc : DocumentedExports) (h : KeyHas key flags material)
    (halg : inInt32Range key.alg = true) {input : Buffer} (hin : input.bytes = key.encoding material)
    {target key' : Key} (hdelegated : target.delegated = false) :
  keyDecode (some target) (some input) = (.ok (), some key')
    ↔ (key.commonEntries ++ material.entries).length ≤ maxMapItems
      ∧ keyAttachedTypeCheck key.kty (key.found material).crv target.attachedType = .ok ()
      ∧ material.Admitted key.alg target.attachedType
      ∧ Runs (importKey (key.found material)) (target.walked (key.found material)) () key'
  := by
  have hne : input.bytes ≠ [] := by
    rw [hin, Key.encoding, keyMap]
    exact List.append_ne_nil_of_left_ne_nil (preferredHead_ne_nil _ _) _
  rw [keyDecode_eq_ok]
  constructor
  · rintro ⟨-, -, ctx, vars, hwalk, hcheck, himport⟩
    obtain ⟨hlen, hpreferred⟩ := h.of_walked hdoc halg hin hwalk
    obtain ⟨ctx', hwalk', hend⟩ := h.walked hdoc halg hin hlen hpreferred
    rw [hwalk'] at hwalk
    cases hwalk
    obtain ⟨htype, hadmitted⟩ := (h.admitted_iff hdoc hend).mp ⟨hpreferred, hcheck⟩
    exact ⟨hlen, htype, hadmitted, himport⟩
  · rintro ⟨hlen, htype, hadmitted, himport⟩
    have hpreferred : ∀ e ∈ material.entries, e.2.Preferred := by
      rw [h.preferred_iff hdoc]
      rintro n e priv rfl
      exact hadmitted.1
    obtain ⟨ctx, hwalk, hend⟩ := h.walked hdoc halg hin hlen hpreferred
    obtain ⟨-, hcheck⟩ := (h.admitted_iff hdoc hend).mpr ⟨htype, hadmitted⟩
    exact ⟨hne, hdelegated, ctx, _, hwalk, hcheck, himport⟩

end

end WolfCose
