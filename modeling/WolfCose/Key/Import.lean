import WolfCose.Key.DecodeSpec
import WolfCose.Lib.Keeps

/-!
# What the import of a key changes

The steps of `wc_CoseKey_Decode` that import the components of a key change the attached object and
what the key says of its private part, but not the parameters that the walk has stored.
-/

namespace WolfCose

open Program Cbor Settings KeySettings WolfCrypt RecipientCrypt RecipientSettings KeyCrypt

/-- The parameters of a key. -/
structure KeyParams [WolfCrypt] where
  kty : Int
  alg : Int
  crv : Int
  kid : Pointer
  attachedType : AttachedType
  signCb : Option SignCb

/-- The parameters of a key. -/
def Key.params [WolfCrypt] (key : Key) : KeyParams :=
  ⟨key.kty, key.alg, key.crv, key.kid, key.attachedType, key.signCb⟩

section

variable [WolfCrypt]

theorem keeps_pureStep {α : Type} (x : Checked α) :
  Keeps Key.params (pureStep x)
  := Keeps.ofExcept x

theorem keeps_imported (ok : Bool) (object : KeyObject) (hasPrivate : Bool) :
  Keeps Key.params (imported ok object hasPrivate)
  := by
  apply Keeps.bind
  · apply Keeps.modify
    intro key
    rfl
  · intro _
    apply keeps_pureStep

theorem keeps_importedEccPrivate [KeyCrypt] (saved : EccKey) (result : Bool × EccKey) :
  Keeps Key.params (importedEccPrivate saved result)
  := by
  apply Keeps.ite
  · apply keeps_imported
  · apply keeps_imported

end

variable [Settings] [KeySettings] [RecipientSettings] [WolfCrypt] [KeyCrypt]

omit [Settings] [KeySettings] in
theorem keeps_importEcc (vars : KeyVars) :
  Keeps Key.params (importEcc vars)
  := by
  apply Keeps.get
  intro key
  apply Keeps.bind (keeps_pureStep _)
  intro ecc
  split
  · apply Keeps.bind (keeps_pureStep _)
    intro _
    apply Keeps.bind (keeps_pureStep _)
    intro wcCrv
    apply Keeps.bind (keeps_pureStep _)
    intro coordSz
    apply Keeps.bind (keeps_pureStep _)
    intro _
    apply keeps_importedEccPrivate
  · apply Keeps.bind (keeps_pureStep _)
    intro wcCrv
    apply Keeps.bind (keeps_pureStep _)
    intro coordSz
    apply Keeps.bind (keeps_pureStep _)
    intro _
    apply keeps_imported
  · apply Keeps.bind (keeps_pureStep _)
    intro _
    apply Keeps.bind (keeps_pureStep _)
    intro wcCrv
    apply keeps_importedEccPrivate
  · apply Keeps.throw

omit [Settings] [KeySettings] [RecipientSettings] in
theorem keeps_importRsa (vars : KeyVars) :
  Keeps Key.params (importRsa vars)
  := by
  apply Keeps.get
  intro key
  split
  · apply Keeps.bind (keeps_pureStep _)
    intro rsa
    split
    · apply keeps_imported
    · apply keeps_imported
  · apply Keeps.throw

omit [Settings] [KeySettings] [RecipientSettings] in
theorem keeps_importMlDsaSeed (pub seed : Bytes) (mldsa : MlDsaKey) (level : Nat) :
  Keeps Key.params (importMlDsaSeed pub seed mldsa level)
  := by
  have hfailed : ∀ (e : Err) (object : KeyObject), Keeps Key.params (do
      (modify fun key => { key with object, hasPrivate := false, mldsaSeed := .null 0 } : Importing Unit)
      throw (.err e) : Importing Unit) := by
    intro e object
    apply Keeps.bind
    · apply Keeps.modify
      intro key
      rfl
    · intro _
      apply Keeps.throw
  apply Keeps.ite
  · apply hfailed
  apply Keeps.ite
  · apply Keeps.modify
    intro key
    rfl
  · apply hfailed

omit [RecipientSettings] in
theorem keeps_importMlDsa (vars : KeyVars) :
  Keeps Key.params (importMlDsa vars)
  := by
  apply Keeps.get
  intro key
  apply Keeps.bind (keeps_pureStep _)
  intro level
  apply Keeps.bind (keeps_pureStep _)
  intro _
  apply Keeps.bind (keeps_pureStep _)
  intro mldsa
  apply Keeps.bind (keeps_imported _ _ _)
  intro _
  apply Keeps.bind (keeps_imported _ _ _)
  intro _
  split
  · apply Keeps.ite
    · apply Keeps.pure
    · apply keeps_importMlDsaSeed
  · apply Keeps.pure

omit [Settings] [KeySettings] [RecipientSettings] in
theorem keeps_importLms (vars : KeyVars) :
  Keeps Key.params (importLms vars)
  := by
  apply Keeps.get
  intro key
  apply Keeps.bind (keeps_pureStep _)
  intro lms
  apply keeps_imported

omit [Settings] [KeySettings] [RecipientSettings] [KeyCrypt] in
theorem keeps_importEdwards {κ : Type} (object : κ → KeyObject) (importPublic : κ → Bytes → Bool × κ)
    (importPrivateKey : κ → Bytes → Bytes → Bool × κ) (importPrivateOnly : κ → Bytes → Bool × κ)
    (makePublic : κ → Bool × κ) (clearPrivate : κ → κ) (ed : κ) (vars : KeyVars) :
  Keeps Key.params
    (importEdwards object importPublic importPrivateKey importPrivateOnly makePublic clearPrivate ed vars)
  := by
  apply Keeps.get
  intro key
  split
  · apply keeps_imported
  · apply Keeps.bind (keeps_imported _ _ _)
    intro _
    apply keeps_imported
  · apply keeps_imported
  · apply Keeps.throw

omit [KeySettings] [RecipientSettings] in
theorem keeps_importOkp (vars : KeyVars) :
  Keeps Key.params (importOkp vars)
  := by
  apply Keeps.get
  intro key
  apply Keeps.bind (keeps_pureStep _)
  intro _
  apply Keeps.ite
  · apply Keeps.bind (keeps_pureStep _)
    intro ed25519
    apply keeps_importEdwards
  apply Keeps.ite
  · apply Keeps.bind (keeps_pureStep _)
    intro ed448
    apply keeps_importEdwards
  · apply Keeps.throw

omit [Settings] [KeySettings] [RecipientSettings] [KeyCrypt] in
theorem keeps_importSymmetric (vars : KeyVars) :
  Keeps Key.params (importSymmetric vars)
  := by
  unfold importSymmetric
  split
  · apply Keeps.modify
    intro key
    rfl
  · apply Keeps.throw

/-- The import changes no parameter of the key. -/
theorem keeps_importKey (vars : KeyVars) :
  Keeps Key.params (importKey vars)
  := by
  apply Keeps.get
  intro key
  apply Keeps.ite (keeps_importEcc vars)
  apply Keeps.ite (keeps_importRsa vars)
  apply Keeps.ite (keeps_importMlDsa vars)
  apply Keeps.ite (keeps_importLms vars)
  apply Keeps.ite (keeps_importOkp vars)
  apply Keeps.ite (keeps_importSymmetric vars)
  apply Keeps.pure

/-! ### Keys that are decoded -/

/-- The key that the import starts from. -/
def Key.walked (key : Key) (vars : KeyVars) : Key := vars.store key.resetForDecode

/-- A key is decoded if the walk, the checks and the import succeed. -/
theorem keyDecode_eq_ok {key key' : Key} {input : Buffer} :
  keyDecode (some key) (some input) = (.ok (), some key')
    ↔ input.bytes ≠ [] ∧ key.delegated = false ∧ ∃ ctx vars, walkKey decodeKeyValue .init input = (.ok ctx, vars)
      ∧ checkKeyVars vars key.attachedType ctx = .ok () ∧ Runs (importKey vars) (key.walked vars) () key'
  := by
  have hrun : Runs (decodeKeyFrom input) key () key' ↔
      ∃ ctx vars, walkKey decodeKeyValue .init input = (.ok ctx, vars) ∧
        checkKeyVars vars key.attachedType ctx = .ok () ∧ Runs (importKey vars) (key.walked vars) () key' := by
    unfold decodeKeyFrom pureStep
    cases hwalk : walkKey decodeKeyValue .init input with
    | mk walked vars =>
        simp only [runs_bind, runs_modify, runs_ofExcept, lift_eq_ok, runs_get]
        constructor
        · rintro ⟨_, _, rfl, _, _, rfl, ctx, _, ⟨rfl, rfl⟩, _, _, ⟨rfl, rfl⟩, _, _, ⟨hcheck, rfl⟩, himport⟩
          exact ⟨ctx, vars, rfl, hcheck, himport⟩
        · rintro ⟨ctx, _, hok, hcheck, himport⟩
          obtain ⟨rfl, rfl⟩ := Prod.mk.inj hok
          exact ⟨(), _, rfl, (), _, rfl, ctx, _, ⟨rfl, rfl⟩, _, _, ⟨rfl, rfl⟩, (), _, ⟨hcheck, rfl⟩, himport⟩
  unfold keyDecode
  by_cases hnil : input.bytes.length = 0
  · simp [List.eq_nil_of_length_eq_zero hnil]
  have hne : input.bytes ≠ [] := fun h => hnil (by rw [h]; rfl)
  by_cases hdel : key.delegated = true
  · simp [hnil, hdel]
  · simp only [hnil, hdel, hne, ← hrun, if_false, ne_eq, not_false_eq_true, true_and]
    unfold Runs
    cases decodeKeyFrom input key with
    | ok u key₁ => simp
    | error fault key₁ => simp

/-- The parameters of a key that has been decoded are those that the walk has found. -/
theorem params_of_decoded {key key' : Key} {vars : KeyVars} (h : Runs (importKey vars) (key.walked vars) () key') :
  key'.params = (vars.store key).params
  := (keeps_importKey vars).runs (s := key.walked vars) h

end WolfCose
