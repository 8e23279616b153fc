import WolfCose.Key.Import
import WolfCose.Key.Setters

/-!
# The union of a key

The union of a key holds what `attachedType` says, or where nothing is attached, nothing or a decoded
symmetric key.  Decoding keeps that and reads the union only as what it is.  While a key is imported it is
also without a private part, so this is what a decoding that fails leaves behind.
-/

namespace WolfCose

open Program Cbor Settings KeySettings WolfCrypt RecipientCrypt RecipientSettings KeyCrypt

/-! ### The union -/

section

variable [WolfCrypt]

/-- The attached type that an object has. -/
def KeyObject.kind : KeyObject → AttachedType
  | null => .none
  | ecc _ => .ecc
  | ed25519 _ => .ed25519
  | ed448 _ => .ed448
  | rsa _ => .rsa
  | mldsa _ => .mldsa
  | lms _ => .lms
  | symm _ => .symmetric

section

variable {object : KeyObject}

theorem KeyObject.kind_eq_ecc :
  object.kind = .ecc ↔ ∃ key, object = .ecc key
  := by cases object <;> simp [kind]

theorem KeyObject.kind_eq_ed25519 :
  object.kind = .ed25519 ↔ ∃ key, object = .ed25519 key
  := by cases object <;> simp [kind]

theorem KeyObject.kind_eq_ed448 :
  object.kind = .ed448 ↔ ∃ key, object = .ed448 key
  := by cases object <;> simp [kind]

theorem KeyObject.kind_eq_rsa :
  object.kind = .rsa ↔ ∃ key, object = .rsa key
  := by cases object <;> simp [kind]

theorem KeyObject.kind_eq_mldsa :
  object.kind = .mldsa ↔ ∃ key, object = .mldsa key
  := by cases object <;> simp [kind]

theorem KeyObject.kind_eq_lms :
  object.kind = .lms ↔ ∃ key, object = .lms key
  := by cases object <;> simp [kind]

theorem KeyObject.kind_eq_symmetric :
  object.kind = .symmetric ↔ ∃ key, object = .symm key
  := by cases object <;> simp [kind]

end

/-- The union of a key holds what its attached type says, or a symmetric key that has been decoded, and a
symmetric key has the length beside it. -/
structure Key.Typed (key : Key) : Prop where
  kind : key.object.kind = key.attachedType
    ∨ key.attachedType = .none ∧ key.object.kind = .symmetric ∧ key.kty = ktySymmetric
  symm : ∀ k, key.object = .symm k → key.symmKeyLen ≤ k.length

namespace Key.Typed

variable {key : Key}

/-- The object of a key with an attached object. -/
theorem kind_eq (h : key.Typed) {attached : AttachedType} (hattached : key.attachedType = attached)
    (hne : attached ≠ .none) :
  key.object.kind = attached
  := by
  obtain hkind | ⟨hnone, -⟩ := h.kind
  · exact hkind.trans hattached
  · exact absurd (hattached.symm.trans hnone) hne

/-- A key with an object that is not a symmetric one. -/
theorem of_kind (hkind : key.object.kind = key.attachedType) (hne : key.attachedType ≠ .symmetric) :
  key.Typed
  := by
  constructor
  · left
    exact hkind
  · intro k hk
    rw [hk] at hkind
    exact absurd hkind.symm hne

/-- A key with a symmetric key of the length beside it. -/
theorem of_symm {k : Bytes} (hobject : key.object = .symm k) (hlen : key.symmKeyLen ≤ k.length)
    (hkty : key.attachedType = .none → key.kty = ktySymmetric)
    (hattached : key.attachedType = .none ∨ key.attachedType = .symmetric) :
  key.Typed
  := by
  constructor
  · rw [hobject]
    obtain hnone | hsymm := hattached
    · right
      exact ⟨hnone, rfl, hkty hnone⟩
    · left
      exact hsymm.symm
  · intro k' hk'
    rw [hobject] at hk'
    rw [← KeyObject.symm.inj hk']
    exact hlen

end Key.Typed

theorem typed_zero :
  Key.zero.Typed
  := by
  apply Key.Typed.of_kind
  · rfl
  · rintro ⟨⟩

end

/-! ### The import -/

section

variable [WolfCrypt]

/-- The key at a point of an import that has not succeeded yet: there is no private part, and an attached
symmetric key is still the one that the import has started from. -/
structure Key.Pending (start key : Key) : Prop where
  typed : key.Typed
  attached : key.attachedType = start.attachedType
  hasPrivate : key.hasPrivate = false
  mldsaSeed : key.mldsaSeed = .null 0
  symm : key.attachedType = .symmetric → key.object = start.object ∧ key.symmKeyLen = start.symmKeyLen
  kind : key.object.kind = key.attachedType
  signCb : key.signCb = start.signCb
  unattached : key.attachedType = .none → key.symmKeyLen = 0

/-- What an import leaves behind that fails. -/
def ImportFailed (start : Key) (fault : Fault) (key : Key) : Prop :=
  fault ≠ .undefined ∧ start.Pending key

/-- What an import leaves behind that succeeds. -/
def Imported (start : Key) (_ : Unit) (key : Key) : Prop :=
  key.Typed ∧ key.attachedType = start.attachedType

variable {start key : Key} {α : Type}

/-- A step that does not change the key, and what follows. -/
theorem Key.Pending.bindPureStep (h : start.Pending key) {x : Checked α} {f : α → Importing Unit}
    (hx : Defined x) (hf : ∀ a, x = .ok a → Ends (f a) key (Imported start) (ImportFailed start)) :
  Ends (pureStep x >>= f) key (Imported start) (ImportFailed start)
  := by
  apply Ends.bindOfExcept hf
  intro fault hfault
  refine ⟨?_, h⟩
  rintro rfl
  exact hx hfault

/-- The result of an import into an object. -/
theorem Key.Pending.imported (h : start.Pending key) {object : KeyObject} {ok hasPrivate : Bool}
    (hne : key.attachedType ≠ .symmetric) (hkind : object.kind = key.attachedType)
    (hprivate : ok = false → hasPrivate = false) :
  Ends (imported ok object hasPrivate) key
    (fun _ key' => Imported start () key' ∧ (hasPrivate = false → start.Pending key')) (ImportFailed start)
  := by
  have htyped : { key with object, hasPrivate }.Typed := Key.Typed.of_kind hkind hne
  have hpending : hasPrivate = false → start.Pending { key with object, hasPrivate } :=
    fun hfalse => ⟨htyped, h.attached, hfalse, h.mldsaSeed, fun hsymm => absurd hsymm hne, hkind, h.signCb,
      h.unattached⟩
  apply Ends.bind (Q := fun _ key' => key' = { key with object, hasPrivate })
  · apply Ends.update
    rfl
  · rintro _ _ rfl
    apply Ends.ofExcept
    · intro _ _
      exact ⟨⟨htyped, h.attached⟩, hpending⟩
    · intro fault hfault
      unfold failWhen rejectIf at hfault
      split at hfault
      · rename_i hok
        cases hfault
        exact ⟨by rintro ⟨⟩, hpending (hprivate hok)⟩
      · cases hfault

/-- The result of an import into an object, at the end. -/
theorem Key.Pending.importedLast (h : start.Pending key) {object : KeyObject} {ok hasPrivate : Bool}
    (hne : key.attachedType ≠ .symmetric) (hkind : object.kind = key.attachedType)
    (hprivate : ok = false → hasPrivate = false) :
  Ends (WolfCose.imported ok object hasPrivate) key (Imported start) (ImportFailed start)
  := by
  apply (h.imported hne hkind hprivate).mono
  · exact fun _ _ hend => hend.1
  · exact fun _ _ hend => hend

/-- The result of an import into an object that has no private part, and what follows. -/
theorem Key.Pending.bindImported (h : start.Pending key) {object : KeyObject} {ok : Bool}
    {f : Unit → Importing Unit} (hne : key.attachedType ≠ .symmetric) (hkind : object.kind = key.attachedType)
    (hf : ∀ key', start.Pending key' → Ends (f ()) key' (Imported start) (ImportFailed start)) :
  Ends (WolfCose.imported ok object key.hasPrivate >>= f) key (Imported start) (ImportFailed start)
  := by
  apply Ends.bind (h.imported hne hkind fun _ => h.hasPrivate)
  rintro _ key' ⟨-, hpending⟩
  apply hf key' (hpending h.hasPrivate)

theorem Key.Pending.throw (h : start.Pending key) (e : Err) :
  Ends (MonadExcept.throw (.err e) : Importing Unit) key (Imported start) (ImportFailed start)
  := by
  apply Ends.throw
  exact ⟨by rintro ⟨⟩, h⟩

theorem Key.Pending.importedEccPrivate [KeyCrypt] (h : start.Pending key) (hattached : key.attachedType = .ecc)
    (saved : EccKey) (result : Bool × EccKey) :
  Ends (importedEccPrivate saved result) key (Imported start) (ImportFailed start)
  := by
  have hne : key.attachedType ≠ .symmetric := by
    rw [hattached]
    decide
  apply Ends.ite
  · intro _
    apply h.importedLast hne
    · exact hattached.symm
    · rintro ⟨⟩
  · intro _
    apply h.importedLast hne
    · exact hattached.symm
    · intro _
      rfl

end

section

variable [Settings] [KeySettings] [RecipientSettings] [WolfCrypt] [KeyCrypt] {start key : Key}

omit [Settings] [KeySettings] [RecipientSettings] in
theorem defined_eccPrivateImportBegin (ecc : EccKey) :
  Defined (eccPrivateImportBegin ecc)
  := by
  apply Avoids.bind defined_failWhen
  intro _ _
  apply Avoids.bind defined_failWhen
  intro _ _
  apply defined_failWhen

omit [Settings] [KeySettings] in
theorem ends_importEcc (h : start.Pending key) (hattached : key.attachedType = .ecc) (vars : KeyVars) :
  Ends (importEcc vars) key (Imported start) (ImportFailed start)
  := by
  obtain ⟨ecc, hecc⟩ := KeyObject.kind_eq_ecc.mp (h.typed.kind_eq hattached (by decide))
  have hne : key.attachedType ≠ .symmetric := by
    rw [hattached]
    decide
  apply Ends.bindGet
  rw [hecc]
  apply h.bindPureStep (Avoids.ok _)
  rintro _ ⟨⟩
  split
  · apply h.bindPureStep (defined_eccPrivateImportBegin _)
    intro _ _
    apply h.bindPureStep (defined_lift _)
    intro _ _
    apply h.bindPureStep (defined_lift _)
    intro _ _
    apply h.bindPureStep defined_failWhen
    intro _ _
    apply h.importedEccPrivate hattached
  · apply h.bindPureStep (defined_lift _)
    intro _ _
    apply h.bindPureStep (defined_lift _)
    intro _ _
    apply h.bindPureStep defined_failWhen
    intro _ _
    apply h.importedLast hne
    · exact hattached.symm
    · intro _
      apply h.hasPrivate
  · apply h.bindPureStep (defined_eccPrivateImportBegin _)
    intro _ _
    apply h.bindPureStep (defined_lift _)
    intro _ _
    apply h.importedEccPrivate hattached
  · apply h.throw

omit [Settings] [KeySettings] [RecipientSettings] in
theorem ends_importRsa (h : start.Pending key) (hattached : key.attachedType = .rsa) (vars : KeyVars) :
  Ends (importRsa vars) key (Imported start) (ImportFailed start)
  := by
  obtain ⟨rsa, hrsa⟩ := KeyObject.kind_eq_rsa.mp (h.typed.kind_eq hattached (by decide))
  have hne : key.attachedType ≠ .symmetric := by
    rw [hattached]
    decide
  apply Ends.bindGet
  split
  · rw [hrsa]
    apply h.bindPureStep (Avoids.ok _)
    rintro _ ⟨⟩
    split
    · apply h.importedLast hne
      · exact hattached.symm
      · intro hok
        rw [h.hasPrivate, hok, Bool.or_self]
    · apply h.importedLast hne
      · exact hattached.symm
      · intro _
        rw [h.hasPrivate, Bool.false_and]
  · apply h.throw

omit [Settings] [KeySettings] [RecipientSettings] in
theorem ends_importMlDsaSeed (h : start.Pending key) (hattached : key.attachedType = .mldsa) (pub seed : Bytes)
    (mldsa : MlDsaKey) (level : Nat) :
  Ends (importMlDsaSeed pub seed mldsa level) key (Imported start) (ImportFailed start)
  := by
  have hne : key.attachedType ≠ .symmetric := by
    rw [hattached]
    decide
  have hfailed : ∀ (e : Err) (mldsa : MlDsaKey), Ends (do
      (modify fun key => { key with object := .mldsa mldsa, hasPrivate := false, mldsaSeed := .null 0 } :
        Importing Unit)
      throw (.err e) : Importing Unit) key (Imported start) (ImportFailed start) := by
    intro e mldsa
    apply Ends.bind (Q := fun _ key' => start.Pending key')
    · apply Ends.update
      exact ⟨.of_kind hattached.symm hne, h.attached, rfl, rfl, fun hsymm => absurd hsymm hne, hattached.symm,
        h.signCb, h.unattached⟩
    · intro _ key' h'
      apply h'.throw
  apply Ends.ite
  · intro _
    apply hfailed
  intro _
  apply Ends.ite
  · intro _
    apply Ends.update
    exact ⟨.of_kind hattached.symm hne, h.attached⟩
  · intro _
    apply hfailed

omit [RecipientSettings] in
theorem ends_importMlDsa (h : start.Pending key) (hattached : key.attachedType = .mldsa) (vars : KeyVars) :
  Ends (importMlDsa vars) key (Imported start) (ImportFailed start)
  := by
  obtain ⟨mldsa, hmldsa⟩ := KeyObject.kind_eq_mldsa.mp (h.typed.kind_eq hattached (by decide))
  have hne : ∀ {key' : Key}, start.Pending key' → key'.attachedType = .mldsa ∧ key'.attachedType ≠ .symmetric := by
    intro key' h'
    have hattached' : key'.attachedType = .mldsa := by rw [h'.attached, ← h.attached, hattached]
    rw [hattached']
    decide
  apply Ends.bindGet
  apply h.bindPureStep (defined_lift _)
  intro _ _
  apply h.bindPureStep defined_failWhen
  intro _ _
  rw [hmldsa]
  apply h.bindPureStep (Avoids.ok _)
  rintro _ ⟨⟩
  apply h.bindImported (hne h).2
  · exact hattached.symm
  intro key₁ h₁
  rw [h.hasPrivate, ← h₁.hasPrivate]
  apply h₁.bindImported (hne h₁).2
  · exact (hne h₁).1.symm
  intro key₂ h₂
  split
  · apply Ends.ite
    · intro _
      apply Ends.pure
      exact ⟨h₂.typed, h₂.attached⟩
    · intro _
      apply ends_importMlDsaSeed h₂ (hne h₂).1
  · apply Ends.pure
    exact ⟨h₂.typed, h₂.attached⟩

omit [Settings] [KeySettings] [RecipientSettings] in
theorem ends_importLms (h : start.Pending key) (hattached : key.attachedType = .lms) (vars : KeyVars) :
  Ends (importLms vars) key (Imported start) (ImportFailed start)
  := by
  obtain ⟨lms, hlms⟩ := KeyObject.kind_eq_lms.mp (h.typed.kind_eq hattached (by decide))
  have hne : key.attachedType ≠ .symmetric := by
    rw [hattached]
    decide
  apply Ends.bindGet
  rw [hlms]
  apply h.bindPureStep (Avoids.ok _)
  rintro _ ⟨⟩
  apply h.importedLast hne
  · exact hattached.symm
  · intro _
    rw [h.hasPrivate, Bool.false_and]

omit [Settings] [KeySettings] [RecipientSettings] [KeyCrypt] in
theorem ends_importEdwards {κ : Type} {object : κ → KeyObject} (importPublic : κ → Bytes → Bool × κ)
    (importPrivateKey : κ → Bytes → Bytes → Bool × κ) (importPrivateOnly : κ → Bytes → Bool × κ)
    (makePublic : κ → Bool × κ) (clearPrivate : κ → κ) (ed : κ) (vars : KeyVars) (h : start.Pending key)
    (hkind : ∀ ed, (object ed).kind = key.attachedType) (hne : key.attachedType ≠ .symmetric) :
  Ends (importEdwards object importPublic importPrivateKey importPrivateOnly makePublic clearPrivate ed vars) key
    (Imported start) (ImportFailed start)
  := by
  have hprivate : ∀ ok : Bool, ok = false → (key.hasPrivate || ok) = false := by
    intro ok hok
    rw [h.hasPrivate, hok, Bool.or_self]
  apply Ends.bindGet
  split
  · apply h.importedLast hne
    · exact hkind _
    · apply hprivate
  · apply h.bindImported hne
    · exact hkind _
    intro key' h'
    have hattached : key'.attachedType = key.attachedType := by rw [h'.attached, h.attached]
    apply h'.importedLast
    · rwa [hattached]
    · rw [hkind, hattached]
    · apply hprivate
  · apply h.importedLast hne
    · exact hkind _
    · intro _
      apply h.hasPrivate
  · apply h.throw

omit [KeySettings] [RecipientSettings] in
theorem ends_importOkp (h : start.Pending key) (vars : KeyVars) :
  Ends (importOkp vars) key (Imported start) (ImportFailed start)
  := by
  apply Ends.bindGet
  apply h.bindPureStep defined_failWhen
  intro _ _
  apply Ends.ite
  · rintro ⟨-, -, hattached⟩
    obtain ⟨ed, hed⟩ := KeyObject.kind_eq_ed25519.mp (h.typed.kind_eq hattached (by decide))
    rw [hed]
    apply h.bindPureStep (Avoids.ok _)
    rintro _ ⟨⟩
    apply ends_importEdwards _ _ _ _ _ _ _ h
    · intro _
      exact hattached.symm
    · rw [hattached]
      decide
  intro _
  apply Ends.ite
  · rintro ⟨-, -, hattached⟩
    obtain ⟨ed, hed⟩ := KeyObject.kind_eq_ed448.mp (h.typed.kind_eq hattached (by decide))
    rw [hed]
    apply h.bindPureStep (Avoids.ok _)
    rintro _ ⟨⟩
    apply ends_importEdwards _ _ _ _ _ _ _ h
    · intro _
      exact hattached.symm
    · rw [hattached]
      decide
  · intro _
    apply h.throw

omit [Settings] [KeySettings] [RecipientSettings] [KeyCrypt] in
theorem ends_importSymmetric (h : start.Pending key) (hkty : key.kty = ktySymmetric)
    (hattached : key.attachedType = .none ∨ key.attachedType = .symmetric) (vars : KeyVars) :
  Ends (importSymmetric vars) key (Imported start) (ImportFailed start)
  := by
  unfold importSymmetric
  split
  · apply Ends.update
    exact ⟨.of_symm rfl (Nat.le_refl _) (fun _ => hkty) hattached, h.attached⟩
  · apply h.throw

omit [Settings] [KeySettings] [RecipientSettings] [WolfCrypt] [KeyCrypt] in
/-- The attached types that a symmetric key has. -/
theorem attached_of_symmetric {kty crv : Int} {attached : AttachedType} (hkty : kty = ktySymmetric)
    (h : keyAttachedTypeCheck kty crv attached = .ok ()) :
  attached = .none ∨ attached = .symmetric
  := by
  subst hkty
  cases attached <;> simp_all [keyAttachedTypeCheck, ktySymmetric, ktyEc2, ktyOkp, ktyRsa, ktyAkp, ktyHssLms]

/-- An import ends with the attached object in place, and one that fails without a private part. -/
theorem ends_importKey (h : start.Pending key)
    (hcheck : keyAttachedTypeCheck key.kty key.crv key.attachedType = .ok ()) (vars : KeyVars) :
  Ends (importKey vars) key (Imported start) (ImportFailed start)
  := by
  apply Ends.bindGet
  apply Ends.ite
  · rintro ⟨-, -, hattached⟩
    apply ends_importEcc h hattached
  intro _
  apply Ends.ite
  · rintro ⟨-, -, hattached⟩
    apply ends_importRsa h hattached
  intro _
  apply Ends.ite
  · rintro ⟨-, -, hattached⟩
    apply ends_importMlDsa h hattached
  intro _
  apply Ends.ite
  · rintro ⟨-, -, hattached⟩
    apply ends_importLms h hattached
  intro _
  apply Ends.ite
  · rintro -
    apply ends_importOkp h
  intro _
  apply Ends.ite
  · intro hkty
    apply ends_importSymmetric h hkty (attached_of_symmetric hkty hcheck)
  · intro _
    apply Ends.pure
    exact ⟨h.typed, h.attached⟩

/-! ### Decoding -/

omit [RecipientSettings] [WolfCrypt] [KeyCrypt] in
/-- The checks of a key include that of its attached type. -/
theorem attachedTypeCheck_of_checkKeyVars {vars : KeyVars} {attached : AttachedType} {ctx : DecCtx}
    (h : checkKeyVars vars attached ctx = .ok ()) :
  keyAttachedTypeCheck vars.kty vars.crv attached = .ok ()
  := by
  simp only [checkKeyVars, bind_eq_ok] at h
  obtain ⟨_, -, _, -, _, -, _, -, _, -, _, -, _, hcheck, -⟩ := h
  exact hcheck

omit [Settings] [KeySettings] [RecipientSettings] [KeyCrypt] in
/-- The key that an import starts from. -/
theorem pending_walked (h : key.Typed) (vars : KeyVars) :
  key.Pending (key.walked vars)
  := by
  constructor
  · by_cases hnone : key.attachedType = .none
    · apply Key.Typed.of_kind
      · simp only [Key.walked, Key.resetForDecode, KeyVars.store, hnone, if_true]
        rfl
      · simp only [Key.walked, Key.resetForDecode, KeyVars.store, hnone]
        decide
    · constructor
      · left
        simp only [Key.walked, Key.resetForDecode, KeyVars.store, if_neg hnone]
        exact h.kind_eq rfl hnone
      · simp only [Key.walked, Key.resetForDecode, KeyVars.store, if_neg hnone]
        exact h.symm
  · rfl
  · rfl
  · rfl
  · intro hsymm
    have hne : key.attachedType ≠ .none := by
      rw [show key.attachedType = .symmetric from hsymm]
      decide
    simp only [Key.walked, Key.resetForDecode, KeyVars.store, if_neg hne, and_self]
  · by_cases hnone : key.attachedType = .none
    · simp only [Key.walked, Key.resetForDecode, KeyVars.store, hnone, if_true]
      rfl
    · simp only [Key.walked, Key.resetForDecode, KeyVars.store, if_neg hnone]
      exact h.kind_eq rfl hnone
  · rfl
  · intro hnone
    exact if_pos hnone

/-- A decoding ends with the attached object in place, and one that fails without a private part. -/
theorem ends_decodeKeyFrom (h : key.Typed) (input : Buffer) :
  Ends (decodeKeyFrom input) key (Imported key) (ImportFailed key)
  := by
  have hpending := pending_walked h
  unfold decodeKeyFrom
  cases hwalk : walkKey decodeKeyValue .init input with
  | mk walked vars =>
      apply Ends.bind (Q := fun _ key' => key' = key.resetForDecode)
      · apply Ends.update
        rfl
      rintro _ _ rfl
      apply Ends.bind (Q := fun _ key' => key' = key.walked vars)
      · apply Ends.update
        rfl
      rintro _ _ rfl
      apply (hpending vars).bindPureStep (defined_lift _)
      intro ctx _
      apply Ends.bindGet
      apply (hpending vars).bindPureStep (defined_lift _)
      intro _ hcheck
      rw [lift_eq_ok] at hcheck
      apply ends_importKey (hpending vars) (attachedTypeCheck_of_checkKeyVars hcheck)

/-- What a decoding leaves behind: the union is typed, and without a private part if the decoding failed,
unless nothing was decoded at all. -/
theorem keyDecode_ends (h : key.Typed) (input : Option Buffer) :
  ∃ key', (keyDecode (some key) input).2 = some key' ∧ Defined (keyDecode (some key) input).1 ∧ key'.Typed
    ∧ key'.attachedType = key.attachedType
    ∧ (∀ fault, (keyDecode (some key) input).1 = .error fault → key' = key ∨ key.Pending key')
  := by
  have hrefused : ∀ e : Err, ∃ key', some key = some key' ∧ Defined (.error (.err e) : Checked Unit) ∧ key'.Typed
      ∧ key'.attachedType = key.attachedType
      ∧ ∀ fault, (.error (.err e) : Checked Unit) = .error fault → key' = key ∨ key.Pending key' := by
    intro e
    exact ⟨key, rfl, Avoids.error (by rintro ⟨⟩), h, rfl, fun _ _ => .inl rfl⟩
  cases input with
  | none => apply hrefused
  | some input =>
      unfold keyDecode
      by_cases hempty : input.bytes.length = 0
      · simp only [hempty, if_true]
        apply hrefused
      by_cases hdelegated : key.delegated = true
      · simp only [hempty, hdelegated, if_true, if_false]
        apply hrefused
      simp only [hempty, hdelegated, if_false]
      have hends := ends_decodeKeyFrom h input
      unfold Ends at hends
      cases hrun : decodeKeyFrom input key with
      | ok u key' =>
          rw [hrun] at hends
          exact ⟨key', rfl, Avoids.ok _, hends.1, hends.2, by rintro _ ⟨⟩⟩
      | error fault key' =>
          rw [hrun] at hends
          exact ⟨key', rfl, Avoids.error hends.1, hends.2.typed, hends.2.attached, fun _ _ => .inr hends.2⟩

end

end WolfCose
