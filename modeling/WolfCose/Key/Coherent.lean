import WolfCose.Key.Lifecycle

/-!
# Coherent keys

The functions that use a key find out what the union holds from `kty`, from `attachedType`, or from both.
These agree after every run of calls, unless the last call that was to write the type is a decoding that has
failed.
-/

namespace WolfCose

open Program Cbor Settings KeySettings WolfCrypt RecipientCrypt RecipientSettings KeyCrypt

/-! ### What the union holds -/

section

variable [WolfCrypt] {key : Key}

/-- The union of a key holds what the type and the curve of the key say. -/
inductive Key.Holds (key : Key) : Prop where
  | null : key.object = .null → Holds key
  | ecc (ecc : EccKey) : key.kty = ktyEc2 → key.object = .ecc ecc → Holds key
  | ed25519 (ed : Ed25519Key) : key.kty = ktyOkp → key.crv = crvEd25519 → key.object = .ed25519 ed → Holds key
  | ed448 (ed : Ed448Key) : key.kty = ktyOkp → key.crv = crvEd448 → key.object = .ed448 ed → Holds key
  | rsa (rsa : RsaKey) : key.kty = ktyRsa → key.object = .rsa rsa → Holds key
  | mldsa (mldsa : MlDsaKey) : key.kty = ktyAkp → key.object = .mldsa mldsa → Holds key
  | lms (lms : LmsKey) : key.kty = ktyHssLms → key.object = .lms lms → Holds key
  | symm (k : Bytes) : key.kty = ktySymmetric → key.object = .symm k → key.symmKeyLen ≤ k.length → Holds key

/-- The union of a key is typed, and the attached type agrees with the type and the curve of the key. -/
structure Key.Coherent (key : Key) : Prop where
  typed : key.Typed
  attached : keyAttachedTypeCheck key.kty key.crv key.attachedType = .ok ()

/-- The union of a coherent key holds what the type and the curve of the key say. -/
theorem Key.Coherent.holds (h : key.Coherent) :
  key.Holds
  := by
  obtain hkind | ⟨-, hkind, hkty⟩ := h.typed.kind
  · have hattached := h.attached
    rw [← hkind] at hattached
    cases hobject : key.object with
    | null => exact .null hobject
    | ecc ecc =>
        rw [hobject] at hattached
        simp only [KeyObject.kind, keyAttachedTypeCheck, rejectIf_eq_ok, Decidable.not_not] at hattached
        exact .ecc ecc hattached hobject
    | ed25519 ed =>
        rw [hobject] at hattached
        simp only [KeyObject.kind, keyAttachedTypeCheck, rejectIf_eq_ok, not_or, Decidable.not_not] at hattached
        exact .ed25519 ed hattached.1 hattached.2 hobject
    | ed448 ed =>
        rw [hobject] at hattached
        simp only [KeyObject.kind, keyAttachedTypeCheck, rejectIf_eq_ok, not_or, Decidable.not_not] at hattached
        exact .ed448 ed hattached.1 hattached.2 hobject
    | rsa rsa =>
        rw [hobject] at hattached
        simp only [KeyObject.kind, keyAttachedTypeCheck, rejectIf_eq_ok, Decidable.not_not] at hattached
        exact .rsa rsa hattached hobject
    | mldsa mldsa =>
        rw [hobject] at hattached
        simp only [KeyObject.kind, keyAttachedTypeCheck, rejectIf_eq_ok, Decidable.not_not] at hattached
        exact .mldsa mldsa hattached hobject
    | lms lms =>
        rw [hobject] at hattached
        simp only [KeyObject.kind, keyAttachedTypeCheck, rejectIf_eq_ok, Decidable.not_not] at hattached
        exact .lms lms hattached hobject
    | symm k =>
        rw [hobject] at hattached
        simp only [KeyObject.kind, keyAttachedTypeCheck, rejectIf_eq_ok, Decidable.not_not] at hattached
        exact .symm k hattached hobject (h.typed.symm k hobject)
  · obtain ⟨k, hobject⟩ := KeyObject.kind_eq_symmetric.mp hkind
    exact .symm k hkty hobject (h.typed.symm k hobject)

namespace Key.Holds

theorem defined_asEcc (h : key.Holds) (hkty : key.kty = ktyEc2) (hnull : key.object.isNull = false) :
  Defined key.object.asEcc
  := by
  cases h with
  | null hobject => simp [hobject, KeyObject.isNull] at hnull
  | ecc ecc _ hobject =>
      rw [hobject]
      apply Avoids.ok
  | _ => simp_all [ktyEc2, ktyOkp, ktyRsa, ktyAkp, ktyHssLms, ktySymmetric]

theorem defined_asRsa (h : key.Holds) (hkty : key.kty = ktyRsa) (hnull : key.object.isNull = false) :
  Defined key.object.asRsa
  := by
  cases h with
  | null hobject => simp [hobject, KeyObject.isNull] at hnull
  | rsa rsa _ hobject =>
      rw [hobject]
      apply Avoids.ok
  | _ => simp_all [ktyEc2, ktyOkp, ktyRsa, ktyAkp, ktyHssLms, ktySymmetric]

theorem defined_asMldsa (h : key.Holds) (hkty : key.kty = ktyAkp) (hnull : key.object.isNull = false) :
  Defined key.object.asMldsa
  := by
  cases h with
  | null hobject => simp [hobject, KeyObject.isNull] at hnull
  | mldsa mldsa _ hobject =>
      rw [hobject]
      apply Avoids.ok
  | _ => simp_all [ktyEc2, ktyOkp, ktyRsa, ktyAkp, ktyHssLms, ktySymmetric]

theorem defined_asLms (h : key.Holds) (hkty : key.kty = ktyHssLms) (hnull : key.object.isNull = false) :
  Defined key.object.asLms
  := by
  cases h with
  | null hobject => simp [hobject, KeyObject.isNull] at hnull
  | lms lms _ hobject =>
      rw [hobject]
      apply Avoids.ok
  | _ => simp_all [ktyEc2, ktyOkp, ktyRsa, ktyAkp, ktyHssLms, ktySymmetric]

theorem defined_asEd25519 (h : key.Holds) (hkty : key.kty = ktyOkp) (hcrv : key.crv = crvEd25519)
    (hnull : key.object.isNull = false) :
  Defined key.object.asEd25519
  := by
  cases h with
  | null hobject => simp [hobject, KeyObject.isNull] at hnull
  | ed25519 ed _ _ hobject =>
      rw [hobject]
      apply Avoids.ok
  | _ => simp_all [ktyEc2, ktyOkp, ktyRsa, ktyAkp, ktyHssLms, ktySymmetric, crvEd25519, crvEd448]

theorem defined_asEd448 (h : key.Holds) (hkty : key.kty = ktyOkp) (hcrv : key.crv = crvEd448)
    (hnull : key.object.isNull = false) :
  Defined key.object.asEd448
  := by
  cases h with
  | null hobject => simp [hobject, KeyObject.isNull] at hnull
  | ed448 ed _ _ hobject =>
      rw [hobject]
      apply Avoids.ok
  | _ => simp_all [ktyEc2, ktyOkp, ktyRsa, ktyAkp, ktyHssLms, ktySymmetric, crvEd25519, crvEd448]

theorem defined_symmKey (h : key.Holds) (hkty : key.kty = ktySymmetric) :
  Defined key.symmKey
  := by
  unfold Key.symmKey
  cases h with
  | null hobject =>
      rw [hobject]
      apply Avoids.ok
  | symm k _ hobject hlen =>
      simp only [hobject, KeyObject.asSymm, if_pos hlen]
      apply Avoids.ok
  | _ => simp_all [ktyEc2, ktyOkp, ktyRsa, ktyAkp, ktyHssLms, ktySymmetric]

end Key.Holds

end

/-! ### Runs -/

section

variable [WolfCrypt] [Settings]

/-- Whether a call starts to decode a key. -/
def KeyCall.decodes (call : KeyCall) (key : Key) : Bool :=
  match call with
  | decode (some input) => decide (input.bytes.length ≠ 0) && !key.delegated
  | _ => false

variable [KeySettings] [RecipientSettings] [KeyCrypt]

/-- Whether the type of a key is settled after a call: the call has written it, or it was settled before and
the call has not started to decode a key. -/
def KeyCall.settles (call : KeyCall) (key : Key) (before : Bool) : Bool :=
  call.writesType && (call.ret key).isOk || before && !call.decodes key

/-- Whether the type of a key is settled after a run of calls. -/
def Key.settledAfter (key : Key) (before : Bool) : List KeyCall → Bool
  | [] => before
  | call :: calls => (call.after key).settledAfter (call.settles key before) calls

variable {key : Key}

omit [Settings] [KeySettings] [RecipientSettings] [KeyCrypt] in
/-- The frame of the functions that set up a key: the key that is written has a type that agrees with the
attached one, and the key is as it was if the checks fail. -/
theorem setKey_attached {checks : Checked Unit} {write : Key → Key} {before : Bool}
    (hkey : before = true → keyAttachedTypeCheck key.kty key.crv key.attachedType = .ok ())
    (hwrite : keyAttachedTypeCheck (write key).kty (write key).crv (write key).attachedType = .ok ())
    (h : ((setKey (some key) checks write).1.isOk || before) = true) :
  let key' := (setKey (some key) checks write).2.getD key
  keyAttachedTypeCheck key'.kty key'.crv key'.attachedType = .ok ()
  := by
  cases checks with
  | ok u => exact hwrite
  | error fault => exact hkey (by simpa [setKey, Except.isOk, Except.toBool] using h)

/-- The type of a key that has been decoded agrees with the attached one. -/
theorem attached_of_decoded {key' : Key} {input : Buffer}
    (h : keyDecode (some key) (some input) = (.ok (), some key')) :
  keyAttachedTypeCheck key'.kty key'.crv key'.attachedType = .ok ()
  := by
  obtain ⟨-, -, ctx, vars, -, hcheck, himport⟩ := keyDecode_eq_ok.mp h
  have hparams := params_of_decoded himport
  have hkty : key'.kty = vars.kty := congrArg KeyParams.kty hparams
  have hcrv : key'.crv = vars.crv := congrArg KeyParams.crv hparams
  have hattached : key'.attachedType = key.attachedType := congrArg KeyParams.attachedType hparams
  rw [hkty, hcrv, hattached]
  exact attachedTypeCheck_of_checkKeyVars hcheck

/-- Decoding leaves a key behind. -/
theorem exists_keyDecode (key : Key) (input : Option Buffer) :
  ∃ ret key', keyDecode (some key) input = (ret, some key')
  := by
  cases input with
  | none => exact ⟨_, key, rfl⟩
  | some input =>
      unfold keyDecode
      by_cases hempty : input.bytes.length = 0
      · exact ⟨_, key, if_pos hempty⟩
      by_cases hdelegated : key.delegated = true
      · simp only [if_neg hempty, if_pos hdelegated]
        exact ⟨_, key, rfl⟩
      · simp only [if_neg hempty, if_neg hdelegated]
        cases decodeKeyFrom input key with
        | ok u key' => exact ⟨_, key', rfl⟩
        | error fault key' => exact ⟨_, key', rfl⟩

/-- A key that has not been decoded is as it was. -/
theorem keyDecode_refused {input : Option Buffer} (h : (KeyCall.decode input).decodes key = false) :
  ∃ fault, keyDecode (some key) input = (.error fault, some key)
  := by
  cases input with
  | none => exact ⟨_, rfl⟩
  | some input =>
      unfold keyDecode
      by_cases hempty : input.bytes.length = 0
      · exact ⟨_, if_pos hempty⟩
      · have hdelegated : key.delegated = true := by
          simpa [KeyCall.decodes, hempty] using h
        simp only [if_neg hempty, if_pos hdelegated]
        exact ⟨_, rfl⟩

/-- Where the type of a key is settled, it agrees with the attached one. -/
theorem attached_after (call : KeyCall) {before : Bool}
    (hkey : before = true → keyAttachedTypeCheck key.kty key.crv key.attachedType = .ok ())
    (h : call.settles key before = true) :
  keyAttachedTypeCheck (call.after key).kty (call.after key).crv (call.after key).attachedType = .ok ()
  := by
  have hset : ∀ (result : KeyResult), ((true && result.1.isOk) || (before && !false)) = true →
      (result.1.isOk || before) = true := by
    intro result hsettles
    rwa [Bool.true_and, Bool.not_false, Bool.and_true] at hsettles
  have hkept : ∀ {ok : Bool}, ((false && ok) || (before && !false)) = true → before = true := by
    intro ok hsettles
    rwa [Bool.false_and, Bool.false_or, Bool.not_false, Bool.and_true] at hsettles
  cases call with
  | init => rfl
  | free => rfl
  | setEcc crv eccKey =>
      cases eccKey with
      | none => exact hkey (hset (.error (.err .invalidArg), some key) h)
      | some eccKey => exact setKey_attached hkey rfl (hset _ h)
  | setEd25519 edKey =>
      cases edKey with
      | none => exact hkey (hset (.error (.err .invalidArg), some key) h)
      | some edKey => exact setKey_attached hkey rfl (hset _ h)
  | setEd448 edKey =>
      cases edKey with
      | none => exact hkey (hset (.error (.err .invalidArg), some key) h)
      | some edKey => exact setKey_attached hkey rfl (hset _ h)
  | setMlDsa alg mlDsaKey seed =>
      cases mlDsaKey with
      | none => exact hkey (hset (.error (.err .invalidArg), some key) h)
      | some mlDsaKey => exact setKey_attached hkey rfl (hset _ h)
  | setLms lmsKey =>
      cases lmsKey with
      | none => exact hkey (hset (.error (.err .invalidArg), some key) h)
      | some lmsKey => exact setKey_attached hkey rfl (hset _ h)
  | setRsa rsaKey =>
      cases rsaKey with
      | none => exact hkey (hset (.error (.err .invalidArg), some key) h)
      | some rsaKey => exact setKey_attached hkey rfl (hset _ h)
  | setSymmetric data => exact setKey_attached hkey rfl (hset _ h)
  | setExtSigner cb => exact hkey (hkept h)
  | decode input =>
      unfold KeyCall.settles at h
      obtain ⟨ret, key', hdecoded⟩ := exists_keyDecode key input
      by_cases hok : ((KeyCall.decode input).ret key).isOk = true
      · cases input with
        | none => cases hok
        | some input =>
            cases ret with
            | error fault => simp [KeyCall.ret, KeyCall.result, hdecoded, Except.isOk, Except.toBool] at hok
            | ok u =>
                simp only [KeyCall.after, KeyCall.result, hdecoded, Option.getD_some]
                exact attached_of_decoded hdecoded
      · simp only [hok, Bool.and_false, Bool.false_or, Bool.and_eq_true, Bool.not_eq_true'] at h
        obtain ⟨fault, hrefused⟩ := keyDecode_refused h.2
        simp only [KeyCall.after, KeyCall.result, hrefused, Option.getD_some]
        exact hkey h.1
  | assign alg kid => exact hkey (hkept h)
  | change f sameKind => exact hkey (hkept h)

/-- A key is coherent after a run of calls after which its type is settled. -/
theorem coherent_run (htyped : key.Typed) {before : Bool}
    (hkey : before = true → keyAttachedTypeCheck key.kty key.crv key.attachedType = .ok ()) {calls : List KeyCall}
    (h : key.settledAfter before calls = true) :
  (key.run calls).Coherent
  := by
  induction calls generalizing key before with
  | nil => exact ⟨htyped, hkey h⟩
  | cons call calls ih => exact ih (typed_after htyped call).2 (attached_after call hkey) h

end

end WolfCose
