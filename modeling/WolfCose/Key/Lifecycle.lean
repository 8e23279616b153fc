import WolfCose.Key.Typed

/-!
# The life of a key

A key is set up, decoded and cleared again by calls in any order, while the caller assigns the fields that
are left to it and the owner of the attached object changes that in place.
-/

namespace WolfCose

open Program Cbor Settings KeySettings WolfCrypt RecipientCrypt RecipientSettings KeyCrypt

section

variable [WolfCrypt]

/-- An object that is changed in place stays one of its kind, and a symmetric key keeps its length. -/
structure KeyObject.SameKind (object object' : KeyObject) : Prop where
  kind : object'.kind = object.kind
  length : ∀ k k', object = .symm k → object' = .symm k' → k.length = k'.length

variable [Settings]

/-- What happens to a key: a call of the library, the assignment of the fields that are left to the caller,
or a change of the attached object by its owner. -/
inductive KeyCall where
  | init
  | free
  | setEcc (crv : Int) (eccKey : Option EccKey)
  | setEd25519 (edKey : Option Ed25519Key)
  | setEd448 (edKey : Option Ed448Key)
  | setMlDsa (alg : Int) (mlDsaKey : Option MlDsaKey) (seed : Pointer)
  | setLms (lmsKey : Option LmsKey)
  | setRsa (rsaKey : Option RsaKey)
  | setSymmetric (data : Pointer)
  | setExtSigner (cb : Option SignCb)
  | decode (input : Option Buffer)
  | assign (alg : Int) (kid : Pointer)
  | change (f : KeyObject → KeyObject) (sameKind : ∀ object : KeyObject, object.SameKind (f object))

/-- Whether a call writes the type of the key, if it succeeds. -/
def KeyCall.writesType : KeyCall → Bool
  | setExtSigner _ => false
  | assign _ _ => false
  | change _ _ => false
  | _ => true

variable [KeySettings] [RecipientSettings] [KeyCrypt]

/-- What a call returns for a key, and the key that it leaves behind. -/
def KeyCall.result (call : KeyCall) (key : Key) : KeyResult :=
  match call with
  | init => keyInit (some key)
  | free => (.ok (), keyFree (some key))
  | setEcc crv eccKey => keySetEcc (some key) crv eccKey
  | setEd25519 edKey => keySetEd25519 (some key) edKey
  | setEd448 edKey => keySetEd448 (some key) edKey
  | setMlDsa alg mlDsaKey seed => keySetMlDsaEx (some key) alg mlDsaKey seed
  | setLms lmsKey => keySetLms (some key) lmsKey
  | setRsa rsaKey => keySetRsa (some key) rsaKey
  | setSymmetric data => keySetSymmetric (some key) data
  | setExtSigner cb => keySetExtSigner (some key) cb
  | decode input => keyDecode (some key) input
  | assign alg kid => (.ok (), some { key with alg, kid })
  | change f _ => (.ok (), some { key with object := f key.object })

/-- What a call returns. -/
def KeyCall.ret (call : KeyCall) (key : Key) : Checked Unit := (call.result key).1

/-- The key that a call leaves behind. -/
def KeyCall.after (call : KeyCall) (key : Key) : Key := (call.result key).2.getD key

/-- The key after a run of calls. -/
def Key.run (key : Key) (calls : List KeyCall) : Key := calls.foldl (fun key call => call.after key) key

/-- The key after a run of calls that starts with a key that has been initialised. -/
def keyAfter (calls : List KeyCall) : Key := Key.zero.run calls

omit [Settings] [KeySettings] [RecipientSettings] [KeyCrypt] in
/-- The frame of the functions that set up a key: a property that the checks give to the key that is
written is kept, and nothing else happens. -/
theorem setKey_keeps {I : Key → Prop} {key : Key} {checks : Checked Unit} {write : Key → Key}
    (hchecks : Defined checks) (hkey : I key) (hwrite : checks = .ok () → I (write key)) :
  Defined (setKey (some key) checks write).1 ∧ I ((setKey (some key) checks write).2.getD key)
  := by
  cases checks with
  | ok u => exact ⟨Avoids.ok _, hwrite rfl⟩
  | error fault => exact ⟨hchecks, hkey⟩

omit [WolfCrypt] [Settings] [KeySettings] [RecipientSettings] [KeyCrypt] in
theorem defined_failAs {α : Type} {e : Err} {x : Checked α} (h : Defined x) :
  Defined (failAs e x)
  := by
  cases x with
  | ok a => exact Avoids.ok a
  | error fault =>
      cases fault with
      | err _ => exact Avoids.error (by rintro ⟨⟩)
      | undefined => exact absurd rfl h

omit [Settings] [KeySettings] [RecipientSettings] [KeyCrypt] in
theorem defined_eccKeyCheckCurve (crv : Int) (eccKey : EccKey) :
  Defined (eccKeyCheckCurve crv (.ecc eccKey))
  := by
  apply Avoids.bind defined_failWhen
  intro _ _
  apply Avoids.bind (defined_lift _)
  intro _ _
  apply Avoids.bind (defined_lift _)
  intro _ _
  apply Avoids.bind (Avoids.ok _)
  intro _ _
  apply Avoids.bind defined_failWhen
  intro _ _
  apply defined_failWhen

/-- No call reads the union as what it is not, and every call leaves it typed. -/
theorem typed_after {key : Key} (h : key.Typed) (call : KeyCall) :
  Defined (call.ret key) ∧ (call.after key).Typed
  := by
  have hattach : ∀ {kty alg crv : Int} {object : KeyObject} {hasPrivate : Bool}, object.kind ≠ .symmetric →
      (key.attach kty alg crv object object.kind hasPrivate).Typed := by
    intro _ _ _ _ _ hne
    apply Key.Typed.of_kind rfl hne
  have hnull : ∀ e : Err, Defined (.error (.err e) : Checked Unit) ∧ key.Typed := by
    intro e
    exact ⟨Avoids.error (by rintro ⟨⟩), h⟩
  cases call with
  | init =>
      apply setKey_keeps (Avoids.ok ()) h
      intro _
      apply typed_zero
  | free => exact ⟨Avoids.ok _, typed_zero⟩
  | setEcc crv eccKey =>
      cases eccKey with
      | none => apply hnull
      | some eccKey =>
          apply setKey_keeps _ h
          · intro _
            apply hattach
            rintro ⟨⟩
          · apply Avoids.bind defined_failWhen
            intro _ _
            apply defined_failAs (defined_eccKeyCheckCurve _ _)
  | setEd25519 edKey =>
      cases edKey with
      | none => apply hnull
      | some edKey =>
          apply setKey_keeps (Avoids.ok ()) h
          intro _
          apply hattach
          rintro ⟨⟩
  | setEd448 edKey =>
      cases edKey with
      | none => apply hnull
      | some edKey =>
          apply setKey_keeps (Avoids.ok ()) h
          intro _
          apply hattach
          rintro ⟨⟩
  | setMlDsa alg mlDsaKey seed =>
      cases mlDsaKey with
      | none => apply hnull
      | some mlDsaKey =>
          apply setKey_keeps _ h
          · intro _
            apply Key.Typed.of_kind rfl
            rintro ⟨⟩
          · apply Avoids.bind defined_failWhen
            intro _ _
            apply defined_failWhen
  | setLms lmsKey =>
      cases lmsKey with
      | none => apply hnull
      | some lmsKey =>
          apply setKey_keeps (Avoids.ok ()) h
          intro _
          apply hattach
          rintro ⟨⟩
  | setRsa rsaKey =>
      cases rsaKey with
      | none => apply hnull
      | some rsaKey =>
          apply setKey_keeps (Avoids.ok ()) h
          intro _
          apply hattach
          rintro ⟨⟩
  | setSymmetric data =>
      apply setKey_keeps defined_failWhen h
      intro hdata
      rw [failWhen_eq_ok, not_or, Bool.not_eq_true] at hdata
      have hvalid : data.Valid := fun hn => absurd (hdata.1.symm.trans hn) Bool.false_ne_true
      apply Key.Typed.of_symm rfl
      · exact Nat.le_of_eq hvalid.len_eq
      · intro _
        rfl
      · right
        rfl
  | setExtSigner cb =>
      apply setKey_keeps (Avoids.ok ()) h
      intro _
      exact ⟨h.kind, h.symm⟩
  | decode input =>
      obtain ⟨key', hkey', hdefined, htyped, -⟩ := keyDecode_ends h input
      refine ⟨hdefined, ?_⟩
      simp only [KeyCall.after, KeyCall.result, hkey', Option.getD_some]
      exact htyped
  | assign alg kid => exact ⟨Avoids.ok _, h.kind, h.symm⟩
  | change f sameKind =>
      refine ⟨Avoids.ok _, ?_, ?_⟩
      · simp only [KeyCall.after, KeyCall.result, Option.getD_some, (sameKind key.object).kind]
        exact h.kind
      · intro k' hk'
        have hkind : key.object.kind = .symmetric := by
          rw [← (sameKind key.object).kind]
          exact congrArg KeyObject.kind hk'
        obtain ⟨k, hk⟩ := KeyObject.kind_eq_symmetric.mp hkind
        rw [← (sameKind key.object).length k k' hk hk']
        exact h.symm k hk

theorem typed_run {key : Key} (h : key.Typed) (calls : List KeyCall) :
  (key.run calls).Typed
  := by
  induction calls generalizing key with
  | nil => exact h
  | cons call calls ih => exact ih (typed_after h call).2

/-- The union of a key is typed after every run of calls that set it up, decode it, whether that succeeds
or not, or clear it, and no call of a run reads the union as what it is not. -/
theorem key_union_typed (calls : List KeyCall) :
  (keyAfter calls).Typed ∧ ∀ call : KeyCall, Defined (call.ret (keyAfter calls))
  := by
  have htyped : (keyAfter calls).Typed := typed_run typed_zero calls
  exact ⟨htyped, fun call => (typed_after htyped call).1⟩

end

end WolfCose
