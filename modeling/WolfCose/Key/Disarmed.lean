import WolfCose.Lib.Refused
import WolfCose.Countersign.Add
import WolfCose.Encrypt.Hpke
import WolfCose.Key.Readers
import WolfCose.Sign.Sign

/-!
# Keys without a secret

A decoding that fails disarms a key: whatever was attached before, nothing signs, agrees on a key or
decapsulates with it, nothing private is exported, and of the secrets only a symmetric key that the owner has
attached can still be used.
-/

namespace WolfCose

open Program Cbor Settings KeySettings WolfCrypt RecipientCrypt RecipientSettings KeyCrypt

section

variable [WolfCrypt] [Settings]

/-- A key that has no secret to use, apart from an attached symmetric key. -/
structure Key.Disarmed (key : Key) : Prop where
  hasPrivate : key.hasPrivate = false
  delegated : key.delegated = false
  mldsaSeed : key.mldsaSeed = .null 0
  kind : key.object.kind = key.attachedType
  unattached : key.attachedType = .none → key.symmKeyLen = 0

theorem disarmed_zero :
  Key.zero.Disarmed
  := ⟨rfl, Bool.and_false _, rfl, rfl, fun _ => rfl⟩

/-! ### Runs -/

variable [KeySettings] [RecipientSettings] [KeyCrypt]

/-- Whether a key is disarmed after a call: it is cleared, or a decoding fails, or it was disarmed before and
the call is none that succeeds in attaching or decoding something. -/
def KeyCall.disarms (call : KeyCall) (key : Key) (before : Bool) : Bool :=
  match call with
  | init => true
  | free => true
  | assign _ _ => before
  | change _ _ => before
  | decode _ => !(call.ret key).isOk && (before || call.decodes key)
  | _ => !(call.ret key).isOk && before

/-- Whether a key is disarmed after a run of calls. -/
def Key.disarmedAfter (key : Key) (before : Bool) : List KeyCall → Bool
  | [] => before
  | call :: calls => (call.after key).disarmedAfter (call.disarms key before) calls

variable {key : Key}

omit [KeySettings] [RecipientSettings] [KeyCrypt] in
/-- A function that sets up a key and fails leaves it as it was. -/
theorem setKey_failed {checks : Checked Unit} {write : Key → Key} {before : Bool}
    (hkey : before = true → key.Disarmed)
    (h : (!(setKey (some key) checks write).1.isOk && before) = true) :
  ((setKey (some key) checks write).2.getD key).Disarmed
  := by
  rw [Bool.and_eq_true] at h
  cases checks with
  | ok u => cases h.1
  | error fault => exact hkey h.2

/-- A decoding that fails after it has started disarms the key. -/
theorem disarmed_of_failed (htyped : key.Typed) {input : Option Buffer}
    (hdecodes : (KeyCall.decode input).decodes key = true)
    (hret : ((KeyCall.decode input).ret key).isOk = false) :
  ((KeyCall.decode input).after key).Disarmed
  := by
  cases input with
  | none => cases hdecodes
  | some input =>
      simp only [KeyCall.decodes, Bool.and_eq_true, decide_eq_true_eq, Bool.not_eq_true'] at hdecodes
      have hdelegated : ¬ key.delegated = true := by
        rw [hdecodes.2]
        exact Bool.false_ne_true
      have hends := ends_decodeKeyFrom htyped input
      unfold Ends at hends
      simp only [KeyCall.ret, KeyCall.after, KeyCall.result, keyDecode, if_neg hdecodes.1, if_neg hdelegated]
        at hret ⊢
      cases hrun : decodeKeyFrom input key with
      | ok u key' =>
          rw [hrun] at hret
          cases hret
      | error fault key' =>
          rw [hrun] at hends
          obtain ⟨-, hpending⟩ := hends
          constructor
          · exact hpending.hasPrivate
          · change (extSign && key'.signCb.isSome) = false
            rw [hpending.signCb]
            exact hdecodes.2
          · exact hpending.mldsaSeed
          · exact hpending.kind
          · exact hpending.unattached

/-- A call that disarms a key leaves a disarmed one. -/
theorem disarmed_after (htyped : key.Typed) (call : KeyCall) {before : Bool} (hkey : before = true → key.Disarmed)
    (h : call.disarms key before = true) :
  (call.after key).Disarmed
  := by
  have hnull : ((!false) && before) = true → key.Disarmed := hkey
  cases call with
  | init => exact disarmed_zero
  | free => exact disarmed_zero
  | setEcc crv eccKey =>
      cases eccKey with
      | none => exact hnull h
      | some eccKey => exact setKey_failed hkey h
  | setEd25519 edKey =>
      cases edKey with
      | none => exact hnull h
      | some edKey => exact setKey_failed hkey h
  | setEd448 edKey =>
      cases edKey with
      | none => exact hnull h
      | some edKey => exact setKey_failed hkey h
  | setMlDsa alg mlDsaKey seed =>
      cases mlDsaKey with
      | none => exact hnull h
      | some mlDsaKey => exact setKey_failed hkey h
  | setLms lmsKey =>
      cases lmsKey with
      | none => exact hnull h
      | some lmsKey => exact setKey_failed hkey h
  | setRsa rsaKey =>
      cases rsaKey with
      | none => exact hnull h
      | some rsaKey => exact setKey_failed hkey h
  | setSymmetric data => exact setKey_failed hkey h
  | setExtSigner cb => exact setKey_failed hkey h
  | decode input =>
      unfold KeyCall.disarms at h
      rw [Bool.and_eq_true, Bool.not_eq_true'] at h
      obtain ⟨hret, hdisarms⟩ := h
      by_cases hdecodes : (KeyCall.decode input).decodes key = true
      · exact disarmed_of_failed htyped hdecodes hret
      · rw [Bool.not_eq_true] at hdecodes
        obtain ⟨fault, hrefused⟩ := keyDecode_refused hdecodes
        simp only [KeyCall.after, KeyCall.result, hrefused, Option.getD_some]
        rw [hdecodes, Bool.or_false] at hdisarms
        exact hkey hdisarms
  | assign alg kid =>
      have hdisarmed := hkey h
      exact ⟨hdisarmed.hasPrivate, hdisarmed.delegated, hdisarmed.mldsaSeed, hdisarmed.kind, hdisarmed.unattached⟩
  | change f sameKind =>
      have hdisarmed := hkey h
      exact ⟨hdisarmed.hasPrivate, hdisarmed.delegated, hdisarmed.mldsaSeed,
        (sameKind key.object).kind.trans hdisarmed.kind, hdisarmed.unattached⟩

/-- A key is disarmed after a run of calls that disarms it. -/
theorem disarmed_run (htyped : key.Typed) {before : Bool} (hkey : before = true → key.Disarmed)
    {calls : List KeyCall} (h : key.disarmedAfter before calls = true) :
  (key.run calls).Disarmed
  := by
  induction calls generalizing key before with
  | nil => exact hkey h
  | cons call calls ih => exact ih (typed_after htyped call).2 (disarmed_after htyped call hkey) h

end

/-! ### What is refused -/

section

variable [WolfCrypt] [Settings] {key : Key}

/-- A function fails, and has neither used the environment nor called a signer. -/
def SignOut.Refused (r : SignOut) (env : Env) : Prop :=
  r.ret ≠ .ok () ∧ r.state = ⟨env, []⟩

theorem signFinish_refused {args : SignArgs} {p : Signing EncCtx} {env : Env} (h : Program.Refused p ⟨env, []⟩) :
  (signFinish args p env).Refused env
  := by
  obtain ⟨fault, hfault⟩ := h
  unfold signFinish
  rw [hfault]
  exact ⟨by rintro ⟨⟩, rfl⟩

namespace Key.Disarmed

theorem keyCanSign_eq (h : key.Disarmed) :
  keyCanSign key = false
  := by rw [keyCanSign, h.hasPrivate, h.delegated, Bool.or_self]

theorem keyEmitsPrivate_eq (h : key.Disarmed) (flags : UInt32) :
  keyEmitsPrivate key flags = false
  := by rw [keyEmitsPrivate, h.hasPrivate, Bool.false_and, Bool.false_and]

/-- A symmetric key that can be read has been attached as one. -/
theorem attached_of_symmKey (h : key.Disarmed) {p : Pointer} (hp : key.symmKey = .ok p) (hlen : key.symmKeyLen ≠ 0) :
  key.attachedType = .symmetric
  := by
  rw [← h.kind]
  unfold Key.symmKey at hp
  split at hp
  · rename_i hobject
    have hnone : key.attachedType = .none := by
      rw [← h.kind, hobject]
      rfl
    exact absurd (h.unattached hnone) hlen
  · simp only [bind_eq_ok, KeyObject.asSymm_eq_ok] at hp
    obtain ⟨_, ⟨k, hobject, -⟩, -⟩ := hp
    rw [hobject]
    rfl

/-! ### Signing -/

theorem sign1SignEx (h : key.Disarmed) (alg : Int) (kid : Pointer) (args : SignArgs) (flags : UInt32) (env : Env) :
  (WolfCose.sign1SignEx (some key) alg kid args flags env).Refused env
  := by
  apply signFinish_refused
  split
  · rename_i key' scratch out hkey _ _
    obtain rfl := Option.some.inj hkey
    apply Refused.bindOfExcept
    intro prepared hprepared
    simp only [sign1Prepare, bind_eq_ok, failWhen_eq_ok] at hprepared
    obtain ⟨_, -, _, -, _, -, _, -, _, -, _, -, _, hsign, -⟩ := hprepared
    exact absurd h.keyCanSign_eq hsign
  · apply Refused.throw

theorem signSign (h : key.Disarmed) {signers : List Signer} {signer : Signer} (hmem : signer ∈ signers)
    (hkey : signer.key = some key) (args : SignArgs) (env : Env) :
  (WolfCose.signSign (some signers) args env).Refused env
  := by
  apply signFinish_refused
  split
  · rename_i signers' scratch out hsigners _ _
    obtain rfl := Option.some.inj hsigners
    apply Refused.bindOfExcept
    intro u hprepared
    simp only [signPrepare, bind_eq_ok, failWhen_eq_ok, forM_eq_ok] at hprepared
    obtain ⟨_, -, _, -, _, -, _, -, _, hsigners, -⟩ := hprepared
    have hsigner := hsigners signer hmem
    simp only [signerCheck, hkey, bind_eq_ok, failWhen_eq_ok] at hsigner
    obtain ⟨_, hsign, -⟩ := hsigner
    exact absurd h.keyCanSign_eq hsign
  · apply Refused.throw

/-! ### Countersigning -/

theorem counterSignTbs (h : key.Disarmed) (alg : Int) (tbs : Bytes) (sigSz : Nat) (rng : Option Rng) (s : SignState) :
  Program.Refused (WolfCose.counterSignTbs key alg tbs sigSz rng) s
  := by
  apply Refused.bindOfExcept
  intro _ _
  apply Refused.bindOfExcept
  intro _ _
  apply Refused.bindOfExcept
  intro _ hsign
  rw [failWhen_eq_ok] at hsign
  exact absurd h.keyCanSign_eq hsign

/-- A countersignature is refused, and the output buffer is as it was. -/
theorem addCounterCommon (h : key.Disarmed) (m : Memory) {request : CounterRequest} (hkey : request.key = some key)
    (args : AddArgs) (env : Env) :
  let r := WolfCose.addCounterCommon m request args env
  r.ret ≠ .ok () ∧ r.state = ⟨env, []⟩ ∧ r.mem = zeroScratch m request args
  := by
  have hrefused : Program.Refused (addSign m request args) ⟨env, []⟩ := by
    apply Refused.bindOfExcept
    intro _ _
    rw [hkey]
    apply Refused.bindOfExcept
    intro prepared _
    apply Refused.bind
    apply h.counterSignTbs
  obtain ⟨fault, hfault⟩ := hrefused
  simp only [WolfCose.addCounterCommon, hfault, and_self, and_true]
  rintro ⟨⟩

end Key.Disarmed

end

/-! ### Exporting -/

section

variable [WolfCrypt] [Settings] {key : Key}

namespace Key.Disarmed

/-- Only an attached symmetric key is encoded. -/
theorem attached_of_keyEncodeSymmetric (h : key.Disarmed) {out : Buffer} {flags : UInt32} {ctx : EncCtx}
    (hctx : keyEncodeSymmetric key out flags = .ok ctx) :
  key.attachedType = .symmetric
  := by
  simp only [keyEncodeSymmetric, bind_eq_ok] at hctx
  obtain ⟨_, hcheck, _, -, p, hp, -⟩ := hctx
  simp only [symmetricKeyCheckEncode, bind_eq_ok, failWhen_eq_ok, exists_const, not_or] at hcheck
  exact h.attached_of_symmKey hp hcheck.2.1.2

variable [KeySettings] [RecipientCrypt] [KeyCrypt]

/-- A key is encoded as its public part alone, whatever the flags. -/
theorem keyEncodeMap_eq (h : key.Disarmed) (hkty : key.kty ≠ ktySymmetric) (out : Buffer) (flags flags' : UInt32) :
  keyEncodeMap key out flags = keyEncodeMap key out flags'
  := by
  have hemits : keyEmitsPrivate key flags = keyEmitsPrivate key flags' := by
    rw [h.keyEmitsPrivate_eq, h.keyEmitsPrivate_eq]
  unfold keyEncodeMap keyEncodeEc2 exportEc2 keyEncodeRsa rsaEmitsPrivate keyEncodeAkp mlDsaEmitsPrivate keyEncodeOkp
  rw [if_neg hkty, if_neg hkty, hemits]

theorem keyEncodeEx_eq (h : key.Disarmed) (hkty : key.kty ≠ ktySymmetric) (out : Option Buffer)
    (outLen : Option Nat) {flags : UInt32} (hflags : flags &&& ~~~keyPublicOnly = 0) :
  keyEncodeEx (some key) out outLen flags = keyEncodeEx (some key) out outLen keyPublicOnly
  := by
  cases out with
  | none => rfl
  | some out =>
      cases outLen with
      | none => rfl
      | some len =>
          rw [WolfCose.keyEncodeEx_eq hflags, WolfCose.keyEncodeEx_eq rfl, h.keyEncodeMap_eq hkty out flags keyPublicOnly]

theorem attached_of_keyEncodeEx (h : key.Disarmed) (hkty : key.kty = ktySymmetric) {out : Option Buffer}
    {outLen : Option Nat} {flags : UInt32} (hret : (keyEncodeEx (some key) out outLen flags).ret = .ok ()) :
  key.attachedType = .symmetric
  := by
  cases out with
  | none => cases hret
  | some out =>
      cases outLen with
      | none => cases hret
      | some len =>
          obtain ⟨-, ctx, hctx, -⟩ := keyEncodeEx_ok hret
          simp only [keyEncodeMap, hkty, ktySymmetric, ktyEc2, ktyRsa, ktyAkp, ktyHssLms, ktyOkp, and_false,
            Int.reduceEq, if_false, if_true] at hctx
          exact h.attached_of_keyEncodeSymmetric hctx

end Key.Disarmed

end

/-! ### Decrypting -/

section

variable [WolfCrypt] [Settings] {key : Key}

namespace Key.Disarmed

section

variable [RecipientCrypt]

/-- The private part of a key is needed to decapsulate with it. -/
theorem hpke0Open (h : key.Disarmed) {alg : Int} {info aad ciphertext payload : Bytes} {enc : Option Bytes}
    {plaintextSz : Nat} :
  WolfCose.hpke0Open (some key) alg info aad enc ciphertext plaintextSz ≠ .ok payload
  := by
  intro hopen
  simp only [WolfCose.hpke0Open, hpke0ValidateKey, bind_eq_ok, failWhen_eq_ok] at hopen
  obtain ⟨_, -, _, -, _, -, _, -, _, ⟨_, -, _, -, _, -, _, -, _, -, _, -, _, -, _, hprivate, -⟩, -⟩ := hopen
  exact hprivate ⟨trivial, h.hasPrivate⟩

theorem hpkeEncrypt0Decrypt (h : key.Disarmed) (args : DecryptArgs) (out : DecryptOut) :
  (WolfCose.hpkeEncrypt0Decrypt (some key) args out).1 ≠ .ok ()
  := by
  intro hret
  obtain ⟨hdr, payload, hret, -⟩ := DecryptOut.finish_ok (Prod.ext hret rfl)
  split at hret
  · rename_i key' input scratch _ plaintext _ hkey _ _ _ _ _
    obtain rfl := Option.some.inj hkey
    simp only [hpkeEncrypt0DecryptMessage, bind_eq_ok] at hret
    obtain ⟨_, -, _, -, msg, -, _, -, _, -, aad, -, payload', hopen, -⟩ := hret
    exact h.hpke0Open hopen
  · cases hret

variable [RecipientSettings]

/-- Only a key that has been attached as a symmetric one gives the key of a message, and it gives it directly or by
unwrapping it. -/
theorem attached_of_recipientCek (h : key.Disarmed) {recipient : Recipient} (hkey : recipient.key = some key)
    {selected : SelectedRecipient} {alg : Int} {keyLen : Nat} (hkeyLen : keyLen ≠ 0) {scratch : Buffer}
    {env env' : Env} {cek : Pointer} (hruns : Runs (recipientCek recipient selected alg keyLen scratch) env cek env') :
  key.attachedType = .symmetric ∧ (selected.source = .direct ∨ ∃ wrapped, selected.source = .keyWrap wrapped)
  := by
  unfold recipientCek at hruns
  rw [hkey] at hruns
  cases hsource : selected.source with
  | hpke ek wrapped =>
      simp only [hsource, runs_steady_bind] at hruns
      obtain ⟨_, -, info, -, cek', hopen, -⟩ := hruns
      exact absurd hopen h.hpke0Open
  | ecdhEs ephem =>
      simp only [hsource, runs_steady_bind, failWhen_eq_ok] at hruns
      obtain ⟨_, hprivate, -⟩ := hruns
      exact absurd (.inr (.inr h.hasPrivate)) hprivate
  | keyWrap wrapped =>
      simp only [hsource, runs_steady_bind, keyUnwrap, bind_eq_ok, failWhen_eq_ok, lift_eq_ok] at hruns
      obtain ⟨_, -, cek', ⟨_, -, _, -, size, hsize, _, hlen, _, -, symmKey, hsymm, -⟩, -⟩ := hruns
      refine ⟨h.attached_of_symmKey hsymm ?_, .inr ⟨wrapped, rfl⟩⟩
      rw [Decidable.not_not.mp hlen]
      exact keyWrapKeySize_ne_zero hsize
  | direct =>
      simp only [hsource, runs_steady_bind, runs_steady, failWhen_eq_ok, not_or] at hruns
      obtain ⟨_, ⟨-, hlen⟩, hsymm, -⟩ := hruns
      refine ⟨h.attached_of_symmKey hsymm ?_, .inl rfl⟩
      rw [Decidable.not_not.mp hlen]
      exact hkeyLen

variable [AeadSettings] [AeadCrypt]

/-- A message that is decrypted has been decrypted with an attached symmetric key, for a recipient without HPKE and
ECDH-ES. -/
theorem attached_of_encryptDecrypt (h : key.Disarmed) {recipient : Recipient} (hkey : recipient.key = some key)
    {index : Nat} {args : DecryptArgs} {out : DecryptOut} {env : Env}
    (hret : (encryptDecrypt (some recipient) index args out env).1 = .ok ()) :
  key.attachedType = .symmetric ∧ ∃ input msg, args.input = some input
    ∧ decodeBuffer (decodeEncrypt recipient index args.detachedCt) input = .ok msg
    ∧ (msg.recipient.source = .direct ∨ ∃ wrapped, msg.recipient.source = .keyWrap wrapped)
  := by
  obtain ⟨r, input, scratch, _, _, _, msg, hr, hinput, -, -, -, hopened⟩ := encryptDecrypt_ok (Prod.ext hret rfl)
  obtain rfl := Option.some.inj hr
  obtain ⟨keyLen, _, _, _, _, _, hkeyLen, -, hcek, -⟩ := hopened.opened
  obtain ⟨hattached, hsource⟩ := h.attached_of_recipientCek hkey (Nat.ne_of_gt (aeadKeyLen_pos hkeyLen)) hcek
  exact ⟨hattached, input, msg, hinput, hopened.decoded, hsource⟩

/-- The key of a message for direct recipients is that of the first one, which has been attached. -/
theorem attached_of_directRecipient (h : key.Disarmed) {recipients : List Recipient} {first : Recipient}
    (hfirst : recipients.head? = some first) (hkey : first.key = some key) (hdirect : first.algId = algDirect) {alg : Int}
    {args : EncryptMultiArgs} {env : Env} (hret : (encryptEncrypt recipients alg args env).ret = .ok ()) :
  key.attachedType = .symmetric
  := by
  obtain ⟨first', keyLen, mode, cek, env₁, env₂, hfirst', hkeyLen, hcek, -⟩ := encryptEncrypt_senderCek hret
  obtain rfl := Option.some.inj (hfirst.symm.trans hfirst')
  unfold senderCek at hcek
  rw [hdirect, if_neg fun h => absurd h.2 (by decide), if_neg fun h => absurd h.2 (by decide),
    if_neg fun h => absurd h.2 (by decide), runs_steady] at hcek
  simp only [directCek, hkey, bind_eq_ok, failWhen_eq_ok, not_or] at hcek
  obtain ⟨⟨_, ⟨-, hlen⟩, _, -, _, -, symmKey, hsymm, -⟩, -⟩ := hcek
  apply h.attached_of_symmKey hsymm
  rw [Decidable.not_not.mp hlen]
  exact Nat.ne_of_gt (aeadKeyLen_pos hkeyLen)

/-- The key of a message is wrapped with the key of a recipient only if that key has been attached. -/
theorem attached_of_keyWrapRecipient (h : key.Disarmed) {recipients : List Recipient} {recipient : Recipient}
    (hmem : recipient ∈ recipients) (hkey : recipient.key = some key) (hwrap : isKeyWrapAlg recipient.algId) {alg : Int}
    {args : EncryptMultiArgs} {env : Env} (hret : (encryptEncrypt recipients alg args env).ret = .ok ()) :
  key.attachedType = .symmetric
  := by
  obtain ⟨first, keyLen, mode, cek, env₁, env₂, hfirst, -, hcek, hencoded⟩ := encryptEncrypt_senderCek hret
  obtain ⟨rng, rfl⟩ := mode_of_keyWrapRecipient hmem hfirst hwrap hcek
  obtain ⟨scratch, ctx, env₃, ctx', env₄, hencode⟩ := hencoded recipient hmem
  simp only [encodeRecipient, runs_steady_bind, keyWrap, hkey, bind_eq_ok, failWhen_eq_ok, lift_eq_ok] at hencode
  obtain ⟨_, -, _, -, wrapped, ⟨_, -, size, hsize, _, hlen, _, -, symmKey, hsymm, -⟩, -⟩ := hencode
  apply h.attached_of_symmKey hsymm
  rw [Decidable.not_not.mp hlen]
  exact keyWrapKeySize_ne_zero hsize

end

variable [AeadSettings] [AeadCrypt]

theorem attached_of_encrypt0Decrypt (h : key.Disarmed) {args : DecryptArgs} {out : DecryptOut}
    (hret : (encrypt0Decrypt (some key) args out).1 = .ok ()) :
  key.attachedType = .symmetric
  := by
  obtain ⟨hdr, payload, hret, -⟩ := DecryptOut.finish_ok (Prod.ext hret rfl)
  split at hret
  · rename_i key' input scratch _ plaintext _ hkey _ _ _ _ _
    obtain rfl := Option.some.inj hkey
    simp only [encrypt0DecryptMessage, bind_eq_ok, failWhen_eq_ok, lift_eq_ok] at hret
    obtain ⟨_, -, _, -, msg, -, _, -, _, -, keyLen, hkeyLen, _, -, _, -, _, hlen, _, -, _, -, _, -, _, -, _, -, _, -,
      symmKey, hsymm, -⟩ := hret
    apply h.attached_of_symmKey hsymm
    rw [Decidable.not_not.mp hlen]
    exact Nat.ne_of_gt (aeadKeyLen_pos hkeyLen)
  · cases hret

theorem attached_of_encrypt0Encrypt (h : key.Disarmed) {alg : Int} {iv : Pointer} {args : EncryptArgs}
    (hret : (encrypt0Encrypt (some key) alg iv args).ret = .ok ()) :
  key.attachedType = .symmetric
  := by
  obtain ⟨key', _, _, _, _, hkey, hprepared, -⟩ := encrypt0Encrypt_ok hret
  obtain rfl := Option.some.inj hkey
  obtain ⟨_, symmKey, _, -, hsymm, -⟩ := hprepared.sealed.encrypted
  exact h.attached_of_symmKey hsymm (Nat.ne_of_gt (aeadKeyLen_pos hprepared.sealed.keyLen))

end Key.Disarmed

end

/-! ### Authenticating -/

section

variable [WolfCrypt] [Settings] [MacSettings] [MacCrypt] {key : Key}

namespace Key.Disarmed

/-- A MAC is computed with an attached symmetric key or with the empty key. -/
theorem attached_of_computeMac (h : key.Disarmed) {alg : Int} {toMac tag : Bytes} {tagSz : Nat}
    (htag : macTagSize alg = .ok tagSz) (hmac : computeMac key alg toMac tagSz = .ok tag) :
  key.attachedType = .symmetric ∨ key.symmKeyLen = 0
  := by
  obtain ⟨symmKey, hsymm, -⟩ := computeMac_eq_ok htag hmac
  by_cases hlen : key.symmKeyLen = 0
  · right
    exact hlen
  · left
    exact h.attached_of_symmKey hsymm hlen

theorem attached_of_prepared (h : key.Disarmed) {kind : MacKind} {alg : Int} {args : MacArgs}
    {protectedHdr tag : Bytes} (hprepared : MacPrepared kind key alg args protectedHdr tag) :
  key.attachedType = .symmetric ∨ key.symmKeyLen = 0
  := by
  obtain ⟨scratch, _, -, -, -, hcreate⟩ := hprepared.lengths
  simp only [createMac, bind_eq_ok, lift_eq_ok] at hcreate
  obtain ⟨tagSz, htag, _, -, toMac, -, tag', hmac, -⟩ := hcreate
  exact h.attached_of_computeMac htag hmac

theorem attached_of_mac0Create (h : key.Disarmed) {alg : Int} {kid : Pointer} {args : MacArgs}
    (hret : (mac0Create (some key) alg kid args).ret = .ok ()) :
  key.attachedType = .symmetric ∨ key.symmKeyLen = 0
  := by
  obtain ⟨key', _, _, _, _, hkey, hprepared, -⟩ := mac0Create_ok hret
  obtain rfl := Option.some.inj hkey
  exact h.attached_of_prepared hprepared

theorem attached_of_macCreate (h : key.Disarmed) {recipients : List Recipient} {first : Recipient}
    (hfirst : recipients.head? = some first) (hkey : first.key = some key) {alg : Int} {args : MacArgs}
    (hret : (macCreate recipients alg args).ret = .ok ()) :
  key.attachedType = .symmetric ∨ key.symmKeyLen = 0
  := by
  obtain ⟨first', key', _, _, _, _, hfirst', hkey', hprepared, -⟩ := macCreate_ok hret
  obtain rfl := Option.some.inj (hfirst.symm.trans hfirst')
  obtain rfl := Option.some.inj (hkey.symm.trans hkey')
  exact h.attached_of_prepared hprepared

theorem attached_of_verifyMac (h : key.Disarmed) {kind : MacKind} {alg : Int} {protectedData tag : Bytes}
    {extAad payload : Pointer} {scratch : Buffer}
    (hverify : verifyMac kind key alg protectedData extAad payload tag scratch = .ok ()) :
  key.attachedType = .symmetric ∨ key.symmKeyLen = 0
  := by
  simp only [verifyMac, bind_eq_ok, lift_eq_ok] at hverify
  obtain ⟨tagSz, htag, _, -, toMac, -, computed, hmac, -⟩ := hverify
  exact h.attached_of_computeMac htag hmac

theorem attached_of_mac0VerifyEx (h : key.Disarmed) {args : VerifyArgs} (hkey : args.key = some key) {out : VerifyOut}
    {flags : UInt32} (hret : (mac0VerifyEx args out flags).1 = .ok ()) :
  key.attachedType = .symmetric ∨ key.symmKeyLen = 0
  := by
  obtain ⟨hdr, payload, hret, -⟩ := VerifyOut.finish_ok (Prod.ext hret rfl)
  split at hret
  · rename_i key' input scratch _ _ _ hkey' _ _ _ _ _
    obtain rfl := Option.some.inj (hkey.symm.trans hkey')
    simp only [bind_eq_ok, mac0VerifyMessage] at hret
    obtain ⟨_, -, _, -, _, -, msg, -, _, -, _, -, _, hverify, -⟩ := hret
    exact h.attached_of_verifyMac hverify
  · cases hret

theorem attached_of_macVerify (h : key.Disarmed) {args : MacVerifyArgs} {recipient : Recipient}
    (hrecipient : args.recipient = some recipient) (hkey : recipient.key = some key) {out : VerifyOut}
    (hret : (macVerify args out).1 = .ok ()) :
  key.attachedType = .symmetric ∨ key.symmKeyLen = 0
  := by
  obtain ⟨hdr, payload, hret, -⟩ := VerifyOut.finish_ok (Prod.ext hret rfl)
  split at hret
  · rename_i recipient' input scratch _ _ _ hrecipient' _ _ _ _ _
    obtain rfl := Option.some.inj (hrecipient.symm.trans hrecipient')
    simp only [bind_eq_ok, macVerifyMessage, symmetricKey_eq_ok] at hret
    obtain ⟨_, -, _, -, msg, -, key', ⟨hkey', -⟩, _, -, _, -, _, -, _, -, _, -, _, hverify, -⟩ := hret
    obtain rfl := Option.some.inj (hkey.symm.trans hkey')
    exact h.attached_of_verifyMac hverify
  · cases hret

end Key.Disarmed

end

/-! ### All functions -/

section

variable [Settings] [KeySettings] [RecipientSettings] [AeadSettings] [MacSettings]
variable [WolfCrypt] [RecipientCrypt] [KeyCrypt] [AeadCrypt] [MacCrypt]

/-- What the functions that use a key do with one that has no secret.  Nothing is signed, and nothing is spent
for it; the key is exported as its public part; no message for a recipient with HPKE or ECDH-ES is decrypted; and
where the bytes of a symmetric key are used, that key is attached, or the MAC is one with the empty key. -/
structure Key.WithoutSecret (key : Key) : Prop where
  sign1 : ∀ (alg : Int) (kid : Pointer) (args : SignArgs) (flags : UInt32) (env : Env),
    (sign1SignEx (some key) alg kid args flags env).Refused env
  sign : ∀ (signers : List Signer) (signer : Signer) (args : SignArgs) (env : Env), signer ∈ signers →
    signer.key = some key → (signSign (some signers) args env).Refused env
  counterSign : ∀ (m : Memory) (request : CounterRequest) (args : AddArgs) (env : Env), request.key = some key →
    let r := addCounterCommon m request args env
    r.ret ≠ .ok () ∧ r.state = ⟨env, []⟩ ∧ r.mem = zeroScratch m request args
  encode : ∀ (out : Option Buffer) (outLen : Option Nat) (flags : UInt32), key.kty ≠ ktySymmetric →
    flags &&& ~~~keyPublicOnly = 0 →
    keyEncodeEx (some key) out outLen flags = keyEncodeEx (some key) out outLen keyPublicOnly
  encodeSymmetric : ∀ (out : Option Buffer) (outLen : Option Nat) (flags : UInt32), key.kty = ktySymmetric →
    (keyEncodeEx (some key) out outLen flags).ret = .ok () → key.attachedType = .symmetric
  hpkeDecrypt : ∀ (args : DecryptArgs) (out : DecryptOut), (hpkeEncrypt0Decrypt (some key) args out).1 ≠ .ok ()
  encryptDirect : ∀ (recipients : List Recipient) (first : Recipient) (alg : Int) (args : EncryptMultiArgs) (env : Env),
    recipients.head? = some first → first.key = some key → first.algId = algDirect →
    (encryptEncrypt recipients alg args env).ret = .ok () → key.attachedType = .symmetric
  encryptKeyWrap : ∀ (recipients : List Recipient) (recipient : Recipient) (alg : Int) (args : EncryptMultiArgs)
    (env : Env), recipient ∈ recipients → recipient.key = some key → isKeyWrapAlg recipient.algId →
    (encryptEncrypt recipients alg args env).ret = .ok () → key.attachedType = .symmetric
  decrypt : ∀ (recipient : Recipient) (index : Nat) (args : DecryptArgs) (out : DecryptOut) (env : Env),
    recipient.key = some key → (encryptDecrypt (some recipient) index args out env).1 = .ok () →
    key.attachedType = .symmetric ∧ ∃ input msg, args.input = some input
      ∧ decodeBuffer (decodeEncrypt recipient index args.detachedCt) input = .ok msg
      ∧ (msg.recipient.source = .direct ∨ ∃ wrapped, msg.recipient.source = .keyWrap wrapped)
  encrypt0 : ∀ (alg : Int) (iv : Pointer) (args : EncryptArgs),
    (encrypt0Encrypt (some key) alg iv args).ret = .ok () → key.attachedType = .symmetric
  encrypt0Decrypt : ∀ (args : DecryptArgs) (out : DecryptOut),
    (encrypt0Decrypt (some key) args out).1 = .ok () → key.attachedType = .symmetric
  mac0 : ∀ (alg : Int) (kid : Pointer) (args : MacArgs), (mac0Create (some key) alg kid args).ret = .ok () →
    key.attachedType = .symmetric ∨ key.symmKeyLen = 0
  mac0Verify : ∀ (args : VerifyArgs) (out : VerifyOut) (flags : UInt32), args.key = some key →
    (mac0VerifyEx args out flags).1 = .ok () → key.attachedType = .symmetric ∨ key.symmKeyLen = 0
  mac : ∀ (recipients : List Recipient) (first : Recipient) (alg : Int) (args : MacArgs),
    recipients.head? = some first → first.key = some key → (macCreate recipients alg args).ret = .ok () →
    key.attachedType = .symmetric ∨ key.symmKeyLen = 0
  macVerify : ∀ (recipient : Recipient) (args : MacVerifyArgs) (out : VerifyOut), args.recipient = some recipient →
    recipient.key = some key → (macVerify args out).1 = .ok () →
    key.attachedType = .symmetric ∨ key.symmKeyLen = 0

theorem Key.Disarmed.withoutSecret {key : Key} (h : key.Disarmed) :
  key.WithoutSecret
  where
  sign1 := h.sign1SignEx
  sign _ _ args env hmem hkey := h.signSign hmem hkey args env
  counterSign m _ args env hkey := h.addCounterCommon m hkey args env
  encode out outLen _ hkty hflags := h.keyEncodeEx_eq hkty out outLen hflags
  encodeSymmetric _ _ _ hkty hret := h.attached_of_keyEncodeEx hkty hret
  hpkeDecrypt := h.hpkeEncrypt0Decrypt
  encryptDirect _ _ _ _ _ hfirst hkey hdirect hret := h.attached_of_directRecipient hfirst hkey hdirect hret
  encryptKeyWrap _ _ _ _ _ hmem hkey hwrap hret := h.attached_of_keyWrapRecipient hmem hkey hwrap hret
  decrypt _ _ _ _ _ hkey hret := h.attached_of_encryptDecrypt hkey hret
  encrypt0 _ _ _ hret := h.attached_of_encrypt0Encrypt hret
  encrypt0Decrypt _ _ hret := h.attached_of_encrypt0Decrypt hret
  mac0 _ _ _ hret := h.attached_of_mac0Create hret
  mac0Verify _ _ _ hkey hret := h.attached_of_mac0VerifyEx hkey hret
  mac _ _ _ _ hfirst hkey hret := h.attached_of_macCreate hfirst hkey hret
  macVerify _ _ _ hrecipient hkey hret := h.attached_of_macVerify hrecipient hkey hret

/-- A decoding that fails leaves a key without a secret, whatever the key was before, and until something is
attached to it, decoded into it or signs for it. -/
theorem failed_decode_disarms (calls : List KeyCall) (h : Key.zero.disarmedAfter true calls = true) :
  (keyAfter calls).WithoutSecret
  := by
  apply Key.Disarmed.withoutSecret
  exact disarmed_run typed_zero (fun _ => disarmed_zero) h

end

section Instances

attribute [local instance] defaultSettings defaultMacSettings defaultAeadSettings defaultRecipientSettings
attribute [local instance] sampleKeyWolfCrypt sampleKeySettings hmac256Crypt sumAeadCrypt failingRecipientCrypt
attribute [local instance] sampleKeyCrypt

/-- A private Ed25519 key is attached, the decoding of another one fails, and the owner assigns an algorithm. -/
def disarmingCalls : List KeyCall :=
  [.setEd25519 (some (List.replicate 64 0x11 : Bytes)),
    .decode (some ⟨[0xA2, 0x01, 0x01, 0x20, 0x06], by decide⟩), .assign algEddsa (.null 0)]

theorem failed_decode_disarms_ed25519 :
  (keyAfter (disarmingCalls.take 1)).hasPrivate = true ∧ Key.zero.disarmedAfter true disarmingCalls = true
    ∧ (keyAfter disarmingCalls).WithoutSecret
  := by
  have h : Key.zero.disarmedAfter true disarmingCalls = true := by
    decide +kernel
  exact ⟨by decide +kernel, h, failed_decode_disarms _ h⟩

end Instances

end WolfCose
