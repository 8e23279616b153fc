import WolfCose.Countersign.Verify
import WolfCose.Encrypt.Encrypt0
import WolfCose.Recipient.Policy
import WolfCose.Sign.Verify

/-!
# The algorithm cannot be substituted

The unprotected bucket of a message is not authenticated, so an algorithm must not be taken from there alone.  Whatever
verifies or decrypts a message does so with an algorithm that its protected bucket names or to which the key is
restricted.
-/

namespace WolfCose

open Program Cbor Settings

/-! ### Bound algorithms -/

section

variable [Settings]

/-- An algorithm that is bound: the protected bucket names it or the key is restricted to it, and the key is not
restricted to another one. -/
structure AlgBound (keyAlg : Int) (bucket : Bytes) (alg : Int) : Prop where
  chosen : ProtectedAlg 0 bucket alg ∨ keyAlg = alg
  pinned : keyAlg ≠ algUnset → keyAlg = alg

/-- The protected bucket is a part of the headers. -/
theorem HeadersValue.length_protectedData_le {flags : UInt32} {bs : Bytes} {headers : Headers}
    (h : HeadersValue flags bs headers) :
  headers.protectedData.length ≤ bs.length
  := by
  obtain ⟨prot, _, head, es, _, rfl, hbstr, -⟩ := h
  have hlen := hbstr.length_le
  rw [List.length_append]
  omega

/-- The checks of a function bind the algorithm of the headers. -/
theorem HeadersValue.algBound {bs : Bytes} {headers : Headers} (h : HeadersValue 0 bs headers)
    (hlen : bs.length ≤ sizeMax) (hset : headers.hdr.alg ≠ algUnset) {keyAlg : Int}
    (hpinned : keyAlg ≠ algUnset → keyAlg = headers.hdr.alg)
    (hprot : keyAlg = algUnset → headers.algProtected = true) :
  AlgBound keyAlg headers.protectedData headers.hdr.alg
  := by
  refine ⟨?_, hpinned⟩
  by_cases hkey : keyAlg = algUnset
  · exact .inl (h.protectedAlg (Nat.le_trans h.length_protectedData_le hlen) hset (hprot hkey))
  · exact .inr (hpinned hkey)

/-- The headers of a message are within the limit for byte strings. -/
theorem length_headers_le {start headers rest : Bytes} {input : Buffer}
    (h : input.bytes = start ++ (headers ++ rest)) :
  headers.length ≤ sizeMax
  := by
  have hle := input.length_le
  rw [h] at hle
  simp only [List.length_append] at hle
  omega

end

/-! ### Applied algorithms -/

section

variable [Settings]

/-- There is no curve for an algorithm without value. -/
theorem algToCrv_unset :
  algToCrv algUnset = .error .coseBadAlg
  := by
  simp [algToCrv, isEs256, isEs384, isEs512, isEddsa, algUnset, algEs256, algEsp256, algEs384, algEsp384, algEs512,
    algEsp512, algEddsa, algEd25519, algEd448]

/-- An algorithm that is verified has a value. -/
theorem Key.Verified.ne_unset [WolfCrypt] {key : Key} {alg : Int} {tbs sig : Bytes} (h : key.Verified alg tbs sig) :
  alg ≠ algUnset
  := by
  rintro rfl
  cases h.1 with
  | ecdsa h =>
      rw [algIsEcdsa, algToCrv_unset] at h
      cases h
  | ed25519 h =>
      rw [algIsEddsa, algToCrv_unset] at h
      cases h
  | ed448 h =>
      rw [algIsEddsa, algToCrv_unset] at h
      cases h
  | pss h => cases h
  | mldsa _ _ _ h => cases h
  | lms h => cases h

omit [Settings] in
/-- An algorithm that authenticates a tag has a value. -/
theorem Key.Authenticates.ne_unset [WolfCrypt] [MacSettings] [MacCrypt] {key : Key} {kind : MacKind} {alg : Int}
    {protectedData extAad payload tag : Bytes} (h : key.Authenticates kind alg protectedData extAad payload tag) :
  alg ≠ algUnset
  := by
  rintro rfl
  obtain ⟨_, -, htag, -⟩ := h
  have hunset : macTagSize algUnset = .error .coseBadAlg := by
    simp [macTagSize, algUnset, algHmac256, algHmac384, algHmac512, algAesMac128Tag64, algAesMac256Tag64,
      algAesMac128Tag128, algAesMac256Tag128]
  rw [hunset] at htag
  cases htag

omit [Settings] in
/-- An algorithm that opens a ciphertext has a value. -/
theorem ne_unset_of_aeadTagLen [AeadSettings] {alg : Int} {tagLen : Nat} (h : aeadTagLen alg = .ok tagLen) :
  alg ≠ algUnset
  := by
  rintro rfl
  have hunset : aeadTagLen algUnset = .error .coseBadAlg := by
    simp [aeadTagLen, isAesGcm, algUnset, algA128gcm, algA192gcm, algA256gcm, algChacha20Poly1305, algAesCcm16_64_128,
      algAesCcm16_64_256, algAesCcm64_64_128, algAesCcm64_64_256, algAesCcm16_128_128, algAesCcm16_128_256,
      algAesCcm64_128_128, algAesCcm64_128_256]
  rw [hunset] at h
  cases h

/-! ### HPKE -/

/-- The Recipient_structure of a recipient of HPKE, for the algorithm of the next layer. -/
def recipientInfo (nextLayerAlg : Int) (recipientProtected : Bytes) : Bytes :=
  preferredHead .array 4 ++ (stringBytes .tstr recipientContext ++ (intHead nextLayerAlg ++
    (stringBytes .bstr recipientProtected ++ stringBytes .bstr [])))

omit [Settings] in
/-- The context is a text. -/
theorem isUtf8_recipientContext :
  isUtf8 recipientContext = true
  := by decide +kernel

theorem hpke0BuildRecipientInfo_eq_ok {nextLayerAlg : Int} {recipientProtected bs : Bytes} {scratch : Buffer} :
  hpke0BuildRecipientInfo nextLayerAlg recipientProtected scratch = .ok bs
    ↔ (recipientInfo nextLayerAlg recipientProtected).length ≤ scratch.bytes.length
      ∧ bs = recipientInfo nextLayerAlg recipientProtected
  := by
  have h : Emits (encodeRecipientInfo nextLayerAlg recipientProtected)
      (recipientInfo nextLayerAlg recipientProtected) := by
    apply Emits.bind (emits_encodeHead _ _)
    apply Emits.bind (emits_encodeTstr_mem isUtf8_recipientContext)
    apply Emits.bind (emits_encodeInt _)
    apply Emits.bind (emits_encodeBstr_mem _)
    apply (emitsIf_encodeBstr (.null 0)).emits fun _ => rfl
  apply h.encodeInto_iff
  apply List.append_ne_nil_of_left_ne_nil (preferredHead_ne_nil _ _)

omit [Settings] in
/-- The token of an integer of 64 bits. -/
theorem wellFormed_intToken {v : Int} (h₁ : -2 ^ 63 ≤ v) (h₂ : v < 2 ^ 63) :
  (intToken v).WellFormed
  := by
  unfold intToken
  split
  · apply Token.wellFormed_ofHead rfl
    omega
  · apply Token.wellFormed_ofHead rfl
    omega

omit [Settings] in
/-- The Recipient_structure determines the algorithm of the next layer. -/
theorem recipientInfo_injective {alg alg' : Int} {bucket bucket' : Bytes} (h : inInt32Range alg = true)
    (h' : inInt32Range alg' = true) (e : recipientInfo alg bucket = recipientInfo alg' bucket') :
  alg = alg'
  := by
  have hrange {v : Int} (hv : inInt32Range v = true) : -2 ^ 63 ≤ v ∧ v < 2 ^ 63 := by
    simp only [inInt32Range, Bool.and_eq_true, decide_eq_true_eq] at hv
    omega
  obtain ⟨h₁, h₂⟩ := hrange h
  obtain ⟨h₁', h₂'⟩ := hrange h'
  have e' := List.append_cancel_left (List.append_cancel_left e)
  rw [intHead_eq, intHead_eq] at e'
  obtain ⟨ht, -⟩ := Token.bytes_append_cancel (wellFormed_intToken h₁ h₂) (wellFormed_intToken h₁' h₂') e'
  have hv := intOf_intToken h₁ h₂
  rw [ht, intOf_intToken h₁' h₂'] at hv
  exact (Option.some.inj hv).symm

end

/-! ### Verifying and decrypting -/

section

variable [Settings] [AeadSettings] [MacSettings] [RecipientSettings] [WolfCrypt] [AeadCrypt] [MacCrypt]
  [RecipientCrypt]

/-- The key of a message is found with HPKE for an algorithm of the content: the Recipient_structure that was
authenticated names it. -/
def HpkeBinds (recipient : Recipient) (selected : SelectedRecipient) (alg : Int) : Prop :=
  hpke0KeDecrypt = true ∧ selected.alg = algHpke0Ke ∧ ∃ ek wrapped cek, selected.source = .hpke ek wrapped
    ∧ hpke0Open recipient.key algHpke0Ke (recipientInfo alg selected.protectedData) [] ek wrapped cekBufSz = .ok cek

/-- The algorithm of the content of a COSE_Encrypt message is bound: the protected bucket names it, the selected
recipient is direct and its key is restricted to it, or HPKE binds it. -/
structure ContentAlgBound (recipient : Recipient) (msg : EncryptMessage) (alg : Int) : Prop where
  chosen : ProtectedAlg 0 msg.headers.protectedData alg
    ∨ (msg.recipient.alg = algDirect ∧ ∃ key, recipient.key = some key ∧ key.alg = alg)
    ∨ HpkeBinds recipient msg.recipient alg
  pinned : ∀ key, recipient.key = some key → key.alg ≠ algUnset →
    key.alg = if msg.recipient.alg = algDirect then alg else msg.recipient.alg

omit [MacSettings] [MacCrypt] in
/-- The algorithm with which a COSE_Encrypt message is decrypted is bound. -/
theorem EncryptOpened.contentAlgBound {recipient : Recipient} {index : Nat} {input scratch : Buffer}
    {detachedCt extAad : Pointer} {hdr : Hdr} {payload : Bytes} {msg : EncryptMessage}
    (h : EncryptOpened recipient index input detachedCt extAad scratch hdr payload msg) :
  ContentAlgBound recipient msg msg.headers.hdr.alg
  := by
  obtain ⟨start, headers, ciphertext, head, before, after, selected, henc⟩ := decodeEncrypt_eq_ok.mp h.decoded
  obtain ⟨keyLen, tagLen, cek, cipher, env, env', -, htag, hcek, -⟩ := h.opened
  obtain ⟨_, _, _, value, prot, isHpke, unprot, source, -, -, -, -, hfields, hsel⟩ := henc.selectedValue
  have hadmitted := hfields.admitted
  have hlen := length_headers_le henc.input_eq
  constructor
  all_goals rw [hsel]
  · rcases hadmitted.bound with hprot | hhpke | hdirect
    · exact .inl (henc.headersValue.protectedAlg (Nat.le_trans henc.headersValue.length_protectedData_le hlen)
        (ne_unset_of_aeadTagLen htag) hprot)
    · have hsource := hfields.source
      rw [CekSourceValue, if_pos hhpke] at hsource
      obtain ⟨wrapped, -, -, rfl⟩ := hsource
      rw [hsel] at hcek
      simp only [recipientCek, runs_bind, runs_steady, lift_eq_ok, hpke0BuildRecipientInfo_eq_ok] at hcek
      obtain ⟨_, _, -, _, _, ⟨⟨-, rfl⟩, -⟩, cek', _, ⟨hopen, -⟩, -⟩ := hcek
      exact .inr (.inr ⟨hhpke.1, hhpke.2, _, wrapped, cek', rfl, hopen⟩)
    · exact .inr (.inl hdirect)
  · intro key hkey hset
    rw [hadmitted.key key hkey hset, keyAlgFor]
    have hne : recipientAlg isHpke unprot ≠ algUnset := hadmitted.supported.ne_unset
    simp only [hne, false_or]

omit [AeadSettings] [MacSettings] [RecipientSettings] [AeadCrypt] [MacCrypt] [RecipientCrypt] in
/-- The algorithm with which a countersignature is verified is bound. -/
theorem CounterVerified.algBound {m : Memory} {args : CounterVerifyArgs} {key : Key} {found : CounterFound}
    (h : CounterVerified m args key found) :
  AlgBound key.alg found.headers.protectedData found.headers.hdr.alg
  := by
  obtain ⟨span, selected, -, -, hdec⟩ := h.selected
  rw [decodeBuffer_eq_ok] at hdec
  simp only [decodeFullCounter, runs_bind, runs_pure, reads_decodeHeaders decodeFlagsValid_zero _ _ _] at hdec
  obtain ⟨_, _, _, -, _, _, -, headers, _, ⟨bs, hheaders, hc⟩, sig, _, -, _, _, -, hfound, -⟩ := hdec
  obtain ⟨rfl, -⟩ := Prod.mk.inj hfound
  apply hheaders.algBound (length_le_of_consumes hc) h.verified.ne_unset h.pinned h.protected_of_unset

/-- No message is verified or decrypted with an algorithm that only its unprotected bucket names: it is named by the
protected bucket or the key is restricted to it.  For COSE_Encrypt that is the algorithm of the content, and a key that
is not that of a direct recipient is restricted to the algorithm of the recipient. -/
theorem applied_alg_bound (hdoc : DocumentedHmac) :
  (∀ args out out', sign1Verify args out = (.ok (), out') → ∃ key input msg, args.key = some key
      ∧ args.input = some input ∧ decodeBuffer (decodeSign1 args.detached 0) input = .ok msg
      ∧ AlgBound key.alg msg.headers.protectedData msg.hdr.alg
      ∧ key.Verified msg.hdr.alg (sigStructure1 msg.headers.protectedData args.extAad.bytes
        (verifyPayload args.detached msg.payload).bytes).bytes msg.sigData)
  ∧ (∀ args index out out', signVerify args index out = (.ok (), out') → ∃ key input msg, args.key = some key
      ∧ args.input = some input ∧ decodeBuffer (decodeSign key.alg index args.detached) input = .ok msg
      ∧ AlgBound key.alg msg.signer.protectedData msg.signer.hdr.alg
      ∧ key.Verified msg.signer.hdr.alg (sigStructure msg.body.protectedData msg.signer.protectedData args.extAad.bytes
        (verifyPayload args.detached msg.payload).bytes).bytes msg.signature)
  ∧ (∀ args out out', mac0Verify args out = (.ok (), out') → ∃ key input msg, args.key = some key
      ∧ args.input = some input ∧ decodeBuffer (decodeMac0 args.detached 0) input = .ok msg
      ∧ AlgBound key.alg msg.headers.protectedData msg.hdr.alg
      ∧ key.Authenticates .mac0 msg.hdr.alg msg.headers.protectedData args.extAad.bytes
        (verifyPayload args.detached msg.payload).bytes msg.tag)
  ∧ (∀ args out out', macVerify args out = (.ok (), out') → ∃ recipient key input msg, args.recipient = some recipient
      ∧ recipient.key = some key ∧ args.input = some input ∧ MacEncoding args.detached input.bytes msg
      ∧ AlgBound key.alg msg.headers.protectedData msg.hdr.alg
      ∧ key.Authenticates .mac msg.hdr.alg msg.headers.protectedData args.extAad.bytes
        (verifyPayload args.detached msg.payload).bytes msg.tag)
  ∧ (∀ key args out out', encrypt0Decrypt key args out = (.ok (), out') → ∃ key' input msg payload, key = some key'
      ∧ args.input = some input ∧ decodeBuffer (decodeEncrypt0 args.detachedCt) input = .ok msg
      ∧ AlgBound key'.alg msg.headers.protectedData msg.hdr.alg
      ∧ Opened key' msg.hdr.alg (msg.hdr.iv.getD []) (encStructure0 msg.headers.protectedData args.extAad.bytes).bytes
        msg.ciphertext payload)
  ∧ (∀ recipient index args out env out', encryptDecrypt recipient index args out env = (.ok (), out') →
      ∃ r input scratch hdr payload msg, recipient = some r ∧ args.input = some input
        ∧ EncryptOpened r index input args.detachedCt args.extAad scratch hdr payload msg
        ∧ ContentAlgBound r msg msg.headers.hdr.alg)
  ∧ (∀ alg alg' bucket bucket', inInt32Range alg = true → inInt32Range alg' = true →
      recipientInfo alg bucket = recipientInfo alg' bucket' → alg = alg')
  ∧ (∀ m args, (verifyCounterSignature m args).ret = .ok () → ∃ key found, args.key = some key
      ∧ CounterVerified m args key found
      ∧ AlgBound key.alg found.headers.protectedData found.headers.hdr.alg)
  := by
  have hf := decodeFlagsValid_zero
  refine ⟨?_, ?_, ?_, ?_, ?_, ?_, ?_, ?_⟩
  · intro args out out' h
    obtain ⟨key, input, hdr, payload, msg, hkey, hinput, -, hverified⟩ := sign1VerifyEx_ok h
    obtain ⟨rfl, -⟩ := hverified.returned
    refine ⟨key, input, msg, hkey, hinput, (decodeSign1_eq_ok hf).mpr hverified.encoding, ?_, hverified.verified⟩
    obtain ⟨start, headers, body, sig, heq, -, hheaders, hpayload, -⟩ := hverified.encoding
    have halg : msg.hdr.alg = msg.headers.hdr.alg := hpayload.alg
    have hset := hverified.verified.ne_unset
    have hpinned := hverified.pinned
    rw [halg] at hset hpinned ⊢
    apply hheaders.algBound (length_headers_le heq) hset hpinned hverified.protected_of_unset
  · intro args index out out' h
    obtain ⟨key, input, msg, hkey, hinput, hdec, -, hverified⟩ := signVerify_ok h
    refine ⟨key, input, msg, hkey, hinput, hdec, ?_, hverified⟩
    obtain ⟨body, before, e, after, heq, -, -, -, -, head, headers, sig, rfl, -, -, -, hheaders, -, hunset, hpinned⟩ :=
      decodeSign_eq_ok.mp hdec
    apply hheaders.algBound _ hverified.ne_unset hpinned hunset
    have hle := input.length_le
    rw [heq] at hle
    simp only [List.length_append] at hle
    omega
  · intro args out out' h
    obtain ⟨key, input, hdr, payload, msg, hkey, hinput, -, hverified⟩ := mac0VerifyEx_ok hdoc h
    obtain ⟨rfl, -⟩ := hverified.returned
    refine ⟨key, input, msg, hkey, hinput, (decodeMac0_eq_ok hf).mpr hverified.encoding, ?_, hverified.authentic⟩
    obtain ⟨start, headers, body, tag, heq, -, hheaders, hpayload, -⟩ := hverified.encoding
    have halg : msg.hdr.alg = msg.headers.hdr.alg := hpayload.alg
    have hset := hverified.authentic.ne_unset
    have hpinned := hverified.pinned
    rw [halg] at hset hpinned ⊢
    apply hheaders.algBound (length_headers_le heq) hset hpinned hverified.protected_of_unset
  · intro args out out' h
    obtain ⟨recipient, key, input, hdr, payload, msg, hrecipient, hinput, -, hverified⟩ := macVerify_ok hdoc h
    obtain ⟨rfl, -⟩ := hverified.returned
    refine ⟨recipient, key, input, msg, hrecipient, hverified.key_eq, hinput, hverified.encoding, ?_,
      hverified.authentic⟩
    obtain ⟨start, headers, body, tag, recipients, heq, -, hheaders, hpayload, -⟩ := hverified.encoding
    have halg : msg.hdr.alg = msg.headers.hdr.alg := hpayload.alg
    have hset := hverified.authentic.ne_unset
    have hpinned := hverified.pinned
    rw [halg] at hset hpinned ⊢
    apply hheaders.algBound (length_headers_le heq) hset hpinned hverified.protected_of_unset
  · intro key args out out' h
    obtain ⟨key', input, plaintext, hdr, payload, msg, hkey, hinput, -, -, hopened⟩ := encrypt0Decrypt_ok h
    obtain rfl := hopened.returned
    refine ⟨key', input, msg, payload, hkey, hinput, decodeEncrypt0_eq_ok.mpr hopened.encoding, ?_, hopened.opened⟩
    obtain ⟨start, headers, body, heq, -, hheaders, ct, hpayload, -⟩ := hopened.encoding
    have halg : msg.hdr.alg = msg.headers.hdr.alg := hpayload.alg
    obtain ⟨tagLen, _, _, htag, -⟩ := hopened.opened
    have hset := ne_unset_of_aeadTagLen htag
    have hpinned := hopened.pinned
    rw [halg] at hset hpinned ⊢
    apply hheaders.algBound (length_headers_le heq) hset hpinned hopened.protected_of_unset
  · intro recipient index args out env out' h
    obtain ⟨r, input, scratch, plaintext, hdr, payload, msg, hr, hinput, -, -, -, hopened⟩ := encryptDecrypt_ok h
    exact ⟨r, input, scratch, hdr, payload, msg, hr, hinput, hopened, hopened.contentAlgBound⟩
  · intro alg alg' bucket bucket' h h' e
    apply recipientInfo_injective h h' e
  · intro m args h
    obtain ⟨key, found, hkey, -, hverified⟩ := verifyCounterSignature_ok h
    exact ⟨key, found, hkey, hverified, hverified.algBound⟩

end

section Instances

attribute [local instance] defaultSettings defaultAeadSettings defaultRecipientSettings defaultMacSettings p256Crypt
  wrappedAeadCrypt wrappedRecipientCrypt

/-- No HMAC is computed. -/
@[reducible]
def noMacCrypt : MacCrypt := hmacTableCrypt []

attribute [local instance] noMacCrypt

theorem documentedHmac_noMacCrypt :
  DocumentedHmac
  := by
  apply documentedHmac_hmacTableCrypt
  apply List.forall_mem_nil

/-- A recipient whose key is restricted to AES key wrap. -/
def restrictedRecipient : Recipient := ⟨algUnset, some { Key.ofSymmetric wrappingKey with alg := algA128kw }, .null 0⟩

/-- What decrypting a message with the recipient does. -/
def restrictedResult : Checked Unit × DecryptOut :=
  encryptDecrypt (some restrictedRecipient) 0 implicitArgs ⟨some .zero, some [0, 0, 0], some 0⟩ ()

/-- The message is decrypted with AES-GCM, while the key is restricted to AES key wrap. -/
theorem restricted_key_decrypts :
  restrictedResult.1 = .ok () ∧ restrictedResult.2.hdr.map Hdr.alg = some algA128gcm
  ∧ restrictedRecipient.key.map Key.alg = some algA128kw ∧ algA128kw ≠ algUnset ∧ algA128kw ≠ algA128gcm
  := by
  decide +kernel

theorem applied_alg_bound_instance :
  ∃ r input scratch hdr payload msg, some restrictedRecipient = some r ∧ implicitArgs.input = some input
    ∧ EncryptOpened r 0 input implicitArgs.detachedCt implicitArgs.extAad scratch hdr payload msg
    ∧ ContentAlgBound r msg msg.headers.hdr.alg
  := by
  obtain ⟨-, -, -, -, -, hencrypt, -⟩ := applied_alg_bound documentedHmac_noMacCrypt
  have hret : ∀ r : Checked Unit × DecryptOut, r.1 = .ok () → r = (.ok (), r.2) := by
    rintro ⟨_, _⟩ rfl
    rfl
  have h : restrictedResult.1 = .ok () := by decide +kernel
  apply hencrypt _ _ _ _ _ _ (hret restrictedResult h)

end Instances

end WolfCose
