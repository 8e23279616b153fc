import WolfCose.Encrypt.Selected
import WolfCose.Recipient.Mix

/-!
# What decrypting COSE_Encrypt relies on

A call of `wc_CoseEncrypt_Decrypt` that succeeds has decoded the message, admitted the algorithm of the
selected recipient, and opened the ciphertext with the key that this recipient yields.
-/

namespace WolfCose

open Program Cbor Settings

section

variable [Settings] [RecipientSettings] [WolfCrypt]

/-! ### The recipients -/

theorem SelectedValue.ne_nil {recipient : Recipient} {contentAlgId : Int} {bodyAlgProtected onlyRecipient : Bool}
    {bs : Bytes} {selected : SelectedRecipient}
    (h : SelectedValue recipient contentAlgId bodyAlgProtected onlyRecipient bs selected) :
  bs ≠ []
  := by
  obtain ⟨head, _, _, _, _, _, _, _, rfl, -⟩ := h
  exact List.append_ne_nil_of_left_ne_nil (List.ne_nil_of_length_pos head.one_le_length_bytes) _

/-- The recipients are decoded exactly if their array stands at the cursor, with the selected one as its parser
accepts it and the others as they are skipped. -/
theorem runs_decodeEncryptRecipients (recipient : Recipient) (index : Nat) (headers : Headers) (ctx : DecCtx)
    (selected : SelectedRecipient) (ctx' : DecCtx) :
  Runs (decodeEncryptRecipients recipient index headers) ctx selected ctx'
    ↔ ∃ head before bs after, RecipientList head before after selected.alg index
      ∧ SelectedValue recipient headers.hdr.alg headers.algProtected (decide (head.val = 1 ∧ index = 0)) bs selected
      ∧ ctx.Consumes (head.bytes ++ (treesBytes before ++ (bs ++ treesBytes after))) ctx'
  := by
  rw [← recipientList_iff (S := fun n bs => SelectedValue recipient headers.hdr.alg headers.algProtected
    (decide (n = 1 ∧ index = 0)) bs selected) fun _ _ h => h.ne_nil]
  simp only [decodeEncryptRecipients, runs_bind, runs_failIf, runs_pure, runs_decodeEncryptRecipient]
  constructor
  · rintro ⟨count, c₁, hcount, _, _, ⟨hindex, rfl⟩, mode, c₂, hbefore, r, c₃, ⟨bs, hbs, hc, hmode⟩, mode'', _, hafter,
      rfl, rfl⟩
    exact ⟨count, c₁, hcount, Nat.lt_of_not_le hindex, mode, c₂, hbefore, bs, c₃, hbs, hc, r.2, hmode, mode'', hafter⟩
  · rintro ⟨count, c₁, hcount, hindex, mode, c₂, hbefore, bs, c₃, hbs, hc, mode', hmode, mode'', hafter⟩
    exact ⟨count, c₁, hcount, (), c₁, ⟨Nat.not_le_of_lt hindex, rfl⟩, mode, c₂, hbefore, (selected, mode'), c₃,
      ⟨bs, hbs, hc, hmode⟩, mode'', ctx', hafter, rfl, rfl⟩

/-! ### The message -/

variable [AeadSettings]

/-- The parts of a message that is accepted with a recipient at an index. -/
structure EncryptEncoding (recipient : Recipient) (index : Nat) (detachedCt : Pointer) (input : Bytes)
    (msg : EncryptMessage) (start headers ciphertext : Bytes) (head : Token) (before after : List (Int × Bytes))
    (selected : Bytes) : Prop where
  input_eq : input = start ++ (headers ++ (ciphertext ++
    (head.bytes ++ (treesBytes before ++ (selected ++ treesBytes after)))))
  startValue : StartValue 0 tagEncrypt 4 start
  headersValue : HeadersValue 0 headers msg.headers
  nonce : checkNonce msg.headers.hdr = .ok ()
  ciphertextValue : ∃ ct, PayloadValue 0 detachedCt msg.headers.hdr ciphertext (msg.hdr, ct)
    ∧ msg.ciphertext = (verifyPayload detachedCt ct).bytes
  recipients : RecipientList head before after msg.recipient.alg index
  selectedValue : SelectedValue recipient msg.headers.hdr.alg msg.headers.algProtected
    (decide (head.val = 1 ∧ index = 0)) selected msg.recipient

theorem decodeEncrypt_eq_ok {recipient : Recipient} {index : Nat} {detachedCt : Pointer} {input : Buffer}
    {msg : EncryptMessage} :
  decodeBuffer (decodeEncrypt recipient index detachedCt) input = .ok msg
    ↔ ∃ start headers ciphertext head before after selected, EncryptEncoding recipient index detachedCt input.bytes msg
      start headers ciphertext head before after selected
  := by
  have hf := decodeFlagsValid_zero
  simp only [decodeBuffer_eq_ok, decodeEncrypt, runs_bind, runs_pure, runs_ofExcept, runs_decodeStart hf,
    reads_decodeHeaders hf _ _ _, reads_decodeMacPayload _ _ _ _ _, runs_decodeEncryptRecipients, runs_decodeEnd]
  constructor
  · rintro ⟨_, _, c₁, ⟨start, hstart, h₁, -⟩, headers, c₂, ⟨bs₂, hheaders, h₂⟩, _, _, ⟨hnonce, rfl⟩, ⟨hdr, ct⟩, c₃,
      ⟨bs₃, hpayload, h₃⟩, selected, c₄, ⟨head, before, bs, after, hlist, hsel, h₄⟩, _, _, ⟨hend, rfl⟩, rfl, rfl⟩
    exact ⟨start, bs₂, bs₃, head, before, after, bs, {
      input_eq := (h₁.trans (h₂.trans (h₃.trans h₄))).init_end hend
      startValue := hstart
      headersValue := hheaders
      nonce := hnonce
      ciphertextValue := ⟨ct, hpayload, rfl⟩
      recipients := hlist
      selectedValue := hsel }⟩
  · rintro ⟨start, bs₂, bs₃, head, before, after, bs, h⟩
    obtain ⟨ct, hpayload, hct⟩ := h.ciphertextValue
    obtain ⟨last, hc, hend⟩ := DecCtx.consumes_whole input
    rw [h.input_eq] at hc
    obtain ⟨c₁, h₁, hc⟩ := hc.split
    have hroom : 4 ≤ c₁.rest.length := by
      have k₁ := h.headersValue.two_le_length
      have k₂ := List.length_pos_iff.mpr hpayload.ne_nil
      have k₃ := head.one_le_length_bytes
      rw [hc.length_rest_eq]
      simp only [List.length_append]
      omega
    obtain ⟨c₂, h₂, hc⟩ := hc.split
    obtain ⟨c₃, h₃, h₄⟩ := hc.split
    obtain ⟨headers, hdr, ciphertext, selected⟩ := msg
    obtain rfl : ciphertext = (verifyPayload detachedCt ct).bytes := hct
    exact ⟨last, (), c₁, ⟨start, h.startValue, h₁, hroom⟩, headers, c₂, ⟨bs₂, h.headersValue, h₂⟩, (), c₂,
      ⟨h.nonce, rfl⟩, (hdr, ct), c₃, ⟨bs₃, hpayload, h₃⟩, selected, last,
      ⟨head, before, bs, after, h.recipients, h.selectedValue, h₄⟩, (), last, ⟨hend, rfl⟩, rfl, rfl⟩

/-! ### What is decrypted -/

variable [AeadCrypt] [RecipientCrypt]

/-- What a successful decryption of a message establishes: the algorithm is admitted, and the cipher accepts the
whole ciphertext with a key that the selected recipient yields. -/
structure EncryptOpened (recipient : Recipient) (index : Nat) (input : Buffer) (detachedCt extAad : Pointer)
    (scratch : Buffer) (hdr : Hdr) (payload : Bytes) (msg : EncryptMessage) : Prop where
  decoded : decodeBuffer (decodeEncrypt recipient index detachedCt) input = .ok msg
  returned : hdr = msg.hdr
  opened : ∃ keyLen tagLen cek cipher env env', aeadKeyLen msg.headers.hdr.alg = .ok keyLen
    ∧ aeadTagLen msg.headers.hdr.alg = .ok tagLen
    ∧ Runs (recipientCek recipient msg.recipient msg.headers.hdr.alg keyLen scratch) env cek env'
    ∧ aeadSetKey msg.headers.hdr.alg cek = .ok cipher ∧ tagLen ≤ msg.ciphertext.length
    ∧ aeadDecrypt cipher (hdr.iv.getD []) (AuthStructure.aead ctxEncrypt msg.headers.protectedData extAad.bytes).bytes
      (msg.ciphertext.take (msg.ciphertext.length - tagLen)) (msg.ciphertext.drop (msg.ciphertext.length - tagLen))
      = .ok payload

theorem encryptDecryptMessage_ok {recipient : Recipient} {index : Nat} {input scratch : Buffer}
    {detachedCt extAad : Pointer} {plaintextSz : Nat} {hdr : Hdr} {payload : Bytes} {env env' : WolfCrypt.Env}
    (h : Runs (encryptDecryptMessage recipient index input detachedCt extAad scratch plaintextSz) env (hdr, payload)
      env') :
  ∃ msg, EncryptOpened recipient index input detachedCt extAad scratch hdr payload msg
  := by
  simp only [encryptDecryptMessage, runs_steady_bind, lift_eq_ok] at h
  obtain ⟨msg, hdec, keyLen, hkeyLen, tagLen, htag, h⟩ := h
  obtain ⟨cek, env₁, hcek, h⟩ := (runs_bind _ _ _ _ _).mp h
  simp only [runs_steady_bind, lift_eq_ok, failWhen_eq_ok, runs_pure, buildEncStructure_eq_ok] at h
  obtain ⟨_, hshort, _, -, _, -, aad, ⟨-, -, -, -, -, rfl⟩, cipher, hset, payload', hopen, he, -⟩ := h
  cases he
  exact ⟨msg, hdec, rfl, keyLen, tagLen, cek, cipher, env, env₁, hkeyLen, htag, hcek, hset, Nat.le_of_not_lt hshort,
    hopen⟩

omit [Settings] [RecipientSettings] [AeadSettings] [AeadCrypt] [RecipientCrypt] in
theorem drawn_eq_ok {α : Type} {p : Drawing α} {env : WolfCrypt.Env} {a : α} :
  drawn p env = .ok a ↔ ∃ env', Runs p env a env'
  := by
  unfold drawn Runs
  rcases p env with ⟨b, env'⟩ | ⟨fault, env'⟩
  · constructor
    · intro h
      cases h
      exact ⟨env', rfl⟩
    · rintro ⟨_, h⟩
      cases h
      rfl
  · constructor
    · intro h
      cases h
    · rintro ⟨_, h⟩
      cases h

/-- The plaintext of a call that succeeds is that of a ciphertext which the cipher has accepted. -/
theorem encryptDecrypt_ok {recipient : Option Recipient} {index : Nat} {args : DecryptArgs} {out out' : DecryptOut}
    {env : WolfCrypt.Env} (h : encryptDecrypt recipient index args out env = (.ok (), out')) :
  ∃ r input scratch plaintext hdr payload msg, recipient = some r ∧ args.input = some input
    ∧ args.scratch = some scratch ∧ out.plaintext = some plaintext
    ∧ out' = ⟨some hdr, some (Bytes.overwrite plaintext 0 payload), some payload.length⟩
    ∧ EncryptOpened r index input args.detachedCt args.extAad scratch hdr payload msg
  := by
  obtain ⟨hdr, payload, hret, rfl⟩ := DecryptOut.finish_ok h
  split at hret
  · rename_i r input scratch _ plaintext _ hinput hscratch _ hplaintext _
    simp only [bind_eq_ok, failWhen_eq_ok, drawn_eq_ok] at hret
    obtain ⟨_, -, _, -, _, hret⟩ := hret
    obtain ⟨msg, hmsg⟩ := encryptDecryptMessage_ok hret
    exact ⟨r, input, scratch, plaintext, hdr, payload, msg, rfl, hinput, hscratch, hplaintext,
      by rw [hplaintext]; rfl, hmsg⟩
  · cases hret

end

section Instances

/-! ### Recorded calls -/

/-- Calls of wolfCrypt with their results: AES-GCM with the key, the nonce, the additional data and the ciphertext
before its tag; key unwrapping with the key and the wrapped key; the shared secret of a private and a public key; HKDF
with the secret and the context. -/
structure RecordedCalls where
  aesGcm : List ((Bytes × Bytes × Bytes × Bytes) × Bytes)
  unwrap : List ((Bytes × Bytes) × Bytes)
  ecdh : List ((Bytes × Bytes) × Bytes)
  kdf : List ((Bytes × Bytes) × Bytes)

/-- A byte string of the length that is asked for. -/
def RecordedCalls.block (n : Nat) (bs : Bytes) : Option (Block n) :=
  if h : bs.length = n then some ⟨bs, h⟩ else none

/-- A wolfCrypt with keys for P-256: a private key is a coordinate, and a public key has two. -/
@[reducible]
def p256Crypt : WolfCrypt := { failingCrypt with eccSize := fun _ => 32 }

/-- The AEADs as far as the calls go. -/
@[reducible]
def RecordedCalls.aeadCrypt (calls : RecordedCalls) : AeadCrypt where
  Aes := Bytes
  aesInit := some []
  aesGcmSetKey _ key := some key.bytes
  aesGcmEncrypt _ _ _ _ _ := none
  aesGcmDecrypt key ciphertext iv tag aad := calls.aesGcm.lookup (key, iv, aad, ciphertext ++ tag) >>= block _
  aesCcmSetKey _ _ := none
  aesCcmEncrypt _ _ _ _ _ := none
  aesCcmDecrypt _ _ _ _ _ := none
  chacha20Poly1305Encrypt _ _ _ _ := none
  chacha20Poly1305Decrypt _ _ _ _ _ := none

attribute [local instance] p256Crypt

/-- The ways to distribute a key as far as the calls go. -/
@[reducible]
def RecordedCalls.recipientCrypt (calls : RecordedCalls) : RecipientCrypt where
  rngGenerateBlock _ _ env := (none, env)
  initRng env := (some (), env)
  aesKeyWrap _ _ _ := none
  aesKeyUnWrap kek wrapped _ := calls.unwrap.lookup (kek.bytes, wrapped)
  eccInit := some ([] : Bytes)
  eccSetRng key _ := some key
  eccCheckKey _ := true
  eccMakeKeyEx _ _ _ _ env := (none, env)
  eccSharedSecret (key pub : Bytes) env := (calls.ecdh.lookup (key, pub), env)
  eccExportPublicRaw _ _ := none
  eccImportUnsigned _ x y _ := some (x ++ y : Bytes)
  hkdf _ secret info len := calls.kdf.lookup (secret, info) >>= block len
  Hpke := Unit
  hpkeInit := none
  hpkeSerializePublicKey _ _ := none
  hpkeSealBase _ _ _ _ _ _ := none
  hpkeOpenBase _ _ _ _ _ _ _ := none

/-- A build with all ways to distribute a key. -/
@[reducible]
def defaultRecipientSettings : RecipientSettings where
  keyWrapMode := true
  ecdhEsDirectMode := true
  hpke0KeEncrypt := true
  maxEccBytes := 66

end Instances

end WolfCose
