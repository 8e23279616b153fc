import WolfCose.Encrypt.Encrypt0
import WolfCose.Encrypt.Opened
import WolfCose.Mac.Mac
import WolfCose.Sign.Verify

/-!
# Protected buckets without parameters

A protected bucket without parameters is a byte string that is empty or holds an empty map.  The decoders of headers
accept both alike, but the library does not turn one into the other: every structure that is authenticated has the
bucket as it is encoded in the message.
-/

namespace WolfCose

open Program Cbor Settings

section

variable [Settings]

/-! ### Decoding -/

/-- A bucket without parameters is short. -/
theorem length_le_of_bucketEntries_nil {flags : UInt32} {data : Bytes} (h : BucketEntries flags data []) :
  data.length ≤ sizeMax
  := by
  have hmax := lt_sizeMax
  rcases h with ⟨rfl, -⟩ | ⟨head, hhead, rfl, -⟩
  · exact Nat.zero_le _
  · have hdata : head.data.length = 0 := by
      rw [hhead.accepted.wellFormed.length_data, hhead.major]
      rfl
    have hsize : head.width.size ≤ 8 := by
      cases head.width <;> decide
    rw [mapBytes, entriesBytes_nil, List.append_nil, head.length_bytes]
    omega

/-- A protected bucket without parameters leaves the header as it was, however it is encoded. -/
theorem decodeProtectedHdrEx_empty {flags : UInt32} (hf : decodeFlagsValid flags = true) {data : Bytes}
    (h : BucketEntries flags data []) :
  decodeProtectedHdrEx (.mem data) .zero flags = .ok (.zero, .init)
  := by
  rw [decodeProtectedHdrEx_eq_ok (length_le_of_bucketEntries_nil h)]
  refine ⟨hf, ?_⟩
  rcases h with ⟨rfl, -⟩ | ⟨head, hhead, hdata, -⟩
  · exact .inl ⟨rfl, rfl⟩
  · refine .inr ⟨head, [], hdata, ?_, rfl⟩
    exact {
      map := {
        head := hhead
        labelled := List.forall_mem_nil _
        labels := ⟨List.nodup_nil, List.forall_mem_nil _, List.forall_mem_nil _, List.forall_mem_nil _⟩
        length_le := Nat.zero_le _ }
      placed := List.forall_mem_nil _
      scans := ⟨0, false, .nil _ _, by simp, by simp⟩
      ivs := by rintro ⟨⟨⟩, -⟩ }

/-- Headers with a protected bucket without parameters are decoded to the same header, however the bucket is
encoded. -/
theorem HeadersValue.empty {flags : UInt32} (hf : decodeFlagsValid flags = true) {prot prot' data data' unprot : Bytes}
    (hprot : BstrValue flags prot data) (hdata : BucketEntries flags data []) (hprot' : BstrValue flags prot' data')
    (hdata' : BucketEntries flags data' []) {headers : Headers} (h : HeadersValue flags (prot ++ unprot) headers) :
  headers.protectedData = data
    ∧ HeadersValue flags (prot' ++ unprot) { headers with protectedData := data' }
  := by
  obtain ⟨prot₂, r, head, es, ek, hbs, hbstr, hdec, halg, hmap⟩ := h
  obtain ⟨t, ht, ⟨-, rfl⟩, rfl⟩ := hprot
  obtain ⟨t', ht', ⟨-, hdata₂⟩, rfl⟩ := hbstr
  obtain ⟨rfl, rfl⟩ := Token.bytes_append_cancel ht.wellFormed ht'.wellFormed hbs
  rw [← hdata₂, decodeProtectedHdrEx_empty hf hdata] at hdec
  cases hdec
  exact ⟨hdata₂.symm, prot', _, head, es, ek, rfl, hprot', decodeProtectedHdrEx_empty hf hdata', halg, hmap⟩

end

/-! ### Authenticating -/

/-- A byte string that is not empty is encoded in more bytes than the empty one. -/
theorem length_bytes_ofString_lt {data : Bytes} (h : data ≠ []) :
  (Token.ofString .bstr []).bytes.length < (Token.ofString .bstr data).bytes.length
  := by
  have hpos := List.length_pos_iff.mpr h
  rw [Token.length_bytes, Token.length_bytes]
  change 1 + 0 + 0 < 1 + _ + data.length
  omega

/-- With a bucket that is not empty in the place of an empty one, other bytes are authenticated. -/
theorem AuthStructure.bytes_ne_of_empty {data : Bytes} (h : data ≠ []) (context bucket extAad payload : Bytes)
    (signProtected : Option Bytes) (otherFields : Option (Nat × Bytes)) :
  (content context [] signProtected extAad payload otherFields).bytes
      ≠ (content context data signProtected extAad payload otherFields).bytes
    ∧ (content context bucket (some []) extAad payload otherFields).bytes
      ≠ (content context bucket (some data) extAad payload otherFields).bytes
    ∧ (aead context [] extAad).bytes ≠ (aead context data extAad).bytes
  := by
  have hlen := length_bytes_ofString_lt h
  refine ⟨?_, ?_, ?_⟩
  all_goals
    intro e
    have he := congrArg List.length e
    simp only [bytes, tokens, optionalString, Option.map_some, Option.toList_some, List.flatMap_append,
      List.flatMap_cons, List.length_append, Option.isSome_some] at he
    omega

section

variable [Settings] [AeadSettings] [MacSettings] [RecipientSettings] [WolfCrypt] [AeadCrypt] [MacCrypt]
  [RecipientCrypt]

/-- A protected bucket without parameters is decoded alike however it is encoded, but it is authenticated as it is
encoded: the structure of every call that succeeds has the byte string of the message, and different ones make different
structures. -/
theorem empty_bucket_authenticated (hdoc : DocumentedHmac) :
  (∀ flags prot prot' data data' unprot headers, decodeFlagsValid flags = true →
      BstrValue flags prot data → BucketEntries flags data [] → BstrValue flags prot' data' →
      BucketEntries flags data' [] → HeadersValue flags (prot ++ unprot) headers → headers.protectedData = data
        ∧ HeadersValue flags (prot' ++ unprot) { headers with protectedData := data' })
  ∧ (∀ data : Bytes, data ≠ [] → ∀ context bucket extAad payload signProtected otherFields,
      (AuthStructure.content context [] signProtected extAad payload otherFields).bytes
          ≠ (AuthStructure.content context data signProtected extAad payload otherFields).bytes
        ∧ (AuthStructure.content context bucket (some []) extAad payload otherFields).bytes
          ≠ (AuthStructure.content context bucket (some data) extAad payload otherFields).bytes
        ∧ (AuthStructure.aead context [] extAad).bytes ≠ (AuthStructure.aead context data extAad).bytes)
  ∧ (∀ args out out', sign1Verify args out = (.ok (), out') → ∃ key input msg, args.key = some key
      ∧ args.input = some input ∧ decodeBuffer (decodeSign1 args.detached 0) input = .ok msg
      ∧ key.Verified msg.hdr.alg (AuthStructure.content ctxSignature1 msg.headers.protectedData none args.extAad.bytes
        (verifyPayload args.detached msg.payload).bytes none).bytes msg.sigData)
  ∧ (∀ args index out out', signVerify args index out = (.ok (), out') → ∃ key input msg, args.key = some key
      ∧ args.input = some input ∧ decodeBuffer (decodeSign key.alg index args.detached) input = .ok msg
      ∧ key.Verified msg.signer.hdr.alg (AuthStructure.content ctxSignature msg.body.protectedData
        (some msg.signer.protectedData) args.extAad.bytes (verifyPayload args.detached msg.payload).bytes none).bytes
        msg.signature)
  ∧ (∀ args out out', mac0Verify args out = (.ok (), out') → ∃ key input msg, args.key = some key
      ∧ args.input = some input ∧ decodeBuffer (decodeMac0 args.detached 0) input = .ok msg
      ∧ ∃ symmKey, key.symmKey = .ok symmKey ∧ MacOf symmKey msg.hdr.alg (AuthStructure.content ctxMac0
        msg.headers.protectedData none args.extAad.bytes (verifyPayload args.detached msg.payload).bytes none).bytes
        msg.tag)
  ∧ (∀ args out out', macVerify args out = (.ok (), out') → ∃ recipient key input msg, args.recipient = some recipient
      ∧ recipient.key = some key ∧ args.input = some input ∧ MacEncoding args.detached input.bytes msg
      ∧ ∃ symmKey, key.symmKey = .ok symmKey ∧ MacOf symmKey msg.hdr.alg (AuthStructure.content ctxMac
        msg.headers.protectedData none args.extAad.bytes (verifyPayload args.detached msg.payload).bytes none).bytes
        msg.tag)
  ∧ (∀ key args out out', encrypt0Decrypt key args out = (.ok (), out') → ∃ key' input msg payload, key = some key'
      ∧ args.input = some input ∧ decodeBuffer (decodeEncrypt0 args.detachedCt) input = .ok msg
      ∧ Opened key' msg.hdr.alg (msg.hdr.iv.getD []) (AuthStructure.aead ctxEncrypt0 msg.headers.protectedData
        args.extAad.bytes).bytes msg.ciphertext payload)
  ∧ (∀ recipient index args out env out', encryptDecrypt recipient index args out env = (.ok (), out') →
      ∃ r input msg payload cipher tagLen, recipient = some r ∧ args.input = some input
        ∧ decodeBuffer (decodeEncrypt r index args.detachedCt) input = .ok msg
        ∧ aeadDecrypt cipher (msg.hdr.iv.getD []) (AuthStructure.aead ctxEncrypt msg.headers.protectedData
          args.extAad.bytes).bytes (msg.ciphertext.take (msg.ciphertext.length - tagLen))
          (msg.ciphertext.drop (msg.ciphertext.length - tagLen)) = .ok payload)
  := by
  have hf := decodeFlagsValid_zero
  refine ⟨?_, ?_, ?_, ?_, ?_, ?_, ?_, ?_⟩
  · intro flags prot prot' data data' unprot headers hf hprot hdata hprot' hdata' h
    apply h.empty hf hprot hdata hprot' hdata'
  · intro data h context bucket extAad payload signProtected otherFields
    apply AuthStructure.bytes_ne_of_empty h
  · intro args out out' h
    obtain ⟨key, input, hdr, payload, msg, hkey, hinput, -, hverified⟩ := sign1VerifyEx_ok h
    obtain ⟨rfl, -⟩ := hverified.returned
    exact ⟨key, input, msg, hkey, hinput, (decodeSign1_eq_ok hf).mpr hverified.encoding, hverified.verified⟩
  · intro args index out out' h
    obtain ⟨key, input, msg, hkey, hinput, hdec, -, hverified⟩ := signVerify_ok h
    exact ⟨key, input, msg, hkey, hinput, hdec, hverified⟩
  · intro args out out' h
    obtain ⟨key, input, hdr, payload, msg, hkey, hinput, -, hverified⟩ := mac0VerifyEx_ok hdoc h
    obtain ⟨rfl, -⟩ := hverified.returned
    obtain ⟨symmKey, hsymm, -, hmac⟩ := hverified.authentic
    exact ⟨key, input, msg, hkey, hinput, (decodeMac0_eq_ok hf).mpr hverified.encoding, symmKey, hsymm, hmac⟩
  · intro args out out' h
    obtain ⟨recipient, key, input, hdr, payload, msg, hrecipient, hinput, -, hverified⟩ := macVerify_ok hdoc h
    obtain ⟨rfl, -⟩ := hverified.returned
    obtain ⟨symmKey, hsymm, -, hmac⟩ := hverified.authentic
    exact ⟨recipient, key, input, msg, hrecipient, hverified.key_eq, hinput, hverified.encoding, symmKey, hsymm, hmac⟩
  · intro key args out out' h
    obtain ⟨key', input, plaintext, hdr, payload, msg, hkey, hinput, -, -, hopened⟩ := encrypt0Decrypt_ok h
    obtain rfl := hopened.returned
    exact ⟨key', input, msg, payload, hkey, hinput, decodeEncrypt0_eq_ok.mpr hopened.encoding, hopened.opened⟩
  · intro recipient index args out env out' h
    obtain ⟨r, input, scratch, plaintext, hdr, payload, msg, hr, hinput, -, -, -, hopened⟩ := encryptDecrypt_ok h
    obtain rfl := hopened.returned
    obtain ⟨keyLen, tagLen, cek, cipher, _, _, -, -, -, -, -, hdec⟩ := hopened.opened
    exact ⟨r, input, msg, payload, cipher, tagLen, hr, hinput, hopened.decoded, hdec⟩

end

section Instances

/-- The HMACs with a key of the MAC_structures with an empty protected bucket, and with one that holds an empty map. -/
def emptyBucketTable : List ((HashType × Bytes × Bytes) × Bytes) :=
  [((.sha256, hmac256Key, [0x84, 0x64] ++ ctxMac0 ++ [0x40, 0x40, 0x43, 0x01, 0x02, 0x03]),
      [0x69, 0xB8, 0x4A, 0x2C, 0xDC, 0x8C, 0xD2, 0xF8, 0x5D, 0xBE, 0xD9, 0xF8, 0x2F, 0xFE, 0xBB, 0x66, 0xA4, 0x6D,
        0x2B, 0x73, 0xD3, 0x4C, 0x75, 0x0C, 0xD5, 0x49, 0x39, 0x2B, 0x42, 0x62, 0x1E, 0x03]),
    ((.sha256, hmac256Key, [0x84, 0x64] ++ ctxMac0 ++ [0x41, 0xA0, 0x40, 0x43, 0x01, 0x02, 0x03]),
      [0xE2, 0x3D, 0xC1, 0xAA, 0xC0, 0xE3, 0x67, 0x78, 0x12, 0x36, 0x92, 0x5E, 0x2B, 0x55, 0x41, 0x57, 0x6E, 0x25,
        0xB3, 0x7C, 0x46, 0x63, 0xD6, 0x10, 0xF4, 0x7A, 0x35, 0xDC, 0x98, 0x99, 0xB1, 0xE0])]

/-- The primitives as far as these HMACs go. -/
@[reducible]
def emptyBucketCrypt : MacCrypt := hmacTableCrypt emptyBucketTable

attribute [local instance] defaultSettings defaultMacSettings defaultAeadSettings defaultRecipientSettings p256Crypt
  emptyBucketCrypt

theorem documentedHmac_emptyBucketCrypt :
  DocumentedHmac
  := by
  apply documentedHmac_hmacTableCrypt
  decide

/-- A message with HMAC in the unprotected bucket, and a protected bucket that is encoded in a given way; the tag is that
for the empty byte string. -/
def emptyBucketMessage (bucket : Bytes) : Bytes :=
  [0xD1, 0x84] ++ bucket ++ [0xA1, 0x01, 0x05, 0x43, 0x01, 0x02, 0x03, 0x58, 0x20] ++
    [0x69, 0xB8, 0x4A, 0x2C, 0xDC, 0x8C, 0xD2, 0xF8, 0x5D, 0xBE, 0xD9, 0xF8, 0x2F, 0xFE, 0xBB, 0x66, 0xA4, 0x6D,
      0x2B, 0x73, 0xD3, 0x4C, 0x75, 0x0C, 0xD5, 0x49, 0x39, 0x2B, 0x42, 0x62, 0x1E, 0x03]

/-- A key that is restricted to the algorithm. -/
def emptyBucketKey : Key := { hmacKey with alg := algHmac256 }

/-- The arguments that verify such a message with the key. -/
def emptyBucketArgs (bucket : Bytes) : VerifyArgs where
  key := some emptyBucketKey
  input := some (.ofBytes (emptyBucketMessage bucket))
  detached := .null 0
  extAad := .null 0
  scratch := some (.ofBytes (List.replicate 64 0))

/-- What verifying such a message does. -/
def emptyBucketResult (bucket : Bytes) : Checked Unit × VerifyOut :=
  mac0Verify (emptyBucketArgs bucket) ⟨some .zero, some none, some 0⟩

/-- Both encodings of the bucket are decoded to the same header, but only one message is verified. -/
theorem empty_bucket_verdicts_differ :
  (∀ bucket ∈ [[0x40], [0x41, 0xA0]],
    (decodeBuffer (decodeMac0 (.null 0) 0) (.ofBytes (emptyBucketMessage bucket))).toOption.map Mac0Message.hdr
      = some { Hdr.zero with alg := algHmac256 })
  ∧ (emptyBucketResult [0x40]).1 = .ok ()
  ∧ (emptyBucketResult [0x41, 0xA0]).1 = .error (.err .macFail)
  := by
  decide +kernel

/-- Other primitives are not called. -/
@[reducible]
def noAeadCrypt : AeadCrypt := RecordedCalls.aeadCrypt ⟨[], [], [], []⟩

/-- Other primitives are not called. -/
@[reducible]
def noRecipientCrypt : RecipientCrypt := RecordedCalls.recipientCrypt ⟨[], [], [], []⟩

attribute [local instance] noAeadCrypt noRecipientCrypt

theorem empty_bucket_authenticated_instance :
  ∃ key input msg, (emptyBucketArgs [0x40]).key = some key ∧ (emptyBucketArgs [0x40]).input = some input
    ∧ decodeBuffer (decodeMac0 (.null 0) 0) input = .ok msg
    ∧ ∃ symmKey, key.symmKey = .ok symmKey ∧ MacOf symmKey msg.hdr.alg (AuthStructure.content ctxMac0
      msg.headers.protectedData none [] (verifyPayload (.null 0) msg.payload).bytes none).bytes msg.tag
  := by
  obtain ⟨-, -, -, -, hmac0, -⟩ := empty_bucket_authenticated documentedHmac_emptyBucketCrypt
  have h : (emptyBucketResult [0x40]).1 = .ok () := by decide +kernel
  exact hmac0 (emptyBucketArgs [0x40]) _ (emptyBucketResult [0x40]).2 (Prod.ext h rfl)

end Instances

end WolfCose
