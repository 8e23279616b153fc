import WolfCose.Encrypt.Compared
import WolfCose.Encrypt.Opened
import WolfCose.Mac.Selected
import WolfCose.Recipient.Walk

/-!
# Skipping what is accepted when selected

`wolfCose_DecodeSkippedRecipient` validates one tree of recipients.  A recipient that `wc_CoseMac_Verify` accepts
when it is selected is skipped as well, with the same algorithm.  One that `wc_CoseEncrypt_Decrypt` accepts is
skipped unless its ephemeral key is nested too deeply: the key is skipped as a whole there, which is a level more than
its values.
-/

namespace WolfCose

open Program Cbor Settings

section

variable [Settings]

/-- Wherever the recipient stands, it is skipped exactly if the condition holds, and then as one with the
algorithm. -/
def SkippedExactlyIf (alg : Int) (bs : Bytes) (condition : Prop) : Prop :=
  ∀ ctx ctx', ctx.Consumes bs ctx' → (Runs decodeSkippedRecipient ctx alg ctx' ↔ condition)

/-- What stands at the cursor is skipped exactly if it is a tree of recipients. -/
theorem runs_decodeSkippedRecipient_iff {alg : Int} {bs : Bytes} {ctx ctx' : DecCtx} (hc : ctx.Consumes bs ctx') :
  Runs decodeSkippedRecipient ctx alg ctx' ↔ RecipientTree maxDepth alg bs
  := by
  rw [reads_decodeSkippedRecipient ctx alg ctx']
  constructor
  · rintro ⟨bs', h, hc'⟩
    obtain rfl := hc.bytes_unique hc'
    exact h
  · intro h
    exact ⟨bs, h, hc⟩

/-- The selected recipient of a message is within the limit for byte strings. -/
theorem length_selected_le {a b c d e selected after : Bytes} {input : Buffer}
    (h : input.bytes = a ++ (b ++ (c ++ (d ++ (e ++ (selected ++ after)))))) :
  selected.length ≤ sizeMax
  := by
  have hle := input.length_le
  rw [h] at hle
  simp only [List.length_append] at hle
  omega

variable [RecipientSettings] [AeadSettings] [MacSettings] [WolfCrypt] [AeadCrypt] [RecipientCrypt] [MacCrypt]

omit [MacSettings] [MacCrypt] in
/-- The recipient with which a COSE_Encrypt message is decrypted is skipped exactly if its ephemeral key is not nested
too deeply. -/
theorem encryptDecrypt_skipped {recipient : Option Recipient} {index : Nat} {args : DecryptArgs} {out out' : DecryptOut}
    {env : WolfCrypt.Env} (h : encryptDecrypt recipient index args out env = (.ok (), out')) :
  ∃ r input msg start headers ciphertext head before after selected, recipient = some r ∧ args.input = some input
    ∧ EncryptEncoding r index args.detachedCt input.bytes msg start headers ciphertext head before after selected
    ∧ SkippedExactlyIf msg.recipient.alg selected (EphemeralNested maxDepth selected)
  := by
  obtain ⟨r, input, _, _, _, _, msg, hr, hinput, -, -, -, hopened⟩ := encryptDecrypt_ok h
  obtain ⟨start, headers, ciphertext, head, before, after, selected, henc⟩ := decodeEncrypt_eq_ok.mp hopened.decoded
  refine ⟨r, input, msg, start, headers, ciphertext, head, before, after, selected, hr, hinput, henc, ?_⟩
  intro ctx ctx' hc
  rw [runs_decodeSkippedRecipient_iff hc]
  exact henc.selectedValue.skipped_iff (length_selected_le henc.input_eq)

omit [RecipientSettings] [AeadSettings] [AeadCrypt] [RecipientCrypt] in
/-- The recipient with which a COSE_Mac message is verified is skipped. -/
theorem macVerify_skipped {args : MacVerifyArgs} {out out' : VerifyOut} (h : macVerify args out = (.ok (), out')) :
  ∃ recipient input msg start headers payload tag head before after selected, args.recipient = some recipient
    ∧ args.input = some input
    ∧ MacParts args.recipientIndex args.detached input.bytes msg start headers payload tag head before after selected
    ∧ SkippedExactlyIf msg.recipientAlg selected True
  := by
  obtain ⟨recipient, input, msg, hr, hinput, hdec, halg⟩ := macVerify_decoded h
  obtain ⟨start, headers, payload, tag, head, before, after, selected, hparts⟩ := decodeMac_eq_ok.mp hdec
  refine ⟨recipient, input, msg, start, headers, payload, tag, head, before, after, selected, hr, hinput, hparts, ?_⟩
  intro ctx ctx' hc
  rw [runs_decodeSkippedRecipient_iff hc, iff_true]
  have hlen : selected.length ≤ sizeMax := by
    have hle := input.length_le
    rw [hparts.input_eq] at hle
    simp only [List.length_append] at hle
    omega
  apply hparts.selectedValue.skipped hlen
  rw [halg]
  decide

/-- Skipping a recipient ends on every input, stays within the array of open levels, and accepts one tree of
recipients with the algorithm of its root; and what a function accepts as the selected recipient is skipped with the
same algorithm, in COSE_Encrypt exactly if its ephemeral key is not nested too deeply. -/
theorem recipient_skipping :
  WellFounded (fun c' c => RecipientTurn c c')
  ∧ (∀ ctx c, Relation.ReflTransGen RecipientTurn (.start ctx) c → c.Fits)
  ∧ (∀ ctx fuel, ctx.bufSz < fuel → decodeSkippedRecipient ctx = skippedRecipientLoop fuel ⟨1, [], none⟩ ctx)
  ∧ (∀ ctx alg ctx', Runs decodeSkippedRecipient ctx alg ctx' →
      (∃ bs, ctx.Consumes bs ctx' ∧ CoseRecipientTree maxDepth alg bs)
      ∧ ∃ alg', alg = alg'.getD algUnset
        ∧ Relation.ReflTransGen RecipientTurn (.start ctx) ⟨⟨0, [], alg'⟩, ctx'⟩)
  ∧ (∀ recipient index args out env out', encryptDecrypt recipient index args out env = (.ok (), out') →
      ∃ r input msg start headers ciphertext head before after selected, recipient = some r ∧ args.input = some input
        ∧ EncryptEncoding r index args.detachedCt input.bytes msg start headers ciphertext head before after selected
        ∧ SkippedExactlyIf msg.recipient.alg selected (EphemeralNested maxDepth selected))
  ∧ (∀ args out out', macVerify args out = (.ok (), out') →
      ∃ recipient input msg start headers payload tag head before after selected, args.recipient = some recipient
        ∧ args.input = some input
        ∧ MacParts args.recipientIndex args.detached input.bytes msg start headers payload tag head before after
          selected
        ∧ SkippedExactlyIf msg.recipientAlg selected True)
  := by
  have hfuel (ctx : DecCtx) : ctx.rest.length < ctx.bufSz + 1 := Nat.lt_succ_of_le ctx.length_rest_le
  refine ⟨RecipientTurn.wellFounded, ?_, ?_, ?_, ?_, ?_⟩
  · intro ctx c h
    apply RecipientTurn.fits_of_reaches h
  · intro ctx fuel h
    have hloop : decodeSkippedRecipient ctx = skippedRecipientLoop (ctx.bufSz + 1) ⟨1, [], none⟩ ctx := rfl
    have hrest := hfuel ctx
    rw [hloop]
    apply skippedRecipientLoop_congr hrest
    omega
  · intro ctx alg ctx' h
    constructor
    · obtain ⟨bs, htree, hc⟩ := (reads_decodeSkippedRecipient ctx alg ctx').mp h
      exact ⟨bs, hc, htree.cose⟩
    · apply RecipientTurn.reaches_of_runs (fun h => absurd h Nat.one_ne_zero) h
  · intro recipient index args out env out' h
    apply encryptDecrypt_skipped h
  · intro args out out' h
    apply macVerify_skipped h

end

section Instances

attribute [local instance] defaultSettings defaultAeadSettings defaultRecipientSettings p256Crypt

/-- The first coordinate of the ephemeral key. -/
def agreementX : Bytes :=
  [0x9A, 0x78, 0x1C, 0xA6, 0xD0, 0x55, 0xA7, 0xF3, 0x0D, 0x0C, 0x9F, 0xF8, 0x79, 0x36, 0xC7, 0x39, 0xF6, 0x81,
   0x6E, 0xF5, 0xF5, 0xE7, 0x2B, 0x4B, 0x94, 0x64, 0x04, 0xB0, 0xA1, 0xA8, 0x3B, 0x2A]

/-- The second coordinate of the ephemeral key. -/
def agreementY : Bytes :=
  [0xC1, 0x9F, 0x84, 0x29, 0x45, 0xEA, 0x2B, 0xF6, 0x5A, 0xA1, 0x64, 0x9B, 0x2B, 0x02, 0xFF, 0x79, 0x85, 0x4C,
   0x8D, 0x5E, 0xCF, 0xCD, 0x40, 0x38, 0x62, 0xE8, 0xA9, 0x7E, 0xA6, 0x6C, 0x71, 0xC1]

/-- The shared secret. -/
def agreementSecret : Bytes :=
  [0xD1, 0x95, 0x3A, 0xDE, 0x49, 0xE1, 0x43, 0x4A, 0xB6, 0x97, 0x1C, 0x74, 0xB6, 0x86, 0xA1, 0xA6, 0x0B, 0x66,
   0xFB, 0xBB, 0xE4, 0x70, 0x19, 0x1C, 0xEE, 0xE3, 0xB2, 0x54, 0x21, 0x61, 0x4B, 0x35]

/-- The key of the message. -/
def agreementCek : Bytes :=
  [0x56, 0x08, 0xC9, 0x74, 0x23, 0x0E, 0x64, 0x11, 0x4E, 0x3D, 0x1D, 0xFD, 0x9E, 0x6C, 0xDF, 0xF1]

/-- The ciphertext of three bytes, with its tag. -/
def agreementCiphertext : Bytes :=
  [0x8F, 0xBC, 0x8E, 0x8C, 0x1E, 0x39, 0x5A, 0xE8, 0xF9, 0xA7, 0x15, 0xD3, 0x67, 0x0D, 0x4C, 0x2F, 0xFA, 0x2F,
   0x04]

/-- The context of the key derivation, for AES-GCM and the protected bucket of the recipient. -/
def agreementContext : Bytes :=
  [0x84, 0x01, 0x83, 0xF6, 0xF6, 0xF6, 0x83, 0xF6, 0xF6, 0xF6, 0x82, 0x18, 0x80, 0x44, 0xA1, 0x01, 0x38, 0x18]

/-- The calls that decrypt the message. -/
def agreementCalls : RecordedCalls where
  aesGcm := [((agreementCek, (List.range 12).map UInt8.ofNat,
    [0x83, 0x67] ++ ctxEncrypt ++ [0x43, 0xA1, 0x01, 0x01, 0x40], agreementCiphertext), [0x01, 0x02, 0x03])]
  unwrap := []
  ecdh := [((p256Private, agreementX ++ agreementY), agreementSecret)]
  kdf := [((agreementSecret, agreementContext), agreementCek)]

/-- A recipient for ECDH-ES, whose ephemeral key has an entry that is nested as deep as a value may be. -/
def nestedRecipient : Bytes :=
  [0x83, 0x44, 0xA1, 0x01, 0x38, 0x18, 0xA1, 0x20, 0xA5, 0x01, 0x02, 0x20, 0x01, 0x21, 0x58, 0x20] ++ agreementX
    ++ [0x22, 0x58, 0x20] ++ agreementY ++ [0x18, 0x63, 0x81, 0x81, 0x81, 0x81, 0x81, 0x81, 0x81, 0x81, 0x00, 0x40]

/-- A message for this recipient. -/
def nestedMessage : Bytes :=
  [0xD8, 0x60, 0x84, 0x43, 0xA1, 0x01, 0x01, 0xA1, 0x05, 0x4C] ++ (List.range 12).map UInt8.ofNat ++ [0x53]
    ++ agreementCiphertext ++ [0x81] ++ nestedRecipient

/-- The key of the recipient. -/
def agreementKey : Key := .ofP256 p256Private true

/-- The arguments that decrypt the message. -/
def nestedArgs : DecryptArgs where
  input := some (.ofBytes nestedMessage)
  detachedCt := .null 0
  extAad := .null 0
  scratch := some (.ofBytes (List.replicate 128 0))

/-- The primitives as far as the calls go. -/
@[reducible]
def agreementAeadCrypt : AeadCrypt := agreementCalls.aeadCrypt

/-- The ways to distribute a key as far as the calls go. -/
@[reducible]
def agreementRecipientCrypt : RecipientCrypt := agreementCalls.recipientCrypt

attribute [local instance] agreementAeadCrypt agreementRecipientCrypt

/-- What decrypting the message does. -/
def nestedResult : Checked Unit × DecryptOut :=
  encryptDecrypt (some ⟨algEcdhEsHkdf256, some agreementKey, .null 0⟩) 0 nestedArgs
    ⟨some .zero, some [0, 0, 0], some 0⟩ ()

/-- The message is decrypted, but its recipient is not skipped. -/
theorem nested_recipient_not_skipped :
  nestedResult.1 = .ok () ∧ nestedResult.2.plaintext = some [0x01, 0x02, 0x03]
  ∧ (∃ before, nestedMessage = before ++ nestedRecipient)
  ∧ ∀ alg ctx', ¬ Runs decodeSkippedRecipient (.init (.ofBytes nestedRecipient)) alg ctx'
  := by
  refine ⟨by decide +kernel, by decide +kernel, ⟨_, rfl⟩, ?_⟩
  intro alg ctx' h
  cases h

end Instances

end WolfCose
