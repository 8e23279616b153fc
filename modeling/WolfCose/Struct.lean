import WolfCose.Codec.Encode

/-!
# Structures to be authenticated

The builders of `wolfcose_struct.c` for the Sig_structure, the MAC_structure and the
Enc_structure.  Their inputs are encoded one after another as a flat array; `AuthStructure`
is what such an array says, and its encoding is injective.
-/

namespace WolfCose

open Program Cbor Settings

/-! ### Context strings -/

/-- `WOLFCOSE_CTX_SIGNATURE1`: the text "Signature1". -/
def ctxSignature1 : Bytes :=
  [0x53, 0x69, 0x67, 0x6E, 0x61, 0x74, 0x75, 0x72, 0x65, 0x31]

/-- `WOLFCOSE_CTX_SIGNATURE`: the text "Signature". -/
def ctxSignature : Bytes :=
  [0x53, 0x69, 0x67, 0x6E, 0x61, 0x74, 0x75, 0x72, 0x65]

/-- `WOLFCOSE_CTX_MAC0`: the text "MAC0". -/
def ctxMac0 : Bytes := [0x4D, 0x41, 0x43, 0x30]

/-- `WOLFCOSE_CTX_MAC`: the text "MAC". -/
def ctxMac : Bytes := [0x4D, 0x41, 0x43]

/-- `WOLFCOSE_CTX_ENCRYPT0`: the text "Encrypt0". -/
def ctxEncrypt0 : Bytes := [0x45, 0x6E, 0x63, 0x72, 0x79, 0x70, 0x74, 0x30]

/-- `WOLFCOSE_CTX_ENCRYPT`: the text "Encrypt". -/
def ctxEncrypt : Bytes := [0x45, 0x6E, 0x63, 0x72, 0x79, 0x70, 0x74]

/-- The context strings are texts. -/
theorem isUtf8_ctx {context : Bytes}
    (h : context ∈ [ctxSignature1, ctxSignature, ctxMac0, ctxMac, ctxEncrypt0, ctxEncrypt]) :
  isUtf8 context = true
  := by
  revert context
  decide

/-! ### Builders -/

section Builders

variable [Settings]

/-- The encoding steps of `wolfCose_BuildToBeSignedMaced`. -/
def encodeToBeSignedMaced (context bodyProtected signProtected extAad payload : Pointer) :
    Enc Unit := do
  encodeArrayStart (if signProtected.isNull = false then 5 else 4)
  encodeTstr context
  encodeBstr bodyProtected
  onlyIf (signProtected.isNull = false) (encodeBstr signProtected)
  encodeBstr extAad
  encodeBstr payload

/-- `wolfCose_BuildToBeSignedMaced`; the result is what it leaves in the scratch buffer, up
to the length it reports. -/
def buildToBeSignedMaced (context bodyProtected signProtected extAad payload : Pointer)
    (scratch : Option Buffer) : Except Err Bytes :=
  match scratch with
  | none => .error .invalidArg
  | some scratch =>
      if context.isNull then .error .invalidArg
      else encodeInto (encodeToBeSignedMaced context bodyProtected signProtected extAad payload) scratch

/-- `wolfCose_BuildSigStructure` -/
def buildSigStructure (protectedHdr extAad payload : Pointer) (scratch : Option Buffer) :
    Except Err Bytes :=
  buildToBeSignedMaced (.mem ctxSignature1) protectedHdr (.null 0) extAad payload scratch

/-- The encoding steps of `wolfCose_BuildEncStructure`. -/
def encodeEncStructure (context bodyProtected extAad : Pointer) : Enc Unit := do
  encodeArrayStart 3
  encodeTstr context
  encodeBstr bodyProtected
  encodeBstr extAad

/-- `wolfCose_BuildEncStructure`; the result is what it leaves in the scratch buffer, up to
the length it reports. -/
def buildEncStructure (context bodyProtected extAad : Pointer) (scratch : Option Buffer) :
    Except Err Bytes :=
  match scratch with
  | none => .error .invalidArg
  | some scratch =>
      if context.isNull then .error .invalidArg
      else encodeInto (encodeEncStructure context bodyProtected extAad) scratch

end Builders

/-! ### What the structures say -/

/-- The content of a structure to be authenticated: the data of a signature or a MAC, or
the additional data of an authenticated encryption. -/
inductive AuthStructure where
  | content (context bodyProtected : Bytes) (signProtected : Option Bytes)
      (extAad payload : Bytes) (otherFields : Option (Nat × Bytes))
  | aead (context bodyProtected extAad : Bytes)
  deriving DecidableEq

namespace AuthStructure

/-- The encoding of an optional byte string. -/
def optionalString (s : Option Bytes) : List Token :=
  (s.map (Token.ofString .bstr)).toList

/-- The encoding of the optional array of other fields. -/
def optionalFields : Option (Nat × Bytes) → List Token
  | none => []
  | some (count, other) => [.ofHead .array count, .ofString .bstr other]

/-- The tokens that encode a structure. -/
def tokens : AuthStructure → List Token
  | content context bodyProtected signProtected extAad payload otherFields =>
      [.ofHead .array (4 + signProtected.isSome.toNat + otherFields.isSome.toNat),
        .ofString .tstr context, .ofString .bstr bodyProtected] ++
        (optionalString signProtected ++
          ([.ofString .bstr extAad, .ofString .bstr payload] ++ optionalFields otherFields))
  | aead context bodyProtected extAad =>
      [.ofHead .array 3, .ofString .tstr context, .ofString .bstr bodyProtected,
        .ofString .bstr extAad]

/-- The encoding of a structure. -/
def bytes (s : AuthStructure) : Bytes :=
  s.tokens.flatMap Token.bytes

/-- A structure whose tokens start those of another one is that structure. -/
theorem eq_of_tokens_prefix {s s' : AuthStructure} (h : s.tokens <+: s'.tokens) :
  s = s'
  := by
  have array (n m : Nat) : Token.ofHead .array n = Token.ofHead .array m ↔ n = m := by
    simp only [Token.ofHead, Token.mk.injEq]
    constructor
    · exact fun e => e.2.2.1
    · rintro rfl
      simp
  have string (t : MajorType) (b b' : Bytes) :
      Token.ofString t b = Token.ofString t b' ↔ b = b' := by
    simp only [Token.ofString, Token.mk.injEq]
    constructor
    · exact fun e => e.2.2.2
    · rintro rfl
      simp
  have arrayString (n : Nat) (b : Bytes) : Token.ofString .bstr b ≠ Token.ofHead .array n :=
    fun e => by cases congrArg Token.major e
  cases s with
  | content c b sp a p o =>
      cases s' with
      | content c' b' sp' a' p' o' =>
          -- the array size tells the signer and other fields apart, except when just one of
          -- the two is present; then the last field is a string or an array
          rcases sp with _ | sp <;> rcases sp' with _ | sp' <;> rcases o with _ | ⟨n, o⟩ <;>
            rcases o' with _ | ⟨n', o'⟩ <;>
            simp_all [tokens, optionalString, optionalFields, List.cons_prefix_cons]
      | aead =>
          simp only [tokens, List.cons_append, List.cons_prefix_cons, array] at h
          omega
  | aead c b a =>
      cases s' with
      | content =>
          simp only [tokens, List.cons_append, List.cons_prefix_cons, array] at h
          omega
      | aead => simp_all [tokens, List.cons_prefix_cons]

/-- The strings and counts of a structure have 64 bits, as those of a structure in memory
have. -/
def WellFormed (s : AuthStructure) : Prop :=
  ∀ t ∈ s.tokens, t.WellFormed

/-- No encoding of a structure is the start of the encoding of another one. -/
theorem prefix_bytes_eq {s s' : AuthStructure} (h : s.WellFormed) (h' : s'.WellFormed)
    (e : s.bytes <+: s'.bytes) :
  s = s'
  := eq_of_tokens_prefix (Token.prefix_of_flatMap_bytes h h' e)

/-- The number of other fields of a structure. -/
def otherCount : AuthStructure → Nat
  | content _ _ _ _ _ (some (count, _)) => count
  | _ => 0

/-- The encoding of a structure consists of strings and array heads. -/
theorem mem_tokens {s : AuthStructure} {t : Token} (h : t ∈ s.tokens) :
  (∃ m b, m.isString = true ∧ t = Token.ofString m b)
    ∨ ∃ n, (n ≤ 6 ∨ n = s.otherCount) ∧ t = Token.ofHead .array n
  := by
  have strings : ∀ o : Option Bytes, t ∈ optionalString o → ∃ b, t = Token.ofString .bstr b := by
    rintro (_ | b) ht
    · cases ht
    · exact ⟨b, List.mem_singleton.mp ht⟩
  cases s with
  | content c b sp a p o =>
      simp only [tokens, List.mem_append, List.mem_cons, List.not_mem_nil, or_false] at h
      rcases h with (rfl | rfl | rfl) | h | (rfl | rfl) | h
      · have h₁ := sp.isSome.toNat_le
        have h₂ := o.isSome.toNat_le
        exact .inr ⟨_, .inl (by omega), rfl⟩
      · exact .inl ⟨_, _, rfl, rfl⟩
      · exact .inl ⟨_, _, rfl, rfl⟩
      · obtain ⟨b, rfl⟩ := strings sp h
        exact .inl ⟨_, _, rfl, rfl⟩
      · exact .inl ⟨_, _, rfl, rfl⟩
      · exact .inl ⟨_, _, rfl, rfl⟩
      · rcases o with _ | ⟨n, o⟩
        · cases h
        · simp only [optionalFields, List.mem_cons, List.not_mem_nil, or_false] at h
          rcases h with rfl | rfl
          · exact .inr ⟨n, .inr rfl, rfl⟩
          · exact .inl ⟨_, _, rfl, rfl⟩
  | aead c b a =>
      simp only [tokens, List.mem_cons, List.not_mem_nil, or_false] at h
      rcases h with rfl | rfl | rfl | rfl
      · exact .inr ⟨3, .inl (by decide), rfl⟩
      all_goals exact .inl ⟨_, _, rfl, rfl⟩

/-- A structure whose encoding fits into memory is well formed. -/
theorem wellFormed_of_length {s : AuthStructure} (hl : s.bytes.length < 2 ^ 64)
    (hc : s.otherCount < 2 ^ 64) :
  s.WellFormed
  := by
  intro t ht
  rcases mem_tokens ht with ⟨m, b, hm, rfl⟩ | ⟨n, hn, rfl⟩
  · apply Token.wellFormed_ofString hm
    have hle : (Token.ofString m b).bytes.length ≤ s.bytes.length := by
      rw [bytes, List.flatMap_def]
      exact (List.sublist_flatten_of_mem (List.mem_map_of_mem ht)).length_le
    rw [Token.length_bytes] at hle
    simp only [Token.ofString] at hle
    omega
  · apply Token.wellFormed_ofHead rfl
    omega

theorem bytes_ne_nil (s : AuthStructure) :
  s.bytes ≠ []
  := by
  cases s <;> simp [bytes, tokens, preferredHead_ne_nil]

end AuthStructure

section Builders

variable [Settings]

/-- The structure that `wolfCose_BuildToBeSignedMaced` encodes. -/
def toBeSignedMaced (context bodyProtected signProtected extAad payload : Pointer) :
    AuthStructure :=
  .content context.bytes bodyProtected.bytes
    (if signProtected.isNull = false then some signProtected.bytes else none)
    extAad.bytes payload.bytes none

theorem emitsIf_encodeToBeSignedMaced
    (context bodyProtected signProtected extAad payload : Pointer) :
  EmitsIf ((context.Valid ∧ isUtf8 context.bytes = true) ∧ bodyProtected.Valid ∧ extAad.Valid
      ∧ payload.Valid)
    (encodeToBeSignedMaced context bodyProtected signProtected extAad payload)
    (toBeSignedMaced context bodyProtected signProtected extAad payload).bytes
  := by
  refine (EmitsIf.bindEmits (emits_encodeHead _ _) <| (emitsIf_encodeTstr _).bind <|
    (emitsIf_encodeBstr _).bind <| EmitsIf.bindEmits (Emits.onlyIf emits_encodeBstr) <|
    (emitsIf_encodeBstr _).bind (emitsIf_encodeBstr _)).congr Iff.rfl ?_
  unfold toBeSignedMaced AuthStructure.bytes
  by_cases h : signProtected.isNull = false <;>
    simp [h, AuthStructure.tokens, AuthStructure.optionalString, AuthStructure.optionalFields]

theorem buildToBeSignedMaced_eq_ok {context bodyProtected signProtected extAad payload : Pointer}
    {scratch : Option Buffer} {bs : Bytes} :
  buildToBeSignedMaced context bodyProtected signProtected extAad payload scratch = .ok bs
    ↔ context.isNull = false ∧ isUtf8 context.bytes = true ∧ bodyProtected.Valid ∧ extAad.Valid
      ∧ payload.Valid ∧ (∃ buf, scratch = some buf ∧ bs.length ≤ buf.bytes.length)
      ∧ bs = (toBeSignedMaced context bodyProtected signProtected extAad payload).bytes
  := by
  unfold buildToBeSignedMaced
  cases scratch with
  | none => simp
  | some buf =>
      cases hn : context.isNull with
      | true => simp
      | false =>
          have hv : context.Valid := fun h => absurd (hn.symm.trans h) Bool.false_ne_true
          simp only [Bool.false_eq_true, if_false, Option.some.injEq, exists_eq_left', true_and,
            EmitsIf.encodeInto_iff (emitsIf_encodeToBeSignedMaced _ _ _ _ _)
              (AuthStructure.bytes_ne_nil _)]
          constructor
          · rintro ⟨⟨⟨-, hu⟩, hb, ha, hp⟩, hl, rfl⟩
            exact ⟨hu, hb, ha, hp, hl, rfl⟩
          · rintro ⟨hu, hb, ha, hp, hl, rfl⟩
            exact ⟨⟨⟨hv, hu⟩, hb, ha, hp⟩, hl, rfl⟩

/-- The structure that `wolfCose_BuildEncStructure` encodes. -/
def encStructure (context bodyProtected extAad : Pointer) : AuthStructure :=
  .aead context.bytes bodyProtected.bytes extAad.bytes

theorem emitsIf_encodeEncStructure (context bodyProtected extAad : Pointer) :
  EmitsIf ((context.Valid ∧ isUtf8 context.bytes = true) ∧ bodyProtected.Valid ∧ extAad.Valid)
    (encodeEncStructure context bodyProtected extAad)
    (encStructure context bodyProtected extAad).bytes
  := by
  refine (EmitsIf.bindEmits (emits_encodeHead _ _) <| (emitsIf_encodeTstr _).bind <|
    (emitsIf_encodeBstr _).bind (emitsIf_encodeBstr _)).congr Iff.rfl ?_
  simp [encStructure, AuthStructure.bytes, AuthStructure.tokens]

theorem buildEncStructure_eq_ok {context bodyProtected extAad : Pointer}
    {scratch : Option Buffer} {bs : Bytes} :
  buildEncStructure context bodyProtected extAad scratch = .ok bs
    ↔ context.isNull = false ∧ isUtf8 context.bytes = true ∧ bodyProtected.Valid ∧ extAad.Valid
      ∧ (∃ buf, scratch = some buf ∧ bs.length ≤ buf.bytes.length)
      ∧ bs = (encStructure context bodyProtected extAad).bytes
  := by
  unfold buildEncStructure
  cases scratch with
  | none => simp
  | some buf =>
      cases hn : context.isNull with
      | true => simp
      | false =>
          have hv : context.Valid := fun h => absurd (hn.symm.trans h) Bool.false_ne_true
          simp only [Bool.false_eq_true, if_false, Option.some.injEq, exists_eq_left', true_and,
            EmitsIf.encodeInto_iff (emitsIf_encodeEncStructure _ _ _) (AuthStructure.bytes_ne_nil _)]
          constructor
          · rintro ⟨⟨⟨-, hu⟩, hb, ha⟩, hl, rfl⟩
            exact ⟨hu, hb, ha, hl, rfl⟩
          · rintro ⟨hu, hb, ha, hl, rfl⟩
            exact ⟨⟨⟨hv, hu⟩, hb, ha⟩, hl, rfl⟩

end Builders

end WolfCose
