import WolfCose.Key.Encode

/-!
# The components of a key

The components of a key that are encoded are a value of their own, the material of the key.  The
encoded key is the map of the entries that are common to all keys and those of the material.  The
library function succeeds on a key exactly when wolfCrypt exports its components and the map fits
into the buffer, if the exports behave as they are documented.
-/

namespace WolfCose

open Program Cbor Settings KeySettings WolfCrypt RecipientCrypt KeyCrypt

/-! ### Entries -/

/-- The value of an entry of a key.  The head of a string is reserved when the string is exported
straight into the output. -/
inductive KeyValue where
  | int (v : Int)
  | bytes (bs : Bytes)
  | reserved (bs : Bytes)
  deriving DecidableEq, Repr

/-- The width of a head that is reserved for a string. -/
def reservedWidth (len : Nat) : Width := if len < 256 then .one else .two

/-- A string with the head that `wolfCose_FinalizeRsaBstr` writes. -/
def reservedBstr (bs : Bytes) : Bytes := headBytes (reservedWidth bs.length) .bstr bs.length ++ bs

/-- The bytes of a value. -/
def KeyValue.encoded : KeyValue → Bytes
  | int v => intHead v
  | bytes bs => stringBytes .bstr bs
  | reserved bs => reservedBstr bs

/-- The bytes of an entry. -/
def keyEntry (entry : Int × KeyValue) : Bytes := intHead entry.1 ++ entry.2.encoded

/-- The bytes of a map. -/
def keyMap (entries : List (Int × KeyValue)) : Bytes :=
  preferredHead .map entries.length ++ entries.flatMap keyEntry

/-! ### Material -/

/-- The private components of an RSA key. -/
structure RsaPrivate where
  d : Bytes
  p : Bytes
  q : Bytes
  dP : Bytes
  dQ : Bytes
  qInv : Bytes
  deriving DecidableEq, Repr

/-- The components of a key, by its family. -/
inductive Material where
  | ec2 (crv : Int) (x y : Bytes) (d : Option Bytes)
  | rsa (n e : Bytes) (priv : Option RsaPrivate)
  | akp (pub : Bytes) (seed : Option Bytes)
  | lms (pub : Bytes)
  | okp (crv : Int) (x : Bytes) (d : Option Bytes)
  | symmetric (k : Bytes)
  deriving DecidableEq, Repr

/-- The entries of the private components of an RSA key. -/
def RsaPrivate.entries (priv : RsaPrivate) : List (Int × KeyValue) :=
  [(keyLabelY, .reserved priv.d), (keyLabelRsaP, .bytes priv.p), (keyLabelRsaQ, .bytes priv.q),
    (keyLabelRsaDp, .bytes priv.dP), (keyLabelRsaDq, .bytes priv.dQ), (keyLabelRsaQinv, .bytes priv.qInv)]

/-- The entry of a component that is there or not. -/
def optionalEntry (label : Int) (data : Option Bytes) : List (Int × KeyValue) :=
  data.toList.map fun data => (label, .bytes data)

/-- The entries of the components of a key. -/
def Material.entries : Material → List (Int × KeyValue)
  | ec2 crv x y d =>
      [(keyLabelCrv, .int crv), (keyLabelX, .bytes x), (keyLabelY, .bytes y)] ++ optionalEntry keyLabelD d
  | rsa n e priv => [(keyLabelCrv, .reserved n), (keyLabelX, .bytes e)] ++ priv.toList.flatMap RsaPrivate.entries
  | akp pub seed => (keyLabelPub, .reserved pub) :: optionalEntry keyLabelPriv seed
  | lms pub => [(keyLabelPub, .bytes pub)]
  | okp crv x d => [(keyLabelCrv, .int crv), (keyLabelX, .bytes x)] ++ optionalEntry keyLabelD d
  | symmetric k => [(keyLabelK, .bytes k)]

section

variable [WolfCrypt]

/-- The entries that are common to all keys: the type of the key, its kid and its algorithm. -/
def Key.commonEntries (key : Key) : List (Int × KeyValue) :=
  (keyLabelKty, .int key.kty)
    :: ((if hasKid key.kid then [(keyLabelKid, .bytes key.kid.bytes)] else [])
      ++ if key.alg ≠ algUnset then [(keyLabelAlg, .int key.alg)] else [])

/-- The encoding of a key with the given components. -/
def Key.encoding (key : Key) (material : Material) : Bytes :=
  keyMap (key.commonEntries ++ material.entries)

theorem length_commonEntries (key : Key) :
  key.commonEntries.length = 1 + keyOptionalEntries key
  := by
  unfold Key.commonEntries keyOptionalEntries
  split <;> split <;> rfl

/-- A seed that is emitted has its documented length. -/
theorem length_mldsaSeed [Settings] {key : Key} {flags : UInt32} {seed : Bytes}
    (h : mlDsaEmitsPrivate key flags = true) (hseed : seed = key.mldsaSeed.bytes) :
  seed.length = mlDsaSeedSz
  := by
  simp only [mlDsaEmitsPrivate, Bool.and_eq_true, Bool.not_eq_true', decide_eq_true_eq] at h
  have hvalid : key.mldsaSeed.Valid := fun hnull => absurd hnull (by rw [h.1.2]; exact Bool.false_ne_true)
  rw [hseed, ← hvalid.len_eq]
  exact h.2

end

/-! ### The components of a key -/

/-- A private component is there exactly if it is emitted, and then it is as required. -/
def Emitted {α : Type} (emits : Bool) (p : α → Prop) : Option α → Prop
  | none => emits = false
  | some a => emits = true ∧ p a

namespace Emitted

variable {α : Type} {emits : Bool} {p : α → Prop} {o : Option α}

/-- A component that is emitted is there. -/
theorem isSome_eq (h : Emitted emits p o) :
  o.isSome = emits
  := by
  cases o with
  | none => exact h.symm
  | some a => exact h.1.symm

theorem of_eq_some {a : α} (h : Emitted emits p o) (ha : o = some a) :
  p a
  := by
  subst ha
  exact h.2

end Emitted

section

variable [Settings] [KeySettings] [WolfCrypt] [RecipientCrypt] [KeyCrypt]

omit [Settings] [KeySettings] [RecipientCrypt] in
/-- The private components that wolfCrypt exports of an RSA key: the private exponent in the width of
the modulus, and the others in half of it. -/
structure RsaExports (rsaKey : RsaKey) (priv : RsaPrivate) : Prop where
  modulus_pos : 0 < rsaEncryptSize rsaKey
  d : ∃ d modSz, modSz = (rsaEncryptSize rsaKey).toNat
    ∧ rsaExportKey rsaKey 8 modSz modSz (modSz / 2) (modSz / 2) = some d ∧ 0 < d.length ∧ d.length ≤ 65535
    ∧ priv.d = List.replicate (modSz - d.length) 0 ++ d
  crt : ∀ field ∈ [(RsaInt.p, priv.p), (.q, priv.q), (.dP, priv.dP), (.dQ, priv.dQ), (.u, priv.qInv)],
    rsaExportInt rsaKey field.1 (((rsaEncryptSize rsaKey).toNat + 1) / 2) = some field.2
      ∧ field.2.length = ((rsaEncryptSize rsaKey).toNat + 1) / 2

/-- The components of a key that are encoded with the given flags. -/
inductive KeyHas (key : Key) (flags : UInt32) : Material → Prop
  | ec2 {eccKey : EccKey} {coordSz : Nat} {x y : Bytes} {d : Option Bytes} : haveEcc = true →
      key.kty = ktyEc2 → key.object = .ecc eccKey → crvKeySize key.crv = .ok coordSz →
      eccExportPublicRaw eccKey 66 = some (x, y) → x.length = coordSz → y.length = coordSz →
      Emitted (keyEmitsPrivate key flags)
        (fun d => eccExportPrivateOnly eccKey 66 = some d ∧ d.length = coordSz) d →
      KeyHas key flags (.ec2 key.crv x y d)
  | rsa {rsaKey : RsaKey} {n e : Bytes} {nSz : Nat} {priv : Option RsaPrivate} : haveRsapss = true →
      key.kty = ktyRsa → key.object = .rsa rsaKey → rsaFlattenPublicKey rsaKey rsaEMaxSz nSz = some (e, n) →
      0 < n.length → n.length ≤ 65535 →
      Emitted (haveRsaPrivateKey && keyEmitsPrivate key flags && !rsaHasDevice rsaKey) (RsaExports rsaKey)
        priv →
      KeyHas key flags (.rsa n e priv)
  | akp {mldsaKey : MlDsaKey} {pub : Bytes} {pubSz : Nat} {seed : Option Bytes} : haveMldsa = true →
      key.kty = ktyAkp → key.object = .mldsa mldsaKey → key.alg ≠ algUnset →
      mlDsaExportPubRaw mldsaKey pubSz = some pub → 256 ≤ pub.length → pub.length ≤ 65535 →
      Emitted (mlDsaEmitsPrivate key flags) (fun seed => seed = key.mldsaSeed.bytes) seed →
      KeyHas key flags (.akp pub seed)
  | lms {lmsKey : LmsKey} {pub : Bytes} : haveLms = true → key.kty = ktyHssLms →
      lmsKeyCheckEncode key = .ok lmsKey → lmsExportPubRaw lmsKey hssMaxPublicKeyLen = some pub →
      KeyHas key flags (.lms pub)
  | okp {x : Bytes} {d : Option Bytes} : key.kty = ktyOkp → exportOkpPublic key = .ok x →
      Emitted (keyEmitsPrivate key flags) (fun d => exportOkpPrivate key = .ok d) d →
      KeyHas key flags (.okp key.crv x d)
  | symmetric {k : Bytes} : key.kty = ktySymmetric → symmetricKeyCheckEncode key flags = .ok () →
      key.symmKey = .ok (.mem k) → KeyHas key flags (.symmetric k)

/-- What is documented of the exports of wolfCrypt: the lengths that it reports are those of what is
exported, and an export that needs more space than there is fails, while it does not depend on the
size of the buffer otherwise. -/
structure DocumentedExports : Prop where
  eccPublic : ∀ {key : EccKey} {n : Nat} {x y : Bytes}, eccExportPublicRaw key n = some (x, y) →
    (x.length : Int) = eccSize key
  ed25519Public : ∀ {key : Ed25519Key} {n : Nat} {x : Bytes}, ed25519ExportPublic key n = some x → x.length = 32
  ed25519Private : ∀ {key : Ed25519Key} {n : Nat} {d : Bytes}, ed25519ExportPrivateOnly key n = some d →
    d.length = 32
  ed448Public : ∀ {key : Ed448Key} {n : Nat} {x : Bytes}, ed448ExportPublic key n = some x → x.length = 57
  ed448Private : ∀ {key : Ed448Key} {n : Nat} {d : Bytes}, ed448ExportPrivateOnly key n = some d → d.length = 57
  rsaPublic : ∀ {key : RsaKey} {eSz nSz : Nat} {e n : Bytes}, rsaFlattenPublicKey key eSz nSz = some (e, n) →
    (n.length : Int) = rsaEncryptSize key ∧ e.length ≤ eSz ∧ n.length ≤ nSz
      ∧ ∀ nSz', n.length ≤ nSz' → rsaFlattenPublicKey key eSz nSz' = some (e, n)
  rsaExponent : ∀ {key : RsaKey} {eSz nSz : Nat} {e n : Bytes}, rsaFlattenPublicKey key eSz nSz = some (e, n) →
    n.length ≤ (rsaMaxSize + 7) / 8 ∧ e.head? ≠ some 0
      ∧ ∀ keySz, e.length ≤ keySz → rsaExportInt key .e keySz = some (List.replicate (keySz - e.length) 0 ++ e)
  rsaPrivate : ∀ {key : RsaKey} {eSz nSz dSz pSz qSz : Nat} {d : Bytes},
    rsaExportKey key eSz nSz dSz pSz qSz = some d → d.length ≤ dSz
  mlDsaPublic : ∀ {key : MlDsaKey} {n : Nat} {pub : Bytes}, mlDsaExportPubRaw key n = some pub →
    mlDsaGetPubLen key = some (pub.length : Int) ∧ pub.length ≤ n
      ∧ ∀ n', pub.length ≤ n' → mlDsaExportPubRaw key n' = some pub
  lmsPublic : ∀ {key : LmsKey} {n : Nat} {pub : Bytes}, lmsExportPubRaw key n = some pub →
    lmsGetPubLen key = some pub.length

end

/-! ### Examples -/

/-- A wolfCrypt whose RSA keys are the last byte of the exponent before the modulus, and whose
ML-DSA keys are the level before the public key. -/
@[reducible]
def sampleKeyWolfCrypt : WolfCrypt :=
  { failingCrypt with
    rsaEncryptSize := fun key : Bytes => key.tail.length
    mlDsaLevel := fun key : Bytes => (key.headD 0).toNat }

/-- A wolfCrypt that fails to agree on keys. -/
@[reducible]
def failingRecipientCrypt [WolfCrypt] : RecipientCrypt where
  rngGenerateBlock _ _ env := (none, env)
  initRng env := (none, env)
  aesKeyWrap _ _ _ := none
  aesKeyUnWrap _ _ _ := none
  eccInit := none
  eccSetRng _ _ := none
  eccCheckKey _ := false
  eccMakeKeyEx _ _ _ _ env := (none, env)
  eccSharedSecret _ _ env := (none, env)
  eccExportPublicRaw _ _ := none
  eccImportUnsigned _ _ _ _ := none
  hkdf _ _ _ _ := none
  Hpke := Unit
  hpkeInit := none
  hpkeSerializePublicKey _ _ := none
  hpkeSealBase _ _ _ _ _ _ := none
  hpkeOpenBase _ _ _ _ _ _ _ := none

section Instances

attribute [local instance] defaultSettings sampleKeyWolfCrypt failingRecipientCrypt failingKeyCrypt

/-- The exponent of a key without leading zeros. -/
def sampleRsaExponent (key : Bytes) : Bytes := key.head?.toList.filter (· ≠ 0)

/-- The exports of the sample keys; an Ed25519 key is its public key before its private one. -/
@[reducible]
def sampleKeyCrypt : KeyCrypt :=
  { failingKeyCrypt with
    ed25519PrivKeySet := fun key : Bytes => decide (key.length = 64)
    ed25519ExportPublic := fun (key : Bytes) _ => if key.length = 32 ∨ key.length = 64 then some (key.take 32) else none
    ed25519ExportPrivateOnly := fun (key : Bytes) _ => if key.length = 64 then some (key.drop 32) else none
    rsaFlattenPublicKey := fun (key : Bytes) eSz nSz =>
      if (sampleRsaExponent key).length ≤ eSz ∧ key.tail.length ≤ nSz ∧ key.tail.length ≤ 512 then
        some (sampleRsaExponent key, key.tail)
      else none
    rsaExportInt := fun (key : Bytes) _ keySz =>
      some (List.replicate (keySz - (sampleRsaExponent key).length) 0 ++ sampleRsaExponent key)
    mlDsaGetPubLen := fun key : Bytes => some key.tail.length
    mlDsaExportPubRaw := fun (key : Bytes) bufSz => if key.tail.length ≤ bufSz then some key.tail else none }

/-- A build with every family of keys. -/
@[reducible]
def sampleKeySettings : KeySettings := defaultKeySettings rfl

attribute [local instance] sampleKeyCrypt sampleKeySettings

theorem head_sampleRsaExponent (key : Bytes) :
  (sampleRsaExponent key).head? ≠ some 0
  := by
  intro h
  have hmem := List.mem_of_head? h
  unfold sampleRsaExponent at hmem
  rw [List.mem_filter] at hmem
  exact absurd hmem.2 (by decide)

theorem documentedExports_sample :
  DocumentedExports
  := by
  constructor
  · rintro _ _ _ _ ⟨⟩
  · intro key n x h
    dsimp only [KeyCrypt.ed25519ExportPublic] at h
    split at h
    · cases h
      rw [List.length_take]
      omega
    · cases h
  · intro key n d h
    dsimp only [KeyCrypt.ed25519ExportPrivateOnly] at h
    split at h
    · cases h
      rw [List.length_drop]
      omega
    · cases h
  · rintro _ _ _ ⟨⟩
  · rintro _ _ _ ⟨⟩
  · intro key eSz nSz e n h
    dsimp only [KeyCrypt.rsaFlattenPublicKey] at h ⊢
    split at h
    · cases h
      rename_i hle
      exact ⟨rfl, hle.1, hle.2.1, fun nSz' hn => if_pos ⟨hle.1, hn, hle.2.2⟩⟩
    · cases h
  · intro key eSz nSz e n h
    dsimp only [KeyCrypt.rsaFlattenPublicKey] at h
    split at h
    · cases h
      rename_i hle
      exact ⟨hle.2.2, head_sampleRsaExponent key, fun _ _ => rfl⟩
    · cases h
  · rintro _ _ _ _ _ _ _ ⟨⟩
  · intro key n pub h
    dsimp only [KeyCrypt.mlDsaExportPubRaw] at h ⊢
    split at h
    · cases h
      rename_i hle
      exact ⟨rfl, hle, fun n' hn => if_pos hn⟩
    · cases h
  · rintro _ _ _ ⟨⟩

end Instances

end WolfCose
