import WolfCose.Key.SizeExact
import WolfCose.Lib.TwoRuns

/-!
# What a public key reveals

A key is encoded without its private components if the flag `WOLFCOSE_KEY_PUBLIC_ONLY` is set, and if
an external signer is attached.  Two keys with the same public components are then encoded alike:
with the same result, and with the same bytes written to the same places of the output.
-/

namespace WolfCose

open Program Cbor Settings KeySettings WolfCrypt RecipientCrypt KeyCrypt

section

variable [Settings]

/-! ### Programs that do not read the output -/

/-- The contexts of two runs that have written the same bytes into two buffers. -/
structure EncCtx.Same (out out' : Buffer) (ctx ctx' : EncCtx) : Prop where
  idx : ctx.idx = ctx'.idx
  writes : Bytes.SameWrites out.bytes out'.bytes ctx.buf.bytes ctx'.buf.bytes

namespace EncCtx.Same

variable {out out' : Buffer} {ctx ctx' : EncCtx}

theorem init (h : out.bytes.length = out'.bytes.length) :
  EncCtx.Same out out' (.init out) (.init out')
  := ⟨rfl, .start h⟩

theorem bufSz (h : EncCtx.Same out out' ctx ctx') :
  ctx.bufSz = ctx'.bufSz
  := by
  unfold EncCtx.bufSz
  rw [h.writes.length_eq, h.writes.length_eq', h.writes.length_same]

theorem hasRoom (h : EncCtx.Same out out' ctx ctx') (n : Nat) :
  ctx.hasRoom n = ctx'.hasRoom n
  := by
  unfold EncCtx.hasRoom
  rw [h.idx, h.bufSz]

theorem store (h : EncCtx.Same out out' ctx ctx') (pos : Nat) (bs : Bytes) :
  EncCtx.Same out out' (ctx.store pos bs) (ctx'.store pos bs)
  := ⟨h.idx, h.writes.overwrite pos bs⟩

theorem put (h : EncCtx.Same out out' ctx ctx') (bs : Bytes) :
  EncCtx.Same out out' (ctx.put bs) (ctx'.put bs)
  := by
  constructor
  · rw [EncCtx.idx_put, EncCtx.idx_put, h.idx]
  · change Bytes.SameWrites _ _ (Bytes.overwrite _ _ _) (Bytes.overwrite _ ctx'.idx _)
    rw [← h.idx]
    exact h.writes.overwrite ctx.idx bs

end EncCtx.Same

/-- The program does not depend on what is in the buffer. -/
def Blind (p : Enc Unit) : Prop :=
  ∀ ⦃out out' : Buffer⦄ ⦃ctx ctx' : EncCtx⦄, EncCtx.Same out out' ctx ctx' →
    Related (EncCtx.Same out out') (encodeAt p ctx) (encodeAt p ctx')

/-- A program is encoded step by step. -/
theorem encodeAt_bind (p q : Enc Unit) (ctx : EncCtx) :
  encodeAt (p >>= fun _ => q) ctx = encodeAt p ctx >>= encodeAt q
  := by
  have hbind : (p >>= fun _ => q) ctx = EStateM.bind p (fun _ => q) ctx := rfl
  unfold EStateM.bind at hbind
  cases h : p ctx with
  | ok u ctx₁ =>
      rw [h] at hbind
      unfold encodeAt
      rw [hbind, h]
      rfl
  | error e ctx₁ =>
      rw [h] at hbind
      unfold encodeAt
      rw [hbind, h]
      rfl

/-- A step that checks the context before it writes. -/
theorem encodeAt_put {c : EncCtx → Prop} [DecidablePred c] {e : Err} {bs : Bytes} (ctx : EncCtx) :
  encodeAt (do let ctx ← get; failIf (c ctx) e; set (ctx.put bs)) ctx
    = if c ctx then .error (.err e) else .ok (ctx.put bs)
  := by
  by_cases hc : c ctx
  · have hfail : (failIf (c ctx) e : Enc Unit) = throw e := if_pos hc
    rw [if_pos hc]
    change encodeAt (failIf (c ctx) e >>= fun _ => set (ctx.put bs)) ctx = _
    rw [hfail]
    rfl
  · have hpass : (failIf (c ctx) e : Enc Unit) = Pure.pure () := if_neg hc
    rw [if_neg hc]
    change encodeAt (failIf (c ctx) e >>= fun _ => set (ctx.put bs)) ctx = _
    rw [hpass]
    rfl

namespace Blind

variable {p q : Enc Unit}

theorem pure :
  Blind (Pure.pure ())
  := fun _ _ _ _ h => .ok h

theorem bind (hp : Blind p) (hq : Blind q) :
  Blind (p >>= fun _ => q)
  := by
  intro out out' ctx ctx' h
  rw [encodeAt_bind, encodeAt_bind]
  apply (hp h).bind
  intro ctx₁ ctx₁' h₁
  exact hq h₁

theorem ite {c : Prop} [Decidable c] (hp : c → Blind p) (hq : ¬ c → Blind q) :
  Blind (if c then p else q)
  := by
  split
  · apply hp
    assumption
  · apply hq
    assumption

theorem onlyIf {c : Prop} [Decidable c] (hp : Blind p) :
  Blind (onlyIf c p)
  := ite (fun _ => hp) (fun _ => pure)

theorem failIf {c : Prop} [Decidable c] {e : Err} :
  Blind (failIf c e)
  := by
  intro out out' ctx ctx' h
  unfold Program.failIf
  split
  · exact .error _
  · exact .ok h

end Blind

/-- A step that checks the room before it writes. -/
theorem blind_put {c : EncCtx → Prop} [DecidablePred c] {e : Err} {bs : Bytes}
    (hc : ∀ {ctx ctx' : EncCtx}, ctx.idx = ctx'.idx → ctx.bufSz = ctx'.bufSz → (c ctx ↔ c ctx')) :
  Blind (do let ctx ← get; failIf (c ctx) e; set (ctx.put bs))
  := by
  intro out out' ctx ctx' h
  rw [encodeAt_put, encodeAt_put]
  by_cases hctx : c ctx
  · rw [if_pos hctx, if_pos ((hc h.idx h.bufSz).mp hctx)]
    exact .error _
  · rw [if_neg hctx, if_neg (fun hctx' => hctx ((hc h.idx h.bufSz).mpr hctx'))]
    exact .ok (h.put bs)

theorem blind_writeHead (bs : Bytes) :
  Blind (writeHead bs)
  := by
  apply blind_put
  intro ctx ctx' hidx hsz
  rw [EncCtx.hasRoom, EncCtx.hasRoom, hidx, hsz]

theorem blind_encodeHead (m : MajorType) (v : Nat) :
  Blind (encodeHead m v)
  := by
  unfold encodeHead
  repeat' split
  all_goals exact blind_writeHead _

theorem blind_encodeInt (v : Int) :
  Blind (encodeInt v)
  := Blind.ite (fun _ => blind_encodeHead _ _) (fun _ => blind_encodeHead _ _)

theorem blind_encodeBstr (data : Pointer) :
  Blind (encodeBstr data)
  := by
  apply Blind.failIf.bind
  apply (blind_encodeHead _ _).bind
  apply blind_put
  intro ctx ctx' hidx hsz
  rw [hidx, hsz]

theorem blind_encodeKeyBstr (label : Int) (data : Pointer) :
  Blind (encodeKeyBstr label data)
  := (blind_encodeInt _).bind (blind_encodeBstr _)

section

variable [WolfCrypt]

theorem blind_encodeKeyStart (key : Key) (entries : Nat) :
  Blind (encodeKeyStart key entries)
  := by
  apply (blind_encodeHead _ _).bind
  apply (blind_encodeHead _ _).bind
  apply (blind_encodeHead _ _).bind
  apply Blind.bind
  · apply Blind.onlyIf
    exact (blind_encodeHead _ _).bind (blind_encodeBstr _)
  · apply Blind.onlyIf
    exact (blind_encodeHead _ _).bind (blind_encodeInt _)

theorem blind_encodeEc2Map (key : Key) (x y : Bytes) (d : Option Bytes) :
  Blind (encodeEc2Map key x y d)
  := by
  apply (blind_encodeKeyStart _ _).bind
  apply (blind_encodeInt _).bind
  apply (blind_encodeHead _ _).bind
  apply (blind_encodeKeyBstr _ _).bind
  apply (blind_encodeKeyBstr _ _).bind
  exact Blind.onlyIf (blind_encodeKeyBstr _ _)

theorem blind_encodeOkpPublic (key : Key) (emitPriv : Bool) (x : Bytes) :
  Blind (encodeOkpPublic key emitPriv x)
  := by
  apply (blind_encodeKeyStart _ _).bind
  apply (blind_encodeInt _).bind
  apply (blind_encodeHead _ _).bind
  exact blind_encodeKeyBstr _ _

end

/-! ### Exports into the output -/

/-- Whether there is room for a reserved head does not depend on what is in the buffer. -/
theorem EncCtx.Same.reserveHead_eq {out out' : Buffer} {ctx ctx' : EncCtx} (h : EncCtx.Same out out' ctx ctx') :
  reserveHead ctx = reserveHead ctx'
  := by
  unfold reserveHead
  rw [h.idx, h.bufSz]

/-- The same component is exported behind a reserved head in both runs. -/
theorem EncCtx.Same.exported {out out' : Buffer} {ctx ctx' : EncCtx} (h : EncCtx.Same out out' ctx ctx') {pos : Nat}
    (hpos : reserveHead ctx = .ok pos) (payload : Bytes) :
  Related (EncCtx.Same out out') (finalizeRsaBstr (ctx.store pos payload) ctx.idx payload.length)
    (finalizeRsaBstr (ctx'.store pos payload) ctx'.idx payload.length)
  := by
  have hsz : ∀ ctx : EncCtx, (ctx.store pos payload).bufSz = ctx.bufSz := fun _ => Bytes.length_overwrite ..
  have hmax : ctx.bufSz ≤ sizeMax := ctx.buf.length_le
  by_cases hfit : ctx.idx + 3 + payload.length ≤ ctx.bufSz
  · rw [reserveHead_eq_ok, sizeSum_eq (by omega)] at hpos
    have hfit' := hfit
    rw [h.idx, h.bufSz] at hfit'
    rw [← hpos.2, finalizeRsaBstr_store hfit, h.idx, finalizeRsaBstr_store hfit']
    apply Related.ok
    unfold EncCtx.exported
    split
    · rw [h.idx]
      exact (h.store _ _).put _
    · exact h.put _
  · unfold finalizeRsaBstr
    rw [hsz, hsz, ← h.idx, ← h.bufSz, rejectIf, if_pos (not_le.mp hfit)]
    exact .error _

variable [WolfCrypt] [KeyCrypt]

theorem same_exportRsaPublic (rsaKey : RsaKey) {out out' : Buffer} {ctx ctx' : EncCtx}
    (h : EncCtx.Same out out' ctx ctx') :
  Related (fun r r' => EncCtx.Same out out' r.1 r'.1 ∧ r.2 = r'.2) (exportRsaPublic rsaKey ctx)
    (exportRsaPublic rsaKey ctx')
  := by
  unfold exportRsaPublic
  rw [← h.reserveHead_eq, ← h.bufSz]
  apply Related.bindSame
  intro pos hpos
  apply Related.bindSame
  rintro ⟨e, n⟩ -
  apply Related.bindSame
  intro _ _
  apply (h.exported hpos n).bind
  intro ctx₁ ctx₁' h₁
  exact .ok ⟨h₁, rfl⟩

theorem same_exportMlDsaPublic (mldsaKey : MlDsaKey) {out out' : Buffer} {ctx ctx' : EncCtx}
    (h : EncCtx.Same out out' ctx ctx') :
  Related (EncCtx.Same out out') (exportMlDsaPublic mldsaKey ctx) (exportMlDsaPublic mldsaKey ctx')
  := by
  unfold exportMlDsaPublic
  rw [← h.reserveHead_eq, ← h.bufSz]
  apply Related.bindSame
  intro pos hpos
  apply Related.bindSame
  intro pub _
  apply Related.bindSame
  intro _ _
  exact h.exported hpos pub

/-! ### Keys with the same public components -/

variable [KeySettings] [RecipientCrypt]

omit [Settings] [KeySettings] in
/-- Two key objects of the same type whose public components are the same: wolfCrypt exports the same
from both.  A symmetric key has no public component. -/
inductive KeyObject.SamePublic : KeyObject → KeyObject → Prop
  | null : SamePublic .null .null
  | ecc {a b : EccKey} : (∀ bufSz, eccExportPublicRaw a bufSz = eccExportPublicRaw b bufSz) →
      SamePublic (.ecc a) (.ecc b)
  | ed25519 {a b : Ed25519Key} : (∀ bufSz, ed25519ExportPublic a bufSz = ed25519ExportPublic b bufSz) →
      SamePublic (.ed25519 a) (.ed25519 b)
  | ed448 {a b : Ed448Key} : (∀ bufSz, ed448ExportPublic a bufSz = ed448ExportPublic b bufSz) →
      SamePublic (.ed448 a) (.ed448 b)
  | rsa {a b : RsaKey} : (∀ eSz nSz, rsaFlattenPublicKey a eSz nSz = rsaFlattenPublicKey b eSz nSz) →
      SamePublic (.rsa a) (.rsa b)
  | mldsa {a b : MlDsaKey} : (∀ bufSz, mlDsaExportPubRaw a bufSz = mlDsaExportPubRaw b bufSz) →
      SamePublic (.mldsa a) (.mldsa b)
  -- the states other than those of a key without a public key tell what private keys there are
  | lms {a b : LmsKey} : (lmsState a = .other ↔ lmsState b = .other) →
      (∀ bufSz, lmsExportPubRaw a bufSz = lmsExportPubRaw b bufSz) → SamePublic (.lms a) (.lms b)
  | symm (a b : Bytes) : SamePublic (.symm a) (.symm b)

omit [Settings] [KeySettings] in
/-- Two keys that may differ in their private components only. -/
structure Key.SamePublic (key key' : Key) : Prop where
  kty : key.kty = key'.kty
  alg : key.alg = key'.alg
  crv : key.crv = key'.crv
  kid : key.kid = key'.kid
  attachedType : key.attachedType = key'.attachedType
  object : key.object.SamePublic key'.object

omit [KeySettings] [RecipientCrypt] [KeyCrypt] in
/-- The private components of a key are not asked for, or are those of an external signer. -/
def HidesPrivate (key : Key) (flags : UInt32) : Prop :=
  flags = keyPublicOnly ∨ flags = 0 ∧ key.delegated = true

omit [KeySettings] [RecipientCrypt] [KeyCrypt] in
theorem HidesPrivate.keyEmitsPrivate {key : Key} {flags : UInt32} (h : HidesPrivate key flags) :
  keyEmitsPrivate key flags = false
  := by
  unfold WolfCose.keyEmitsPrivate
  rcases h with rfl | ⟨-, hdelegated⟩
  · have hflag : ¬ keyPublicOnly &&& keyPublicOnly = 0 := by decide
    rw [decide_eq_false hflag, Bool.and_false, Bool.false_and]
  · rw [hdelegated, Bool.not_true, Bool.and_false]

omit [KeySettings] [RecipientCrypt] [KeyCrypt] in
theorem HidesPrivate.flags {key : Key} {flags : UInt32} (h : HidesPrivate key flags) :
  flags &&& ~~~keyPublicOnly = 0
  := by
  rcases h with rfl | ⟨rfl, -⟩
  · decide
  · decide

omit [KeySettings] [RecipientCrypt] [KeyCrypt] in
/-- A symmetric key has nothing that could be encoded. -/
theorem HidesPrivate.symmetricKeyCheckEncode {key : Key} {flags : UInt32} (h : HidesPrivate key flags) :
  symmetricKeyCheckEncode key flags = .error (.err .coseKeyType)
  := by
  unfold WolfCose.symmetricKeyCheckEncode
  rcases h with rfl | ⟨rfl, hdelegated⟩
  · rfl
  · rw [hdelegated]
    by_cases hnull : key.object.isNull = true ∨ key.symmKeyLen = 0
    · rw [failWhen, failWhen, rejectIf, rejectIf, if_pos hnull]
      rfl
    · rw [failWhen, failWhen, rejectIf, rejectIf, if_neg hnull]
      rfl

omit [Settings] [KeySettings] in
theorem KeyObject.SamePublic.isNull {object object' : KeyObject} (h : object.SamePublic object') :
  object.isNull = object'.isNull
  := by
  cases h with
  | _ => rfl

namespace Key.SamePublic

variable {key key' : Key} {flags flags' : UInt32}

omit [KeySettings] in
/-- The programs that encode the start of a key do not depend on its private components. -/
theorem encodeKeyStart (h : key.SamePublic key') (entries : Nat) :
  encodeKeyStart key entries = encodeKeyStart key' entries
  := by
  unfold WolfCose.encodeKeyStart encodeKeyOptionalFields keyOptionalEntries
  rw [h.kty, h.alg, h.kid]

omit [KeySettings] in
theorem exportEc2 (h : key.SamePublic key') (hemits : keyEmitsPrivate key flags = false)
    (hemits' : keyEmitsPrivate key' flags' = false) :
  exportEc2 key flags = exportEc2 key' flags'
  := by
  have hobject := h.object
  unfold WolfCose.exportEc2
  rw [hobject.isNull, h.crv, hemits, hemits']
  generalize key.object = object at hobject ⊢
  generalize key'.object = object' at hobject ⊢
  cases hobject with
  | ecc hpublic => simp only [KeyObject.asEcc, ok_bind, hpublic, Bool.false_eq_true, if_false]
  | _ => rfl

omit [KeySettings] in
theorem exportOkpPublic (h : key.SamePublic key') :
  exportOkpPublic key = exportOkpPublic key'
  := by
  have hobject := h.object
  unfold WolfCose.exportOkpPublic
  rw [hobject.isNull, h.crv]
  generalize key.object = object at hobject ⊢
  generalize key'.object = object' at hobject ⊢
  cases hobject with
  | ed25519 hpublic => simp only [KeyObject.asEd25519, KeyObject.asEd448, ok_bind, hpublic]
  | ed448 hpublic => simp only [KeyObject.asEd25519, KeyObject.asEd448, ok_bind, hpublic]
  | _ => rfl

/-! ### The families of keys -/

variable {out out' : Buffer}

omit [KeySettings] in
theorem keyEncodeEc2 (h : key.SamePublic key') (hemits : keyEmitsPrivate key flags = false)
    (hemits' : keyEmitsPrivate key' flags' = false) (hlen : out.bytes.length = out'.bytes.length) :
  Related (EncCtx.Same out out') (keyEncodeEc2 key out flags) (keyEncodeEc2 key' out' flags')
  := by
  have hmap : ∀ x y d, encodeEc2Map key x y d = encodeEc2Map key' x y d := by
    intro x y d
    unfold encodeEc2Map
    rw [h.encodeKeyStart, h.crv]
  unfold WolfCose.keyEncodeEc2
  rw [h.exportEc2 hemits hemits']
  apply Related.bindSame
  rintro ⟨x, y, d⟩ -
  dsimp only
  rw [hmap]
  exact blind_encodeEc2Map key' x y d (.init hlen)

theorem keyEncodeRsa (h : key.SamePublic key') (hemits : keyEmitsPrivate key flags = false)
    (hemits' : keyEmitsPrivate key' flags' = false) (hlen : out.bytes.length = out'.bytes.length) :
  Related (EncCtx.Same out out') (keyEncodeRsa key out flags) (keyEncodeRsa key' out' flags')
  := by
  have hobject := h.object
  have hpublic : ∀ {key : Key} {flags : UInt32}, keyEmitsPrivate key flags = false →
      rsaEmitsPrivate key flags = .ok false := by
    intro key flags hemits
    unfold rsaEmitsPrivate
    rw [if_neg (fun h => Bool.false_ne_true (hemits.symm.trans h.2))]
    rfl
  unfold WolfCose.keyEncodeRsa
  rw [hobject.isNull, hpublic hemits, hpublic hemits']
  apply Related.bindSame
  intro _ _
  simp only [ok_bind, Bool.false_eq_true, if_false]
  rw [h.encodeKeyStart]
  apply Related.bind ((blind_encodeKeyStart key' 3).bind (blind_encodeInt _) (.init hlen))
  intro ctx ctx' hctx
  generalize key.object = object at hobject ⊢
  generalize key'.object = object' at hobject ⊢
  cases hobject with
  | @rsa rsaKey rsaKey' hflatten =>
      have hexport : ∀ ctx, exportRsaPublic rsaKey ctx = exportRsaPublic rsaKey' ctx := by
        intro ctx
        simp only [exportRsaPublic, hflatten]
      simp only [KeyObject.asRsa, ok_bind, hexport]
      apply (same_exportRsaPublic rsaKey' hctx).bind
      rintro ⟨ctx₁, e⟩ ⟨ctx₁', _⟩ ⟨h₁, rfl⟩
      apply Related.bind (blind_encodeKeyBstr _ _ h₁)
      intro ctx₂ ctx₂' h₂
      exact .ok h₂
  | _ => exact .error _

omit [KeySettings] in
theorem keyEncodeAkp (h : key.SamePublic key') (hemits : keyEmitsPrivate key flags = false)
    (hemits' : keyEmitsPrivate key' flags' = false) (hlen : out.bytes.length = out'.bytes.length) :
  Related (EncCtx.Same out out') (keyEncodeAkp key out flags) (keyEncodeAkp key' out' flags')
  := by
  have hobject := h.object
  unfold WolfCose.keyEncodeAkp mlDsaEmitsPrivate
  rw [hobject.isNull, h.alg, hemits, hemits']
  apply Related.bindSame
  intro _ _
  apply Related.bindSame
  intro _ _
  simp only [Bool.false_and, Bool.false_eq_true, if_false]
  rw [h.encodeKeyStart]
  apply Related.bind ((blind_encodeKeyStart key' 2).bind (blind_encodeInt _) (.init hlen))
  intro ctx ctx' hctx
  generalize key.object = object at hobject ⊢
  generalize key'.object = object' at hobject ⊢
  cases hobject with
  | @mldsa mldsaKey mldsaKey' hpublic =>
      have hexport : ∀ ctx, exportMlDsaPublic mldsaKey ctx = exportMlDsaPublic mldsaKey' ctx := by
        intro ctx
        simp only [exportMlDsaPublic, hpublic]
      simp only [KeyObject.asMldsa, ok_bind, hexport]
      apply (same_exportMlDsaPublic mldsaKey' hctx).bind
      intro ctx₁ ctx₁' h₁
      exact .ok h₁
  | _ => exact .error _

omit [KeySettings] in
theorem keyEncodeLms (h : key.SamePublic key') (hlen : out.bytes.length = out'.bytes.length) :
  Related (EncCtx.Same out out') (keyEncodeLms key out) (keyEncodeLms key' out')
  := by
  have hobject := h.object
  unfold WolfCose.keyEncodeLms lmsKeyCheckEncode
  rw [h.attachedType, hobject.isNull, h.alg]
  simp only [bind_assoc]
  apply Related.bindSame
  intro _ _
  apply Related.bindSame
  intro _ _
  apply Related.bindSame
  intro _ _
  generalize key.object = object at hobject ⊢
  generalize key'.object = object' at hobject ⊢
  cases hobject with
  | @lms lmsKey lmsKey' hstate hpublic =>
      simp only [KeyObject.asLms, ok_bind, pure_bind, hpublic, h.encodeKeyStart, hstate]
      apply Related.bindSame
      intro _ _
      apply Related.bindSame
      intro pub _
      exact ((blind_encodeKeyStart key' 2).bind (blind_encodeKeyBstr _ _)) (.init hlen)
  | _ => exact .error _

omit [KeySettings] in
theorem keyEncodeOkp (h : key.SamePublic key') (hemits : keyEmitsPrivate key flags = false)
    (hemits' : keyEmitsPrivate key' flags' = false) (hlen : out.bytes.length = out'.bytes.length) :
  Related (EncCtx.Same out out') (keyEncodeOkp key out flags) (keyEncodeOkp key' out' flags')
  := by
  have hmap : ∀ emitPriv x, encodeOkpPublic key emitPriv x = encodeOkpPublic key' emitPriv x := by
    intro emitPriv x
    unfold encodeOkpPublic
    rw [h.encodeKeyStart, h.crv]
  unfold WolfCose.keyEncodeOkp
  simp only [h.exportOkpPublic, hemits, hemits', hmap, Bool.false_eq_true, if_false]
  apply Related.bindSame
  intro x _
  apply (blind_encodeOkpPublic key' false x (.init hlen)).bind
  intro ctx ctx' hctx
  exact .ok hctx

theorem keyEncodeMap (h : key.SamePublic key') (hhides : HidesPrivate key flags) (hhides' : HidesPrivate key' flags')
    (hlen : out.bytes.length = out'.bytes.length) :
  Related (EncCtx.Same out out') (keyEncodeMap key out flags) (keyEncodeMap key' out' flags')
  := by
  have hemits := hhides.keyEmitsPrivate
  have hemits' := hhides'.keyEmitsPrivate
  unfold WolfCose.keyEncodeMap
  rw [h.kty]
  apply Related.ite
  · intro _
    exact h.keyEncodeEc2 hemits hemits' hlen
  intro _
  apply Related.ite
  · intro _
    exact h.keyEncodeRsa hemits hemits' hlen
  intro _
  apply Related.ite
  · intro _
    exact h.keyEncodeAkp hemits hemits' hlen
  intro _
  apply Related.ite
  · intro _
    exact h.keyEncodeLms hlen
  intro _
  apply Related.ite
  · intro _
    exact h.keyEncodeOkp hemits hemits' hlen
  intro _
  apply Related.ite
  · intro _
    unfold keyEncodeSymmetric
    rw [hhides.symmetricKeyCheckEncode, hhides'.symmetricKeyCheckEncode]
    exact .error _
  · intro _
    exact .error _

end Key.SamePublic

/-! ### The function -/

omit [WolfCrypt] [KeyCrypt] [KeySettings] [RecipientCrypt] in
/-- What two related runs return: the whole output is zeroed in both, or written alike. -/
theorem keyEncodeFinish_related {out out' : Buffer} {x x' : Checked EncCtx} (len len' : Nat)
    (h : Related (EncCtx.Same out out') x x') (hlen : out.bytes.length = out'.bytes.length) :
  (keyEncodeFinish (some out) (some len) x).ret = (keyEncodeFinish (some out') (some len') x').ret
    ∧ (keyEncodeFinish (some out) (some len) x).outLen = (keyEncodeFinish (some out') (some len') x').outLen
    ∧ ∃ bs bs', (keyEncodeFinish (some out) (some len) x).out = some bs
      ∧ (keyEncodeFinish (some out') (some len') x').out = some bs'
      ∧ Bytes.SameWrites out.bytes out'.bytes bs bs'
  := by
  cases h with
  | @ok ctx ctx' hctx => exact ⟨rfl, congrArg some hctx.idx, _, _, rfl, rfl, hctx.writes⟩
  | error fault =>
      refine ⟨rfl, rfl, _, _, rfl, rfl, List.length_replicate, List.length_replicate, hlen, ?_⟩
      intro i
      left
      change (List.replicate _ _)[i]? = (List.replicate _ _)[i]?
      rw [hlen]

/-- Two keys with the same public components are encoded alike where private components are not asked
for, whatever those are: with the same result and length, and with the same bytes written to the same
places of an output of the same size.  A symmetric key is refused. -/
theorem public_export_same {key key' : Key} (h : key.SamePublic key') {flags flags' : UInt32}
    (hhides : HidesPrivate key flags) (hhides' : HidesPrivate key' flags') {out out' : Buffer}
    (hlen : out.bytes.length = out'.bytes.length) (len len' : Nat) :
  (keyEncodeEx (some key) (some out) (some len) flags).ret
      = (keyEncodeEx (some key') (some out') (some len') flags').ret
    ∧ (keyEncodeEx (some key) (some out) (some len) flags).outLen
      = (keyEncodeEx (some key') (some out') (some len') flags').outLen
    ∧ (∃ bs bs', (keyEncodeEx (some key) (some out) (some len) flags).out = some bs
      ∧ (keyEncodeEx (some key') (some out') (some len') flags').out = some bs'
      ∧ Bytes.SameWrites out.bytes out'.bytes bs bs')
    ∧ (out = out' → keyEncodeEx (some key) (some out) (some len) flags
      = keyEncodeEx (some key') (some out') (some len') flags')
    ∧ (key.kty = ktySymmetric → keyEncodeEx (some key) (some out) (some len) flags
      = ⟨.error (.err .coseKeyType), some (List.replicate out.bytes.length 0), some 0⟩)
  := by
  have hmap := h.keyEncodeMap hhides hhides' hlen
  rw [keyEncodeEx_eq hhides.flags, keyEncodeEx_eq hhides'.flags]
  have hfinish := keyEncodeFinish_related len len' hmap hlen
  refine ⟨hfinish.1, hfinish.2.1, hfinish.2.2, ?_, ?_⟩
  · rintro rfl
    obtain ⟨hret, houtLen, bs, bs', hbs, hbs', hwrites⟩ := hfinish
    rw [← hwrites.eq, ← hbs] at hbs'
    generalize keyEncodeFinish (some out) (some len) (keyEncodeMap key out flags) = r at *
    generalize keyEncodeFinish (some out) (some len') (keyEncodeMap key' out flags') = r' at *
    cases r
    cases r'
    rw [CreateOut.mk.injEq]
    exact ⟨hret, hbs'.symm, houtLen⟩
  · intro hkty
    have hrefused : keyEncodeMap key out flags = .error (.err .coseKeyType) := by
      unfold keyEncodeMap
      rw [hkty, if_neg (fun h => absurd h.2 (by decide)), if_neg (fun h => absurd h.2 (by decide)),
        if_neg (fun h => absurd h.2 (by decide)), if_neg (fun h => absurd h.2 (by decide)),
        if_neg (fun h => absurd h.2 (by decide)), if_pos rfl]
      unfold keyEncodeSymmetric
      rw [hhides.symmetricKeyCheckEncode]
      rfl
    rw [hrefused]
    rfl

end

/-! ### Examples -/

section Instances

attribute [local instance] defaultSettings sampleKeyWolfCrypt sampleKeySettings failingRecipientCrypt sampleKeyCrypt

/-- The key pair of the sample without its private key. -/
def publicEd25519Key : Key :=
  { sampleEd25519Key with
    object := .ed25519 ed25519Public
    hasPrivate := false }

/-- The sample without its private key has the same public components. -/
theorem samePublic_ed25519 :
  sampleEd25519Key.SamePublic publicEd25519Key
  := ⟨rfl, rfl, rfl, rfl, rfl, .ed25519 fun _ => rfl⟩

/-- A key pair of Ed25519 is exported as its public key is. -/
theorem public_export_ed25519 :
  let out : Buffer := ⟨List.replicate 64 0xEE, List.length_replicate.trans_le (by decide)⟩
  keyEncodeEx (some sampleEd25519Key) (some out) (some 0) keyPublicOnly
    = keyEncodeEx (some publicEd25519Key) (some out) (some 7) keyPublicOnly
  := (public_export_same samePublic_ed25519 (.inl rfl) (.inl rfl) rfl 0 7).2.2.2.1 rfl

end Instances

end WolfCose
