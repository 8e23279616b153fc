import WolfCose.Key.Material

/-!
# What encoding a key writes

A context to which a byte string has been written is taken by each step of the encoder to one to
which more is written.  The steps that export a component straight into the output need three bytes
in front of it, also where its head is shorter.
-/

namespace WolfCose

open Program Cbor Settings KeySettings WolfCrypt RecipientCrypt KeyCrypt

variable [Settings]

/-! ### Contexts -/

/-- A context whose buffer has the given size and starts with the bytes that have been written. -/
structure EncCtx.Wrote (ctx : EncCtx) (sz : Nat) (bs : Bytes) : Prop where
  bufSz : ctx.bufSz = sz
  idx : ctx.idx = bs.length
  le : bs.length ≤ sz
  bytes : ctx.buf.bytes.take bs.length = bs

namespace EncCtx.Wrote

variable {ctx ctx' : EncCtx} {sz : Nat} {bs a : Bytes}

theorem init (out : Buffer) :
  (EncCtx.init out).Wrote out.bytes.length []
  := ⟨rfl, rfl, Nat.zero_le _, rfl⟩

/-- What is written at the end. -/
theorem put (h : ctx.Wrote sz bs) (hfit : (bs ++ a).length ≤ sz) :
  (ctx.put a).Wrote sz (bs ++ a)
  := by
  have hlen : bs.length + a.length ≤ ctx.buf.bytes.length := by
    have hsz := h.bufSz
    rw [List.length_append] at hfit
    unfold EncCtx.bufSz at hsz
    omega
  refine ⟨?_, ?_, hfit, ?_⟩
  · rw [EncCtx.bufSz_put, h.bufSz]
  · rw [EncCtx.idx_put, h.idx, List.length_append]
  · change (Bytes.overwrite ctx.buf.bytes ctx.idx a).take _ = _
    rw [h.idx, Bytes.overwrite_eq hlen, h.bytes]
    apply List.take_left

/-- What is stored behind what has been written. -/
theorem store (h : ctx.Wrote sz bs) {pos : Nat} (hpos : bs.length ≤ pos) (ws : Bytes) :
  (ctx.store pos ws).Wrote sz bs
  := by
  refine ⟨?_, h.idx, h.le, ?_⟩
  · rw [← h.bufSz]
    apply Bytes.length_overwrite
  · change (Bytes.overwrite ctx.buf.bytes pos ws).take _ = _
    rw [Bytes.take_overwrite hpos, h.bytes]

/-- A program that emits bytes writes them if they fit, and fails otherwise. -/
theorem encodeAt_ok (h : ctx.Wrote sz bs) {p : Enc Unit} (hp : Emits p a) (hrun : encodeAt p ctx = .ok ctx') :
  ctx'.Wrote sz (bs ++ a)
  := by
  obtain ⟨hroom, rfl⟩ := (encodeAt_eq_ok hp).mp hrun
  apply h.put
  rw [List.length_append]
  rw [h.idx, h.bufSz] at hroom
  rcases eq_or_ne a [] with rfl | ha
  · exact h.le
  · exact hroom ha

theorem encodeAt_fits (h : ctx.Wrote sz bs) {p : Enc Unit} (hp : Emits p a) (hfit : (bs ++ a).length ≤ sz) :
  ∃ ctx', encodeAt p ctx = .ok ctx' ∧ ctx'.Wrote sz (bs ++ a)
  := by
  refine ⟨_, encodeAt_of_fits hp ?_, h.put hfit⟩
  rw [h.idx, h.bufSz, ← List.length_append]
  exact hfit

end EncCtx.Wrote

/-! ### Reserved heads -/

omit [Settings] in
theorem headBytes_reservedWidth {len : Nat} :
  headBytes (reservedWidth len) .bstr len
    = if len < 256 then [0x58, UInt8.ofNat len] else [0x59, UInt8.ofNat (len / 256), UInt8.ofNat len]
  := by
  unfold reservedWidth
  split
  · simp only [headBytes, Width.ai, Width.size, Bytes.be, Nat.pow_zero, Nat.div_one]
    rfl
  · simp only [headBytes, Width.ai, Width.size, Bytes.be, Nat.pow_zero, Nat.div_one, Nat.pow_one]
    rfl

omit [Settings] in
theorem length_reservedBstr (bs : Bytes) :
  (reservedBstr bs).length = (if bs.length < 256 then 2 else 3) + bs.length
  := by
  rw [reservedBstr, List.length_append, headBytes_reservedWidth]
  split <;> rfl

@[simp]
theorem reserveHead_eq_ok {ctx : EncCtx} {pos : Nat} :
  reserveHead ctx = .ok pos ↔ sizeSum ctx.idx 3 ≤ ctx.bufSz ∧ sizeSum ctx.idx 3 = pos
  := by
  simp only [reserveHead, bind_eq_ok, failWhen_eq_ok, pure_eq_ok, exists_const, not_lt, gt_iff_lt]

/-- Within a buffer the sum does not wrap. -/
theorem sizeSum_eq {a b : Nat} (h : a + b ≤ sizeMax) :
  sizeSum a b = a + b
  := Nat.mod_eq_of_lt (Nat.lt_succ_of_le h)

/-- Writing at two places next to each other. -/
theorem EncCtx.store_prepend (ctx : EncCtx) (v w : Bytes) :
  ((ctx.store (ctx.idx + v.length) w).store ctx.idx v).seek (ctx.idx + (v ++ w).length) = ctx.put (v ++ w)
  := by
  unfold EncCtx.store EncCtx.seek EncCtx.put
  simp only [Bytes.overwrite_prepend]

/-- What has been stored is read again. -/
theorem EncCtx.read_store {ctx : EncCtx} {pos : Nat} {bs : Bytes} (h : pos + bs.length ≤ ctx.bufSz) :
  ((ctx.store pos bs).buf.bytes.drop pos).take bs.length = bs
  := by
  change ((Bytes.overwrite ctx.buf.bytes pos bs).drop pos).take bs.length = bs
  rw [Bytes.overwrite_eq h, List.append_assoc]
  have hpos : pos = (ctx.buf.bytes.take pos).length := by
    unfold EncCtx.bufSz at h
    rw [List.length_take]
    omega
  apply Bytes.read_middle hpos rfl

/-- The context in which a string has been exported behind a reserved head.  A short string leaves a
byte behind where it has been. -/
def EncCtx.exported (ctx : EncCtx) (payload : Bytes) : EncCtx :=
  if payload.length < 256 then ctx.store (ctx.idx + 3) payload else ctx

/-- A string that has been exported behind the place of its head gets the head. -/
theorem finalizeRsaBstr_store {ctx : EncCtx} {payload : Bytes} (hfit : ctx.idx + 3 + payload.length ≤ ctx.bufSz) :
  finalizeRsaBstr (ctx.store (ctx.idx + 3) payload) ctx.idx payload.length
    = .ok ((ctx.exported payload).put (reservedBstr payload))
  := by
  have hsz : (ctx.store (ctx.idx + 3) payload).bufSz = ctx.bufSz := Bytes.length_overwrite ..
  have hhead := @headBytes_reservedWidth payload.length
  unfold finalizeRsaBstr EncCtx.exported
  rw [EncCtx.read_store hfit, hsz, rejectIf, if_neg (not_lt.mpr hfit)]
  split
  · rw [if_pos (by assumption)] at hhead
    have hprepend := (ctx.store (ctx.idx + 3) payload).store_prepend [0x58, UInt8.ofNat payload.length] payload
    rw [← hhead, ← reservedBstr, length_reservedBstr, if_pos (by assumption), ← Nat.add_assoc] at hprepend
    rw [← hprepend, hhead]
    rfl
  · rw [if_neg (by assumption)] at hhead
    have hprepend := ctx.store_prepend [0x59, UInt8.ofNat (payload.length / 256), UInt8.ofNat payload.length] payload
    rw [← hhead, ← reservedBstr, length_reservedBstr, if_neg (by assumption), ← Nat.add_assoc] at hprepend
    rw [← hprepend, hhead]
    rfl

/-- A place outside of the buffer is undefined. -/
theorem finalizeRsaBstr_eq_ok {ctx ctx' : EncCtx} {hdrPos payloadLen : Nat}
    (h : finalizeRsaBstr ctx hdrPos payloadLen = .ok ctx') :
  hdrPos + 3 + payloadLen ≤ ctx.bufSz
  := by
  unfold finalizeRsaBstr at h
  simp only [bind_eq_ok, rejectIf_eq_ok, not_lt, gt_iff_lt] at h
  obtain ⟨-, hfit, -⟩ := h
  exact hfit

theorem EncCtx.Wrote.exported {ctx : EncCtx} {sz : Nat} {bs payload : Bytes} (h : ctx.Wrote sz bs)
    (hfit : bs.length + 3 + payload.length ≤ sz) :
  ((ctx.exported payload).put (reservedBstr payload)).Wrote sz (bs ++ reservedBstr payload)
  := by
  have hwrote : (ctx.exported payload).Wrote sz bs := by
    unfold EncCtx.exported
    split
    · apply h.store
      rw [h.idx]
      omega
    · exact h
  apply hwrote.put
  rw [List.length_append, length_reservedBstr]
  split <;> omega

/-- A component that has been exported behind a reserved head is written. -/
theorem EncCtx.Wrote.reserved_ok {ctx ctx' : EncCtx} {sz pos : Nat} {bs payload : Bytes} (h : ctx.Wrote sz bs)
    (hpos : sizeSum ctx.idx 3 = pos)
    (hfinalize : finalizeRsaBstr (ctx.store pos payload) ctx.idx payload.length = .ok ctx') :
  bs.length + 3 + payload.length ≤ sz ∧ ctx'.Wrote sz (bs ++ reservedBstr payload)
  := by
  have hfit := finalizeRsaBstr_eq_ok hfinalize
  have hsz : (ctx.store pos payload).bufSz = ctx.bufSz := Bytes.length_overwrite ..
  have hmax : ctx.bufSz ≤ sizeMax := ctx.buf.length_le
  rw [hsz] at hfit
  rw [sizeSum_eq (by omega)] at hpos
  rw [← hpos, finalizeRsaBstr_store hfit, Except.ok.injEq] at hfinalize
  rw [h.idx, h.bufSz] at hfit
  rw [← hfinalize]
  exact ⟨hfit, h.exported hfit⟩

/-- A component is exported behind a reserved head if it fits there. -/
theorem EncCtx.Wrote.reserved_fits {ctx : EncCtx} {sz : Nat} {bs payload : Bytes} (h : ctx.Wrote sz bs)
    (hfit : bs.length + 3 + payload.length ≤ sz) :
  reserveHead ctx = .ok (bs.length + 3) ∧ sizeSum ctx.idx 3 = bs.length + 3
    ∧ ∃ ctx', finalizeRsaBstr (ctx.store (bs.length + 3) payload) ctx.idx payload.length = .ok ctx'
      ∧ ctx'.Wrote sz (bs ++ reservedBstr payload)
  := by
  have hmax : ctx.bufSz ≤ sizeMax := ctx.buf.length_le
  have hsz := h.bufSz
  have hsum : sizeSum ctx.idx 3 = bs.length + 3 := by
    rw [h.idx, sizeSum_eq]
    omega
  refine ⟨?_, hsum, _, ?_, h.exported hfit⟩
  · rw [reserveHead_eq_ok, hsum]
    omega
  · rw [← h.idx]
    apply finalizeRsaBstr_store
    rw [h.idx, hsz]
    exact hfit

variable [WolfCrypt] [KeyCrypt]

/-! ### RSA -/

/-- What the steps that export the modulus of an RSA key write. -/
theorem exportRsaPublic_ok {rsaKey : RsaKey} {ctx ctx' : EncCtx} {sz : Nat} {bs e : Bytes} (h : ctx.Wrote sz bs)
    (hrun : exportRsaPublic rsaKey ctx = .ok (ctx', e)) :
  ∃ n nSz, rsaFlattenPublicKey rsaKey rsaEMaxSz nSz = some (e, n) ∧ 0 < n.length ∧ n.length ≤ 65535
    ∧ ctx'.Wrote sz (bs ++ reservedBstr n)
  := by
  simp only [exportRsaPublic, bind_eq_ok, pure_eq_ok, failWhen_eq_ok, orCrypto_eq_ok, reserveHead_eq_ok,
    Prod.exists, Prod.mk.injEq] at hrun
  obtain ⟨pos, ⟨-, hpos⟩, e, n, hn, -, hlen, ctx₁, hfinalize, rfl, rfl⟩ := hrun
  exact ⟨n, _, hn, by omega, by omega, (h.reserved_ok hpos hfinalize).2⟩

/-- The modulus of an RSA key is exported if it fits behind a reserved head.  The space that is left
is told wolfCrypt as a `word32`. -/
theorem exportRsaPublic_fits [KeySettings] [RecipientCrypt] (hdoc : DocumentedExports) {rsaKey : RsaKey}
    {ctx : EncCtx} {sz nSz : Nat} {bs n e : Bytes} (h : ctx.Wrote sz bs)
    (hn : rsaFlattenPublicKey rsaKey rsaEMaxSz nSz = some (e, n)) (hpos : 0 < n.length) (hle : n.length ≤ 65535)
    (hfit : bs.length + 3 + n.length ≤ sz) (hword : sz < bs.length + 3 + 2 ^ 32) :
  ∃ ctx', exportRsaPublic rsaKey ctx = .ok (ctx', e) ∧ ctx'.Wrote sz (bs ++ reservedBstr n)
  := by
  obtain ⟨hreserve, -, ctx', hfinalize, hwrote⟩ := h.reserved_fits hfit
  have hsz := h.bufSz
  have hspace : toWord32 (ctx.bufSz - (bs.length + 3)) = sz - (bs.length + 3) := by
    rw [hsz]
    apply Nat.mod_eq_of_lt
    omega
  have hexport := (hdoc.rsaPublic hn).2.2.2 (sz - (bs.length + 3)) (by omega)
  refine ⟨ctx', ?_, hwrote⟩
  simp only [exportRsaPublic, bind_eq_ok, pure_eq_ok, failWhen_eq_ok, orCrypto_eq_ok, Prod.exists, Prod.mk.injEq]
  refine ⟨_, hreserve, e, n, ?_, (), by omega, ctx', hfinalize, rfl, rfl⟩
  rw [hspace]
  exact hexport

/-- What the steps that export the private exponent of an RSA key write. -/
theorem exportRsaPrivate_ok [KeySettings] [RecipientCrypt] (hdoc : DocumentedExports) {rsaKey : RsaKey}
    {ctx ctx' : EncCtx} {sz : Nat} {bs : Bytes} (h : ctx.Wrote sz bs)
    (hrun : exportRsaPrivate rsaKey ctx = .ok ctx') :
  ∃ d modSz padded, 0 < rsaEncryptSize rsaKey ∧ modSz = (rsaEncryptSize rsaKey).toNat
    ∧ rsaExportKey rsaKey 8 modSz modSz (modSz / 2) (modSz / 2) = some d ∧ 0 < d.length ∧ d.length ≤ 65535
    ∧ padded = List.replicate (modSz - d.length) 0 ++ d ∧ ctx'.Wrote sz (bs ++ reservedBstr padded)
  := by
  simp only [exportRsaPrivate, bind_eq_ok, pure_eq_ok, failWhen_eq_ok, rejectIf_eq_ok, orCrypto_eq_ok,
    reserveHead_eq_ok, exists_const, not_lt, not_le, gt_iff_lt] at hrun
  obtain ⟨pos, ⟨-, hpos⟩, hmod, hneeded, hroom, d, hd, hlen, ctx₁, hfinalize, rfl⟩ := hrun
  obtain ⟨hfit, hwrote⟩ := h.reserved_ok hpos hfinalize
  have hmax : ctx.bufSz ≤ sizeMax := ctx.buf.length_le
  have hdlen := hdoc.rsaPrivate hd
  have hidx := h.idx
  refine ⟨d, _, _, hmod, rfl, hd, by omega, by omega, rfl, ?_⟩
  apply hwrote.store
  -- the space that is zeroed is behind the padded exponent
  rw [← hpos, sizeSum_eq (a := ctx.idx) (by omega), sizeSum_eq (by omega), List.length_append,
    length_reservedBstr, List.length_append, List.length_replicate]
  split <;> omega

/-- The private exponent of an RSA key is exported if there is room for the other integers that
wolfCrypt exports with it. -/
theorem exportRsaPrivate_fits [KeySettings] [RecipientCrypt] (hdoc : DocumentedExports) {rsaKey : RsaKey}
    {ctx : EncCtx} {sz : Nat} {bs : Bytes} {priv : RsaPrivate} (h : ctx.Wrote sz bs)
    (hpriv : RsaExports rsaKey priv) (hfit : bs.length + 3 + 3 * (rsaEncryptSize rsaKey).toNat + 8 ≤ sz) :
  ∃ ctx', exportRsaPrivate rsaKey ctx = .ok ctx' ∧ ctx'.Wrote sz (bs ++ reservedBstr priv.d)
  := by
  obtain ⟨d, modSz, hmod, hd, hdpos, hdle, hpadded⟩ := hpriv.d
  have hdlen := hdoc.rsaPrivate hd
  have hmodPos := hpriv.modulus_pos
  have hpaddedLen : priv.d.length = modSz := by
    rw [hpadded, List.length_append, List.length_replicate]
    omega
  obtain ⟨hreserve, hsum, ctx₁, hfinalize, hwrote⟩ := h.reserved_fits (show bs.length + 3 + priv.d.length ≤ sz by omega)
  have hmax : ctx.bufSz ≤ sizeMax := ctx.buf.length_le
  have hidx := h.idx
  have hsz := h.bufSz
  -- the offsets of the space that is used do not wrap
  have hscr : sizeSum (bs.length + 3) modSz = bs.length + 3 + modSz := sizeSum_eq (by omega)
  have hscrE : sizeSum (bs.length + 3 + modSz) 8 = bs.length + 3 + modSz + 8 := sizeSum_eq (by omega)
  have hscrN : sizeSum (bs.length + 3 + modSz + 8) modSz = bs.length + 3 + modSz + 8 + modSz := sizeSum_eq (by omega)
  have hneeded : sizeSum (bs.length + 3 + modSz + 8 + modSz) modSz = bs.length + 3 + modSz + 8 + modSz + modSz :=
    sizeSum_eq (by omega)
  have hrun : exportRsaPrivate rsaKey ctx = .ok (ctx₁.store (bs.length + 3 + modSz)
      (List.replicate (bs.length + 3 + modSz + 8 + modSz + modSz - (bs.length + 3 + modSz)) 0)) := by
    simp only [exportRsaPrivate, bind_eq_ok, pure_eq_ok, failWhen_eq_ok, rejectIf_eq_ok, orCrypto_eq_ok,
      exists_const, not_lt, not_le, gt_iff_lt, ← hmod]
    refine ⟨_, hreserve, hmodPos, ?_, by omega, d, hd, by omega, ctx₁, ?_, ?_⟩
    · rw [hscr, hscrE, hscrN, hneeded]
      omega
    · rw [← hpadded]
      exact hfinalize
    · rw [hscr, hscrE, hscrN, hneeded]
  refine ⟨_, hrun, ?_⟩
  apply hwrote.store
  rw [List.length_append, length_reservedBstr, hpaddedLen]
  split <;> omega

/-- What `wolfCose_EncodeRsaMp` writes. -/
theorem encodeRsaMp_ok {label : Int} {rsaKey : RsaKey} {a : RsaInt} {keySz : Nat} {ctx ctx' : EncCtx} {sz : Nat}
    {bs : Bytes} (h : ctx.Wrote sz bs) (hrun : encodeRsaMp label rsaKey a keySz ctx = .ok ctx') :
  ∃ data, (rsaExportInt rsaKey a keySz = some data ∧ data.length = keySz)
    ∧ ctx'.Wrote sz (bs ++ keyEntry (label, .bytes data))
  := by
  simp only [encodeRsaMp, bind_eq_ok, pure_eq_ok, failWhen_eq_ok, rejectIf_eq_ok, orCrypto_eq_ok, exists_const,
    not_lt, gt_iff_lt, not_not] at hrun
  obtain ⟨-, ctx₁, hhead, -, hroom, data, hdata, hlen, rfl⟩ := hrun
  have hwrote := h.encodeAt_ok ((emits_encodeInt label).bind (emits_encodeHead .bstr keySz)) hhead
  refine ⟨data, ⟨hdata, hlen⟩, ?_⟩
  have hentry : bs ++ keyEntry (label, .bytes data) = bs ++ (intHead label ++ preferredHead .bstr keySz) ++ data := by
    rw [keyEntry, KeyValue.encoded, stringBytes, hlen, List.append_assoc, List.append_assoc]
  rw [hentry]
  apply hwrote.put
  rw [hwrote.idx, hwrote.bufSz] at hroom
  rw [List.length_append, hlen]
  exact hroom

/-- `wolfCose_EncodeRsaMp` succeeds if the entry fits. -/
theorem encodeRsaMp_fits {label : Int} {rsaKey : RsaKey} {a : RsaInt} {keySz : Nat} {ctx : EncCtx} {sz : Nat}
    {bs data : Bytes} (h : ctx.Wrote sz bs) (hpos : 0 < keySz) (hdata : rsaExportInt rsaKey a keySz = some data)
    (hlen : data.length = keySz) (hfit : (bs ++ keyEntry (label, .bytes data)).length ≤ sz) :
  ∃ ctx', encodeRsaMp label rsaKey a keySz ctx = .ok ctx' ∧ ctx'.Wrote sz (bs ++ keyEntry (label, .bytes data))
  := by
  have hentry : bs ++ keyEntry (label, .bytes data) = bs ++ (intHead label ++ preferredHead .bstr keySz) ++ data := by
    rw [keyEntry, KeyValue.encoded, stringBytes, hlen, List.append_assoc, List.append_assoc]
  rw [hentry] at hfit ⊢
  obtain ⟨ctx₁, hhead, hwrote⟩ := h.encodeAt_fits ((emits_encodeInt label).bind (emits_encodeHead .bstr keySz))
    (Nat.le_trans (List.prefix_append _ data).length_le hfit)
  refine ⟨ctx₁.put data, ?_, hwrote.put hfit⟩
  rw [List.length_append] at hfit
  have hmax : ctx₁.bufSz ≤ sizeMax := ctx₁.buf.length_le
  have hidx := hwrote.idx
  have hsz := hwrote.bufSz
  simp only [encodeRsaMp, bind_eq_ok, pure_eq_ok, failWhen_eq_ok, rejectIf_eq_ok, orCrypto_eq_ok, exists_const,
    not_lt, gt_iff_lt, not_not]
  refine ⟨by omega, ctx₁, hhead, ?_, by omega, data, hdata, hlen, rfl⟩
  rw [sizeSum_eq (by omega)]
  omega

omit [Settings] [WolfCrypt] [KeyCrypt] in
/-- The encoding of the private components of an RSA key, entry by entry. -/
theorem RsaPrivate.flatMap_entries (priv : RsaPrivate) :
  priv.entries.flatMap keyEntry
    = intHead keyLabelY ++ (reservedBstr priv.d ++ (keyEntry (keyLabelRsaP, .bytes priv.p)
      ++ (keyEntry (keyLabelRsaQ, .bytes priv.q) ++ (keyEntry (keyLabelRsaDp, .bytes priv.dP)
        ++ (keyEntry (keyLabelRsaDq, .bytes priv.dQ) ++ keyEntry (keyLabelRsaQinv, .bytes priv.qInv))))))
  := by
  simp only [RsaPrivate.entries, List.flatMap_cons, List.flatMap_nil, List.append_nil]
  rw [keyEntry, List.append_assoc]
  rfl

/-- What the steps that encode the private components of an RSA key write. -/
theorem encodeRsaPrivate_ok [KeySettings] [RecipientCrypt] (hdoc : DocumentedExports) {rsaKey : RsaKey}
    {ctx ctx' : EncCtx} {sz : Nat} {bs : Bytes} (h : ctx.Wrote sz bs)
    (hrun : encodeRsaPrivate rsaKey ctx = .ok ctx') :
  ∃ priv, RsaExports rsaKey priv ∧ ctx'.Wrote sz (bs ++ priv.entries.flatMap keyEntry)
  := by
  simp only [encodeRsaPrivate, rsaCrtFields, List.foldlM_cons, List.foldlM_nil, bind_eq_ok, pure_eq_ok,
    failWhen_eq_ok, exists_const] at hrun
  obtain ⟨ctx₁, hlabel, ctx₂, hd, -, ctx₃, hp, ctx₄, hq, ctx₅, hdp, ctx₆, hdq, ctx₇, hu, rfl⟩ := hrun
  have h₁ := h.encodeAt_ok (emits_encodeInt keyLabelY) hlabel
  obtain ⟨d, modSz, padded, hmod, hsize, hdExport, hdPos, hdLe, hpadded, h₂⟩ := exportRsaPrivate_ok hdoc h₁ hd
  obtain ⟨p, hpExport, h₃⟩ := encodeRsaMp_ok h₂ hp
  obtain ⟨q, hqExport, h₄⟩ := encodeRsaMp_ok h₃ hq
  obtain ⟨dP, hdpExport, h₅⟩ := encodeRsaMp_ok h₄ hdp
  obtain ⟨dQ, hdqExport, h₆⟩ := encodeRsaMp_ok h₅ hdq
  obtain ⟨qInv, huExport, h₇⟩ := encodeRsaMp_ok h₆ hu
  refine ⟨⟨padded, p, q, dP, dQ, qInv⟩, ⟨hmod, ⟨d, modSz, hsize, hdExport, hdPos, hdLe, hpadded⟩, ?_⟩, ?_⟩
  · simp only [List.forall_mem_cons, List.not_mem_nil, false_imp_iff, implies_true, and_true]
    exact ⟨hpExport, hqExport, hdpExport, hdqExport, huExport⟩
  · rw [RsaPrivate.flatMap_entries]
    simp only [List.append_assoc] at h₇
    exact h₇

omit [Settings] [WolfCrypt] [KeyCrypt] in
/-- A string takes at least a byte more than its content. -/
theorem lt_length_stringBytes (m : MajorType) (data : Bytes) :
  data.length < (stringBytes m data).length
  := by
  have hhead := List.length_pos_iff.mpr (preferredHead_ne_nil m data.length)
  rw [stringBytes, List.length_append]
  omega

omit [Settings] [WolfCrypt] [KeyCrypt] in
theorem intHead_ne_nil (v : Int) :
  intHead v ≠ []
  := by
  unfold intHead
  split <;> apply preferredHead_ne_nil

/-- The private components of an RSA key are encoded if they fit: the entries behind the private
exponent take as much space as wolfCrypt needs to export it. -/
theorem encodeRsaPrivate_fits [KeySettings] [RecipientCrypt] (hdoc : DocumentedExports) {rsaKey : RsaKey}
    {ctx : EncCtx} {sz : Nat} {bs : Bytes} {priv : RsaPrivate} (h : ctx.Wrote sz bs)
    (hpriv : RsaExports rsaKey priv) (hfit : (bs ++ priv.entries.flatMap keyEntry).length ≤ sz) :
  ∃ ctx', encodeRsaPrivate rsaKey ctx = .ok ctx' ∧ ctx'.Wrote sz (bs ++ priv.entries.flatMap keyEntry)
  := by
  have hmod := hpriv.modulus_pos
  obtain ⟨d, modSz, hsize, hdExport, -, -, hpadded⟩ := hpriv.d
  have hdlen := hdoc.rsaPrivate hdExport
  have hcrt := hpriv.crt
  simp only [List.forall_mem_cons, List.not_mem_nil, false_imp_iff, implies_true, and_true, ← hsize] at hcrt
  obtain ⟨⟨hp, hplen⟩, ⟨hq, hqlen⟩, ⟨hdp, hdplen⟩, ⟨hdq, hdqlen⟩, hu, hulen⟩ := hcrt
  have hhalf : 0 < (modSz + 1) / 2 := by omega
  -- each entry takes at least its label, a byte of the head and the integer
  have hentry {label : Int} {data : Bytes} (hlen : data.length = (modSz + 1) / 2) :
      (modSz + 1) / 2 + 2 ≤ (keyEntry (label, .bytes data)).length := by
    have hstring := lt_length_stringBytes .bstr data
    have hlabel := List.length_pos_iff.mpr (intHead_ne_nil label)
    rw [keyEntry, List.length_append]
    change _ ≤ (intHead label).length + (stringBytes .bstr data).length
    omega
  have hpaddedLen : priv.d.length = modSz := by
    rw [hpadded, List.length_append, List.length_replicate]
    omega
  rw [RsaPrivate.flatMap_entries] at hfit ⊢
  simp only [← List.append_assoc] at hfit ⊢
  obtain ⟨ctx₁, hlabel, h₁⟩ := h.encodeAt_fits (emits_encodeInt keyLabelY) (by
    simp only [List.length_append] at hfit ⊢
    omega)
  obtain ⟨ctx₂, hd, h₂⟩ := exportRsaPrivate_fits hdoc h₁ hpriv (by
    have h₃ := @hentry keyLabelRsaP _ hplen
    have h₄ := @hentry keyLabelRsaQ _ hqlen
    have h₅ := @hentry keyLabelRsaDp _ hdplen
    have h₆ := @hentry keyLabelRsaDq _ hdqlen
    have h₇ := @hentry keyLabelRsaQinv _ hulen
    have hreserved := length_reservedBstr priv.d
    rw [← hsize]
    simp only [List.length_append] at hfit ⊢
    split at hreserved <;> omega)
  have hstart {a b : Bytes} (hle : (a ++ b).length ≤ sz) : a.length ≤ sz :=
    Nat.le_trans (List.prefix_append a b).length_le hle
  obtain ⟨ctx₃, hp', h₃⟩ := encodeRsaMp_fits h₂ hhalf hp hplen (hstart (hstart (hstart (hstart hfit))))
  obtain ⟨ctx₄, hq', h₄⟩ := encodeRsaMp_fits h₃ hhalf hq hqlen (hstart (hstart (hstart hfit)))
  obtain ⟨ctx₅, hdp', h₅⟩ := encodeRsaMp_fits h₄ hhalf hdp hdplen (hstart (hstart hfit))
  obtain ⟨ctx₆, hdq', h₆⟩ := encodeRsaMp_fits h₅ hhalf hdq hdqlen (hstart hfit)
  obtain ⟨ctx₇, hu', h₇⟩ := encodeRsaMp_fits h₆ hhalf hu hulen hfit
  refine ⟨ctx₇, ?_, h₇⟩
  simp only [encodeRsaPrivate, rsaCrtFields, List.foldlM_cons, List.foldlM_nil, bind_eq_ok, pure_eq_ok,
    failWhen_eq_ok, exists_const, ← hsize]
  exact ⟨ctx₁, hlabel, ctx₂, hd, by omega, ctx₃, hp', ctx₄, hq', ctx₅, hdp', ctx₆, hdq', ctx₇, hu', rfl⟩

/-! ### Common entries -/

/-- What `encodeKeyStart` writes. -/
def keyStart (key : Key) (entries : Nat) : Bytes :=
  preferredHead .map (entries + keyOptionalEntries key) ++ key.commonEntries.flatMap keyEntry

omit [Settings] [KeyCrypt] in
theorem Key.encoding_eq (key : Key) (material : Material) :
  key.encoding material = keyStart key (material.entries.length + 1) ++ material.entries.flatMap keyEntry
  := by
  rw [Key.encoding, keyMap, keyStart, List.flatMap_append, List.length_append, length_commonEntries,
    List.append_assoc, Nat.add_comm 1, Nat.add_comm (_ + 1), Nat.add_assoc, Nat.add_comm 1, ← Nat.add_assoc]

omit [WolfCrypt] [KeyCrypt] in
theorem emits_encodeKeyBstr {label : Int} {data : Pointer} (h : data.isNull = false) :
  Emits (encodeKeyBstr label data) (keyEntry (label, .bytes data.bytes))
  := (emits_encodeInt label).bind (emits_encodeBstr h)

omit [KeyCrypt] in
theorem emits_encodeKeyOptionalFields (key : Key) :
  Emits (encodeKeyOptionalFields key)
    ((if hasKid key.kid then keyEntry (keyLabelKid, .bytes key.kid.bytes) else [])
      ++ if key.alg ≠ algUnset then keyEntry (keyLabelAlg, .int key.alg) else [])
  := by
  apply Emits.bind
  · apply Emits.onlyIf
    intro hkid
    exact (emits_encodeHead .uint _).bind (emits_encodeBstr hkid.1)
  · apply Emits.onlyIf
    intro _
    exact (emits_encodeHead .uint _).bind (emits_encodeInt key.alg)

omit [KeyCrypt] in
theorem emits_encodeKeyStart {key : Key} {entries : Nat} (h : 0 ≤ key.kty) :
  Emits (encodeKeyStart key entries) (keyStart key entries)
  := by
  have hkty : keyEntry (keyLabelKty, .int key.kty) = preferredHead .uint keyLabelKty.toNat
      ++ preferredHead .uint key.kty.toNat := by
    simp only [keyEntry, KeyValue.encoded, intHead, ge_iff_le, h, if_true]
    rfl
  have hoptional : key.commonEntries.flatMap keyEntry = preferredHead .uint keyLabelKty.toNat
      ++ (preferredHead .uint key.kty.toNat
        ++ ((if hasKid key.kid then keyEntry (keyLabelKid, .bytes key.kid.bytes) else [])
          ++ if key.alg ≠ algUnset then keyEntry (keyLabelAlg, .int key.alg) else [])) := by
    rw [Key.commonEntries, List.flatMap_cons, hkty, List.flatMap_append, List.append_assoc]
    congr 3
    · split <;> simp
    · split <;> simp
  rw [keyStart, hoptional]
  apply Emits.bind (emits_encodeHead .map _)
  apply Emits.bind (emits_encodeHead .uint _)
  apply Emits.bind (emits_encodeHead .uint _)
  apply emits_encodeKeyOptionalFields

/-! ### The families of keys -/

section

variable [KeySettings] [RecipientCrypt] {key : Key} {out : Buffer} {flags : UInt32} {ctx : EncCtx}

omit [Settings] [WolfCrypt] [KeyCrypt] [KeySettings] [RecipientCrypt] in
/-- The curves that have a key size are not negative. -/
theorem crv_nonneg {crv : Int} {n : Nat} (h : crvKeySize crv = .ok n) :
  0 ≤ crv
  := by
  unfold crvKeySize at h
  repeat' split at h
  all_goals first
    | (subst crv; decide)
    | cases h

omit [KeyCrypt] [KeySettings] [RecipientCrypt] in
theorem emits_encodeEc2Map {x y : Bytes} {d : Option Bytes} (hkty : 0 ≤ key.kty) (hcrv : 0 ≤ key.crv) :
  Emits (encodeEc2Map key x y d) (key.encoding (.ec2 key.crv x y d))
  := by
  have hentries : key.encoding (.ec2 key.crv x y d)
      = keyStart key (if d.isSome then 5 else 4) ++ (intHead keyLabelCrv ++ (preferredHead .uint key.crv.toNat
        ++ (keyEntry (keyLabelX, .bytes x) ++ (keyEntry (keyLabelY, .bytes y)
          ++ if d.isSome = true then keyEntry (keyLabelD, .bytes (d.getD [])) else [])))) := by
    have hcrv' : keyEntry (keyLabelCrv, .int key.crv) = intHead keyLabelCrv ++ preferredHead .uint key.crv.toNat := by
      simp only [keyEntry, KeyValue.encoded, intHead, ge_iff_le, hcrv, if_true]
    rw [Key.encoding_eq]
    cases d with
    | none => simp [Material.entries, optionalEntry, hcrv']
    | some d => simp [Material.entries, optionalEntry, hcrv']
  rw [hentries]
  apply Emits.bind (emits_encodeKeyStart hkty)
  apply Emits.bind (emits_encodeInt _)
  apply Emits.bind (emits_encodeHead .uint _)
  apply Emits.bind (emits_encodeKeyBstr rfl)
  apply Emits.bind (emits_encodeKeyBstr rfl)
  apply Emits.onlyIf
  intro _
  exact emits_encodeKeyBstr rfl

omit [KeySettings] in
/-- The components of an EC2 key. -/
theorem exportEc2_eq_ok {x y : Bytes} {d : Option Bytes} :
  exportEc2 key flags = .ok (x, y, d)
    ↔ ∃ coordSz eccKey, crvKeySize key.crv = .ok coordSz ∧ key.object = .ecc eccKey
      ∧ eccExportPublicRaw eccKey 66 = some (x, y) ∧ x.length = coordSz ∧ y.length = coordSz
      ∧ Emitted (keyEmitsPrivate key flags)
        (fun d => eccExportPrivateOnly eccKey 66 = some d ∧ d.length = coordSz) d
  := by
  simp only [exportEc2, bind_eq_ok, failWhen_eq_ok, lift_eq_ok, orCrypto_eq_ok, KeyObject.asEcc_eq_ok, exists_const,
    Prod.exists, not_or, not_not]
  constructor
  · rintro ⟨-, coordSz, hcoord, eccKey, hobject, x', y', hpublic, ⟨hx, hy⟩, hprivate⟩
    split at hprivate
    · simp only [bind_eq_ok, failWhen_eq_ok, orCrypto_eq_ok, pure_eq_ok, exists_const, not_not, Prod.mk.injEq] at hprivate
      obtain ⟨d', hd, hlen, rfl, rfl, rfl⟩ := hprivate
      exact ⟨coordSz, eccKey, hcoord, hobject, hpublic, hx, hy, by assumption, hd, hlen⟩
    · simp only [pure_eq_ok, Prod.mk.injEq] at hprivate
      obtain ⟨rfl, rfl, rfl⟩ := hprivate
      exact ⟨coordSz, eccKey, hcoord, hobject, hpublic, hx, hy, Bool.eq_false_iff.mpr (by assumption)⟩
  · rintro ⟨coordSz, eccKey, hcoord, hobject, hpublic, hx, hy, hprivate⟩
    refine ⟨by rw [hobject]; exact Bool.false_ne_true, coordSz, hcoord, eccKey, hobject, x, y, hpublic, ⟨hx, hy⟩, ?_⟩
    cases d with
    | none =>
        rw [if_neg (Bool.eq_false_iff.mp hprivate)]
        rfl
    | some d =>
        obtain ⟨hemits, hd, hlen⟩ := hprivate
        rw [if_pos hemits]
        simp only [bind_eq_ok, failWhen_eq_ok, orCrypto_eq_ok, pure_eq_ok, exists_const, not_not]
        exact ⟨d, hd, hlen, rfl⟩

omit [KeySettings] [RecipientCrypt] [KeyCrypt] [WolfCrypt] in
/-- What is written from the start of a buffer. -/
theorem wrote_encodeAt_init {p : Enc Unit} {a : Bytes} (hp : Emits p a) (h : encodeAt p (.init out) = .ok ctx) :
  ctx.Wrote out.bytes.length a
  := by
  have hwrote := (EncCtx.Wrote.init out).encodeAt_ok hp h
  rwa [List.nil_append] at hwrote

omit [KeySettings] [RecipientCrypt] [KeyCrypt] [WolfCrypt] in
theorem encodeAt_init_fits {p : Enc Unit} {a : Bytes} (hp : Emits p a) (hfit : a.length ≤ out.bytes.length) :
  ∃ ctx, encodeAt p (.init out) = .ok ctx ∧ ctx.Wrote out.bytes.length a
  := by
  have h := (EncCtx.Wrote.init out).encodeAt_fits hp
  rw [List.nil_append] at h
  exact h hfit

omit [Settings] [KeySettings] [RecipientCrypt] [KeyCrypt] in
theorem kty_nonneg {kty : Int} (h : key.kty = kty) (hpos : 0 ≤ kty) :
  0 ≤ key.kty
  := by
  rw [h]
  exact hpos

theorem keyEncodeEc2_ok (hecc : haveEcc = true) (hkty : key.kty = ktyEc2) (h : keyEncodeEc2 key out flags = .ok ctx) :
  ∃ material, KeyHas key flags material ∧ ctx.Wrote out.bytes.length (key.encoding material)
  := by
  simp only [keyEncodeEc2, bind_eq_ok, Prod.exists] at h
  obtain ⟨x, y, d, hexport, hencode⟩ := h
  obtain ⟨coordSz, eccKey, hcoord, hobject, hpublic, hx, hy, hprivate⟩ := exportEc2_eq_ok.mp hexport
  refine ⟨_, .ec2 hecc hkty hobject hcoord hpublic hx hy hprivate, ?_⟩
  exact wrote_encodeAt_init (emits_encodeEc2Map (kty_nonneg hkty (by decide)) (crv_nonneg hcoord)) hencode

omit [KeySettings] in
theorem keyEncodeEc2_fits {eccKey : EccKey} {coordSz : Nat} {x y : Bytes} {d : Option Bytes}
    (hkty : key.kty = ktyEc2) (hobject : key.object = .ecc eccKey) (hcoord : crvKeySize key.crv = .ok coordSz)
    (hpublic : eccExportPublicRaw eccKey 66 = some (x, y)) (hx : x.length = coordSz) (hy : y.length = coordSz)
    (hprivate : Emitted (keyEmitsPrivate key flags)
      (fun d => eccExportPrivateOnly eccKey 66 = some d ∧ d.length = coordSz) d)
    (hfit : (key.encoding (.ec2 key.crv x y d)).length ≤ out.bytes.length) :
  ∃ ctx, keyEncodeEc2 key out flags = .ok ctx
  := by
  have hexport := exportEc2_eq_ok.mpr ⟨coordSz, eccKey, hcoord, hobject, hpublic, hx, hy, hprivate⟩
  have hemits : Emits (encodeEc2Map key x y d) (key.encoding (.ec2 key.crv x y d)) :=
    emits_encodeEc2Map (kty_nonneg hkty (by decide)) (crv_nonneg hcoord)
  obtain ⟨ctx, hencode, -⟩ := encodeAt_init_fits hemits hfit
  refine ⟨ctx, ?_⟩
  simp only [keyEncodeEc2, bind_eq_ok, Prod.exists]
  exact ⟨x, y, d, hexport, hencode⟩

omit [RecipientCrypt] in
/-- Whether the private components of an RSA key are emitted. -/
theorem rsaEmitsPrivate_eq_ok {emits : Bool} {rsaKey : RsaKey} (hobject : key.object = .rsa rsaKey) :
  rsaEmitsPrivate key flags = .ok emits
    ↔ (haveRsaPrivateKey && keyEmitsPrivate key flags && !rsaHasDevice rsaKey) = emits
  := by
  unfold rsaEmitsPrivate
  rw [hobject]
  split
  · rename_i h
    rw [h.1, h.2]
    simp [KeyObject.asRsa]
  · rename_i h
    have hfalse : (haveRsaPrivateKey && keyEmitsPrivate key flags) = false := by
      rw [Bool.eq_false_iff, ne_eq, Bool.and_eq_true]
      exact h
    rw [hfalse, Bool.false_and]
    simp

omit [Settings] [KeySettings] [RecipientCrypt] [KeyCrypt] in
/-- The encoding of an RSA key, step by step. -/
theorem Key.encoding_rsa (key : Key) (n e : Bytes) (priv : Option RsaPrivate) :
  key.encoding (.rsa n e priv)
    = keyStart key (if priv.isSome then 9 else 3) ++ intHead keyLabelCrv ++ reservedBstr n
      ++ keyEntry (keyLabelX, .bytes e) ++ (priv.elim [] fun priv => priv.entries.flatMap keyEntry)
  := by
  have hn : keyEntry (keyLabelCrv, .reserved n) = intHead keyLabelCrv ++ reservedBstr n := rfl
  rw [Key.encoding_eq]
  cases priv with
  | none => simp [Material.entries, hn]
  | some priv =>
      have hlength : priv.entries.length = 6 := rfl
      simp [Material.entries, hn, hlength]

theorem keyEncodeRsa_ok (hdoc : DocumentedExports) (hpss : haveRsapss = true) (hkty : key.kty = ktyRsa)
    (h : keyEncodeRsa key out flags = .ok ctx) :
  ∃ material, KeyHas key flags material ∧ ctx.Wrote out.bytes.length (key.encoding material)
  := by
  simp only [keyEncodeRsa, bind_eq_ok, failWhen_eq_ok, KeyObject.asRsa_eq_ok, exists_const, Prod.exists] at h
  obtain ⟨-, emits, hemits, ctx₁, hstart, rsaKey, hobject, ctx₂, e, hpublic, ctx₃, hexponent, hprivate⟩ := h
  rw [rsaEmitsPrivate_eq_ok hobject] at hemits
  have h₁ := wrote_encodeAt_init
    ((emits_encodeKeyStart (kty_nonneg hkty (by decide))).bind (emits_encodeInt _)) hstart
  obtain ⟨n, nSz, hn, hpos, hle, h₂⟩ := exportRsaPublic_ok h₁ hpublic
  have h₃ := h₂.encodeAt_ok (emits_encodeKeyBstr rfl) hexponent
  cases emits with
  | false =>
      simp only [Bool.false_eq_true, if_false, pure_eq_ok] at hprivate
      subst hprivate
      have hhas : KeyHas key flags (.rsa n e none) := .rsa hpss hkty hobject hn hpos hle hemits
      refine ⟨_, hhas, ?_⟩
      rw [Key.encoding_rsa, Option.elim_none, List.append_nil]
      exact h₃
  | true =>
      simp only [if_true] at hprivate
      obtain ⟨priv, hexports, h₄⟩ := encodeRsaPrivate_ok hdoc h₃ hprivate
      have hhas : KeyHas key flags (.rsa n e (some priv)) :=
        .rsa hpss hkty hobject hn hpos hle ⟨hemits, hexports⟩
      refine ⟨_, hhas, ?_⟩
      rw [Key.encoding_rsa]
      exact h₄

omit [Settings] [KeySettings] [RecipientCrypt] [KeyCrypt] [WolfCrypt] in
theorem length_intHead_le (v : Int) :
  (intHead v).length ≤ 9
  := by
  have hhead (m : MajorType) (n : Nat) : (preferredHead m n).length ≤ 9 := by
    rw [preferredHead, length_headBytes]
    cases Width.preferred n <;> decide
  unfold intHead
  split <;> apply hhead

omit [Settings] [KeySettings] [RecipientCrypt] [KeyCrypt] [WolfCrypt] in
theorem length_keyEntry_le (label : Int) (data : Bytes) :
  (keyEntry (label, .bytes data)).length ≤ 18 + data.length
  := by
  have hlabel := length_intHead_le label
  have hhead : (preferredHead .bstr data.length).length ≤ 9 := by
    rw [preferredHead, length_headBytes]
    cases Width.preferred data.length <;> decide
  change (intHead label ++ (preferredHead .bstr data.length ++ data)).length ≤ _
  rw [List.length_append, List.length_append]
  omega

/-- The private components of an RSA key are not large: their widths are those of the modulus. -/
theorem length_rsaPrivate_le (hdoc : DocumentedExports) {rsaKey : RsaKey} {priv : RsaPrivate}
    (h : RsaExports rsaKey priv) {modSz : Nat} (hmod : (rsaEncryptSize rsaKey).toNat = modSz) :
  (priv.entries.flatMap keyEntry).length ≤ 200 + 6 * modSz
  := by
  obtain ⟨d, -, rfl, hdExport, -, -, hpadded⟩ := h.d
  have hdlen := hdoc.rsaPrivate hdExport
  have hpos := h.modulus_pos
  have hcrt := h.crt
  simp only [List.forall_mem_cons, List.not_mem_nil, false_imp_iff, implies_true, and_true] at hcrt
  obtain ⟨⟨-, hplen⟩, ⟨-, hqlen⟩, ⟨-, hdplen⟩, ⟨-, hdqlen⟩, -, hulen⟩ := hcrt
  have hpaddedLen : priv.d.length = (rsaEncryptSize rsaKey).toNat := by
    rw [hpadded, List.length_append, List.length_replicate]
    omega
  have h₁ := length_keyEntry_le keyLabelRsaP priv.p
  have h₂ := length_keyEntry_le keyLabelRsaQ priv.q
  have h₃ := length_keyEntry_le keyLabelRsaDp priv.dP
  have h₄ := length_keyEntry_le keyLabelRsaDq priv.dQ
  have h₅ := length_keyEntry_le keyLabelRsaQinv priv.qInv
  have h₆ := length_intHead_le keyLabelY
  have h₇ := length_reservedBstr priv.d
  rw [RsaPrivate.flatMap_entries]
  simp only [List.length_append]
  split at h₇ <;> omega

omit [KeySettings] [RecipientCrypt] [KeyCrypt] [WolfCrypt] in
/-- A buffer has the length of an encoding, or it has more room but less than 4 GiB: the space that is left is
told wolfCrypt as a `word32`. -/
def Buffer.Suffices (out : Buffer) (n : Nat) : Prop :=
  out.bytes.length = n ∨ (n ≤ out.bytes.length ∧ out.bytes.length < 2 ^ 32)

omit [KeySettings] [RecipientCrypt] [KeyCrypt] [WolfCrypt] in
theorem Buffer.Suffices.le {out : Buffer} {n : Nat} (h : out.Suffices n) :
  n ≤ out.bytes.length
  := by
  obtain heq | ⟨hle, -⟩ := h
  · exact heq.ge
  · exact hle

omit [KeySettings] [RecipientCrypt] [KeyCrypt] [WolfCrypt] in
/-- The room behind the start of an encoding that is not large is a `word32`. -/
theorem Buffer.Suffices.lt {out : Buffer} {n m : Nat} (h : out.Suffices n) (hn : n < m + 2 ^ 32) :
  out.bytes.length < m + 2 ^ 32
  := by
  obtain heq | ⟨-, hlt⟩ := h
  · rwa [heq]
  · exact Nat.lt_of_lt_of_le hlt (Nat.le_add_left _ _)

theorem keyEncodeRsa_fits (hdoc : DocumentedExports) {rsaKey : RsaKey} {n e : Bytes} {nSz : Nat}
    {priv : Option RsaPrivate} (hkty : key.kty = ktyRsa) (hobject : key.object = .rsa rsaKey)
    (hn : rsaFlattenPublicKey rsaKey rsaEMaxSz nSz = some (e, n)) (hpos : 0 < n.length) (hle : n.length ≤ 65535)
    (hprivate : Emitted (haveRsaPrivateKey && keyEmitsPrivate key flags && !rsaHasDevice rsaKey)
      (RsaExports rsaKey) priv)
    (hsuffices : out.Suffices (key.encoding (.rsa n e priv)).length) :
  ∃ ctx, keyEncodeRsa key out flags = .ok ctx
  := by
  obtain ⟨hnLen, heLen, -, -⟩ := hdoc.rsaPublic hn
  have hemax : rsaEMaxSz = 8 := rfl
  have hentry := lt_length_stringBytes .bstr e
  have hlabel := List.length_pos_iff.mpr (intHead_ne_nil keyLabelX)
  have hentryLe := length_keyEntry_le keyLabelX e
  have hreserved := length_reservedBstr n
  have hkey : (keyEntry (keyLabelX, .bytes e)).length = (intHead keyLabelX).length + (stringBytes .bstr e).length :=
    List.length_append
  have hrest : (priv.elim [] fun priv => priv.entries.flatMap keyEntry).length ≤ 200 + 6 * n.length := by
    cases priv with
    | none => exact Nat.zero_le _
    | some priv =>
        apply length_rsaPrivate_le hdoc hprivate.2
        omega
  have hemits : rsaEmitsPrivate key flags = .ok priv.isSome := by
    rw [rsaEmitsPrivate_eq_ok hobject]
    cases priv with
    | none => exact hprivate
    | some priv => exact hprivate.1
  have hfit := hsuffices.le
  rw [Key.encoding_rsa] at hfit hsuffices
  simp only [List.length_append] at hfit hsuffices
  have hemitsStart : Emits (do encodeKeyStart key (if priv.isSome then 9 else 3); encodeInt keyLabelCrv)
      (keyStart key (if priv.isSome then 9 else 3) ++ intHead keyLabelCrv) :=
    (emits_encodeKeyStart (kty_nonneg hkty (by decide))).bind (emits_encodeInt _)
  obtain ⟨ctx₁, hstart, h₁⟩ : ∃ ctx, encodeAt _ (.init out) = .ok ctx ∧ ctx.Wrote out.bytes.length _ :=
    encodeAt_init_fits hemitsStart (by rw [List.length_append]; omega)
  obtain ⟨ctx₂, hpublic, h₂⟩ := exportRsaPublic_fits hdoc h₁ hn hpos hle (by
    rw [List.length_append]
    split at hreserved <;> omega) (by
    rw [List.length_append]
    apply hsuffices.lt
    split at hreserved <;> omega)
  have hemitsExponent : Emits (encodeKeyBstr keyLabelX (.mem e)) (keyEntry (keyLabelX, .bytes e)) :=
    emits_encodeKeyBstr rfl
  obtain ⟨ctx₃, hexponent, h₃⟩ := h₂.encodeAt_fits hemitsExponent (by
    simp only [List.length_append]
    omega)
  have hrun : ∃ ctx, (if priv.isSome = true then encodeRsaPrivate rsaKey ctx₃ else pure ctx₃) = .ok ctx := by
    cases priv with
    | none => exact ⟨ctx₃, rfl⟩
    | some priv =>
        obtain ⟨ctx₄, hrsa, -⟩ := encodeRsaPrivate_fits hdoc h₃ hprivate.2 (by
          simp only [List.length_append]
          exact hfit)
        exact ⟨ctx₄, hrsa⟩
  obtain ⟨ctx, hrsa⟩ := hrun
  refine ⟨ctx, ?_⟩
  simp only [keyEncodeRsa, bind_eq_ok, failWhen_eq_ok, KeyObject.asRsa_eq_ok, exists_const, Prod.exists]
  exact ⟨by rw [hobject]; exact Bool.false_ne_true, _, hemits, ctx₁, hstart, rsaKey, hobject, ctx₂, e, hpublic, ctx₃,
    hexponent, hrsa⟩

omit [KeySettings] [RecipientCrypt] in
/-- What the steps that export the public key of an ML-DSA key write. -/
theorem exportMlDsaPublic_ok {mldsaKey : MlDsaKey} {ctx' : EncCtx} {sz : Nat} {bs : Bytes} (h : ctx.Wrote sz bs)
    (hrun : exportMlDsaPublic mldsaKey ctx = .ok ctx') :
  ∃ pub pubSz, mlDsaExportPubRaw mldsaKey pubSz = some pub ∧ 256 ≤ pub.length ∧ pub.length ≤ 65535
    ∧ ctx'.Wrote sz (bs ++ reservedBstr pub)
  := by
  simp only [exportMlDsaPublic, bind_eq_ok, failWhen_eq_ok, orCrypto_eq_ok, reserveHead_eq_ok, exists_const] at hrun
  obtain ⟨pos, ⟨-, hpos⟩, pub, hpub, hlen, hfinalize⟩ := hrun
  exact ⟨pub, _, hpub, by omega, by omega, (h.reserved_ok hpos hfinalize).2⟩

theorem exportMlDsaPublic_fits (hdoc : DocumentedExports) {mldsaKey : MlDsaKey} {sz pubSz : Nat} {bs pub : Bytes}
    (h : ctx.Wrote sz bs) (hpub : mlDsaExportPubRaw mldsaKey pubSz = some pub) (hpos : 256 ≤ pub.length)
    (hle : pub.length ≤ 65535) (hfit : bs.length + 3 + pub.length ≤ sz) (hword : sz < bs.length + 3 + 2 ^ 32) :
  ∃ ctx', exportMlDsaPublic mldsaKey ctx = .ok ctx' ∧ ctx'.Wrote sz (bs ++ reservedBstr pub)
  := by
  obtain ⟨hreserve, -, ctx', hfinalize, hwrote⟩ := h.reserved_fits hfit
  have hsz := h.bufSz
  have hspace : toWord32 (ctx.bufSz - (bs.length + 3)) = sz - (bs.length + 3) := by
    rw [hsz]
    apply Nat.mod_eq_of_lt
    omega
  have hexport := (hdoc.mlDsaPublic hpub).2.2 (sz - (bs.length + 3)) (by omega)
  refine ⟨ctx', ?_, hwrote⟩
  simp only [exportMlDsaPublic, bind_eq_ok, failWhen_eq_ok, orCrypto_eq_ok, exists_const]
  refine ⟨_, hreserve, pub, ?_, by omega, hfinalize⟩
  rw [hspace]
  exact hexport

omit [Settings] [KeySettings] [RecipientCrypt] [KeyCrypt] in
/-- The encoding of an AKP key, step by step. -/
theorem Key.encoding_akp (key : Key) (pub : Bytes) (seed : Option Bytes) :
  key.encoding (.akp pub seed)
    = keyStart key (if seed.isSome then 3 else 2) ++ intHead keyLabelPub ++ reservedBstr pub
      ++ (optionalEntry keyLabelPriv seed).flatMap keyEntry
  := by
  have hpub : keyEntry (keyLabelPub, .reserved pub) = intHead keyLabelPub ++ reservedBstr pub := rfl
  rw [Key.encoding_eq]
  cases seed with
  | none => simp [Material.entries, optionalEntry, hpub]
  | some seed => simp [Material.entries, optionalEntry, hpub]

omit [KeySettings] [RecipientCrypt] [KeyCrypt] in
/-- The steps that encode the seed of an ML-DSA key. -/
theorem emits_seed {seed : Option Bytes}
    (h : Emitted (mlDsaEmitsPrivate key flags) (fun seed => seed = key.mldsaSeed.bytes) seed) :
  Emits (onlyIf (mlDsaEmitsPrivate key flags = true) (encodeKeyBstr keyLabelPriv key.mldsaSeed))
    ((optionalEntry keyLabelPriv seed).flatMap keyEntry)
  := by
  have hentry : (optionalEntry keyLabelPriv seed).flatMap keyEntry
      = if mlDsaEmitsPrivate key flags = true then keyEntry (keyLabelPriv, .bytes key.mldsaSeed.bytes) else [] := by
    cases seed with
    | none =>
        rw [if_neg (Bool.eq_false_iff.mp h)]
        rfl
    | some seed =>
        obtain ⟨hemits, rfl⟩ := h
        rw [if_pos hemits]
        simp [optionalEntry]
  rw [hentry]
  apply Emits.onlyIf
  intro hemits
  apply emits_encodeKeyBstr
  unfold mlDsaEmitsPrivate at hemits
  simp only [Bool.and_eq_true, Bool.not_eq_true'] at hemits
  exact hemits.1.2

omit [KeySettings] [RecipientCrypt] [KeyCrypt] in
/-- Whether the seed of an ML-DSA key is emitted decides whether it is a component. -/
theorem emitted_seed (key : Key) (flags : UInt32) :
  ∃ seed, Emitted (mlDsaEmitsPrivate key flags) (fun seed => seed = key.mldsaSeed.bytes) seed
    ∧ seed.isSome = mlDsaEmitsPrivate key flags
  := by
  cases h : mlDsaEmitsPrivate key flags with
  | false => exact ⟨none, rfl, rfl⟩
  | true => exact ⟨some key.mldsaSeed.bytes, ⟨rfl, rfl⟩, rfl⟩

omit [RecipientCrypt] [KeySettings] in
theorem keyEncodeAkp_ok [KeySettings] [RecipientCrypt] (hmldsa : haveMldsa = true) (hkty : key.kty = ktyAkp)
    (h : keyEncodeAkp key out flags = .ok ctx) :
  ∃ material, KeyHas key flags material ∧ ctx.Wrote out.bytes.length (key.encoding material)
  := by
  simp only [keyEncodeAkp, bind_eq_ok, failWhen_eq_ok, KeyObject.asMldsa_eq_ok, exists_const] at h
  obtain ⟨-, halg, ctx₁, hstart, mldsaKey, hobject, ctx₂, hpublic, hseed⟩ := h
  obtain ⟨seed, hemitted, hisSome⟩ := emitted_seed key flags
  have h₁ := wrote_encodeAt_init
    ((emits_encodeKeyStart (kty_nonneg hkty (by decide))).bind (emits_encodeInt _)) hstart
  obtain ⟨pub, pubSz, hpub, hpos, hle, h₂⟩ := exportMlDsaPublic_ok h₁ hpublic
  have h₃ := h₂.encodeAt_ok (emits_seed hemitted) hseed
  refine ⟨_, .akp hmldsa hkty hobject halg hpub hpos hle hemitted, ?_⟩
  rw [Key.encoding_akp, hisSome]
  exact h₃

theorem keyEncodeAkp_fits (hdoc : DocumentedExports) {mldsaKey : MlDsaKey} {pub : Bytes} {pubSz : Nat}
    {seed : Option Bytes} (hkty : key.kty = ktyAkp) (hobject : key.object = .mldsa mldsaKey)
    (halg : key.alg ≠ algUnset) (hpub : mlDsaExportPubRaw mldsaKey pubSz = some pub) (hpos : 256 ≤ pub.length)
    (hle : pub.length ≤ 65535)
    (hseed : Emitted (mlDsaEmitsPrivate key flags) (fun seed => seed = key.mldsaSeed.bytes) seed)
    (hsuffices : out.Suffices (key.encoding (.akp pub seed)).length) :
  ∃ ctx, keyEncodeAkp key out flags = .ok ctx
  := by
  have hreserved := length_reservedBstr pub
  rw [if_neg (by omega)] at hreserved
  have hseedLen : ((optionalEntry keyLabelPriv seed).flatMap keyEntry).length ≤ 50 := by
    cases seed with
    | none => exact Nat.zero_le _
    | some seed =>
        obtain ⟨hemits, rfl⟩ := hseed
        have hentry := length_keyEntry_le keyLabelPriv key.mldsaSeed.bytes
        unfold mlDsaEmitsPrivate at hemits
        simp only [Bool.and_eq_true, Bool.not_eq_true', decide_eq_true_eq] at hemits
        have hvalid : key.mldsaSeed.Valid := fun hnull => absurd hnull (by rw [hemits.1.2]; exact Bool.false_ne_true)
        have hlen : key.mldsaSeed.bytes.length = 32 := by
          rw [← hvalid.len_eq]
          exact hemits.2
        simp only [optionalEntry, Option.toList_some, List.map_cons, List.map_nil, List.flatMap_cons, List.flatMap_nil,
          List.append_nil]
        omega
  have hisSome : seed.isSome = mlDsaEmitsPrivate key flags := by
    cases seed with
    | none => exact hseed.symm
    | some seed => exact hseed.1.symm
  have hfit := hsuffices.le
  rw [Key.encoding_akp, hisSome] at hfit hsuffices
  simp only [List.length_append] at hfit hsuffices
  have hemitsStart : Emits (do encodeKeyStart key (if mlDsaEmitsPrivate key flags then 3 else 2); encodeInt keyLabelPub)
      (keyStart key (if mlDsaEmitsPrivate key flags then 3 else 2) ++ intHead keyLabelPub) :=
    (emits_encodeKeyStart (kty_nonneg hkty (by decide))).bind (emits_encodeInt _)
  obtain ⟨ctx₁, hstart, h₁⟩ : ∃ ctx, encodeAt _ (.init out) = .ok ctx ∧ ctx.Wrote out.bytes.length _ :=
    encodeAt_init_fits hemitsStart (by rw [List.length_append]; omega)
  obtain ⟨ctx₂, hpublic, h₂⟩ := exportMlDsaPublic_fits hdoc h₁ hpub hpos hle
    (by rw [List.length_append]; omega) (by
    rw [List.length_append]
    apply hsuffices.lt
    omega)
  obtain ⟨ctx₃, hrun, -⟩ := h₂.encodeAt_fits (emits_seed hseed) (by
    simp only [List.length_append]
    omega)
  refine ⟨ctx₃, ?_⟩
  simp only [keyEncodeAkp, bind_eq_ok, failWhen_eq_ok, KeyObject.asMldsa_eq_ok, exists_const]
  exact ⟨by rw [hobject]; exact Bool.false_ne_true, halg, ctx₁, hstart, mldsaKey, hobject, ctx₂, hpublic, hrun⟩

omit [Settings] [KeySettings] [RecipientCrypt] [KeyCrypt] in
/-- An HSS-LMS key that may be encoded. -/
theorem lmsKeyCheckEncode_eq_ok {lmsKey : LmsKey} :
  lmsKeyCheckEncode key = .ok lmsKey
    ↔ key.attachedType = .lms ∧ key.object = .lms lmsKey ∧ (key.alg = algUnset ∨ key.alg = algHssLms)
      ∧ lmsState lmsKey ≠ .other
  := by
  simp only [lmsKeyCheckEncode, bind_eq_ok, failWhen_eq_ok, KeyObject.asLms_eq_ok, pure_eq_ok, exists_const,
    not_not, not_and_or]
  constructor
  · rintro ⟨htype, -, halg, lmsKey, hobject, hstate, rfl⟩
    exact ⟨htype, hobject, halg, hstate⟩
  · rintro ⟨htype, hobject, halg, hstate⟩
    exact ⟨htype, by rw [hobject]; exact Bool.false_ne_true, halg, lmsKey, hobject, hstate, rfl⟩

omit [KeySettings] [RecipientCrypt] [KeyCrypt] in
theorem emits_lms {pub : Bytes} (hkty : 0 ≤ key.kty) :
  Emits (do encodeKeyStart key 2; encodeKeyBstr keyLabelPub (.mem pub)) (key.encoding (.lms pub))
  := by
  have hentries : key.encoding (.lms pub) = keyStart key 2 ++ keyEntry (keyLabelPub, .bytes pub) := by
    rw [Key.encoding_eq]
    simp [Material.entries]
  rw [hentries]
  exact (emits_encodeKeyStart hkty).bind (emits_encodeKeyBstr rfl)

theorem keyEncodeLms_ok (hlms : haveLms = true) (hkty : key.kty = ktyHssLms) (h : keyEncodeLms key out = .ok ctx) :
  ∃ material, KeyHas key flags material ∧ ctx.Wrote out.bytes.length (key.encoding material)
  := by
  simp only [keyEncodeLms, bind_eq_ok, orCrypto_eq_ok] at h
  obtain ⟨lmsKey, hcheck, pub, hpub, hencode⟩ := h
  exact ⟨_, .lms hlms hkty hcheck hpub, wrote_encodeAt_init (emits_lms (kty_nonneg hkty (by decide))) hencode⟩

omit [KeySettings] [RecipientCrypt] in
theorem keyEncodeLms_fits {lmsKey : LmsKey} {pub : Bytes} (hkty : key.kty = ktyHssLms)
    (hcheck : lmsKeyCheckEncode key = .ok lmsKey) (hpub : lmsExportPubRaw lmsKey hssMaxPublicKeyLen = some pub)
    (hfit : (key.encoding (.lms pub)).length ≤ out.bytes.length) :
  ∃ ctx, keyEncodeLms key out = .ok ctx
  := by
  obtain ⟨ctx, hencode, -⟩ := encodeAt_init_fits (emits_lms (kty_nonneg hkty (by decide))) hfit
  refine ⟨ctx, ?_⟩
  simp only [keyEncodeLms, bind_eq_ok, orCrypto_eq_ok]
  exact ⟨lmsKey, hcheck, pub, hpub, hencode⟩

omit [KeySettings] [RecipientCrypt] in
/-- The object of an OKP key whose public key is exported. -/
theorem exportOkpPublic_eq_ok {x : Bytes} :
  exportOkpPublic key = .ok x
    ↔ (haveEddsa = true ∧ key.crv = crvEd25519
        ∧ ∃ edKey, key.object = .ed25519 edKey ∧ ed25519ExportPublic edKey 57 = some x)
      ∨ (haveEd448 = true ∧ key.crv = crvEd448
        ∧ ∃ edKey, key.object = .ed448 edKey ∧ ed448ExportPublic edKey 57 = some x)
  := by
  have hne : crvEd25519 ≠ crvEd448 := by decide
  unfold exportOkpPublic
  constructor
  · intro h
    split at h
    · rename_i hcrv
      simp only [bind_eq_ok, failWhen_eq_ok, KeyObject.asEd25519_eq_ok, orCrypto_eq_ok, exists_const] at h
      exact .inl ⟨hcrv.1, hcrv.2, h.2⟩
    · split at h
      · rename_i hcrv
        simp only [bind_eq_ok, failWhen_eq_ok, KeyObject.asEd448_eq_ok, orCrypto_eq_ok, exists_const] at h
        exact .inr ⟨hcrv.1, hcrv.2, h.2⟩
      · cases h
  · rintro (⟨hed, hcrv, edKey, hobject, hexport⟩ | ⟨hed, hcrv, edKey, hobject, hexport⟩)
    · rw [if_pos ⟨hed, hcrv⟩, hobject]
      simp only [bind_eq_ok, failWhen_eq_ok, KeyObject.asEd25519_eq_ok, orCrypto_eq_ok, exists_const]
      exact ⟨Bool.false_ne_true, edKey, rfl, hexport⟩
    · rw [if_neg (fun h => hne (h.2.symm.trans hcrv)), if_pos ⟨hed, hcrv⟩, hobject]
      simp only [bind_eq_ok, failWhen_eq_ok, KeyObject.asEd448_eq_ok, orCrypto_eq_ok, exists_const]
      exact ⟨Bool.false_ne_true, edKey, rfl, hexport⟩

omit [KeySettings] [RecipientCrypt] in
theorem okpCrv_nonneg {x : Bytes} (h : exportOkpPublic key = .ok x) :
  0 ≤ key.crv
  := by
  rcases exportOkpPublic_eq_ok.mp h with ⟨-, hcrv, -⟩ | ⟨-, hcrv, -⟩
  all_goals
    rw [hcrv]
    decide

omit [KeySettings] [RecipientCrypt] [KeyCrypt] in
theorem emits_encodeOkpPublic {emits : Bool} {x : Bytes} (hkty : 0 ≤ key.kty) (hcrv : 0 ≤ key.crv) :
  Emits (encodeOkpPublic key emits x)
    (keyStart key (if emits then 4 else 3) ++ (keyEntry (keyLabelCrv, .int key.crv) ++ keyEntry (keyLabelX, .bytes x)))
  := by
  have hentry : keyEntry (keyLabelCrv, .int key.crv) = intHead keyLabelCrv ++ preferredHead .uint key.crv.toNat := by
    simp only [keyEntry, KeyValue.encoded, intHead, ge_iff_le, hcrv, if_true]
  rw [hentry, List.append_assoc]
  apply Emits.bind (emits_encodeKeyStart hkty)
  apply Emits.bind (emits_encodeInt _)
  apply Emits.bind (emits_encodeHead .uint _)
  exact emits_encodeKeyBstr rfl

omit [Settings] [KeySettings] [RecipientCrypt] [KeyCrypt] in
/-- The encoding of an OKP key, step by step. -/
theorem Key.encoding_okp (key : Key) (x : Bytes) (d : Option Bytes) :
  key.encoding (.okp key.crv x d)
    = keyStart key (if d.isSome then 4 else 3)
      ++ (keyEntry (keyLabelCrv, .int key.crv) ++ keyEntry (keyLabelX, .bytes x))
      ++ (optionalEntry keyLabelD d).flatMap keyEntry
  := by
  rw [Key.encoding_eq]
  cases d with
  | none => simp [Material.entries, optionalEntry]
  | some d => simp [Material.entries, optionalEntry]

theorem keyEncodeOkp_ok (hkty : key.kty = ktyOkp) (h : keyEncodeOkp key out flags = .ok ctx) :
  ∃ material, KeyHas key flags material ∧ ctx.Wrote out.bytes.length (key.encoding material)
  := by
  simp only [keyEncodeOkp, bind_eq_ok] at h
  obtain ⟨x, hpublic, ctx₁, hencode, hprivate⟩ := h
  have h₁ := wrote_encodeAt_init
    (emits_encodeOkpPublic (kty_nonneg hkty (by decide)) (okpCrv_nonneg hpublic)) hencode
  split at hprivate
  · rename_i hemits
    simp only [bind_eq_ok] at hprivate
    obtain ⟨d, hd, hdEncode⟩ := hprivate
    have h₂ := h₁.encodeAt_ok (emits_encodeKeyBstr rfl) hdEncode
    have hhas : KeyHas key flags (.okp key.crv x (some d)) := .okp hkty hpublic ⟨hemits, hd⟩
    refine ⟨_, hhas, ?_⟩
    rw [hemits] at h₂
    rw [Key.encoding_okp]
    simp only [optionalEntry, Option.toList_some, List.map_cons, List.map_nil, List.flatMap_cons, List.flatMap_nil,
      List.append_nil]
    exact h₂
  · rename_i hemits
    rw [Bool.not_eq_true] at hemits
    simp only [pure_eq_ok] at hprivate
    subst hprivate
    have hhas : KeyHas key flags (.okp key.crv x none) := .okp hkty hpublic hemits
    refine ⟨_, hhas, ?_⟩
    rw [hemits] at h₁
    rw [Key.encoding_okp]
    simp only [optionalEntry, Option.toList_none, List.map_nil, List.flatMap_nil, List.append_nil]
    exact h₁

omit [KeySettings] [RecipientCrypt] in
theorem keyEncodeOkp_fits {x : Bytes} {d : Option Bytes} (hkty : key.kty = ktyOkp)
    (hpublic : exportOkpPublic key = .ok x)
    (hprivate : Emitted (keyEmitsPrivate key flags) (fun d => exportOkpPrivate key = .ok d) d)
    (hfit : (key.encoding (.okp key.crv x d)).length ≤ out.bytes.length) :
  ∃ ctx, keyEncodeOkp key out flags = .ok ctx
  := by
  have hisSome : d.isSome = keyEmitsPrivate key flags := by
    cases d with
    | none => exact hprivate.symm
    | some d => exact hprivate.1.symm
  have hemits : Emits (encodeOkpPublic key (keyEmitsPrivate key flags) x)
      (keyStart key (if keyEmitsPrivate key flags then 4 else 3)
        ++ (keyEntry (keyLabelCrv, .int key.crv) ++ keyEntry (keyLabelX, .bytes x))) :=
    emits_encodeOkpPublic (kty_nonneg hkty (by decide)) (okpCrv_nonneg hpublic)
  rw [Key.encoding_okp, hisSome] at hfit
  obtain ⟨ctx₁, hencode, h₁⟩ := encodeAt_init_fits hemits
    (Nat.le_trans (List.prefix_append _ _).length_le hfit)
  simp only [keyEncodeOkp, bind_eq_ok]
  cases d with
  | none =>
      refine ⟨ctx₁, x, hpublic, ctx₁, hencode, ?_⟩
      rw [if_neg (Bool.eq_false_iff.mp hprivate)]
      rfl
  | some d =>
      have hentry : Emits (encodeKeyBstr keyLabelD (.mem d)) (keyEntry (keyLabelD, .bytes d)) := emits_encodeKeyBstr rfl
      simp only [optionalEntry, Option.toList_some, List.map_cons, List.map_nil, List.flatMap_cons, List.flatMap_nil,
        List.append_nil] at hfit
      obtain ⟨ctx₂, hdEncode, -⟩ := h₁.encodeAt_fits hentry hfit
      refine ⟨ctx₂, x, hpublic, ctx₁, hencode, ?_⟩
      rw [if_pos hprivate.1]
      simp only [bind_eq_ok]
      exact ⟨d, hprivate.2, hdEncode⟩

omit [KeySettings] [RecipientCrypt] [KeyCrypt] in
/-- A symmetric key that may be encoded has bytes. -/
theorem symmKey_of_check (hcheck : symmetricKeyCheckEncode key flags = .ok ()) {p : Pointer}
    (h : key.symmKey = .ok p) :
  ∃ k, p = .mem k
  := by
  simp only [symmetricKeyCheckEncode, bind_eq_ok, failWhen_eq_ok, exists_const, not_or] at hcheck
  obtain ⟨-, ⟨hnull, -⟩, -⟩ := hcheck
  unfold Key.symmKey at h
  split at h
  · rename_i hobject
    rw [hobject] at hnull
    exact absurd rfl hnull
  · simp only [bind_eq_ok, pure_eq_ok] at h
    obtain ⟨k, -, rfl⟩ := h
    exact ⟨k, rfl⟩

omit [Settings] [KeySettings] [RecipientCrypt] [KeyCrypt] in
theorem Key.encoding_symmetric (key : Key) (k : Bytes) :
  key.encoding (.symmetric k) = keyStart key 2 ++ keyEntry (keyLabelK, .bytes k)
  := by
  rw [Key.encoding_eq]
  simp [Material.entries]

theorem keyEncodeSymmetric_ok (hkty : key.kty = ktySymmetric) (h : keyEncodeSymmetric key out flags = .ok ctx) :
  ∃ material, KeyHas key flags material ∧ ctx.Wrote out.bytes.length (key.encoding material)
  := by
  simp only [keyEncodeSymmetric, bind_eq_ok] at h
  obtain ⟨_, hcheck, ctx₁, hstart, p, hp, hencode⟩ := h
  obtain ⟨k, rfl⟩ := symmKey_of_check hcheck hp
  have h₁ := wrote_encodeAt_init (emits_encodeKeyStart (kty_nonneg hkty (by decide))) hstart
  have hentry : Emits (encodeKeyBstr keyLabelK (.mem k)) (keyEntry (keyLabelK, .bytes k)) := emits_encodeKeyBstr rfl
  have h₂ := h₁.encodeAt_ok hentry hencode
  rw [← Key.encoding_symmetric] at h₂
  exact ⟨_, .symmetric hkty hcheck hp, h₂⟩

omit [KeySettings] [RecipientCrypt] [KeyCrypt] in
theorem keyEncodeSymmetric_fits {k : Bytes} (hkty : key.kty = ktySymmetric)
    (hcheck : symmetricKeyCheckEncode key flags = .ok ()) (hk : key.symmKey = .ok (.mem k))
    (hfit : (key.encoding (.symmetric k)).length ≤ out.bytes.length) :
  ∃ ctx, keyEncodeSymmetric key out flags = .ok ctx
  := by
  have hstart : Emits (encodeKeyStart key 2) (keyStart key 2) := emits_encodeKeyStart (kty_nonneg hkty (by decide))
  have hentry : Emits (encodeKeyBstr keyLabelK (.mem k)) (keyEntry (keyLabelK, .bytes k)) := emits_encodeKeyBstr rfl
  rw [Key.encoding_symmetric] at hfit
  obtain ⟨ctx₁, hencode, h₁⟩ := encodeAt_init_fits hstart (Nat.le_trans (List.prefix_append _ _).length_le hfit)
  obtain ⟨ctx₂, hkEncode, -⟩ := h₁.encodeAt_fits hentry hfit
  refine ⟨ctx₂, ?_⟩
  simp only [keyEncodeSymmetric, bind_eq_ok]
  exact ⟨(), hcheck, ctx₁, hencode, _, hk, hkEncode⟩

/-! ### All keys -/

/-- A key that is encoded has the components that are written. -/
theorem keyEncodeMap_ok (hdoc : DocumentedExports) (h : keyEncodeMap key out flags = .ok ctx) :
  ∃ material, KeyHas key flags material ∧ ctx.Wrote out.bytes.length (key.encoding material)
  := by
  unfold keyEncodeMap at h
  split at h
  · rename_i hfamily
    exact keyEncodeEc2_ok hfamily.1 hfamily.2 h
  split at h
  · rename_i hfamily
    exact keyEncodeRsa_ok hdoc hfamily.1 hfamily.2 h
  split at h
  · rename_i hfamily
    exact keyEncodeAkp_ok hfamily.1 hfamily.2 h
  split at h
  · rename_i hfamily
    exact keyEncodeLms_ok hfamily.1 hfamily.2 h
  split at h
  · rename_i hfamily
    exact keyEncodeOkp_ok hfamily.2 h
  split at h
  · rename_i hfamily
    exact keyEncodeSymmetric_ok hfamily h
  · cases h

/-- A key that has components is encoded into a buffer that suffices for their encoding. -/
theorem keyEncodeMap_fits (hdoc : DocumentedExports) {material : Material} (h : KeyHas key flags material)
    (hfit : out.Suffices (key.encoding material).length) :
  ∃ ctx, keyEncodeMap key out flags = .ok ctx
  := by
  unfold keyEncodeMap
  cases h with
  | ec2 hecc hkty hobject hcoord hpublic hx hy hprivate =>
      rw [if_pos ⟨hecc, hkty⟩]
      exact keyEncodeEc2_fits hkty hobject hcoord hpublic hx hy hprivate hfit.le
  | rsa hpss hkty hobject hn hpos hle hprivate =>
      rw [hkty, if_neg (fun h => absurd h.2 (by decide)), if_pos ⟨hpss, rfl⟩]
      exact keyEncodeRsa_fits hdoc hkty hobject hn hpos hle hprivate hfit
  | akp hmldsa hkty hobject halg hpub hpos hle hseed =>
      rw [hkty, if_neg (fun h => absurd h.2 (by decide)), if_neg (fun h => absurd h.2 (by decide)), if_pos ⟨hmldsa, rfl⟩]
      exact keyEncodeAkp_fits hdoc hkty hobject halg hpub hpos hle hseed hfit
  | lms hlms hkty hcheck hpub =>
      rw [hkty, if_neg (fun h => absurd h.2 (by decide)), if_neg (fun h => absurd h.2 (by decide)),
        if_neg (fun h => absurd h.2 (by decide)), if_pos ⟨hlms, rfl⟩]
      exact keyEncodeLms_fits hkty hcheck hpub hfit.le
  | okp hkty hpublic hprivate =>
      have hhave : haveEddsa = true ∨ haveEd448 = true :=
        (exportOkpPublic_eq_ok.mp hpublic).imp And.left And.left
      rw [hkty, if_neg (fun h => absurd h.2 (by decide)), if_neg (fun h => absurd h.2 (by decide)),
        if_neg (fun h => absurd h.2 (by decide)), if_neg (fun h => absurd h.2 (by decide)), if_pos ⟨hhave, rfl⟩]
      exact keyEncodeOkp_fits hkty hpublic hprivate hfit.le
  | symmetric hkty hcheck hk =>
      rw [hkty, if_neg (fun h => absurd h.2 (by decide)), if_neg (fun h => absurd h.2 (by decide)),
        if_neg (fun h => absurd h.2 (by decide)), if_neg (fun h => absurd h.2 (by decide)),
        if_neg (fun h => absurd h.2 (by decide)), if_pos rfl]
      exact keyEncodeSymmetric_fits hkty hcheck hk hfit.le

end

end WolfCose
