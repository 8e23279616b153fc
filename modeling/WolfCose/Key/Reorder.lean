import WolfCose.Hdr.Reorder
import WolfCose.Key.Import
import WolfCose.Key.Material
import WolfCose.Encrypt.Opened

/-!
# The order of the entries of a key

`wc_CoseKey_Decode` keeps the components by their labels and settles their meaning behind the walk, so
that a key is decoded in every order of its entries, to the same key.
-/

namespace WolfCose

open Program Cbor Settings KeySettings WolfCrypt RecipientCrypt RecipientSettings KeyCrypt

namespace KeyUpdate

/-- Updates that different entries make commute. -/
theorem apply_comm {u u' : KeyUpdate} (h : u.slot = none ∨ u'.slot = none ∨ u.slot ≠ u'.slot) (vars : KeyVars) :
  u.apply (u'.apply vars) = u'.apply (u.apply vars)
  := by
  cases u <;> cases u' <;> first
    | rfl
    | simp [slot] at h

end KeyUpdate

section

variable [Settings]

/-- An entry makes an update of its own label only. -/
theorem KeyEntry.slot {label : Int} {bs : Bytes} {u : KeyUpdate} (h : KeyEntry label bs u) :
  u.slot = none ∨ u.slot = some label
  := by
  have rsa : ∀ {store : Bytes → KeyUpdate}, RsaWrites store bs u → (∀ data, (store data).slot = some label) →
      u.slot = none ∨ u.slot = some label := by
    rintro store (⟨data, -, rfl⟩ | ⟨-, rfl⟩) hstore
    · exact .inr (hstore data)
    · exact .inl rfl
  cases h with
  | kty => exact .inr rfl
  | kid => exact .inr rfl
  | alg => exact .inr rfl
  | n => exact .inr rfl
  | crv => exact .inr rfl
  | x => exact .inr rfl
  | y => exact .inr rfl
  | d => exact .inr rfl
  | q h => exact rsa h fun _ => rfl
  | dp h => exact rsa h fun _ => rfl
  | dq h => exact rsa h fun _ => rfl
  | qi h => exact rsa h fun _ => rfl
  | other => exact .inl rfl

/-- The values of a key make updates. -/
theorem makes_keyValue [KeySettings] (l : Label) :
  Makes (fun u vars => KeyUpdate.apply vars u) (fun u => u.slot.map .int) l (fun bs => OfInteger KeyEntryValue l 0 bs)
  := by
  rintro bs s _ ⟨v, rfl, u, hu, rfl⟩
  refine ⟨hu.entry.skipped.dataItems, u, ?_, rfl, fun t => ⟨v, rfl, u, hu, rfl⟩⟩
  rcases hu.entry.slot with h | h
  · exact .inl (congrArg (Option.map Label.int) h)
  · exact .inr (congrArg (Option.map Label.int) h)

/-- The values of a key can be exchanged. -/
theorem exchangeable_keyValue [KeySettings] :
  Exchangeable (OfInteger KeyEntryValue)
  := by
  apply Exchangeable.of_updates makes_keyValue
  intro u u' s h
  apply KeyUpdate.apply_comm
  simpa only [Option.map_eq_none_iff, ne_eq, (Option.map_injective fun _ _ h => Label.int.inj h).eq_iff] using h

/-- A buffer of which nothing is left has been read to its end. -/
theorem DecCtx.Consumes.end_of_rest {b : Buffer} {bs : Bytes} {ctx : DecCtx} (h : (DecCtx.init b).Consumes bs ctx)
    (hrest : ctx.rest = []) :
  ctx.idx = ctx.bufSz
  := by
  have hbytes := h.rest_eq
  rw [DecCtx.rest_init, hrest, List.append_nil] at hbytes
  have hidx := h.idx_eq
  have hsz := h.bufSz_eq
  rw [hidx, hsz]
  change 0 + bs.length = b.bytes.length
  rw [hbytes, Nat.zero_add]

/-- The walk of `wc_CoseKey_Decode` finds the same in every order of the entries. -/
theorem walkKey_reordered [KeySettings] {m m' : RawMap} (hm : m.Reordered m') {input input' : Buffer}
    (hin : input.bytes = m.bytes) (hin' : input'.bytes = m'.bytes) {ctx : DecCtx} {vars : KeyVars}
    (h : walkKey decodeKeyValue .init input = (.ok ctx, vars)) :
  ∃ ctx', walkKey decodeKeyValue .init input' = (.ok ctx', vars) ∧ ctx.idx = ctx.bufSz ∧ ctx'.idx = ctx'.bufSz
  := by
  rw [walkKey_decodeKeyValue] at h
  obtain ⟨head, es, hmap, hc, hs⟩ := h
  have hitems : ∀ e ∈ es, DataItems 1 e.value := hs.forall fun l i bs s s' hv => (makes_keyValue l bs s s' hv).1
  have he : mapBytes head es ++ ctx.rest = m.bytes ++ [] := by
    rw [← hc.rest_eq, DecCtx.rest_init, hin, List.append_nil]
  obtain ⟨hend, es', hp, hmap', hd'⟩ := hmap.reordered hitems hm he
  have hrest' : (DecCtx.init input').rest = mapBytes head es' ++ [] := by
    rw [DecCtx.rest_init, hin', hd', List.append_nil]
  have hc' := DecCtx.consumes_of_rest hrest'
  refine ⟨_, walkKey_decodeKeyValue.mpr ⟨head, es', hmap', hc', ?_⟩, hc.end_of_rest hend, hc'.end_of_rest ?_⟩
  · exact hs.perm exchangeable_keyValue hp hmap.labels.nodup _
  · exact List.append_cancel_left (hc'.rest_eq.symm.trans hrest')

/-- The checks behind the walk see of the context only whether it is at the end. -/
theorem checkKeyVars_congr [KeySettings] {vars : KeyVars} {attached : AttachedType} {ctx ctx' : DecCtx}
    (h : ctx.idx = ctx.bufSz) (h' : ctx'.idx = ctx'.bufSz) :
  checkKeyVars vars attached ctx = checkKeyVars vars attached ctx'
  := by
  have hpass : ∀ c : DecCtx, c.idx = c.bufSz →
      (rejectIf (c.idx ≠ c.bufSz) .cborMalformed : Except Err Unit) = .ok () :=
    fun c hc => if_neg (not_not.mpr hc)
  unfold checkKeyVars
  rw [hpass ctx h, hpass ctx' h']

end

section

variable [Settings] [KeySettings] [RecipientSettings] [WolfCrypt] [KeyCrypt]

theorem keyDecode_of_reordered {m m' : RawMap} (hm : m.Reordered m') {input input' : Buffer}
    (hin : input.bytes = m.bytes) (hin' : input'.bytes = m'.bytes) {key key' : Key}
    (h : keyDecode (some key) (some input) = (.ok (), some key')) :
  keyDecode (some key) (some input') = (.ok (), some key')
  := by
  obtain ⟨hne, hdel, ctx, vars, hwalk, hcheck, himport⟩ := keyDecode_eq_ok.mp h
  obtain ⟨ctx', hwalk', hend, hend'⟩ := walkKey_reordered hm hin hin' hwalk
  rw [checkKeyVars_congr hend hend'] at hcheck
  refine keyDecode_eq_ok.mpr ⟨?_, hdel, ctx', vars, hwalk', hcheck, himport⟩
  intro hnil
  apply hne
  apply List.eq_nil_of_length_eq_zero
  rw [hin, hm.length_bytes, ← hin', hnil]
  rfl

/-- A key is decoded in every order of its entries, or in none, and to the same key with the same object. -/
theorem keyDecode_reordered {m m' : RawMap} (hm : m.Reordered m') {input input' : Buffer}
    (hin : input.bytes = m.bytes) (hin' : input'.bytes = m'.bytes) (key key' : Key) :
  keyDecode (some key) (some input) = (.ok (), some key') ↔ keyDecode (some key) (some input') = (.ok (), some key')
  := by
  constructor
  · apply keyDecode_of_reordered hm hin hin'
  · apply keyDecode_of_reordered hm.symm hin' hin

end

/-! ### Examples -/

section Instances

attribute [local instance] defaultSettings defaultRecipientSettings failingCrypt failingRecipientCrypt failingKeyCrypt
  sampleKeySettings

/-- The symmetric key that is decoded. -/
def sampleSymmetricKey : Key :=
  { Key.zero with kty := 4, object := .symm ([1, 2] : Bytes), symmKeyLen := 2, hasPrivate := true }

/-- The entry of the type of a symmetric key. -/
def sampleKtyEntry : RawEntry := ⟨preferredHead .uint 1, preferredHead .uint 4⟩

/-- The entry of the value of a symmetric key. -/
def sampleValueEntry : RawEntry := ⟨preferredHead .negint 0, stringBytes .bstr [1, 2]⟩

theorem sampleKeyEntries_wellFormed :
  sampleKtyEntry.WellFormed ∧ sampleValueEntry.WellFormed
  := ⟨⟨dataItems_integer (.inl rfl) (by decide), dataItems_integer (.inl rfl) (by decide)⟩,
    ⟨dataItems_integer (.inr rfl) (by decide), DataItems.of_string rfl (by decide)⟩⟩

/-- The key `{1: 4, -1: h'0102'}`. -/
def sampleKeyMap : RawMap :=
  .ofEntries [sampleKtyEntry, sampleValueEntry] (by decide)
    (List.forall_mem_cons.mpr
      ⟨sampleKeyEntries_wellFormed.1, List.forall_mem_singleton.mpr sampleKeyEntries_wellFormed.2⟩)

/-- The key `{-1: h'0102', 1: 4}`. -/
def sampleReorderedKeyMap : RawMap :=
  .ofEntries [sampleValueEntry, sampleKtyEntry] (by decide)
    (List.forall_mem_cons.mpr
      ⟨sampleKeyEntries_wellFormed.2, List.forall_mem_singleton.mpr sampleKeyEntries_wellFormed.1⟩)

/-- A symmetric key is decoded with its value before its type. -/
theorem keyDecode_reordered_symmetric :
  keyDecode (some .zero) (some ⟨[0xA2, 0x20, 0x42, 0x01, 0x02, 0x01, 0x04], by decide⟩)
    = (.ok (), some sampleSymmetricKey)
  := by
  have hm : sampleKeyMap.Reordered sampleReorderedKeyMap := RawMap.reordered_ofEntries (.swap _ _ _)
  have hdecoded : keyDecode (some .zero)
      (some ⟨[0xA2, 0x01, 0x04, 0x20, 0x42, 0x01, 0x02], by decide⟩) = (.ok (), some sampleSymmetricKey) := rfl
  exact (keyDecode_reordered hm rfl rfl .zero sampleSymmetricKey).mp hdecoded

end Instances

end WolfCose
