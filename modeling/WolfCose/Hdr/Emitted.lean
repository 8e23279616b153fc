import WolfCose.Codec.Tree
import WolfCose.Message
import WolfCose.Sig.Size

/-!
# Headers that the library writes

The library puts the algorithm into the protected bucket and byte strings, a kid or an
initialization vector, into the unprotected one.  The header decoders read these buckets back:
the header has the algorithm and the byte strings, and the algorithm counts as protected.
-/

namespace WolfCose

open Program Cbor Settings

variable [Settings]

/-! ### Accepted tokens -/

theorem bstrValue_stringBytes {flags : UInt32} {data : Bytes} (h : data.length < 2 ^ 64) :
  BstrValue flags (stringBytes .bstr data) data
  := ⟨.ofString .bstr data, accepted_ofString rfl h (by rintro ⟨⟩), ⟨rfl, rfl⟩,
    (Token.bytes_ofString .bstr data).symm⟩

/-! ### The protected bucket -/

/-- The entry of an algorithm. -/
def algEntry (alg : Int) : Entry :=
  ⟨intToken hdrAlg, .int hdrAlg, (intToken alg).bytes⟩

/-- The protected bucket holds the algorithm, if there is room for it. -/
theorem algProtectedHdr_eq_ok {alg : Int} {bs : Bytes} :
  algProtectedHdr alg = .ok bs
    ↔ bs.length ≤ protectedHdrMax ∧ bs = mapBytes (.ofHead .map 1) [algEntry alg]
  := by
  have hemits : Emits (encodeProtectedHdr alg)
      (preferredHead .map 1 ++ (preferredHead .uint hdrAlg.toNat ++ intHead alg)) := by
    apply Emits.bind
    · apply emits_encodeHead
    apply Emits.bind
    · apply emits_encodeHead
    · apply emits_encodeInt
  have hbytes : preferredHead .map 1 ++ (preferredHead .uint hdrAlg.toNat ++ intHead alg)
      = mapBytes (.ofHead .map 1) [algEntry alg] := by
    rw [intHead_eq, mapBytes, entriesBytes_cons, entriesBytes_nil, List.append_nil, Token.bytes_ofHead]
    rfl
  have hne : preferredHead .map 1 ++ (preferredHead .uint hdrAlg.toNat ++ intHead alg) ≠ [] :=
    List.append_ne_nil_of_left_ne_nil (preferredHead_ne_nil _ _) _
  rw [algProtectedHdr, hemits.encodeInto_iff hne, List.length_replicate, hbytes]
  constructor
  · rintro ⟨hle, rfl⟩
    exact ⟨hle, rfl⟩
  · rintro ⟨hle, rfl⟩
    exact ⟨hle, rfl⟩

omit [Settings] in
theorem range_of_inInt32Range {v : Int} (h : inInt32Range v = true) :
  -2 ^ 63 ≤ v ∧ v < 2 ^ 63
  := by
  simp only [inInt32Range, Bool.and_eq_true, decide_eq_true_eq] at h
  omega

/-- The map of the algorithm alone is a protected bucket. -/
theorem protectedMap_alg {alg : Int} (halg : inInt32Range alg = true) :
  ProtectedMap 0 .zero { Hdr.zero with alg } (.ofHead .map 1) [algEntry alg]
  := by
  obtain ⟨hmin, hmax⟩ := range_of_inInt32Range halg
  have hlabel : Accepted 0 (intToken hdrAlg) := accepted_intToken (by decide) (by decide)
  have hvalue : AlgValue 0 .zero (intToken alg).bytes { Hdr.zero with alg } :=
    ⟨_, accepted_intToken hmin hmax, .inr ⟨alg, intOf_intToken hmin hmax, halg, rfl⟩, rfl⟩
  constructor
  · constructor
    · exact ⟨accepted_ofHead rfl (by decide) (by decide), rfl, rfl⟩
    · rw [List.forall_mem_singleton]
      exact ⟨hlabel, rfl⟩
    · constructor
      · apply List.pairwise_singleton
      · rw [List.forall_mem_singleton]
        exact List.not_mem_nil
      · exact fun _ _ => trivial
      · rw [List.forall_mem_singleton]
        rintro _ ⟨⟩
    · exact Nat.le_trans (Nat.succ_le_succ (Nat.zero_le 3)) four_le_maxMapItems
  · intro l hl
    have hl' : l = .int hdrAlg := List.mem_singleton.mp hl
    rw [hl']
    decide
  · refine ⟨0, false, .cons ?_ (.nil _ _), ?_, ?_⟩
    · unfold ProtectedValue
      exact ⟨_, hvalue, rfl⟩
    · exact UInt32.zero_and
    · intro h
      exact absurd UInt32.zero_and h
  · rintro ⟨h, -⟩
    cases h

/-- The protected bucket is read back, and the state then has the label of the algorithm. -/
theorem decode_algProtectedHdr {alg : Int} {bs : Bytes} (halg : inInt32Range alg = true)
    (h : algProtectedHdr alg = .ok bs) :
  ∃ state, decodeProtectedHdrEx (.mem bs) .zero 0 = .ok ({ Hdr.zero with alg }, state)
    ∧ state.Represents [.int hdrAlg]
  := by
  obtain ⟨hle, rfl⟩ := algProtectedHdr_eq_ok.mp h
  have hsize := Nat.le_trans hle protectedHdrMax_le
  have hmap := protectedMap_alg halg
  refine ⟨_, (decodeProtectedHdrEx_eq_ok hsize).mpr ⟨decodeFlagsValid_zero, .inr ⟨_, _, rfl, hmap, rfl⟩⟩, ?_⟩
  apply hmap.represents
  rw [mapBytes, List.length_append] at hsize
  omega

/-! ### The unprotected bucket -/

/-- The labels that the library puts byte strings under. -/
def BstrLabel (label : Int) : Prop :=
  label = hdrKid ∨ label = hdrIv ∨ label = hdrPartialIv ∨ (haveHpke0 = true ∧ label = hdrHpkeEk)

/-- The entry of a byte string. -/
def bstrEntry (entry : Int × Bytes) : Entry :=
  ⟨intToken entry.1, .int entry.1, stringBytes .bstr entry.2⟩

/-- The unprotected bucket with the given byte strings. -/
def bucketBytes (entries : List (Int × Bytes)) : Bytes :=
  mapBytes (.ofHead .map entries.length) (entries.map bstrEntry)

/-- What the decoder of the unprotected bucket stores of a byte string. -/
def UnprotectedVars.store (wantEk : Bool) (vars : UnprotectedVars) (entry : Int × Bytes) :
    UnprotectedVars :=
  if entry.1 = hdrKid then { vars with hdr := { vars.hdr with kid := some entry.2 } }
  else if entry.1 = hdrIv then { vars with hdr := { vars.hdr with iv := some entry.2 } }
  else if entry.1 = hdrPartialIv then { vars with hdr := { vars.hdr with partialIv := some entry.2 } }
  else if wantEk = true then { vars with hpkeEk := some entry.2 }
  else vars

theorem unprotectedValue_bstr {wantEk : Bool} {entry : Int × Bytes} {idx : Nat} {vars : UnprotectedVars}
    (hlabel : BstrLabel entry.1) (hlen : entry.2.length < 2 ^ 64) :
  UnprotectedValue 0 wantEk (.int entry.1) idx (stringBytes .bstr entry.2) vars (vars.store wantEk entry)
  := by
  have hvalue := @bstrValue_stringBytes _ 0 entry.2 hlen
  have h₁ : hdrIv ≠ hdrKid := by decide
  have h₂ : hdrPartialIv ≠ hdrKid ∧ hdrPartialIv ≠ hdrIv := by decide
  have h₃ : hdrHpkeEk ≠ hdrKid ∧ hdrHpkeEk ≠ hdrIv ∧ hdrHpkeEk ≠ hdrPartialIv := by decide
  unfold UnprotectedValue UnprotectedVars.store
  simp only [Label.int.injEq]
  rcases hlabel with h | h | h | ⟨hhpke, h⟩
  · rw [if_pos h, if_pos h]
    exact ⟨_, hvalue, rfl⟩
  · rw [h, if_neg h₁, if_pos rfl, if_neg h₁, if_pos rfl]
    exact ⟨_, hvalue, rfl⟩
  · rw [h, if_neg h₂.1, if_neg h₂.2, if_pos rfl, if_neg h₂.1, if_neg h₂.2, if_pos rfl]
    exact ⟨_, hvalue, rfl⟩
  · rw [h, if_neg h₃.1, if_neg h₃.2.1, if_neg h₃.2.2, if_pos ⟨hhpke, rfl⟩, if_neg h₃.1, if_neg h₃.2.1,
      if_neg h₃.2.2]
    cases wantEk with
    | true => exact ⟨_, hvalue, rfl⟩
    | false => exact ⟨hvalue.skipped, rfl⟩

theorem scans_bstrs {wantEk : Bool} {entries : List (Int × Bytes)} {idx : Nat} {vars : UnprotectedVars}
    (h : ∀ e ∈ entries, BstrLabel e.1 ∧ e.2.length < 2 ^ 64) :
  Scans (UnprotectedValue 0 wantEk) idx (entries.map bstrEntry) vars
    (entries.foldl (UnprotectedVars.store wantEk) vars)
  := by
  induction entries generalizing idx vars with
  | nil => apply Scans.nil
  | cons entry entries ih =>
      obtain ⟨hentry, hentries⟩ := List.forall_mem_cons.mp h
      apply Scans.cons
      · apply unprotectedValue_bstr hentry.1 hentry.2
      · apply ih hentries

/-- What the library puts into an unprotected bucket: byte strings under different labels that
the protected bucket does not have, and not both kinds of initialization vectors. -/
structure Unprotected (wantEk : Bool) (state : HdrState) (hdr : Hdr) (entries : List (Int × Bytes)) :
    Prop where
  labels : ∀ e ∈ entries, BstrLabel e.1 ∧ e.2.length < 2 ^ 64
  nodup : (entries.map Prod.fst).Nodup
  fresh : ∀ e ∈ entries, state.contains e.1 = false
  length_le : entries.length ≤ 4
  ivs : ¬ ((entries.foldl (UnprotectedVars.store wantEk) ⟨hdr, none⟩).hdr.iv.isSome = true
    ∧ (entries.foldl (UnprotectedVars.store wantEk) ⟨hdr, none⟩).hdr.partialIv.isSome = true)

theorem BstrLabel.range {label : Int} (h : BstrLabel label) :
  -2 ^ 63 ≤ label ∧ label < 2 ^ 63 ∧ label ≠ hdrCrit
  := by
  rcases h with rfl | rfl | rfl | ⟨-, rfl⟩
  all_goals decide

/-- The byte strings are read back. -/
theorem Unprotected.map {wantEk : Bool} {state : HdrState} {hdr : Hdr} {entries : List (Int × Bytes)}
    (h : Unprotected wantEk state hdr entries) :
  UnprotectedMap 0 wantEk state 0 hdr (entries.foldl (UnprotectedVars.store wantEk) ⟨hdr, none⟩)
    (.ofHead .map entries.length) (entries.map bstrEntry)
  := by
  have hmem {p : Entry → Prop} (hp : ∀ e ∈ entries, p (bstrEntry e)) :
      ∀ e ∈ entries.map bstrEntry, p e := by
    intro e he
    obtain ⟨entry, hentry, rfl⟩ := List.mem_map.mp he
    apply hp entry hentry
  constructor
  · constructor
    · refine ⟨accepted_ofHead rfl (by decide) ?_, rfl, (List.length_map _).symm⟩
      have := h.length_le
      omega
    · apply hmem
      intro e he
      obtain ⟨hmin, hmax, -⟩ := (h.labels e he).1.range
      refine ⟨accepted_intToken hmin hmax, ?_⟩
      rw [labelOf]
      have hint := intOf_intToken hmin hmax
      rcases intToken_major e.1 with hm | hm
      · simp only [bstrEntry, hm, hint, Option.map_some]
      · simp only [bstrEntry, hm, hint, Option.map_some]
    · constructor
      · rw [labelsOf, List.map_map]
        have hcomp : Entry.label ∘ bstrEntry = Label.int ∘ Prod.fst := rfl
        rw [hcomp, ← List.map_map]
        apply List.Pairwise.map Label.int _ h.nodup
        intro a b hab he
        exact hab (Label.int.inj he)
      · exact fun _ _ => List.not_mem_nil
      · apply hmem
        intro e he
        refine ⟨?_, h.fresh e he⟩
        intro hcrit
        exact (h.labels e he).1.range.2.2 (Label.int.inj hcrit)
      · apply hmem
        rintro e - _ ⟨⟩
    · rw [List.length_map]
      exact Nat.le_trans h.length_le four_le_maxMapItems
  · apply scans_bstrs h.labels
  · exact h.ivs

/-! ### Headers -/

/-- The header of a message with an algorithm and byte strings is read back. -/
theorem headersValue_alg {alg : Int} {prot : Bytes} {entries : List (Int × Bytes)}
    (halg : inInt32Range alg = true) (hprot : algProtectedHdr alg = .ok prot)
    (hentries : ∀ state, HdrState.Represents state [.int hdrAlg] →
      Unprotected false state { Hdr.zero with alg } entries) :
  HeadersValue 0 (stringBytes .bstr prot ++ bucketBytes entries)
    ⟨prot, (entries.foldl (UnprotectedVars.store false) ⟨{ Hdr.zero with alg }, none⟩).hdr, true⟩
  := by
  obtain ⟨state, hdec, hrep⟩ := decode_algProtectedHdr halg hprot
  have hlen : prot.length < 2 ^ 64 := by
    have h₁ := (algProtectedHdr_eq_ok.mp hprot).1
    have h₂ := protectedHdrMax_le
    have h₃ := sizeMax_lt
    omega
  refine ⟨_, _, _, _, _, rfl, bstrValue_stringBytes hlen, hdec, ?_, (hentries state hrep).map⟩
  rw [eq_comm, hrep.contains_iff]
  exact List.mem_singleton_self _

/-- The empty header is read back. -/
theorem headersValue_empty :
  HeadersValue 0 (stringBytes .bstr [] ++ bucketBytes []) ⟨[], .zero, false⟩
  := by
  have hdec : decodeProtectedHdrEx (.mem []) .zero 0 = .ok (.zero, .init) :=
    (decodeProtectedHdrEx_eq_ok (Nat.zero_le _)).mpr ⟨decodeFlagsValid_zero, .inl ⟨rfl, rfl⟩⟩
  have hunprot : Unprotected false .init .zero [] := by
    constructor
    · exact List.forall_mem_nil _
    · exact List.nodup_nil
    · exact List.forall_mem_nil _
    · decide
    · rintro ⟨h, -⟩
      cases h
  exact ⟨_, (.zero, .init), _, _, none, rfl, bstrValue_stringBytes (by decide), hdec, rfl, hunprot.map⟩

/-! ### Kids -/

/-- A kid comes with a length, or not at all. -/
def kidConsistent (kid : Pointer) : Prop :=
  kid.isNull = false ↔ kid.len > 0

instance (kid : Pointer) : Decidable (kidConsistent kid) := inferInstanceAs (Decidable (_ ↔ _))

/-- Whether a kid is put into the unprotected bucket. -/
def hasKid (kid : Pointer) : Prop := kid.isNull = false ∧ kid.len > 0

instance (kid : Pointer) : Decidable (hasKid kid) := inferInstanceAs (Decidable (_ ∧ _))

/-- The steps that encode an unprotected bucket with a kid, if there is one. -/
def encodeKid (kid : Pointer) : Enc Unit := do
  encodeMapStart (if hasKid kid then 1 else 0)
  onlyIf (hasKid kid) do
    encodeUint hdrKid.toNat
    encodeBstr kid

/-- The bytes of an unprotected bucket with a kid, if there is one. -/
def kidBytes (kid : Pointer) : Bytes :=
  preferredHead .map (if hasKid kid then 1 else 0) ++
    (if hasKid kid then preferredHead .uint hdrKid.toNat ++ stringBytes .bstr kid.bytes else [])

theorem emits_encodeKid (kid : Pointer) :
  Emits (encodeKid kid) (kidBytes kid)
  := by
  apply Emits.bind
  · apply emits_encodeHead
  · apply Emits.onlyIf
    intro h
    apply Emits.bind
    · apply emits_encodeHead
    · apply emits_encodeBstr h.1

/-- The byte strings of an unprotected bucket with a kid, if there is one. -/
def kidEntries (kid : Pointer) : List (Int × Bytes) :=
  if hasKid kid then [(hdrKid, kid.bytes)] else []

/-- The kid that the header of a message then has. -/
def hdrKidOf (kid : Pointer) : Option Bytes :=
  if hasKid kid then some kid.bytes else none

omit [Settings] in
theorem kidBytes_eq (kid : Pointer) :
  kidBytes kid = bucketBytes (kidEntries kid)
  := by
  unfold kidBytes kidEntries
  split
  · rw [bucketBytes, mapBytes, Token.bytes_ofHead, List.map_singleton, entriesBytes_cons, entriesBytes_nil,
      List.append_nil]
    rfl
  · rw [bucketBytes, mapBytes, Token.bytes_ofHead]
    rfl

/-- A kid is put into a bucket of its own. -/
theorem unprotected_kid {wantEk : Bool} {state : HdrState} {hdr : Hdr} (kid : Pointer)
    (hfresh : state.contains hdrKid = false) (hlen : hasKid kid → kid.bytes.length < 2 ^ 64)
    (hivs : ¬ (hdr.iv.isSome = true ∧ hdr.partialIv.isSome = true)) :
  Unprotected wantEk state hdr (kidEntries kid)
  := by
  unfold kidEntries
  split
  · rename_i hkid
    constructor
    · rw [List.forall_mem_singleton]
      exact ⟨.inl rfl, hlen hkid⟩
    · apply List.pairwise_singleton
    · rw [List.forall_mem_singleton]
      exact hfresh
    · exact Nat.le_of_ble_eq_true rfl
    · exact hivs
  · constructor
    · exact List.forall_mem_nil _
    · exact List.nodup_nil
    · exact List.forall_mem_nil _
    · decide
    · exact hivs

/-- The header of a message with an algorithm and a kid is read back. -/
theorem headersValue_kid {alg : Int} {prot : Bytes} {kid : Pointer} (halg : inInt32Range alg = true)
    (hprot : algProtectedHdr alg = .ok prot) (hlen : hasKid kid → kid.bytes.length < 2 ^ 64) :
  HeadersValue 0 (stringBytes .bstr prot ++ kidBytes kid)
    ⟨prot, { Hdr.zero with alg, kid := hdrKidOf kid }, true⟩
  := by
  have hfresh (state : HdrState) (hrep : state.Represents [.int hdrAlg]) : state.contains hdrKid = false := by
    apply Bool.eq_false_iff.mpr
    rw [ne_eq, hrep.contains_iff, List.mem_singleton, Label.int.injEq]
    exact (by decide : ¬ hdrKid = hdrAlg)
  have h := headersValue_alg halg hprot fun state hrep =>
    unprotected_kid kid (hfresh state hrep) hlen (by rintro ⟨h, -⟩; cases h)
  rw [← kidBytes_eq] at h
  have hhdr : ((kidEntries kid).foldl (UnprotectedVars.store false) ⟨{ Hdr.zero with alg }, none⟩).hdr
      = { Hdr.zero with alg, kid := hdrKidOf kid } := by
    unfold kidEntries hdrKidOf
    split
    · rfl
    · rfl
  rwa [hhdr] at h

end WolfCose
