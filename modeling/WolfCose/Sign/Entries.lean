import WolfCose.Hdr.Skipped
import WolfCose.Message

/-!
# The signatures of a COSE_Sign message

Every signature is an array of a protected bucket, an unprotected item and a byte string.
The selected one goes through the header decoders, which skip the values of the unprotected
map one by one; the others go through a walker that skips the unprotected item as a whole.
An entry that is accepted when it is selected is skipped if its values are not nested too
deeply, one level less than a value may be.
-/

namespace WolfCose

open Program Cbor Settings

variable [Settings]

/-- A signature with the given unprotected item. -/
def SignatureWith (unprot : Bytes) (e : Bytes) : Prop :=
  ∃ head prot sig d₁ d₂, e = head.bytes ++ (prot ++ (unprot ++ sig)) ∧ Accepted 0 head
    ∧ head.major = .array ∧ head.val = 3 ∧ BstrValue 0 prot d₁ ∧ BstrValue 0 sig d₂

/-- What `wolfCose_DecodeSkippedSignature` reads. -/
def SkippedSignature (e : Bytes) : Prop :=
  ∃ unprot, SignatureWith unprot e ∧ SkippedValue 0 unprot

/-- A data item, however deeply nested. -/
def DataItem (bs : Bytes) : Prop :=
  ∃ d, Items (Accepted 0) d 1 bs

/-- The first byte of an item is that of a map. -/
def StartsMap (bs : Bytes) : Prop :=
  bs.head?.map MajorType.ofByte = some .map

instance (bs : Bytes) : Decidable (StartsMap bs) := inferInstanceAs (Decidable (_ = _))

/-- A well-formed signature: an array `[bstr, map, bstr]`. -/
def SignatureShape (e : Bytes) : Prop :=
  ∃ unprot, SignatureWith unprot e ∧ DataItem unprot ∧ StartsMap unprot

/-- Null is an item. -/
theorem items_null (d : Nat) :
  Items (Accepted 0) d 1 [cborNull]
  := by
  apply Items.leaf accepted_null (by rintro ⟨⟩) rfl (.nil d)

theorem BstrValue.items {flags : UInt32} {bs data : Bytes} (h : BstrValue flags bs data) (d : Nat) :
  Items (Accepted flags) d 1 bs
  := by
  obtain ⟨t, ht, ⟨hm, -⟩, rfl⟩ := h
  obtain ⟨hm, hc⟩ := leaf_of_major hm (by decide)
  rw [← List.append_nil t.bytes]
  exact .leaf ht hm hc (.nil d)

theorem PayloadValue.items {detached : Pointer} {hdr : Hdr} {bs : Bytes} {r : Hdr × Option Bytes}
    (h : PayloadValue 0 detached hdr bs r) (d : Nat) :
  Items (Accepted 0) d 1 bs
  := by
  obtain ⟨rfl, -, -⟩ | ⟨_, h, -⟩ := h
  · apply items_null
  · apply h.items

omit [Settings] in
/-- An array of three elements at the start of an entry. -/
theorem array_three {head : Token} (hm : head.major = .array) (hv : head.val = 3) :
  head.children = 3
  := by
  rw [Token.children, hm, ← hv]

/-- A signature is one item more deeply nested than its unprotected item. -/
theorem SignatureWith.items {unprot e : Bytes} (h : SignatureWith unprot e) {d : Nat}
    (hu : Items (Accepted 0) d 1 unprot) :
  Items (Accepted 0) (d + 1) 1 e
  := by
  obtain ⟨head, prot, sig, d₁, d₂, rfl, hh, hm, hv, hprot, hsig⟩ := h
  have hc := array_three hm hv
  have hfields := (hprot.items d).append (hu.append (hsig.items d))
  rw [← List.append_nil (prot ++ (unprot ++ sig))]
  apply Items.container hh (by omega)
  · rw [hc]
    exact hfields
  · exact .nil _

/-- A signature has one unprotected item. -/
theorem SignatureWith.unique {unprot unprot' e : Bytes} (h : SignatureWith unprot e)
    (h' : SignatureWith unprot' e) (hu : DataItem unprot) (hu' : DataItem unprot') :
  unprot = unprot'
  := by
  obtain ⟨head, prot, sig, d₁, d₂, rfl, hh, -, -, hprot, hsig⟩ := h
  obtain ⟨head', prot', sig', d₁', d₂', he, hh', -, -, hprot', hsig'⟩ := h'
  obtain ⟨_, hu⟩ := hu
  obtain ⟨_, hu'⟩ := hu'
  obtain ⟨-, he'⟩ := Token.bytes_append_cancel hh.wellFormed hh'.wellFormed he
  obtain ⟨-, he''⟩ := Items.append_cancel Accepted.wf (hprot.items 0) (hprot'.items 0) he'
  exact (Items.append_cancel Accepted.wf hu hu' he'').1

theorem SkippedSignature.dataItem {e : Bytes} (h : SkippedSignature e) :
  DataItem e
  := by
  obtain ⟨unprot, he, hu⟩ := h
  exact ⟨_, he.items hu⟩

/-- The walker reads exactly the signatures whose unprotected item it skips. -/
theorem reads_decodeSkippedSignature :
  Reads decodeSkippedSignature (fun bs _ => SkippedSignature bs)
  := by
  have hf := decodeFlagsValid_zero
  intro ctx u ctx'
  simp only [decodeSkippedSignature, decodeSkippedHeaderEntrySignature, decodeArrayStart, decodeBstr,
    skip, runs_bind, runs_failIf, runs_pure, runs_decodeArrayStartEx, reads_decodeBstrEx hf _ _ _,
    reads_skipEx hf _ _ _]
  constructor
  · rintro ⟨_, _, ⟨n, c₁, ⟨-, head, hh, h₁, hm, rfl, -⟩, _, _, ⟨hn, rfl⟩, d₁, c₂, ⟨prot, hprot, h₂⟩, _, c₃,
      ⟨unprot, hu, h₃⟩, d₂, c₄, ⟨sig, hsig, h₄⟩, rfl, rfl⟩, -, rfl⟩
    have hcons := h₁.trans (h₂.trans (h₃.trans h₄))
    exact ⟨_, ⟨unprot, ⟨head, prot, sig, d₁, d₂, rfl, hh, hm, by omega, hprot, hsig⟩, hu⟩, hcons⟩
  · rintro ⟨_, ⟨unprot, ⟨head, prot, sig, d₁, d₂, rfl, hh, hm, hv, hprot, hsig⟩, hu⟩, hc⟩
    obtain ⟨c₁, h₁, hc⟩ := hc.split
    have hroom : head.children ≤ c₁.rest.length := by
      have l₁ := List.length_pos_iff.mpr hprot.ne_nil
      have l₂ := List.length_pos_iff.mpr hu.ne_nil
      have l₃ := List.length_pos_iff.mpr hsig.ne_nil
      rw [array_three hm hv, hc.length_rest_eq]
      simp only [List.length_append]
      omega
    obtain ⟨c₂, h₂, hc⟩ := hc.split
    obtain ⟨c₃, h₃, h₄⟩ := hc.split
    refine ⟨3, ctx', ⟨3, c₁, ⟨hf, head, hh, h₁, hm, hv, hroom⟩, (), c₁, ⟨by omega, rfl⟩, d₁, c₂,
      ⟨prot, hprot, h₂⟩, (), c₃, ⟨unprot, hu, h₃⟩, d₂, ctx', ⟨sig, hsig, h₄⟩, rfl, rfl⟩, trivial, rfl⟩

/-- The loop over entries that are skipped. -/
theorem reads_skippedSignatures (n : Nat) (ctx : DecCtx) (u : Unit) (ctx' : DecCtx) :
  Runs (repeatM n (fun _ => decodeSkippedSignature) ()) ctx u ctx'
    ↔ ∃ es : List Bytes, es.length = n ∧ (∀ e ∈ es, SkippedSignature e) ∧ ctx.Consumes es.flatten ctx'
  := reads_decodeSkippedSignature.repeat n ctx u ctx'

/-! ### The selected signature -/

/-- The steps of `wc_CoseSign_Verify` that decode the selected signature and check the
algorithm of its header against the one the key is restricted to. -/
def decodeSigner (keyAlg : Int) : Dec (Headers × Bytes) := do
  let arrayCount ← decodeArrayStart
  failIf (arrayCount ≠ 3) .cborMalformed
  let signer ← decodeHeaders 0
  failIf (keyAlg = algUnset ∧ signer.algProtected = false) .coseBadAlg
  failIf (keyAlg ≠ algUnset ∧ keyAlg ≠ signer.hdr.alg) .coseBadAlg
  let signature ← decodeBstr
  return (signer, signature)

/-- The algorithm of a header is one that a key allows: the one it is restricted to, or else a
protected one. -/
def AlgAllowed (keyAlg : Int) (headers : Headers) : Prop :=
  (keyAlg = algUnset → headers.algProtected = true) ∧ (keyAlg ≠ algUnset → keyAlg = headers.hdr.alg)

/-- The selected signature, with its header and its bytes. -/
def SelectedSignature (keyAlg : Int) (e : Bytes) (signer : Headers) (signature : Bytes) : Prop :=
  ∃ head headers sig, e = head.bytes ++ (headers ++ sig) ∧ Accepted 0 head ∧ head.major = .array
    ∧ head.val = 3 ∧ HeadersValue 0 headers signer ∧ BstrValue 0 sig signature
    ∧ AlgAllowed keyAlg signer

theorem reads_decodeSigner (keyAlg : Int) :
  Reads (decodeSigner keyAlg) (fun e r => SelectedSignature keyAlg e r.1 r.2)
  := by
  have hf := decodeFlagsValid_zero
  intro ctx r ctx'
  simp only [decodeSigner, decodeArrayStart, decodeBstr, runs_bind, runs_failIf, runs_pure,
    runs_decodeArrayStartEx, reads_decodeBstrEx hf _ _ _, reads_decodeHeaders hf _ _ _, ne_eq,
    Decidable.not_not]
  constructor
  · rintro ⟨_, c₁, ⟨-, head, hh, h₁, hm, rfl, -⟩, _, _, ⟨hv, rfl⟩, signer, c₂, ⟨headers, hheaders, h₂⟩, _, _,
      ⟨hprot, rfl⟩, _, _, ⟨hpin, rfl⟩, signature, _, ⟨sig, hsig, h₃⟩, rfl, rfl⟩
    refine ⟨_, ⟨head, headers, sig, rfl, hh, hm, hv, hheaders, hsig, ?_, ?_⟩, h₁.trans (h₂.trans h₃)⟩
    · intro hunset
      by_contra hne
      apply hprot
      exact ⟨hunset, by simpa using hne⟩
    · intro hset
      by_contra hne
      apply hpin
      exact ⟨hset, hne⟩
  · rintro ⟨_, ⟨head, headers, sig, rfl, hh, hm, hv, hheaders, hsig, hprot, hpin⟩, hc⟩
    obtain ⟨c₁, h₁, hc⟩ := hc.split
    have hroom : head.children ≤ c₁.rest.length := by
      have l₁ := hheaders.two_le_length
      have l₂ := List.length_pos_iff.mpr hsig.ne_nil
      rw [array_three hm hv, hc.length_rest_eq, List.length_append]
      omega
    obtain ⟨c₂, h₂, h₃⟩ := hc.split
    refine ⟨3, c₁, ⟨hf, head, hh, h₁, hm, hv, hroom⟩, (), c₁, ⟨rfl, rfl⟩, r.1, c₂, ⟨headers, hheaders, h₂⟩,
      (), c₂, ⟨?_, rfl⟩, (), c₂, ⟨?_, rfl⟩, r.2, ctx', ⟨sig, hsig, h₃⟩, rfl, rfl⟩
    · rintro ⟨hunset, hne⟩
      rw [hprot hunset] at hne
      exact Bool.false_ne_true hne.symm
    · rintro ⟨hset, hne⟩
      exact hne (hpin hset)

/-! ### Selecting and skipping -/

/-- The entries of a map are items of a given depth if their values are. -/
theorem items_entries {d : Nat} {es : List Entry} (hes : ∀ e ∈ es, e.Labelled 0 ∧ DataItem e.value) :
  Items (Accepted 0) d (2 * es.length) (entriesBytes es)
    ↔ ∀ e ∈ es, Items (Accepted 0) d 1 e.value
  := by
  have leaf : ∀ e : Entry, e.Labelled 0 → e.token.major ≠ .tag ∧ e.token.children = 0 := by
    intro e he
    have hl := he.2
    unfold labelOf at hl
    split at hl
    · rename_i hm
      exact leaf_of_major hm (by decide)
    · obtain ⟨v, hv, -⟩ := Option.map_eq_some_iff.mp hl
      exact leaf_of_intOf hv
  induction es with
  | nil =>
      constructor
      · exact fun _ => List.forall_mem_nil _
      · exact fun _ => .nil d
  | cons e es ih =>
      obtain ⟨⟨he, _, hvalue⟩, hes⟩ := List.forall_mem_cons.mp hes
      obtain ⟨hm, hc⟩ := leaf e he
      have hn : 2 * (e :: es).length = (1 + 2 * es.length) + 1 := by
        rw [List.length_cons]
        omega
      rw [List.forall_mem_cons, entriesBytes_cons, Entry.bytes, List.append_assoc, hn,
        Items.leaf_iff Accepted.wf he.1 hm hc]
      constructor
      · intro h
        obtain ⟨a, b, hab, ha, hb⟩ := h.split
        obtain ⟨rfl, rfl⟩ := Items.append_cancel Accepted.wf ha hvalue hab.symm
        exact ⟨ha, (ih hes).mp hb⟩
      · rintro ⟨ha, hb⟩
        exact ha.append ((ih hes).mpr hb)

/-- A map is skipped as a whole if its values are nested one level less deeply than a value
may be. -/
theorem skippedValue_map_iff {head : Token} {es : List Entry} (hhead : MapHead 0 es head)
    (hes : ∀ e ∈ es, e.Labelled 0 ∧ DataItem e.value) :
  SkippedValue 0 (mapBytes head es) ↔ ∀ e ∈ es, Items (Accepted 0) (maxDepth - 1) 1 e.value
  := by
  have hc : head.children = 2 * es.length := by
    rw [Token.children, hhead.major, ← hhead.val]
  have hdepth := four_le_maxDepth
  by_cases hnil : es = []
  · subst hnil
    constructor
    · exact fun _ => List.forall_mem_nil _
    · intro _
      apply (skippedValue_token hhead.accepted _ hc).mpr rfl
      rw [hhead.major]
      rintro ⟨⟩
  have hne : head.children ≠ 0 := by
    have := List.length_pos_iff.mpr hnil
    omega
  rw [SkippedValue, Items.container_iff Accepted.wf hhead.accepted hne, hc]
  constructor
  · rintro ⟨d, cs, bs, hd, hbytes, hcs, hbs⟩
    rw [hbs.eq_nil, List.append_nil] at hbytes
    rw [← hbytes] at hcs
    rw [hd]
    apply (items_entries hes).mp hcs
  · intro h
    have hitems := (items_entries hes).mpr h
    exact ⟨maxDepth - 1, entriesBytes es, [], by omega, (List.append_nil _).symm, hitems, .nil _⟩

/-- The values of the unprotected map of a signature are nested at most `d` deep. -/
def ValuesNested (d : Nat) (e : Bytes) : Prop :=
  ∃ head es, SignatureWith (mapBytes head es) e ∧ MapEntries 0 (mapBytes head es) es
    ∧ ∀ entry ∈ es, Items (Accepted 0) d 1 entry.value

/-- A selected signature has an unprotected map. -/
theorem SelectedSignature.map {keyAlg : Int} {e signature : Bytes} {signer : Headers}
    (h : SelectedSignature keyAlg e signer signature) :
  ∃ head es, SignatureWith (mapBytes head es) e ∧ MapHead 0 es head
    ∧ ∀ entry ∈ es, entry.Labelled 0 ∧ SkippedValue 0 entry.value
  := by
  obtain ⟨head, headers, sig, rfl, hh, hm, hv, ⟨prot, r₁, mh, es, ek, rfl, hprot, -, -, hmap⟩, hsig, -⟩ := h
  obtain ⟨⟨mh', hhead, hbytes, hes⟩, -⟩ := hmap.entries
  refine ⟨mh, es, ⟨head, prot, sig, _, _, ?_, hh, hm, hv, hprot, hsig⟩, hmap.map.head, hes⟩
  simp only [List.append_assoc]

theorem SkippedValue.dataItem {bs : Bytes} (h : SkippedValue 0 bs) :
  DataItem bs
  := ⟨maxDepth, h⟩

theorem dataItem_map {head : Token} {es : List Entry} (hhead : MapHead 0 es head)
    (hes : ∀ e ∈ es, e.Labelled 0 ∧ DataItem e.value) :
  DataItem (mapBytes head es)
  := by
  have hvalues : ∀ x ∈ es.map Entry.value, ∃ d, Items (Accepted 0) d 1 x :=
    List.forall_mem_map.mpr fun e he => (hes e he).2
  obtain ⟨d, hd⟩ := Items.exists_depth hvalues
  have hitems := (items_entries hes).mpr (List.forall_mem_map.mp hd)
  have hc : head.children = 2 * es.length := by
    rw [Token.children, hhead.major, ← hhead.val]
  by_cases hne : head.children = 0
  · refine ⟨0, ?_⟩
    have hnil : es = [] := List.eq_nil_of_length_eq_zero (by omega)
    subst hnil
    apply Items.leaf hhead.accepted _ hne (.nil 0)
    rw [hhead.major]
    rintro ⟨⟩
  · refine ⟨d + 1, ?_⟩
    rw [mapBytes, ← List.append_nil (entriesBytes es)]
    apply Items.container hhead.accepted hne _ (.nil _)
    rw [hc]
    exact hitems

theorem SelectedSignature.dataItem {keyAlg : Int} {e signature : Bytes} {signer : Headers}
    (h : SelectedSignature keyAlg e signer signature) :
  DataItem e
  := by
  obtain ⟨head, es, he, hhead, hes⟩ := h.map
  obtain ⟨d, hd⟩ := dataItem_map hhead fun entry hentry => ⟨(hes entry hentry).1, (hes entry hentry).2.dataItem⟩
  exact ⟨d + 1, he.items hd⟩

/-- A signature that is accepted when it is selected is skipped exactly if its values are not
nested as deeply as a value may be. -/
theorem SelectedSignature.skipped_iff {keyAlg : Int} {e signature : Bytes} {signer : Headers}
    (h : SelectedSignature keyAlg e signer signature) :
  SkippedSignature e ↔ ValuesNested (maxDepth - 1) e
  := by
  obtain ⟨head, es, he, hhead, hes⟩ := h.map
  have hitems : ∀ entry ∈ es, entry.Labelled 0 ∧ DataItem entry.value :=
    fun entry hentry => ⟨(hes entry hentry).1, (hes entry hentry).2.dataItem⟩
  have hmap := dataItem_map hhead hitems
  constructor
  · rintro ⟨unprot, hu, hskip⟩
    have heq := hu.unique he ⟨_, hskip⟩ hmap
    rw [heq] at hskip
    exact ⟨head, es, he, ⟨head, hhead, rfl, hes⟩, (skippedValue_map_iff hhead hitems).mp hskip⟩
  · rintro ⟨head', es', he', ⟨head'', hhead', hbytes, hes'⟩, hvalues⟩
    rw [hbytes] at he'
    refine ⟨_, he', (skippedValue_map_iff hhead' fun entry hentry => ?_).mpr hvalues⟩
    exact ⟨(hes' entry hentry).1, (hes' entry hentry).2.dataItem⟩

/-- A signature that is skipped is well formed exactly if its unprotected item starts a map. -/
theorem SkippedSignature.shape_iff {e : Bytes} (h : SkippedSignature e) :
  SignatureShape e ↔ ∃ unprot, SignatureWith unprot e ∧ SkippedValue 0 unprot ∧ StartsMap unprot
  := by
  obtain ⟨unprot, hu, hskip⟩ := h
  constructor
  · rintro ⟨unprot', hu', hitem, hmap⟩
    rw [hu'.unique hu hitem ⟨_, hskip⟩] at hmap
    exact ⟨unprot, hu, hskip, hmap⟩
  · rintro ⟨unprot', hu', hskip', hmap⟩
    exact ⟨unprot', hu', ⟨_, hskip'⟩, hmap⟩

end WolfCose
