import WolfCose.Sign.Verify

/-!
# Independence of the selected signature

Whether a COSE_Sign message is accepted at one index says little about the signatures at the
other ones.  The walker that skips them takes any item for the unprotected bucket, and it
counts this item as one level of nesting, which the header decoders do not.  So a message
that verifies at an index can have a signature elsewhere without an unprotected map, and the
verified signature itself can be one that is rejected when another is selected.
`sign_selection_independent` says exactly when neither happens.
-/

namespace WolfCose

open Program Cbor Settings

section

variable [Settings]

/-! ### The signatures of a message -/

/-- The signatures in a message: it is an optional tag and an array of four elements, the last
one the array of the signatures. -/
def SignEntries (input : Bytes) (entries : List Bytes) : Prop :=
  ∃ start body list, input = start ++ (body ++ (list.bytes ++ entries.flatten))
    ∧ StartValue 0 tagSign 4 start ∧ (∃ d, Items (Accepted 0) d 3 body)
    ∧ Accepted 0 list ∧ list.major = .array ∧ list.val = entries.length
    ∧ ∀ e ∈ entries, DataItem e

/-- The first steps of a message are read in one way. -/
theorem StartValue.append_cancel {flags : UInt32} {tag count : Nat} {a b r r' : Bytes}
    (h : StartValue flags tag count a) (h' : StartValue flags tag count b) (e : a ++ r = b ++ r') :
  a = b ∧ r = r'
  := by
  have distinct {t head : Token} {r r' : Bytes} (ht : Accepted flags t) (htm : t.major = .tag)
      (hh : Accepted flags head) (hm : head.major = .array) : t.bytes ++ r ≠ head.bytes ++ r' := by
    intro he
    obtain ⟨rfl, -⟩ := Token.bytes_append_cancel ht.wellFormed hh.wellFormed he
    rw [htm] at hm
    cases hm
  obtain ⟨_, head, rfl, htag, hh, hm, -⟩ := h
  obtain ⟨_, head', rfl, htag', hh', hm', -⟩ := h'
  simp only [List.append_assoc] at e
  rcases htag with rfl | ⟨t, ht, ⟨htm, -⟩, rfl⟩
  · rcases htag' with rfl | ⟨t', ht', ⟨htm', -⟩, rfl⟩
    · obtain ⟨rfl, rfl⟩ := Token.bytes_append_cancel hh.wellFormed hh'.wellFormed e
      exact ⟨rfl, rfl⟩
    · exact absurd e.symm (distinct ht' htm' hh hm)
  · rcases htag' with rfl | ⟨t', ht', ⟨htm', -⟩, rfl⟩
    · exact absurd e (distinct ht htm hh' hm')
    · obtain ⟨rfl, e'⟩ := Token.bytes_append_cancel ht.wellFormed ht'.wellFormed e
      obtain ⟨rfl, rfl⟩ := Token.bytes_append_cancel hh.wellFormed hh'.wellFormed e'
      exact ⟨rfl, rfl⟩

/-- A message has one list of signatures. -/
theorem SignEntries.unique {input : Bytes} {xs ys : List Bytes} (h : SignEntries input xs)
    (h' : SignEntries input ys) :
  xs = ys
  := by
  obtain ⟨start, body, list, rfl, hstart, ⟨d, hbody⟩, hlist, -, hxs, hx⟩ := h
  obtain ⟨start', body', list', e, hstart', ⟨d', hbody'⟩, hlist', -, hys, hy⟩ := h'
  obtain ⟨-, e⟩ := hstart.append_cancel hstart' e
  obtain ⟨-, e⟩ := Items.append_cancel Accepted.wf hbody hbody' e
  obtain ⟨rfl, e'⟩ := Token.bytes_append_cancel hlist.wellFormed hlist'.wellFormed e
  rw [← List.append_nil xs.flatten, ← List.append_nil ys.flatten] at e'
  apply (Items.flatten_cancel Accepted.wf hx hy (hxs.symm.trans hys) e').1

/-- The two buckets of a header are two items. -/
theorem HeadersValue.items {bs : Bytes} {headers : Headers} (h : HeadersValue 0 bs headers) :
  ∃ d, Items (Accepted 0) d 2 bs
  := by
  obtain ⟨prot, _, head, es, _, rfl, hprot, -, -, hmap⟩ := h
  obtain ⟨⟨_, -, -, hes⟩, -⟩ := hmap.entries
  obtain ⟨d, hd⟩ := dataItem_map hmap.map.head fun e he => ⟨(hes e he).1, (hes e he).2.dataItem⟩
  exact ⟨d, (hprot.items d).append hd⟩

/-- The bytes of a message before its signatures are its start, three items and the head of
the array of signatures. -/
theorem SignBody.entries {detached : Pointer} {msg : SignMessage} {body : Bytes} {entries : List Bytes}
    (h : SignBody detached entries.length body msg) (hes : ∀ e ∈ entries, DataItem e) :
  SignEntries (body ++ entries.flatten) entries
  := by
  obtain ⟨start, headers, payload, list, rfl, hstart, hheaders, hpayload, hlist, hm, hv⟩ := h
  obtain ⟨d, hd⟩ := hheaders.items
  refine ⟨start, headers ++ payload, list, ?_, hstart, ⟨d, hd.append (hpayload.items d)⟩, hlist, hm, hv, hes⟩
  simp only [List.append_assoc]

omit [Settings] in
/-- The elements of a list at the other indices are those before and those after. -/
theorem forall_other_iff {α : Type} {p : α → Prop} {before after : List α} {e : α} :
  (∀ k x, (before ++ e :: after)[k]? = some x → k ≠ before.length → p x)
    ↔ (∀ x ∈ before, p x) ∧ ∀ x ∈ after, p x
  := by
  constructor
  · intro h
    constructor
    · intro x hx
      obtain ⟨k, hk, rfl⟩ := List.getElem_of_mem hx
      apply h k
      · rw [List.getElem?_append_left hk, List.getElem?_eq_getElem hk]
      · omega
    · intro x hx
      obtain ⟨k, hk, rfl⟩ := List.getElem_of_mem hx
      apply h (before.length + (k + 1))
      · rw [List.getElem?_append_right (Nat.le_add_right ..), Nat.add_sub_cancel_left, List.getElem?_cons_succ,
          List.getElem?_eq_getElem hk]
      · omega
  · rintro ⟨hbefore, hafter⟩ k x hx hk
    rcases Nat.lt_or_ge k before.length with hlt | hge
    · rw [List.getElem?_append_left hlt] at hx
      apply hbefore x (List.mem_of_getElem? hx)
    · rw [List.getElem?_append_right hge] at hx
      obtain ⟨m, hm⟩ : ∃ m, k - before.length = m + 1 := ⟨k - before.length - 1, by omega⟩
      rw [hm, List.getElem?_cons_succ] at hx
      apply hafter x (List.mem_of_getElem? hx)

/-- A message is decoded at an index exactly if the signature there is accepted when it is
selected and all others are skipped. -/
theorem decodeSign_iff_entries {keyAlg : Int} {i : Nat} {detached : Pointer} {input : Buffer}
    {msg : SignMessage} :
  decodeBuffer (decodeSign keyAlg i detached) input = .ok msg
    ↔ ∃ (body : Bytes) (entries : List Bytes) (e : Bytes), input.bytes = body ++ entries.flatten
      ∧ SignBody detached entries.length body msg ∧ entries[i]? = some e
      ∧ SelectedSignature keyAlg e msg.signer msg.signature
      ∧ ∀ k x, entries[k]? = some x → k ≠ i → SkippedSignature x
  := by
  rw [decodeSign_eq_ok]
  constructor
  · rintro ⟨body, before, e, after, hinput, hbody, rfl, hbefore, hafter, he⟩
    refine ⟨body, before ++ e :: after, e, ?_, ?_, ?_, he, forall_other_iff.mpr ⟨hbefore, hafter⟩⟩
    · rw [hinput, List.flatten_append, List.flatten_cons]
    · rw [List.length_append, List.length_cons]
      apply hbody
    · rw [List.getElem?_append_right (Nat.le_refl _), Nat.sub_self, List.getElem?_cons_zero]
  · rintro ⟨body, entries, e, hinput, hbody, hi, he, hothers⟩
    obtain ⟨hlt, rfl⟩ := List.getElem?_eq_some_iff.mp hi
    have hsplit : entries = entries.take i ++ entries[i] :: entries.drop (i + 1) := by
      rw [List.getElem_cons_drop, List.take_append_drop]
    have htake : (entries.take i).length = i := List.length_take_of_le (Nat.le_of_lt hlt)
    have hboth : (∀ x ∈ entries.take i, SkippedSignature x) ∧ ∀ x ∈ entries.drop (i + 1), SkippedSignature x := by
      apply forall_other_iff.mp
      rw [← hsplit, htake]
      exact hothers
    refine ⟨body, entries.take i, entries[i], entries.drop (i + 1), ?_, ?_, htake, hboth.1, hboth.2, he⟩
    · have hflatten := congrArg List.flatten hsplit
      rw [List.flatten_append, List.flatten_cons] at hflatten
      rw [hinput, ← hflatten]
    · rw [← List.length_cons, ← List.length_append, ← hsplit]
      exact hbody

/-- Every signature of a message that is decoded is an item. -/
theorem dataItems {keyAlg : Int} {i : Nat} {entries : List Bytes} {e signature : Bytes} {signer : Headers}
    (hi : entries[i]? = some e) (he : SelectedSignature keyAlg e signer signature)
    (hothers : ∀ k x, entries[k]? = some x → k ≠ i → SkippedSignature x) :
  ∀ x ∈ entries, DataItem x
  := by
  intro x hx
  obtain ⟨k, hk⟩ := List.getElem?_of_mem hx
  by_cases hki : k = i
  · rw [hki, hi] at hk
    cases hk
    apply he.dataItem
  · apply (hothers k x hk hki).dataItem

/-! ### Independence -/

/-- The message does not depend on the selection of the signature at index `i`: every other
one is well formed, the one at `i` is accepted when it is skipped, and so the message is
decoded at every other index whose signature is accepted when it is selected, whatever the key
for it is restricted to. -/
structure SelectionIndependent (input : Buffer) (detached : Pointer) (i : Nat) (entries : List Bytes) :
    Prop where
  shapes : ∀ k e, entries[k]? = some e → k ≠ i → SignatureShape e
  skipped : ∀ e, entries[i]? = some e → SkippedSignature e
  others : ∀ j e keyAlg signer signature, entries[j]? = some e → j ≠ i →
    SelectedSignature keyAlg e signer signature →
    ∃ msg, decodeBuffer (decodeSign keyAlg j detached) input = .ok msg
      ∧ msg.signer = signer ∧ msg.signature = signature

/-- After its protected bucket an entry goes on with a map. -/
def MapAfterProtected (e : Bytes) : Prop :=
  ∃ head prot d rest, e = head.bytes ++ (prot ++ rest) ∧ Accepted 0 head ∧ BstrValue 0 prot d
    ∧ StartsMap rest

theorem StartsMap.append_iff {unprot sig : Bytes} (h : DataItem unprot) :
  StartsMap (unprot ++ sig) ↔ StartsMap unprot
  := by
  cases unprot with
  | nil => exact absurd rfl h.ne_nil
  | cons b bs => exact Iff.rfl

/-- A skipped signature is well formed exactly if a map follows its protected bucket. -/
theorem SkippedSignature.shape_iff_map {e : Bytes} (h : SkippedSignature e) :
  SignatureShape e ↔ MapAfterProtected e
  := by
  rw [h.shape_iff]
  constructor
  · rintro ⟨unprot, ⟨head, prot, sig, d₁, d₂, rfl, hh, -, -, hprot, -⟩, hskip, hmap⟩
    exact ⟨head, prot, d₁, unprot ++ sig, rfl, hh, hprot, (StartsMap.append_iff ⟨_, hskip⟩).mpr hmap⟩
  · rintro ⟨head, prot, d, rest, he, hh, hprot, hmap⟩
    obtain ⟨unprot, hu, hskip⟩ := h
    refine ⟨unprot, hu, hskip, ?_⟩
    obtain ⟨head', prot', sig, d₁, d₂, rfl, hh', -, -, hprot', -⟩ := hu
    obtain ⟨-, he⟩ := Token.bytes_append_cancel hh'.wellFormed hh.wellFormed he
    obtain ⟨-, rfl⟩ := Items.append_cancel Accepted.wf (hprot'.items 0) (hprot.items 0) he
    apply (StartsMap.append_iff ⟨_, hskip⟩).mp hmap

/-- What follows the protected bucket of a well-formed signature is a map. -/
theorem SignatureShape.startsMap {head : Token} {prot d rest : Bytes}
    (h : SignatureShape (head.bytes ++ (prot ++ rest))) (hh : Accepted 0 head) (hprot : BstrValue 0 prot d) :
  StartsMap rest
  := by
  obtain ⟨unprot, ⟨head', prot', sig, d₁, d₂, he, hh', -, -, hprot', -⟩, hitem, hmap⟩ := h
  obtain ⟨-, he⟩ := Token.bytes_append_cancel hh.wellFormed hh'.wellFormed he
  obtain ⟨-, rfl⟩ := Items.append_cancel Accepted.wf (hprot.items 0) (hprot'.items 0) he
  apply (StartsMap.append_iff hitem).mpr hmap

/-- Where a message is decoded at an index, it does not depend on the selection exactly if all
other signatures have a map after their protected bucket and the values in that of the
selected one are not nested as deeply as a value may be. -/
theorem selectionIndependent_iff {keyAlg : Int} {i : Nat} {detached : Pointer} {input : Buffer}
    {msg : SignMessage} {body e : Bytes} {entries : List Bytes}
    (hinput : input.bytes = body ++ entries.flatten) (hbody : SignBody detached entries.length body msg)
    (hi : entries[i]? = some e) (he : SelectedSignature keyAlg e msg.signer msg.signature)
    (hothers : ∀ k x, entries[k]? = some x → k ≠ i → SkippedSignature x) :
  SelectionIndependent input detached i entries
    ↔ (∀ k x, entries[k]? = some x → k ≠ i → MapAfterProtected x) ∧ ValuesNested (maxDepth - 1) e
  := by
  constructor
  · intro h
    constructor
    · intro k x hx hk
      apply (hothers k x hx hk).shape_iff_map.mp (h.shapes k x hx hk)
    · apply he.skipped_iff.mp (h.skipped e hi)
  · rintro ⟨hmaps, hvalues⟩
    have hskip : SkippedSignature e := he.skipped_iff.mpr hvalues
    constructor
    · intro k x hx hk
      apply (hothers k x hx hk).shape_iff_map.mpr (hmaps k x hx hk)
    · intro x hx
      rw [hi] at hx
      cases hx
      apply hskip
    · intro j x keyAlg' signer signature hx hj hx'
      refine ⟨{ msg with signer, signature }, ?_, rfl, rfl⟩
      apply decodeSign_iff_entries.mpr
      refine ⟨body, entries, x, hinput, hbody, hx, hx', ?_⟩
      intro k y hy hk
      by_cases hki : k = i
      · rw [hki, hi] at hy
        cases hy
        apply hskip
      · apply hothers k y hy hki

variable [WolfCrypt]

/-- Whether a COSE_Sign message that is verified at an index depends on the selection: its
signatures are the entries of one list, and neither the well-formedness of the others nor the
acceptance of this one depends on the selection exactly if a map follows the protected bucket
of every other entry and the values in the map of the verified one are nested at most one
level less than a value may be. -/
theorem sign_selection_independent (args : VerifyArgs) (i : Nat) (out out' : VerifyOut)
    (h : signVerify args i out = (.ok (), out')) :
  ∃ input entries, args.input = some input ∧ SignEntries input.bytes entries
    ∧ (∀ entries', SignEntries input.bytes entries' → entries' = entries) ∧ i < entries.length
    ∧ (SelectionIndependent input args.detached i entries
      ↔ (∀ k e, entries[k]? = some e → k ≠ i → MapAfterProtected e)
        ∧ ∀ e, entries[i]? = some e → ValuesNested (maxDepth - 1) e)
  := by
  obtain ⟨_, input, msg, -, hinput, hdec, -⟩ := signVerify_ok h
  obtain ⟨body, entries, e, hbytes, hbody, hi, he, hothers⟩ := decodeSign_iff_entries.mp hdec
  have hentries := hbody.entries (dataItems hi he hothers)
  rw [← hbytes] at hentries
  refine ⟨input, entries, hinput, hentries, fun _ h' => h'.unique hentries,
    (List.getElem?_eq_some_iff.mp hi).1, ?_⟩
  rw [selectionIndependent_iff hbytes hbody hi he hothers, hi]
  simp only [Option.some.injEq, forall_eq']

end

section Instances

attribute [local instance] defaultSettings

/-- The signature of `ed25519Secret` over the Sig_structure of an empty protected bucket, the protected bucket
`{1: -19}` of the signer and the payload "hi". -/
def signAnswer : Ed25519Answer where
  secret := ed25519Secret
  publicKey := ed25519Public
  msg := [0x85, 0x69] ++ ctxSignature ++ [0x40, 0x43, 0xA1, 0x01, 0x32, 0x40, 0x42, 0x68, 0x69]
  sig := [0x91, 0x26, 0xC3, 0x09, 0xE2, 0x56, 0xBB, 0xC5, 0x48, 0xCE, 0xB9, 0xAF, 0xAF, 0x37, 0xA3, 0x64,
    0x88, 0x59, 0x0E, 0xF4, 0x30, 0xEC, 0xD0, 0xE7, 0x90, 0x6A, 0x3A, 0xC8, 0xCD, 0xB2, 0x78, 0xEC,
    0x4B, 0x22, 0x13, 0x4D, 0x6B, 0x16, 0x6C, 0x02, 0x9C, 0x4A, 0x23, 0x18, 0x25, 0xF7, 0x5E, 0x7E,
    0x97, 0xFB, 0x83, 0xAA, 0xF0, 0x9C, 0x15, 0x6B, 0x4B, 0xB0, 0x47, 0xD2, 0x71, 0x33, 0x57, 0x01]

/-- The signature of the other secret key with the protected bucket `{1: -8}`. -/
def otherSignAnswer : Ed25519Answer where
  secret := otherEd25519Secret
  publicKey := otherEd25519Public
  msg := [0x85, 0x69] ++ ctxSignature ++ [0x40, 0x43, 0xA1, 0x01, 0x27, 0x40, 0x42, 0x68, 0x69]
  sig := [0x8E, 0xD9, 0xD4, 0x8D, 0x2D, 0x45, 0xD1, 0x50, 0xB0, 0x78, 0xEB, 0x84, 0xE0, 0x0A, 0x0F, 0x87,
    0x77, 0xFB, 0xA5, 0x92, 0x74, 0x9D, 0xFB, 0x6C, 0xD9, 0xA4, 0xFD, 0xE3, 0x63, 0x15, 0x2C, 0x01,
    0x70, 0xD5, 0x6E, 0xE9, 0xB1, 0xD5, 0xA7, 0xE9, 0x07, 0x8E, 0x87, 0x2C, 0x56, 0xC8, 0xDA, 0xDE,
    0x31, 0x30, 0xB8, 0x78, 0x3D, 0x1E, 0xB3, 0x35, 0x17, 0xA3, 0x71, 0x83, 0x9B, 0xE2, 0x36, 0x03]

/-- The wolfCrypt that knows these signatures. -/
@[reducible]
def signCrypt : WolfCrypt := ed25519Crypt [signAnswer, otherSignAnswer]

attribute [local instance] signCrypt

/-- The verified signature. -/
def signEntry : Bytes :=
  [0x83, 0x43, 0xA1, 0x01, 0x32, 0xA0, 0x58, 0x40] ++ signAnswer.sig

/-- An entry with a number in place of the unprotected map. -/
def maplessEntry : Bytes := [0x83, 0x40, 0x00, 0x40]

/-- The message with these two signatures, verified with the key. -/
def ed25519SignArgs : VerifyArgs where
  key := some (.ofEd25519 ed25519Public false)
  input := some (.ofBytes ([0xD8, 0x62, 0x84, 0x40, 0xA0, 0x42, 0x68, 0x69, 0x82] ++ signEntry ++ maplessEntry))
  detached := .null 0
  extAad := .null 0
  scratch := some (.ofBytes (List.replicate 64 0))

/-- What the call returns. -/
def ed25519SignOut : VerifyOut := .verified ⟨-19, none, none, none, 0, 0⟩ (some [0x68, 0x69])

example : signVerify ed25519SignArgs 0 ⟨some .zero, some none, some 0⟩ = (.ok (), ed25519SignOut) := by rfl

theorem sign_selection_independent_instance :
  ∃ input entries, ed25519SignArgs.input = some input ∧ SignEntries input.bytes entries
    ∧ (∀ entries', SignEntries input.bytes entries' → entries' = entries) ∧ 0 < entries.length
    ∧ (SelectionIndependent input ed25519SignArgs.detached 0 entries
      ↔ (∀ k e, entries[k]? = some e → k ≠ 0 → MapAfterProtected e)
        ∧ ∀ e, entries[0]? = some e → ValuesNested (maxDepth - 1) e)
  := sign_selection_independent ed25519SignArgs 0 ⟨some .zero, some none, some 0⟩ ed25519SignOut rfl

/-- A token in its shortest form is accepted, except for simple values and text. -/
theorem accepted_preferred {t : Token} (hw : t.WellFormed) (hs : t.major ≠ .simple) (ht : t.major ≠ .tstr)
    (hp : t.width = Width.preferred t.val) :
  Accepted 0 t
  := ⟨hw, fun h => absurd h hs, fun _ _ => hp, fun h => absurd h ht⟩

/-- An entry of three items. -/
theorem dataItem_entry {bs : Bytes} (h : Items (Accepted 0) 0 3 bs) :
  DataItem (0x83 :: bs)
  := by
  refine ⟨1, ?_⟩
  rw [← List.append_nil bs]
  have head : Accepted 0 ⟨.imm, .array, 3, []⟩ := accepted_preferred ⟨by decide, rfl⟩ (by decide) (by decide) rfl
  apply Items.container head (Nat.succ_ne_zero _) h (.nil _)

/-- The entries of the message. -/
theorem signEntries_instance :
  SignEntries ([0xD8, 0x62, 0x84, 0x40, 0xA0, 0x42, 0x68, 0x69, 0x82] ++ signEntry ++ maplessEntry)
    [signEntry, maplessEntry]
  := by
  have leaf {t : Token} (hw : t.WellFormed) (hs : t.major ≠ .simple) (ht : t.major ≠ .tstr)
      (hp : t.width = Width.preferred t.val) (hm : t.major ≠ .tag) (hc : t.children = 0) :
      Accepted 0 t ∧ t.major ≠ .tag ∧ t.children = 0 := ⟨accepted_preferred hw hs ht hp, hm, hc⟩
  have empty := @leaf ⟨.imm, .bstr, 0, []⟩ ⟨by decide, rfl⟩ (by decide) (by decide) rfl (by decide) rfl
  have map := @leaf ⟨.imm, .map, 0, []⟩ ⟨by decide, rfl⟩ (by decide) (by decide) rfl (by decide) rfl
  have payload := @leaf ⟨.imm, .bstr, 2, [0x68, 0x69]⟩ ⟨by decide, rfl⟩ (by decide) (by decide) rfl (by decide) rfl
  have alg := @leaf ⟨.imm, .bstr, 3, [0xA1, 0x01, 0x32]⟩ ⟨by decide, rfl⟩ (by decide) (by decide) rfl (by decide) rfl
  have sig := @leaf ⟨.one, .bstr, 64, signAnswer.sig⟩ ⟨by decide, rfl⟩ (by decide) (by decide) rfl (by decide) rfl
  have number := @leaf ⟨.imm, .uint, 0, []⟩ ⟨by decide, rfl⟩ (by decide) (by decide) rfl (by decide) rfl
  have three {a b c : Token} (ha : Accepted 0 a ∧ a.major ≠ .tag ∧ a.children = 0)
      (hb : Accepted 0 b ∧ b.major ≠ .tag ∧ b.children = 0)
      (hc : Accepted 0 c ∧ c.major ≠ .tag ∧ c.children = 0) :
      Items (Accepted 0) 0 3 ([a, b, c].flatMap Token.bytes) := by
    have hts : ∀ t ∈ [a, b, c], Accepted 0 t ∧ t.major ≠ .tag ∧ t.children = 0 := by
      simp only [List.forall_mem_cons]
      exact ⟨ha, hb, hc, List.forall_mem_nil _⟩
    exact Items.tokens hts
  have tag : Accepted 0 ⟨.one, .tag, 98, []⟩ := accepted_preferred ⟨by decide, rfl⟩ (by decide) (by decide) rfl
  have outer : Accepted 0 ⟨.imm, .array, 4, []⟩ := accepted_preferred ⟨by decide, rfl⟩ (by decide) (by decide) rfl
  have list : Accepted 0 ⟨.imm, .array, 2, []⟩ := accepted_preferred ⟨by decide, rfl⟩ (by decide) (by decide) rfl
  refine ⟨[0xD8, 0x62, 0x84], [0x40, 0xA0, 0x42, 0x68, 0x69], ⟨.imm, .array, 2, []⟩, rfl, ?_,
    ⟨0, three empty map payload⟩, list, rfl, rfl, ?_⟩
  · exact ⟨_, ⟨.imm, .array, 4, []⟩, rfl, .inr ⟨_, tag, ⟨rfl, rfl⟩, rfl⟩, outer, rfl, rfl⟩
  · simp only [List.forall_mem_cons]
    exact ⟨dataItem_entry (three alg map sig), dataItem_entry (three empty number empty), List.forall_mem_nil _⟩

/-- The message is verified at index 0, and the other signature has no unprotected map. -/
theorem sign_selection_dependent :
  ∃ input entries, ed25519SignArgs.input = some input
    ∧ signVerify ed25519SignArgs 0 ⟨some .zero, some none, some 0⟩ = (.ok (), ed25519SignOut)
    ∧ SignEntries input.bytes entries ∧ ¬SelectionIndependent input ed25519SignArgs.detached 0 entries
  := by
  refine ⟨_, [signEntry, maplessEntry], rfl, rfl, signEntries_instance, ?_⟩
  intro h
  have hshape := h.shapes 1 maplessEntry rfl (by decide)
  have head : Accepted 0 ⟨.imm, .array, 3, []⟩ := accepted_preferred ⟨by decide, rfl⟩ (by decide) (by decide) rfl
  have prot : BstrValue 0 [0x40] [] :=
    ⟨⟨.imm, .bstr, 0, []⟩, accepted_preferred ⟨by decide, rfl⟩ (by decide) (by decide) rfl, ⟨rfl, rfl⟩, rfl⟩
  have hmap := @SignatureShape.startsMap _ ⟨.imm, .array, 3, []⟩ [0x40] [] [0x00, 0x40] hshape head prot
  revert hmap
  decide

end Instances

end WolfCose
