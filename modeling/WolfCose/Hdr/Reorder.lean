import WolfCose.Hdr.Merge
import WolfCose.Lib.DataItems

/-!
# The order of the entries of a map

The entries of a map of well-formed data items can be told apart, so the entries that a decoder reads
are those that the map was made of.  Where entries with different labels do independent things, a
decoder accepts a map in every order of its entries, with the same result.
-/

namespace WolfCose

open Program Cbor Settings

/-! ### Maps as they stand -/

/-- The encodings of the label and of the value of an entry. -/
structure RawEntry where
  label : Bytes
  value : Bytes

namespace RawEntry

/-- The encoding of an entry. -/
def bytes (e : RawEntry) : Bytes := e.label ++ e.value

/-- The label and the value are data items. -/
structure WellFormed (e : RawEntry) : Prop where
  label : DataItems 1 e.label
  value : DataItems 1 e.value

end RawEntry

/-- What stands before and behind the `n` entries of a map. -/
inductive MapForm : Nat → Bytes → Bytes → Prop where
  | definite {head : Token} : head.WellFormed → head.major = .map → MapForm head.val head.bytes []
  | indefinite (n : Nat) : MapForm n [initialByte .map 31] [breakByte]

/-- A map of well-formed data items. -/
structure RawMap where
  entries : List RawEntry
  start : Bytes
  stop : Bytes
  form : MapForm entries.length start stop
  wellFormed : ∀ e ∈ entries, e.WellFormed

namespace RawMap

/-- The encoding of a map. -/
def bytes (m : RawMap) : Bytes := m.start ++ (m.entries.flatMap RawEntry.bytes ++ m.stop)

/-- The maps have the same entries in another order. -/
structure Reordered (m m' : RawMap) : Prop where
  entries : m.entries.Perm m'.entries
  start : m.start = m'.start
  stop : m.stop = m'.stop

/-- A map of definite length. -/
def ofEntries (es : List RawEntry) (hlen : es.length < 2 ^ 64) (hes : ∀ e ∈ es, e.WellFormed) : RawMap where
  entries := es
  start := preferredHead .map es.length
  stop := []
  form := by
    rw [← Token.bytes_ofHead]
    exact MapForm.definite (Token.wellFormed_ofHead rfl hlen) rfl
  wellFormed := hes

variable {m m' : RawMap}

theorem reordered_ofEntries {es es' : List RawEntry} {hlen : es.length < 2 ^ 64} {hlen' : es'.length < 2 ^ 64}
    {hes : ∀ e ∈ es, e.WellFormed} {hes' : ∀ e ∈ es', e.WellFormed} (hp : es.Perm es') :
  (ofEntries es hlen hes).Reordered (ofEntries es' hlen' hes')
  := ⟨hp, congrArg (preferredHead .map) hp.length_eq, rfl⟩

theorem Reordered.symm (h : m.Reordered m') :
  m'.Reordered m
  := ⟨h.entries.symm, h.start.symm, h.stop.symm⟩

theorem Reordered.length_bytes (h : m.Reordered m') :
  m.bytes.length = m'.bytes.length
  := by
  rw [bytes, bytes, h.start, h.stop]
  simp only [List.length_append]
  rw [(h.entries.flatMap_right RawEntry.bytes).length_eq]

end RawMap

/-- An entry as it stands. -/
def Entry.raw (e : Entry) : RawEntry := ⟨e.token.bytes, e.value⟩

theorem entriesBytes_raw (es : List Entry) :
  (es.map Entry.raw).flatMap RawEntry.bytes = entriesBytes es
  := by
  rw [List.flatMap_map]
  rfl

/-- Entries that stand at the same place are the same. -/
theorem map_raw_eq {es : List Entry} {raws : List RawEntry} (hlen : es.length = raws.length)
    (hes : ∀ e ∈ es, e.raw.WellFormed) (hraws : ∀ e ∈ raws, e.WellFormed) {a b : Bytes}
    (he : entriesBytes es ++ a = raws.flatMap RawEntry.bytes ++ b) :
  es.map Entry.raw = raws ∧ a = b
  := by
  induction es generalizing raws with
  | nil =>
      obtain rfl := List.eq_nil_of_length_eq_zero hlen.symm
      exact ⟨rfl, he⟩
  | cons e es ih =>
      cases raws with
      | nil => cases hlen
      | cons r raws =>
          obtain ⟨hwf, hes⟩ := List.forall_mem_cons.mp hes
          obtain ⟨hwf', hraws⟩ := List.forall_mem_cons.mp hraws
          rw [entriesBytes_cons, List.flatMap_cons, Entry.bytes, RawEntry.bytes] at he
          simp only [List.append_assoc] at he
          obtain ⟨hlabel, he⟩ := DataItems.append_cancel hwf.label hwf'.label he
          obtain ⟨hvalue, he⟩ := DataItems.append_cancel hwf.value hwf'.value he
          obtain ⟨hrest, hab⟩ := ih (Nat.succ.inj hlen) hes hraws he
          refine ⟨?_, hab⟩
          rw [List.map_cons, hrest]
          congr 1
          obtain ⟨label, value⟩ := r
          cases hlabel
          cases hvalue
          rfl

/-- A permutation of images is the image of a permutation. -/
theorem exists_perm_of_map {α β : Type} {f : α → β} {xs : List α} {ys zs : List β} (hp : ys.Perm zs)
    (h : xs.map f = ys) :
  ∃ xs', xs.Perm xs' ∧ xs'.map f = zs
  := by
  induction hp generalizing xs with
  | nil => exact ⟨xs, .refl xs, h⟩
  | cons y _ ih =>
      obtain ⟨x, xs, rfl, rfl, hxs⟩ := List.map_eq_cons_iff.mp h
      obtain ⟨xs', hp, rfl⟩ := ih hxs
      exact ⟨x :: xs', hp.cons x, rfl⟩
  | swap y y' ys =>
      obtain ⟨x, xs, rfl, rfl, hxs⟩ := List.map_eq_cons_iff.mp h
      obtain ⟨x', xs, rfl, rfl, rfl⟩ := List.map_eq_cons_iff.mp hxs
      exact ⟨x' :: x :: xs, .swap x' x xs, rfl⟩
  | trans _ _ ih ih' =>
      obtain ⟨xs₁, hp₁, h₁⟩ := ih h
      obtain ⟨xs₂, hp₂, h₂⟩ := ih' h₁
      exact ⟨xs₂, hp₁.trans hp₂, h₂⟩

section

variable [Settings]

/-- A label is a data item. -/
theorem Entry.Labelled.dataItems {flags : UInt32} {e : Entry} (h : e.Labelled flags) :
  DataItems 1 e.token.bytes
  := by
  have hleaf : e.token.major ≠ .tag ∧ e.token.children = 0 := by
    have hl := h.2
    unfold labelOf at hl
    split at hl
    · rename_i hm
      exact leaf_of_major hm (by decide)
    · obtain ⟨v, hv, -⟩ := Option.map_eq_some_iff.mp hl
      exact leaf_of_intOf hv
  rw [← List.append_nil e.token.bytes]
  apply DataItems.of_token h.1.wellFormed
  rw [Token.nested, if_neg hleaf.1, hleaf.2]
  apply DataItems.nil

theorem SkippedValue.dataItems {flags : UInt32} {bs : Bytes} (h : SkippedValue flags bs) :
  DataItems 1 bs
  := DataItems.of_items Accepted.wf h

/-- The entries that a decoder reads are those that the map was made of. -/
theorem HeaderMap.of_raw {flags : UInt32} {ok : Label → Prop} {head : Token} {es : List Entry}
    (h : HeaderMap flags ok head es) (hes : ∀ e ∈ es, DataItems 1 e.value) {m : RawMap} {a b : Bytes}
    (he : mapBytes head es ++ a = m.bytes ++ b) :
  m.start = head.bytes ∧ m.stop = [] ∧ es.map Entry.raw = m.entries ∧ a = b
  := by
  obtain ⟨raws, start, stop, hform, hraws⟩ := m
  rw [mapBytes, RawMap.bytes, List.append_assoc, List.append_assoc] at he
  dsimp only at he ⊢
  generalize hn : raws.length = n at hform
  cases hform with
  | @definite head' hwf hmajor =>
      obtain ⟨rfl, he⟩ := Token.bytes_append_cancel h.head.accepted.wellFormed hwf he
      have hwfs : ∀ e ∈ es, e.raw.WellFormed := fun e hmem => ⟨(h.labelled e hmem).dataItems, hes e hmem⟩
      rw [List.append_nil] at he
      obtain ⟨hraw, hab⟩ := map_raw_eq (by rw [hn, h.head.val]) hwfs hraws (List.append_cancel_left he)
      exact ⟨rfl, rfl, hraw, hab⟩
  | indefinite => exact (DataItems.headByte_ne h.head.accepted.wellFormed he).elim

/-- A map of entries is one in every order. -/
theorem HeaderMap.perm {flags : UInt32} {ok : Label → Prop} {head : Token} {es es' : List Entry}
    (h : HeaderMap flags ok head es) (hp : es.Perm es') :
  HeaderMap flags ok head es'
  := by
  have hall : ∀ {P : Entry → Prop}, (∀ e ∈ es, P e) → ∀ e ∈ es', P e := fun hP e he => hP e (hp.mem_iff.mpr he)
  refine ⟨⟨h.head.accepted, h.head.major, ?_⟩, hall h.labelled, ⟨?_, hall h.labels.fresh, hall h.labels.ok,
    hall h.labels.enabled⟩, ?_⟩
  · rw [h.head.val, hp.length_eq]
  · exact (hp.map Entry.label).nodup_iff.mp h.labels.nodup
  · rw [← hp.length_eq]
    exact h.length_le

/-- The entries that a decoder reads stand in the other order in a map that is reordered. -/
theorem HeaderMap.reordered {flags : UInt32} {ok : Label → Prop} {head : Token} {es : List Entry}
    (h : HeaderMap flags ok head es) (hes : ∀ e ∈ es, DataItems 1 e.value) {m m' : RawMap} (hm : m.Reordered m')
    {a b : Bytes} (he : mapBytes head es ++ a = m.bytes ++ b) :
  a = b ∧ ∃ es', es.Perm es' ∧ HeaderMap flags ok head es' ∧ m'.bytes = mapBytes head es'
  := by
  obtain ⟨hstart, hstop, hraw, hab⟩ := h.of_raw hes he
  obtain ⟨es', hp, hraw'⟩ := exists_perm_of_map hm.entries hraw
  refine ⟨hab, es', hp, h.perm hp, ?_⟩
  rw [RawMap.bytes, ← hm.start, ← hm.stop, hstart, hstop, ← hraw', entriesBytes_raw, List.append_nil]

end

/-! ### Independent entries -/

section

variable {σ : Type} {V : Label → Nat → Bytes → σ → σ → Prop}

/-- What the value of an entry does depends neither on where it stands nor on the entries before it with
other labels. -/
structure Exchangeable (V : Label → Nat → Bytes → σ → σ → Prop) : Prop where
  moved : ∀ {l i j bs s s'}, V l i bs s s' → V l j bs s s'
  item : ∀ {l i bs s s'}, V l i bs s s' → DataItems 1 bs
  swap : ∀ {l l' i j bs bs' s s₁ s₂}, l ≠ l' → V l i bs s s₁ → V l' j bs' s₁ s₂ →
    ∃ s₁', V l' i bs' s s₁' ∧ V l j bs s₁' s₂

theorem Scans.moved (hV : Exchangeable V) {idx : Nat} {es : List Entry} {s s' : σ} (h : Scans V idx es s s')
    (idx' : Nat) :
  Scans V idx' es s s'
  := by
  induction h generalizing idx' with
  | nil => apply Scans.nil
  | cons hv _ ih =>
      apply Scans.cons (hV.moved hv)
      apply ih

/-- Entries with different labels do the same in every order. -/
theorem Scans.perm (hV : Exchangeable V) {idx : Nat} {es es' : List Entry} {s s' : σ} (h : Scans V idx es s s')
    (hp : es.Perm es') (hnd : (labelsOf es).Nodup) (idx' : Nat) :
  Scans V idx' es' s s'
  := by
  induction hp generalizing idx idx' s s' with
  | nil => exact h.moved hV idx'
  | cons e _ ih =>
      cases h with
      | cons hv hs =>
          apply Scans.cons (hV.moved hv)
          apply ih hs (List.nodup_cons.mp hnd).2
  | swap e e' es =>
      cases h with
      | cons hv hs =>
          cases hs with
          | cons hv' hs =>
              have hne : e'.label ≠ e.label := by
                intro heq
                apply (List.nodup_cons.mp hnd).1
                rw [heq]
                apply List.mem_cons_self
              obtain ⟨s₁', hv₁, hv₂⟩ := hV.swap hne hv hv'
              apply Scans.cons (hV.moved hv₁)
              apply Scans.cons (hV.moved hv₂)
              exact hs.moved hV _
  | @trans es₁ es₂ es₃ hp₁ _ ih₁ ih₂ =>
      have hnd₂ := (hp₁.map Entry.label).nodup_iff.mp hnd
      exact ih₂ (ih₁ h hnd idx) hnd₂ idx'

/-- The values of a label are data items that make updates whatever the variables are. -/
def Makes {U : Type} (apply : U → σ → σ) (slot : U → Option Label) (l : Label) (R : Bytes → σ → σ → Prop) : Prop :=
  ∀ bs s s', R bs s s' → DataItems 1 bs ∧
    ∃ u, (slot u = none ∨ slot u = some l) ∧ s' = apply u s ∧ ∀ t, R bs t (apply u t)

theorem Makes.ite {U : Type} {apply : U → σ → σ} {slot : U → Option Label} {l : Label} {c : Prop} [Decidable c]
    {R R' : Bytes → σ → σ → Prop} (h : c → Makes apply slot l R) (h' : ¬ c → Makes apply slot l R') :
  Makes apply slot l (fun bs s s' => if c then R bs s s' else R' bs s s')
  := by
  by_cases hc : c
  · simpa only [hc, if_true] using h hc
  · simpa only [hc, if_false] using h' hc

/-- Values that make updates, of which those for different labels commute, can be exchanged. -/
theorem Exchangeable.of_updates {U : Type} {apply : U → σ → σ} {slot : U → Option Label}
    {R : Label → Bytes → σ → σ → Prop} (hR : ∀ l, Makes apply slot l (R l))
    (hcomm : ∀ u u' s, (slot u = none ∨ slot u' = none ∨ slot u ≠ slot u') →
      apply u (apply u' s) = apply u' (apply u s)) :
  Exchangeable (fun l _ => R l)
  := by
  constructor
  · intro l i j bs s s' h
    exact h
  · intro l i bs s s' h
    exact (hR l bs s s' h).1
  · intro l l' i j bs bs' s s₁ s₂ hne h h'
    obtain ⟨-, u, hu, rfl, hall⟩ := hR l bs s s₁ h
    obtain ⟨-, u', hu', rfl, hall'⟩ := hR l' bs' _ s₂ h'
    refine ⟨apply u' s, hall' s, ?_⟩
    have hslots : slot u' = none ∨ slot u = none ∨ slot u' ≠ slot u := by
      rcases hu with hu | hu
      · exact .inr (.inl hu)
      rcases hu' with hu' | hu'
      · exact .inl hu'
      · refine .inr (.inr ?_)
        rw [hu, hu']
        intro he
        exact hne (Option.some.inj he).symm
    rw [hcomm u' u s hslots]
    apply hall

variable [Settings]

/-- A value that is a byte string, and is stored. -/
theorem Makes.bstr {U : Type} {apply : U → σ → σ} {slot : U → Option Label} {l : Label} {flags : UInt32}
    (store : Bytes → U) (hslot : ∀ data, slot (store data) = some l) :
  Makes apply slot l (fun bs s s' => ∃ data, BstrValue flags bs data ∧ s' = apply (store data) s)
  := by
  rintro bs s _ ⟨data, hd, rfl⟩
  exact ⟨hd.skipped.dataItems, store data, .inr (hslot data), rfl, fun t => ⟨data, hd, rfl⟩⟩

/-- A value that is skipped, with an update that is always the same. -/
theorem Makes.skipped {U : Type} {apply : U → σ → σ} {slot : U → Option Label} {l : Label} {flags : UInt32} (u : U)
    (hslot : slot u = none) :
  Makes apply slot l (fun bs s s' => SkippedValue flags bs ∧ s' = apply u s)
  := by
  rintro bs s _ ⟨hs, rfl⟩
  exact ⟨hs.dataItems, u, .inl hslot, rfl, fun t => ⟨hs, rfl⟩⟩

end

/-! ### Header maps -/

/-- What an entry of a header map does to the header. -/
inductive HdrUpdate where
  | alg (v : Int)
  | contentType (v : Option Int)
  | kid (data : Bytes)
  | iv (data : Bytes)
  | partialIv (data : Bytes)
  | flags (flags : UInt8)
  | nothing

namespace HdrUpdate

/-- The header after an update. -/
def apply (hdr : Hdr) : HdrUpdate → Hdr
  | .alg v => { hdr with alg := v }
  | .contentType v => { hdr with contentType := v.getD hdr.contentType }
  | .kid data => { hdr with kid := some data }
  | .iv data => { hdr with iv := some data }
  | .partialIv data => { hdr with partialIv := some data }
  | .flags f => { hdr with flags := hdr.flags ||| f }
  | .nothing => hdr

/-- The label of the entry that makes an update, where only one does. -/
def slot : HdrUpdate → Option Label
  | .alg _ => some (.int hdrAlg)
  | .contentType _ => some (.int hdrContentType)
  | .kid _ => some (.int hdrKid)
  | .iv _ => some (.int hdrIv)
  | .partialIv _ => some (.int hdrPartialIv)
  | .flags _ => none
  | .nothing => none

/-- Updates that different entries make commute. -/
theorem apply_comm {u u' : HdrUpdate} (h : u.slot = none ∨ u'.slot = none ∨ u.slot ≠ u'.slot) (hdr : Hdr) :
  u.apply (u'.apply hdr) = u'.apply (u.apply hdr)
  := by
  have hor : ∀ a b c : UInt8, a ||| b ||| c = a ||| c ||| b := by
    intro a b c
    rw [UInt8.or_assoc, UInt8.or_comm b c, UInt8.or_assoc]
  cases u <;> cases u' <;> first
    | rfl
    | simp only [apply, hor]
      done
    | simp [slot] at h

end HdrUpdate

section

variable [Settings]

/-- The value of an algorithm makes an update of the header. -/
theorem AlgValue.update {flags : UInt32} {hdr hdr' : Hdr} {bs : Bytes} (h : AlgValue flags hdr bs hdr') :
  ∃ u : HdrUpdate, (u.slot = none ∨ u.slot = some (.int hdrAlg)) ∧ hdr' = u.apply hdr ∧
    ∀ hdr, AlgValue flags hdr bs (u.apply hdr)
  := by
  obtain ⟨t, ht, ⟨hm, rfl⟩ | ⟨v, hv, hr, rfl⟩, rfl⟩ := h
  · exact ⟨.nothing, .inl rfl, rfl, fun hdr => ⟨t, ht, .inl ⟨hm, rfl⟩, rfl⟩⟩
  · exact ⟨.alg v, .inr rfl, rfl, fun hdr => ⟨t, ht, .inr ⟨v, hv, hr, rfl⟩, rfl⟩⟩

/-- The value of a content type makes an update of the header. -/
theorem ContentTypeValue.update {flags : UInt32} {hdr : Hdr} {r : Hdr × Bool} {bs : Bytes}
    (h : ContentTypeValue flags hdr bs r) :
  ∃ v, r.1 = (HdrUpdate.contentType v).apply hdr ∧
    ∀ hdr, ContentTypeValue flags hdr bs ((HdrUpdate.contentType v).apply hdr, r.2)
  := by
  obtain ⟨t, ht, ⟨hm, rfl⟩ | ⟨hm, hr, rfl⟩, rfl⟩ := h
  · exact ⟨none, rfl, fun hdr => ⟨t, ht, .inl ⟨hm, rfl⟩, rfl⟩⟩
  · exact ⟨some t.val, rfl, fun hdr => ⟨t, ht, .inr ⟨hm, hr, rfl⟩, rfl⟩⟩

/-! ### The protected bucket -/

/-- What an entry of the protected bucket does to the variables of the loop. -/
inductive ProtectedUpdate where
  | hdr (u : HdrUpdate)
  | contentType (v : Option Int) (understood : Bool)
  | crit (labels : List Token)

namespace ProtectedUpdate

/-- The variables after an update. -/
def apply (u : ProtectedUpdate) (vars : ProtectedVars) : ProtectedVars :=
  match u with
  | .hdr u => { vars with hdr := u.apply vars.hdr }
  | .contentType v understood =>
      { vars with
        hdr := (HdrUpdate.contentType v).apply vars.hdr
        contentTypeUnderstood := vars.contentTypeUnderstood || understood }
  | .crit labels => { vars with critLabels := critBits vars.critLabels labels }

/-- The label of the entry that makes an update, where only one does. -/
def slot : ProtectedUpdate → Option Label
  | .hdr u => u.slot
  | .contentType _ _ => some (.int hdrContentType)
  | .crit _ => some (.int hdrCrit)

omit [Settings] in
theorem apply_comm {u u' : ProtectedUpdate} (h : u.slot = none ∨ u'.slot = none ∨ u.slot ≠ u'.slot)
    (vars : ProtectedVars) :
  u.apply (u'.apply vars) = u'.apply (u.apply vars)
  := by
  have hcomm : ∀ v v' : HdrUpdate, v.slot = u.slot → v'.slot = u'.slot → ∀ hdr : Hdr,
      v.apply (v'.apply hdr) = v'.apply (v.apply hdr) := by
    intro v v' hv hv' hdr
    apply HdrUpdate.apply_comm
    rwa [hv, hv']
  cases u with
  | hdr v =>
      cases u' with
      | hdr v' => simp only [apply, hcomm v v' rfl rfl]
      | contentType v' understood => simp only [apply, hcomm v (.contentType v') rfl rfl]
      | crit labels => rfl
  | contentType v understood =>
      cases u' with
      | hdr v' => simp only [apply, hcomm (.contentType v) v' rfl rfl]
      | contentType v' understood' => simp [slot] at h
      | crit labels => rfl
  | crit labels =>
      cases u' with
      | hdr v' => rfl
      | contentType v' understood => rfl
      | crit labels' => simp [slot] at h

end ProtectedUpdate

theorem CritValue.dataItems {flags crit crit' : UInt32} {bs : Bytes} (h : CritValue flags crit bs crit') :
  DataItems 1 bs
  := by
  obtain ⟨head, ts, hh, hm, hv, h0, -, hts, rfl, -⟩ := h
  have hitems : ∀ t ∈ ts, Accepted flags t ∧ t.major ≠ .tag ∧ t.children = 0 := by
    intro t ht
    obtain ⟨hacc, v, hv, -⟩ := hts t ht
    exact ⟨hacc, leaf_of_intOf hv⟩
  apply DataItems.of_token hh.wellFormed
  have hnested : head.nested = ts.length := by
    rw [Token.nested, Token.children, hm, if_neg (by decide), hv]
  rw [hnested]
  apply DataItems.of_items (d := 0) Accepted.wf
  exact Items.tokens hitems

/-- The values of a protected bucket make updates. -/
theorem makes_protectedValue (flags : UInt32) (l : Label) :
  Makes ProtectedUpdate.apply ProtectedUpdate.slot l (fun bs => ProtectedValue flags l 0 bs)
  := by
  apply Makes.ite
  · rintro rfl bs s _ ⟨hdr, hv, rfl⟩
    obtain ⟨u, hslot, rfl, hall⟩ := hv.update
    exact ⟨hv.skipped.dataItems, .hdr u, hslot, rfl, fun t => ⟨_, hall t.hdr, rfl⟩⟩
  intro _
  apply Makes.ite
  · rintro rfl bs s _ ⟨critLabels, hv, rfl⟩
    have hitem := hv.dataItems
    obtain ⟨head, ts, hh, hm, hval, h0, hn, hts, rfl, rfl⟩ := hv
    exact ⟨hitem, .crit ts, .inr rfl, rfl, fun t => ⟨_, ⟨head, ts, hh, hm, hval, h0, hn, hts, rfl, rfl⟩, rfl⟩⟩
  intro _
  apply Makes.ite
  · rintro rfl bs s _ ⟨r, hv, rfl⟩
    obtain ⟨v, hr, hall⟩ := hv.update
    refine ⟨hv.skipped.dataItems, .contentType v r.2, .inr rfl, ?_, fun t => ⟨_, hall t.hdr, rfl⟩⟩
    rw [hr]
    rfl
  intro _
  apply Makes.ite
  · rintro rfl
    exact Makes.bstr (fun data => ProtectedUpdate.hdr (.kid data)) (fun _ => rfl)
  intro _
  apply Makes.ite
  · rintro rfl
    exact Makes.bstr (fun data => ProtectedUpdate.hdr (.iv data)) (fun _ => rfl)
  intro _
  apply Makes.ite
  · rintro rfl
    exact Makes.bstr (fun data => ProtectedUpdate.hdr (.partialIv data)) (fun _ => rfl)
  intro _
  apply Makes.ite
  · intro _
    exact Makes.skipped (ProtectedUpdate.hdr (.flags hdrFlagX5chain)) rfl
  · intro _
    exact Makes.skipped (ProtectedUpdate.hdr .nothing) rfl

/-! ### The unprotected bucket -/

/-- What an entry of the unprotected bucket does to the variables of the loop. -/
inductive UnprotectedUpdate where
  | hdr (u : HdrUpdate)
  | contentType (v : Option Int)
  | hpkeEk (data : Bytes)

namespace UnprotectedUpdate

/-- The variables after an update. -/
def apply (u : UnprotectedUpdate) (vars : UnprotectedVars) : UnprotectedVars :=
  match u with
  | .hdr u => { vars with hdr := u.apply vars.hdr }
  | .contentType v =>
      { vars with hdr := (HdrUpdate.contentType v).apply ((HdrUpdate.flags hdrFlagContentTypeUnprotected).apply vars.hdr) }
  | .hpkeEk data => { vars with hpkeEk := some data }

/-- The label of the entry that makes an update, where only one does. -/
def slot : UnprotectedUpdate → Option Label
  | .hdr u => u.slot
  | .contentType _ => some (.int hdrContentType)
  | .hpkeEk _ => some (.int hdrHpkeEk)

omit [Settings] in
theorem apply_comm {u u' : UnprotectedUpdate} (h : u.slot = none ∨ u'.slot = none ∨ u.slot ≠ u'.slot)
    (vars : UnprotectedVars) :
  u.apply (u'.apply vars) = u'.apply (u.apply vars)
  := by
  have hcomm : ∀ v v' : HdrUpdate, v.slot = u.slot → v'.slot = u'.slot → ∀ hdr : Hdr,
      v.apply (v'.apply hdr) = v'.apply (v.apply hdr) := by
    intro v v' hv hv' hdr
    apply HdrUpdate.apply_comm
    rwa [hv, hv']
  have hflags : ∀ (v : HdrUpdate) (f : UInt8) (hdr : Hdr),
      v.apply ((HdrUpdate.flags f).apply hdr) = (HdrUpdate.flags f).apply (v.apply hdr) :=
    fun v f hdr => HdrUpdate.apply_comm (.inr (.inl rfl)) hdr
  cases u with
  | hdr v =>
      cases u' with
      | hdr v' => simp only [apply, hcomm v v' rfl rfl]
      | contentType v' =>
          simp only [apply, hcomm v (.contentType v') rfl rfl]
          rw [hflags v]
      | hpkeEk data => rfl
  | contentType v =>
      cases u' with
      | hdr v' =>
          simp only [apply, ← hcomm (.contentType v) v' rfl rfl]
          rw [hflags v']
      | contentType v' => simp [slot] at h
      | hpkeEk data => rfl
  | hpkeEk data =>
      cases u' with
      | hdr v' => rfl
      | contentType v' => rfl
      | hpkeEk data' => simp [slot] at h

end UnprotectedUpdate

/-- The values of an unprotected bucket make updates. -/
theorem makes_unprotectedValue (flags : UInt32) (wantEk : Bool) (l : Label) :
  Makes UnprotectedUpdate.apply UnprotectedUpdate.slot l (fun bs => UnprotectedValue flags wantEk l 0 bs)
  := by
  apply Makes.ite
  · rintro rfl
    exact Makes.bstr (fun data => UnprotectedUpdate.hdr (.kid data)) (fun _ => rfl)
  intro _
  apply Makes.ite
  · rintro rfl
    exact Makes.bstr (fun data => UnprotectedUpdate.hdr (.iv data)) (fun _ => rfl)
  intro _
  apply Makes.ite
  · rintro rfl
    exact Makes.bstr (fun data => UnprotectedUpdate.hdr (.partialIv data)) (fun _ => rfl)
  intro _
  apply Makes.ite
  · rintro ⟨-, rfl⟩
    apply Makes.ite
    · intro _
      exact Makes.skipped (UnprotectedUpdate.hdr .nothing) rfl
    · intro _
      exact Makes.bstr UnprotectedUpdate.hpkeEk (fun _ => rfl)
  intro _
  apply Makes.ite
  · rintro rfl bs s _ ⟨hdr, hv, rfl⟩
    obtain ⟨u, hslot, rfl, hall⟩ := hv.update
    exact ⟨hv.skipped.dataItems, .hdr u, hslot, rfl, fun t => ⟨_, hall t.hdr, rfl⟩⟩
  intro _
  apply Makes.ite
  · rintro rfl bs s _ ⟨r, hv, rfl⟩
    obtain ⟨v, hr, hall⟩ := hv.update
    refine ⟨hv.skipped.dataItems, .contentType v, .inr rfl, ?_, fun t => ⟨_, hall _, rfl⟩⟩
    rw [hr]
    rfl
  intro _
  apply Makes.ite
  · intro _
    exact Makes.skipped (UnprotectedUpdate.hdr (.flags hdrFlagX5chain)) rfl
  · intro _
    exact Makes.skipped (UnprotectedUpdate.hdr .nothing) rfl

/-! ### The decoders -/

omit [Settings] in
theorem labelsBits_perm {ls ls' : List Label} (h : ls.Perm ls') :
  labelsBits ls = labelsBits ls'
  := by
  induction h with
  | nil => rfl
  | cons l _ ih => cases l <;> simp only [labelsBits, ih]
  | swap l l' ls =>
      cases l <;> cases l' <;> simp only [labelsBits]
      rw [← UInt32.or_assoc, ← UInt32.or_assoc, UInt32.or_comm (labelBit _)]
  | trans _ _ ih ih' => rw [ih, ih']

/-- States that record the same labels. -/
structure HdrState.SameLabels (state state' : HdrState) : Prop where
  bits : state.labelBits = state'.labelBits
  contains : ∀ l, state.containsLabel l = state'.containsLabel l

theorem HdrState.Represents.sameLabels {state state' : HdrState} {ls ls' : List Label} (h : state.Represents ls)
    (h' : state'.Represents ls') (hp : ls.Perm ls') :
  state.SameLabels state'
  := by
  constructor
  · rw [h.bits, h'.bits, labelsBits_perm hp]
  · intro l
    rw [Bool.eq_iff_iff, h.containsLabel_iff, h'.containsLabel_iff, hp.mem_iff]

/-- A protected bucket of which the entries are taken in another order. -/
theorem ProtectedMap.perm {flags : UInt32} {hdr hdr' : Hdr} {head : Token} {es es' : List Entry}
    (h : ProtectedMap flags hdr hdr' head es) (hp : es.Perm es') :
  ProtectedMap flags hdr hdr' head es'
  := by
  have hex : Exchangeable (ProtectedValue flags) :=
    Exchangeable.of_updates (makes_protectedValue flags) fun _ _ s hslot => ProtectedUpdate.apply_comm hslot s
  have hlabels : (labelsOf es).Perm (labelsOf es') := hp.map Entry.label
  obtain ⟨crit, understood, hs, hcrit, hct⟩ := h.scans
  refine ⟨h.map.perm hp, ?_, ⟨crit, understood, hs.perm hex hp h.map.labels.nodup _, ?_, hct⟩, h.ivs⟩
  · intro l hl
    exact h.placed l (hlabels.mem_iff.mpr hl)
  · rwa [← labelsBits_perm hlabels]

/-- The protected bucket is accepted in every order of its entries, with the same header. -/
theorem decodeProtectedHdrEx_reordered {flags : UInt32} {hdr : Hdr} {m m' : RawMap} (hm : m.Reordered m')
    (hlen : m.bytes.length ≤ sizeMax) {r : Hdr × HdrState}
    (h : decodeProtectedHdrEx (.mem m.bytes) hdr flags = .ok r) :
  ∃ state, decodeProtectedHdrEx (.mem m'.bytes) hdr flags = .ok (r.1, state) ∧ r.2.SameLabels state
  := by
  have hlen' : m'.bytes.length ≤ sizeMax := by
    rw [← hm.length_bytes]
    exact hlen
  rw [decodeProtectedHdrEx_eq_ok hlen] at h
  obtain ⟨hf, ⟨hnil, rfl⟩ | ⟨head, es, hd, hmap, hst⟩⟩ := h
  · have hnil' : m'.bytes = [] := List.eq_nil_of_length_eq_zero (by rw [← hm.length_bytes, hnil]; rfl)
    refine ⟨.init, ?_, rfl, fun _ => rfl⟩
    rw [decodeProtectedHdrEx_eq_ok hlen']
    exact ⟨hf, .inl ⟨hnil', rfl⟩⟩
  · have hitems : ∀ e ∈ es, DataItems 1 e.value := by
      obtain ⟨crit, understood, hs, -⟩ := hmap.scans
      exact hs.forall fun l i bs s s' hv => (makes_protectedValue flags l bs s s' hv).1
    have he : mapBytes head es ++ [] = m.bytes ++ [] := by rw [hd]
    obtain ⟨-, es', hp, -, hd'⟩ := hmap.map.reordered hitems hm he
    have hshort : ∀ {xs : List Entry} {bs : Bytes}, bs.length ≤ sizeMax → bs = mapBytes head xs →
        (entriesBytes xs).length ≤ sizeMax := by
      intro xs bs hbs hx
      rw [hx, List.length_append] at hbs
      omega
    refine ⟨HdrState.pushAll .init (entriesBytes es') es', ?_, ?_⟩
    · rw [decodeProtectedHdrEx_eq_ok hlen']
      exact ⟨hf, .inr ⟨head, es', hd', hmap.perm hp, rfl⟩⟩
    · rw [hst]
      exact (hmap.represents (hshort hlen hd)).sameLabels ((hmap.perm hp).represents (hshort hlen' hd'))
        (hp.map Entry.label)

/-- An unprotected map of which the entries are taken in another order, beside a protected bucket with the
same labels. -/
theorem UnprotectedMap.perm {flags : UInt32} {wantEk : Bool} {state state' : HdrState} {idx idx' : Nat} {hdr : Hdr}
    {vars : UnprotectedVars} {head : Token} {es es' : List Entry}
    (h : UnprotectedMap flags wantEk state idx hdr vars head es) (hst : state.SameLabels state') (hp : es.Perm es') :
  UnprotectedMap flags wantEk state' idx' hdr vars head es'
  := by
  have hex : Exchangeable (UnprotectedValue flags wantEk) :=
    Exchangeable.of_updates (makes_unprotectedValue flags wantEk) fun _ _ s hslot => UnprotectedUpdate.apply_comm hslot s
  have hmap := h.map.perm hp
  refine ⟨⟨hmap.head, hmap.labelled, ⟨hmap.labels.nodup, hmap.labels.fresh, ?_, hmap.labels.enabled⟩, hmap.length_le⟩,
    h.scans.perm hex hp h.map.labels.nodup _, h.ivs⟩
  intro e he
  obtain ⟨hcrit, hnew⟩ := hmap.labels.ok e he
  refine ⟨hcrit, ?_⟩
  rwa [← hst.contains]

/-- The unprotected map is accepted in every order of its entries, with the same header. -/
theorem runs_decodeUnprotectedHdrInternal_reordered {flags : UInt32} {wantEk : Bool} {hdr : Hdr}
    {state state' : HdrState} (hst : state.SameLabels state') {m m' : RawMap} (hm : m.Reordered m') {tail : Bytes}
    {ctx ctx₁ ctx' : DecCtx} (hctx : ctx.rest = m.bytes ++ tail) (hctx₁ : ctx₁.rest = m'.bytes ++ tail)
    {r : Hdr × HdrState × Option Bytes} (h : Runs (decodeUnprotectedHdrInternal flags wantEk hdr state) ctx r ctx') :
  ∃ state₁ ctx₁', Runs (decodeUnprotectedHdrInternal flags wantEk hdr state') ctx₁ (r.1, state₁, r.2.2) ctx₁' ∧
    ctx₁'.rest = ctx'.rest
  := by
  rw [runs_decodeUnprotectedHdrInternal] at h
  obtain ⟨hf, head, es, hmap, hc, -⟩ := h
  have hitems : ∀ e ∈ es, DataItems 1 e.value :=
    hmap.scans.forall fun l i bs s s' hv => (makes_unprotectedValue flags wantEk l bs s s' hv).1
  have he := hc.rest_eq.symm.trans hctx
  obtain ⟨htail, es', hp, -, hd'⟩ := hmap.map.reordered hitems hm he
  rw [hd'] at hctx₁
  have hc₁ := DecCtx.consumes_of_rest hctx₁
  refine ⟨{ state' with labelBits := state'.labelBits ||| labelsBits (labelsOf es') }, _,
    runs_decodeUnprotectedHdrInternal.mpr ⟨hf, head, es', hmap.perm hst hp, hc₁, rfl⟩, ?_⟩
  rw [htail]
  exact List.append_cancel_left (hc₁.rest_eq.symm.trans hctx₁)

/-- The two buckets of a header, the protected one in its byte string and the unprotected one at the cursor. -/
def decodeBuckets (flags : UInt32) (wantEk : Bool) (data : Bytes) (hdr : Hdr) : Dec (Hdr × Option Bytes) := do
  let (hdr, hdrState) ← MonadExcept.ofExcept (decodeProtectedHdrEx (.mem data) hdr flags)
  let (hdr, _, hpkeEk) ← decodeUnprotectedHdrInternal flags wantEk hdr hdrState
  return (hdr, hpkeEk)

theorem runs_decodeBuckets_reordered {flags : UInt32} {wantEk : Bool} {hdr : Hdr} {prot prot' unprot unprot' : RawMap}
    (hp : prot.Reordered prot') (hu : unprot.Reordered unprot') (hlen : prot.bytes.length ≤ sizeMax) {tail : Bytes}
    {ctx ctx₁ ctx' : DecCtx} (hctx : ctx.rest = unprot.bytes ++ tail) (hctx₁ : ctx₁.rest = unprot'.bytes ++ tail)
    {r : Hdr × Option Bytes} (h : Runs (decodeBuckets flags wantEk prot.bytes hdr) ctx r ctx') :
  ∃ ctx₁', Runs (decodeBuckets flags wantEk prot'.bytes hdr) ctx₁ r ctx₁' ∧ ctx₁'.rest = ctx'.rest
  := by
  simp only [decodeBuckets, runs_bind, runs_ofExcept, runs_pure] at h ⊢
  obtain ⟨⟨hdr₁, state⟩, _, ⟨hprot, rfl⟩, ⟨hdr₂, state₂, ek⟩, _, hunprot, rfl, rfl⟩ := h
  obtain ⟨state', hprot', hst⟩ := decodeProtectedHdrEx_reordered hp hlen hprot
  obtain ⟨state₂', ctx₁', hunprot', hrest⟩ := runs_decodeUnprotectedHdrInternal_reordered hst hu hctx hctx₁ hunprot
  exact ⟨ctx₁', ⟨_, ctx₁, ⟨hprot', rfl⟩, _, ctx₁', hunprot', rfl, rfl⟩, hrest⟩

/-- The header decoders accept their maps in every order of the entries, or in none, and with the same
header: the protected bucket on its own, and both buckets of a header. -/
theorem headers_reordered {flags : UInt32} {wantEk : Bool} {hdr : Hdr} {prot prot' unprot unprot' : RawMap}
    (hp : prot.Reordered prot') (hu : unprot.Reordered unprot') (hlen : prot.bytes.length ≤ sizeMax) {tail : Bytes}
    {ctx ctx₁ : DecCtx} (hctx : ctx.rest = unprot.bytes ++ tail) (hctx₁ : ctx₁.rest = unprot'.bytes ++ tail) :
  (∀ hdr', (∃ state, decodeProtectedHdrEx (.mem prot.bytes) hdr flags = .ok (hdr', state)) ↔
      ∃ state, decodeProtectedHdrEx (.mem prot'.bytes) hdr flags = .ok (hdr', state)) ∧
    ∀ r rest, (∃ ctx', Runs (decodeBuckets flags wantEk prot.bytes hdr) ctx r ctx' ∧ ctx'.rest = rest) ↔
      ∃ ctx', Runs (decodeBuckets flags wantEk prot'.bytes hdr) ctx₁ r ctx' ∧ ctx'.rest = rest
  := by
  have hlen' : prot'.bytes.length ≤ sizeMax := by
    rw [← hp.length_bytes]
    exact hlen
  constructor
  · intro hdr'
    constructor
    · rintro ⟨state, h⟩
      obtain ⟨state', h', -⟩ := decodeProtectedHdrEx_reordered hp hlen h
      exact ⟨state', h'⟩
    · rintro ⟨state, h⟩
      obtain ⟨state', h', -⟩ := decodeProtectedHdrEx_reordered hp.symm hlen' h
      exact ⟨state', h'⟩
  · intro r rest
    constructor
    · rintro ⟨ctx', h, rfl⟩
      exact runs_decodeBuckets_reordered hp hu hlen hctx hctx₁ h
    · rintro ⟨ctx', h, rfl⟩
      exact runs_decodeBuckets_reordered hp.symm hu.symm hlen' hctx₁ hctx h

end

/-! ### Examples -/

/-- An integer is a data item. -/
theorem dataItems_integer {major : MajorType} (hm : major = .uint ∨ major = .negint) {v : Nat} (hv : v < 2 ^ 64) :
  DataItems 1 (preferredHead major v)
  := by
  rw [← List.append_nil (preferredHead major v)]
  rcases hm with rfl | rfl
  · exact DataItems.of_head rfl hv .nil
  · exact DataItems.of_head rfl hv .nil

/-- The entry of the algorithm -7. -/
def sampleAlgEntry : RawEntry := ⟨preferredHead .uint 1, preferredHead .negint 6⟩

/-- The entry of a key identifier. -/
def sampleKidEntry : RawEntry := ⟨preferredHead .uint 4, stringBytes .bstr [0x6B]⟩

theorem sampleAlgEntry_wellFormed :
  sampleAlgEntry.WellFormed
  := ⟨dataItems_integer (.inl rfl) (by decide), dataItems_integer (.inr rfl) (by decide)⟩

theorem sampleKidEntry_wellFormed :
  sampleKidEntry.WellFormed
  := ⟨dataItems_integer (.inl rfl) (by decide), DataItems.of_string rfl (by decide)⟩

/-- The map `{1: -7, 4: h'6b'}`. -/
def sampleHeaderMap : RawMap :=
  .ofEntries [sampleAlgEntry, sampleKidEntry] (by decide)
    (List.forall_mem_cons.mpr ⟨sampleAlgEntry_wellFormed, List.forall_mem_singleton.mpr sampleKidEntry_wellFormed⟩)

/-- The map `{4: h'6b', 1: -7}`. -/
def sampleReorderedMap : RawMap :=
  .ofEntries [sampleKidEntry, sampleAlgEntry] (by decide)
    (List.forall_mem_cons.mpr ⟨sampleKidEntry_wellFormed, List.forall_mem_singleton.mpr sampleAlgEntry_wellFormed⟩)

/-- A map without entries. -/
def emptyMap : RawMap := .ofEntries [] (by decide) (List.forall_mem_nil _)

theorem sampleHeaderMap_reordered :
  sampleHeaderMap.Reordered sampleReorderedMap
  := RawMap.reordered_ofEntries (.swap _ _ _)

section Instances

attribute [local instance] defaultSettings

/-- The buckets `{1: -7, 4: h'6b'}` and `{}` are decoded as `{4: h'6b', 1: -7}` and `{}` are. -/
theorem headers_reordered_swap :
  ∃ ctx', Runs (decodeBuckets 0 false [0xA2, 0x04, 0x41, 0x6B, 0x01, 0x26] .zero) (.init ⟨[0xA0], by decide⟩)
    (⟨-7, some [0x6B], none, none, 0, 0⟩, none) ctx' ∧ ctx'.rest = []
  := by
  have h := (@headers_reordered _ 0 false .zero sampleHeaderMap sampleReorderedMap emptyMap emptyMap
    sampleHeaderMap_reordered ⟨.refl _, rfl, rfl⟩ (by decide) [] (.init ⟨[0xA0], by decide⟩)
    (.init ⟨[0xA0], by decide⟩) rfl rfl).2
  apply (h (⟨-7, some [0x6B], none, none, 0, 0⟩, none) []).mp
  exact ⟨⟨⟨[0xA0], by decide⟩, 1⟩, rfl, rfl⟩

end Instances

end WolfCose
