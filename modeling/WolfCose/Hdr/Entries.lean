import WolfCose.Hdr.Decode

/-!
# The entries of a header map

A map of entries stands at the cursor exactly when `decodeEntries` accepts it: the labels
are different and admitted, and the values are those the loop body reads.  What a loop body
does with a value is a relation between the variables before and after.
-/

namespace WolfCose

open Program Cbor Settings

/-- An entry of a map: the token of its label, the label this stands for, and the encoding
of its value. -/
structure Entry where
  token : Token
  label : Label
  value : Bytes

/-- The encoding of an entry. -/
def Entry.bytes (e : Entry) : Bytes := e.token.bytes ++ e.value

/-- The labels of a list of entries. -/
abbrev labelsOf (es : List Entry) : List Label := es.map Entry.label

/-- The encoding of a list of entries. -/
def entriesBytes (es : List Entry) : Bytes := es.flatMap Entry.bytes

@[simp]
theorem entriesBytes_nil :
  entriesBytes [] = []
  := rfl

theorem entriesBytes_cons (e : Entry) (es : List Entry) :
  entriesBytes (e :: es) = e.bytes ++ entriesBytes es
  := rfl

theorem entriesBytes_append (es es' : List Entry) :
  entriesBytes (es ++ es') = entriesBytes es ++ entriesBytes es'
  := List.flatMap_append

variable [Settings]

/-- The label of an entry is an accepted token. -/
def Entry.Labelled (decodeFlags : UInt32) (e : Entry) : Prop :=
  Accepted decodeFlags e.token ∧ labelOf e.token = some e.label

/-- The head of a map of the entries. -/
structure MapHead (decodeFlags : UInt32) (es : List Entry) (head : Token) : Prop where
  accepted : Accepted decodeFlags head
  major : head.major = .map
  val : head.val = es.length

/-- Running through the entries takes the variables `s` to `s'`, where `V label idx bs` is
what an entry at offset `idx` with value `bs` does. -/
inductive Scans {σ : Type} (V : Label → Nat → Bytes → σ → σ → Prop) :
    Nat → List Entry → σ → σ → Prop where
  | nil (idx : Nat) (s : σ) : Scans V idx [] s s
  | cons {idx : Nat} {e : Entry} {es : List Entry} {s s₁ s' : σ} :
      V e.label (idx + e.token.bytes.length) e.value s s₁ →
      Scans V (idx + e.bytes.length) es s₁ s' → Scans V idx (e :: es) s s'

/-- The state after the labels of the entries are added, where the encoding of the first
entry stands at the start of `encoded`. -/
def HdrState.pushAll (state : HdrState) (encoded : Bytes) : List Entry → HdrState
  | [] => state
  | e :: es => (state.push e.label encoded).pushAll (encoded.drop e.bytes.length) es

/-- A value decoder reads what the relation `V` says, whatever follows it. -/
def ReadsValue {σ : Type} (value : Label → σ → Dec σ)
    (V : Label → Nat → Bytes → σ → σ → Prop) : Prop :=
  ∀ label s ctx s' ctx',
    Runs (value label s) ctx s' ctx' ↔ ∃ bs, V label ctx.idx bs s s' ∧ ctx.Consumes bs ctx'

/-- The function `allow` adds labels that are new and satisfy `ok`. -/
def Admits (allow : HdrState → Label → Bytes → Except Err HdrState) (ok : Label → Prop) : Prop :=
  ∀ state labels label encoded state', HdrState.Represents state labels →
    labels.length < maxMapItems → EncodesLabel encoded label →
    (allow state label encoded = .ok state'
      ↔ label ∉ labels ∧ ok label ∧ LabelEnabled label ∧ state' = state.push label encoded)

/-- The labels of the entries are different from each other and from those seen before, and
admitted. -/
structure LabelsOk (ok : Label → Prop) (labels : List Label) (es : List Entry) : Prop where
  nodup : (labelsOf es).Nodup
  fresh : ∀ e ∈ es, e.label ∉ labels
  ok : ∀ e ∈ es, ok e.label
  enabled : ∀ e ∈ es, LabelEnabled e.label

theorem encodesLabel_of_consumes {flags : UInt32} {e : Entry} {ctx ctx' : DecCtx}
    (he : e.Labelled flags) {r : Bytes} (hc : ctx.Consumes (e.token.bytes ++ r) ctx') :
  EncodesLabel ctx.rest e.label
  := by
  intro text htext
  obtain ⟨ht, hl⟩ := he
  refine ⟨e.token, r ++ ctx'.rest, flags, ht, ?_, ?_, ?_, ?_⟩
  · rw [htext, labelOf] at hl
    split at hl
    · assumption
    · simp at hl
  · rw [htext, labelOf] at hl
    split at hl
    · simpa using hl
    · simp at hl
  · rw [hc.rest_eq, List.append_assoc]
  · exact Nat.le_trans ctx.length_rest_le ctx.bufSz_le

section Loop

variable {σ : Type} {flags : UInt32} {allow : HdrState → Label → Bytes → Except Err HdrState}
  {ok : Label → Prop} {value : Label → σ → Dec σ} {V : Label → Nat → Bytes → σ → σ → Prop}

/-- One turn of the loop reads an entry with a new label. -/
theorem runs_decodeEntry (hf : decodeFlagsValid flags = true) (hallow : Admits allow ok)
    (hvalue : ReadsValue value V) {scan scan' : Scan σ} {labels : List Label}
    (hrep : scan.state.Represents labels) (hlen : labels.length < maxMapItems)
    (ctx ctx' : DecCtx) :
  Runs (decodeEntry flags allow value scan) ctx scan' ctx'
    ↔ ∃ e : Entry, e.Labelled flags ∧ ctx.Consumes e.bytes ctx' ∧ e.label ∉ labels ∧ ok e.label
      ∧ LabelEnabled e.label ∧ V e.label (ctx.idx + e.token.bytes.length) e.value scan.vars scan'.vars
      ∧ scan'.state = scan.state.push e.label ctx.rest
  := by
  simp only [decodeEntry, runs_bind, runs_get, runs_ofExcept, runs_pure, runs_decodeLabelEx,
    hvalue _ _ _ _ _]
  constructor
  · rintro ⟨_, _, ⟨rfl, rfl⟩, label, ctx₁, ⟨-, t, ht, hc, hl⟩, state, _, ⟨hst, rfl⟩, vars, ctx₂,
      ⟨bs, hv, hc'⟩, rfl, rfl⟩
    have hcons := hc.trans hc'
    have henc := encodesLabel_of_consumes (e := ⟨t, label, bs⟩) ⟨ht, hl⟩ hcons
    obtain ⟨hnew, hok, hen, rfl⟩ := (hallow _ _ _ _ _ hrep hlen henc).mp hst
    rw [hc.idx_eq] at hv
    exact ⟨⟨t, label, bs⟩, ⟨ht, hl⟩, hcons, hnew, hok, hen, hv, rfl⟩
  · rintro ⟨e, he, hcons, hnew, hok, hen, hv, hst⟩
    have henc := encodesLabel_of_consumes he hcons
    obtain ⟨ctx₁, hc, hc'⟩ := hcons.split
    rw [← hc.idx_eq] at hv
    refine ⟨ctx, ctx, ⟨rfl, rfl⟩, e.label, ctx₁, ⟨hf, e.token, he.1, hc, he.2⟩,
      scan.state.push e.label ctx.rest, ctx₁, ⟨?_, rfl⟩, scan'.vars, ctx', ⟨e.value, hv, hc'⟩, ?_, rfl⟩
    · exact (hallow _ _ _ _ _ hrep hlen henc).mpr ⟨hnew, hok, hen, rfl⟩
    · rw [← hst]

theorem runs_decodeEntry_repeat (hf : decodeFlagsValid flags = true) (hallow : Admits allow ok)
    (hvalue : ReadsValue value V) (n : Nat) {scan scan' : Scan σ} {labels : List Label}
    (hrep : scan.state.Represents labels) (hlen : labels.length + n ≤ maxMapItems)
    (ctx ctx' : DecCtx) :
  Runs (repeatM n (decodeEntry flags allow value) scan) ctx scan' ctx'
    ↔ ∃ es : List Entry, es.length = n ∧ (∀ e ∈ es, e.Labelled flags)
      ∧ ctx.Consumes (entriesBytes es) ctx' ∧ LabelsOk ok labels es
      ∧ Scans V ctx.idx es scan.vars scan'.vars ∧ scan'.state = scan.state.pushAll ctx.rest es
  := by
  induction n generalizing scan labels ctx with
  | zero =>
      rw [runs_repeatM_zero]
      constructor
      · rintro ⟨rfl, rfl⟩
        have none {p : Entry → Prop} : ∀ e ∈ [], p e := List.forall_mem_nil p
        exact ⟨[], rfl, none, ctx.consumes_nil, ⟨List.nodup_nil, none, none, none⟩, .nil _ _, rfl⟩
      · rintro ⟨es, hn, -, hc, -, hs, hst⟩
        obtain rfl := List.eq_nil_of_length_eq_zero hn
        obtain ⟨state, vars⟩ := scan'
        cases hs
        cases hst
        exact ⟨rfl, ctx.consumes_nil.unique hc⟩
  | succ n ih =>
      rw [runs_repeatM_succ]
      have hlen' : labels.length < maxMapItems := by omega
      -- the state after one entry represents one label more
      have next : ∀ (e : Entry) (r : Bytes) (ctx₁ : DecCtx), e.Labelled flags →
          LabelEnabled e.label → ctx.Consumes (e.bytes ++ r) ctx₁ →
          (scan.state.push e.label ctx.rest).Represents (labels ++ [e.label]) := by
        intro e r ctx₁ he hen hc
        rw [Entry.bytes, List.append_assoc] at hc
        exact hrep.push hen (encodesLabel_of_consumes he hc)
      constructor
      · rintro ⟨scan₁, ctx₁, hstep, hrest⟩
        obtain ⟨e, he, hc, hnew, hok, hen, hv, hst⟩ :=
          (runs_decodeEntry hf hallow hvalue hrep hlen' _ _).mp hstep
        have hrep₁ := next e [] ctx₁ he hen (by rw [List.append_nil]; exact hc)
        rw [← hst] at hrep₁
        obtain ⟨es, hn, hes, hc', hl, hs, hst'⟩ :=
          (ih hrep₁ (by rw [List.length_append]; simpa [Nat.add_assoc, Nat.add_comm 1] using hlen) _).mp hrest
        refine ⟨e :: es, by rw [List.length_cons, hn], ?_, hc.trans hc', ?_, ?_, ?_⟩
        · intro x hx
          rcases List.mem_cons.mp hx with rfl | hx
          · exact he
          · exact hes x hx
        · exact {
            nodup := by
              rw [labelsOf, List.map_cons, List.nodup_cons]
              refine ⟨fun hm => ?_, hl.nodup⟩
              obtain ⟨x, hx, hxe⟩ := List.mem_map.mp hm
              exact hl.fresh x hx (by rw [hxe]; simp)
            fresh := by
              intro x hx
              rcases List.mem_cons.mp hx with rfl | hx
              · exact hnew
              · exact fun hm => hl.fresh x hx (List.mem_append_left _ hm)
            ok := List.forall_mem_cons.mpr ⟨hok, hl.ok⟩
            enabled := List.forall_mem_cons.mpr ⟨hen, hl.enabled⟩ }
        · rw [hc.idx_eq] at hs
          exact .cons hv hs
        · rw [hst', hst, HdrState.pushAll, hc.rest_eq, List.drop_left]
      · rintro ⟨es, hn, hes, hc, hl, hs, hst⟩
        obtain _ | ⟨e, es⟩ := es
        · exact absurd hn (Nat.succ_ne_zero n).symm
        obtain ⟨he, hes⟩ := List.forall_mem_cons.mp hes
        obtain ⟨hok, hoks⟩ := List.forall_mem_cons.mp hl.ok
        obtain ⟨hen, hens⟩ := List.forall_mem_cons.mp hl.enabled
        obtain ⟨hnew, hnews⟩ := List.forall_mem_cons.mp hl.fresh
        obtain ⟨hne, hnd⟩ := List.nodup_cons.mp hl.nodup
        rw [entriesBytes_cons] at hc
        have hrep₁ := next e _ ctx' he hen hc
        obtain ⟨ctx₁, hc₁, hc₂⟩ := hc.split
        cases hs with
        | @cons _ _ _ _ s₁ _ hv hs =>
            refine ⟨⟨scan.state.push e.label ctx.rest, s₁⟩, ctx₁, ?_, ?_⟩
            · exact (runs_decodeEntry hf hallow hvalue hrep hlen' _ _).mpr
                ⟨e, he, hc₁, hnew, hok, hen, hv, rfl⟩
            · refine (ih hrep₁ (by rw [List.length_append]; simpa [Nat.add_assoc, Nat.add_comm 1] using hlen) _).mpr
                ⟨es, Nat.succ.inj hn, hes, hc₂, ⟨hnd, ?_, hoks, hens⟩, ?_, ?_⟩
              · intro x hx hm
                rcases List.mem_append.mp hm with hm | hm
                · exact hnews x hx hm
                · exact hne (List.mem_map.mpr ⟨x, hx, List.mem_singleton.mp hm⟩)
              · rw [hc₁.idx_eq]
                exact hs
              · rw [hst, HdrState.pushAll, hc₁.rest_eq, List.drop_left]

/-- A map of entries: its head and its entries, with different admitted labels. -/
structure HeaderMap (decodeFlags : UInt32) (ok : Label → Prop) (head : Token) (es : List Entry) :
    Prop where
  head : MapHead decodeFlags es head
  labelled : ∀ e ∈ es, e.Labelled decodeFlags
  labels : LabelsOk ok [] es
  length_le : es.length ≤ maxMapItems

/-- The encoding of a map of entries. -/
abbrev mapBytes (head : Token) (es : List Entry) : Bytes := head.bytes ++ entriesBytes es

/-- The loop over the entries of a map accepts exactly the maps of admitted labels whose
values the loop body accepts. -/
theorem runs_decodeEntries (hf : decodeFlagsValid flags = true) (hallow : Admits allow ok)
    (hvalue : ReadsValue value V)
    (hsize : ∀ label idx bs s s', V label idx bs s s' → bs ≠ [])
    (vars : σ) (scan' : Scan σ) (ctx ctx' : DecCtx) :
  Runs (decodeEntries flags allow value vars) ctx scan' ctx'
    ↔ ∃ head es, HeaderMap flags ok head es ∧ ctx.Consumes (mapBytes head es) ctx'
      ∧ Scans V (ctx.idx + head.bytes.length) es vars scan'.vars
      ∧ scan'.state = HdrState.pushAll .init (ctx.rest.drop head.bytes.length) es
  := by
  have loop := fun n hn ctx₁ => @runs_decodeEntry_repeat _ σ flags allow ok value V hf hallow hvalue
    n ⟨.init, vars⟩ scan' [] HdrState.represents_init hn ctx₁ ctx'
  simp only [decodeEntries, runs_bind, runs_failIf, runs_decodeMapStartEx, gt_iff_lt, Nat.not_lt]
  constructor
  · rintro ⟨n, ctx₁, ⟨-, head, hh, hc, hm, rfl, -⟩, _, _, ⟨hn, rfl⟩, hloop⟩
    obtain ⟨es, hlen, hes, hc', hl, hs, hst⟩ := (loop _ (by simpa using hn) _).mp hloop
    refine ⟨head, es, ⟨⟨hh, hm, hlen.symm⟩, hes, hl, by omega⟩, hc.trans hc', ?_, ?_⟩
    · rw [hc.idx_eq] at hs
      exact hs
    · rw [hst, hc.rest_eq, List.drop_left]
  · rintro ⟨head, es, ⟨hhead, hes, hl, hn⟩, hc, hs, hst⟩
    obtain ⟨ctx₁, hc₁, hc₂⟩ := hc.split
    have hroom : head.children ≤ ctx₁.rest.length := by
      rw [hc₂.length_rest_eq, Token.children, hhead.major, hhead.val]
      have htwo : ∀ (idx : Nat) (l : List Entry) (a b : σ), Scans V idx l a b →
          2 * l.length ≤ (entriesBytes l).length := by
        intro idx l a b h
        induction h with
        | nil => exact Nat.le_refl 0
        | @cons idx e l a a₁ b hv _ ih =>
            have h₁ := e.token.one_le_length_bytes
            have h₂ := List.length_pos_iff.mpr (hsize _ _ _ _ _ hv)
            rw [entriesBytes_cons, List.length_append, Entry.bytes,
              List.length_append, List.length_cons]
            omega
      have := htwo _ _ _ _ hs
      dsimp only
      omega
    refine ⟨es.length, ctx₁, ⟨hf, head, hhead.accepted, hc₁, hhead.major, hhead.val, hroom⟩, (),
      ctx₁, ⟨hn, rfl⟩, ?_⟩
    refine (loop _ (by simpa using hn) _).mpr ⟨es, rfl, hes, hc₂, hl, ?_, ?_⟩
    · rw [hc₁.idx_eq]
      exact hs
    · rw [hst, hc₁.rest_eq, List.drop_left]

end Loop

/-! ### The labels of a map -/

/-- The state after a loop over a map represents the labels of the map. -/
theorem HdrState.Represents.pushAll {state : HdrState} {labels : List Label} {flags : UInt32}
    {encoded : Bytes} {es : List Entry} (h : state.Represents labels)
    (hes : ∀ e ∈ es, e.Labelled flags) (hen : ∀ e ∈ es, LabelEnabled e.label)
    (hpre : entriesBytes es <+: encoded) (hlen : encoded.length ≤ sizeMax) :
  (state.pushAll encoded es).Represents (labels ++ labelsOf es)
  := by
  induction es generalizing state labels encoded with
  | nil => simpa [HdrState.pushAll] using h
  | cons e es ih =>
      obtain ⟨he, hes⟩ := List.forall_mem_cons.mp hes
      obtain ⟨hen, hens⟩ := List.forall_mem_cons.mp hen
      obtain ⟨r, rfl⟩ := hpre
      rw [entriesBytes_cons, List.append_assoc] at hlen ⊢
      have henc : EncodesLabel (e.bytes ++ (entriesBytes es ++ r)) e.label := by
        have hc : (DecCtx.init ⟨_, hlen⟩).Consumes (e.token.bytes ++ e.value)
            ((DecCtx.init ⟨_, hlen⟩).advance (e.token.bytes ++ e.value).length) :=
          DecCtx.consumes_of_rest rfl
        exact encodesLabel_of_consumes he hc
      have hstep := ih (h.push hen henc) hes hens
        (List.prefix_append (entriesBytes es) r) (by rw [List.length_append] at hlen; omega)
      rw [HdrState.pushAll, List.drop_left]
      rw [List.append_assoc] at hstep
      exact hstep

theorem admits_checkAndAddLabel :
  Admits HdrState.checkAndAddLabel (fun _ => True)
  := by
  intro state labels label encoded state' hrep hlen henc
  rw [hrep.checkAndAddLabel_eq_ok hlen henc, true_and]

/-- The labels that the unprotected bucket admits. -/
def UnprotectedLabelOk (hdrState : HdrState) (label : Label) : Prop :=
  label ≠ .int hdrCrit ∧ hdrState.containsLabel label = false

theorem admits_admitUnprotected (hdrState : HdrState) :
  Admits hdrState.admitUnprotected (UnprotectedLabelOk hdrState)
  := by
  intro state labels label encoded state' hrep hlen henc
  have hc := hrep.containsLabel_iff label
  unfold HdrState.admitUnprotected UnprotectedLabelOk
  by_cases hcrit : label = .int hdrCrit
  · rw [if_pos hcrit]
    simp [hcrit]
  rw [if_neg hcrit]
  by_cases hm : label ∈ labels
  · rw [if_pos (.inl (hc.mpr hm))]
    simp [hm]
  by_cases hh : hdrState.containsLabel label = true
  · rw [if_pos (.inr hh)]
    simp [hh]
  · rw [if_neg (fun h => h.elim (fun h => hm (hc.mp h)) hh), hrep.addLabel_eq_ok hlen henc]
    simp [hm, hcrit, hh]

end WolfCose
