import WolfCose.Recipient.Skipped
import WolfCose.Message

/-!
# The algorithm of a recipient that is skipped

What `wolfCose_DecodeSkippedHdrAlg` reports of the entries of the two buckets, and which buckets it accepts.
-/

namespace WolfCose

open Program Cbor Settings

/-! ### Entries -/

/-- Steps over entries that depend on labels and values only are a scan. -/
theorem scans_of_steps {σ : Type} {V : Label → Bytes → σ → σ → Prop} {R : Entry → σ → σ → Prop}
    (hR : ∀ e s s', R e s s' → V e.label e.value s s') {es : List Entry} {s s' : σ} (h : Steps R es s s')
    (idx : Nat) :
  Scans (fun label _ => V label) idx es s s'
  := by
  induction h generalizing idx with
  | nil s => exact .nil idx s
  | cons he _ ih => exact .cons (hR _ _ _ he) (ih _)

theorem entryWith_eq_none {l : Label} {es : List Entry} :
  entryWith l es = none ↔ l ∉ labelsOf es
  := by
  unfold entryWith
  rw [List.find?_eq_none]
  constructor
  · intro h hl
    obtain ⟨e, he, rfl⟩ := List.mem_map.mp hl
    exact h e he (decide_eq_true rfl)
  · intro h e he hl
    apply h
    rw [← of_decide_eq_true hl]
    exact List.mem_map_of_mem he

theorem entryWith_eq_some {l : Label} {es : List Entry} {e : Entry} (h : entryWith l es = some e) :
  e ∈ es ∧ e.label = l
  := by
  unfold entryWith at h
  have hl := List.find?_some h
  exact ⟨List.mem_of_find?_eq_some h, of_decide_eq_true hl⟩

/-- A field whose label does not occur is left alone. -/
theorem FieldReport.of_not_mem {β : Type} {l : Label} {R : Bytes → β → β → Prop} {es : List Entry} {x x' : β}
    (h : FieldReport l R es x x') (hl : l ∉ labelsOf es) :
  x' = x
  := by
  unfold FieldReport at h
  rw [entryWith_eq_none.mpr hl] at h
  exact h

/-- A field whose label occurs comes from an entry with it. -/
theorem FieldReport.of_mem {β : Type} {l : Label} {R : Bytes → β → β → Prop} {es : List Entry} {x x' : β}
    (h : FieldReport l R es x x') (hl : l ∈ labelsOf es) :
  ∃ e, entryWith l es = some e ∧ R e.value x x'
  := by
  unfold FieldReport at h
  cases he : entryWith l es with
  | none => exact absurd hl (entryWith_eq_none.mp he)
  | some e =>
      rw [he] at h
      exact ⟨e, rfl, h⟩

variable [Settings]

/-! ### What is reported -/

/-- What a bucket does to the algorithm, and to whether one is found. -/
def AlgReport (bs : Bytes) (x x' : Int × Bool) : Prop :=
  x.2 = false ∧ x'.2 = true ∧ AlgField 0 bs x.1 x'.1

theorem SkippedEntryValue.algReport {trackEk : Bool} {label : Label} {bs : Bytes} {vars vars' : SkippedAlg}
    (h : SkippedEntryValue trackEk label bs vars vars') :
  FieldStep (.int hdrAlg) AlgReport label bs (vars.alg, vars.algFound) (vars'.alg, vars'.algFound)
  := by
  unfold SkippedEntryValue at h
  unfold FieldStep
  split at h
  next hl =>
    rw [if_pos hl]
    obtain ⟨hnew, t, ht, ⟨hm, rfl⟩ | ⟨v, hv, -, rfl⟩, rfl⟩ := h
    · exact ⟨hnew, rfl, .inr ⟨⟨t, ht, hm, rfl⟩, rfl⟩⟩
    · exact ⟨hnew, rfl, .inl ⟨t, ht, hv, rfl⟩⟩
  next hl =>
    rw [if_neg hl]
    split at h
    · rw [h.2.2]
    · rw [h.2]

/-- Where a build has HPKE, an encapsulated key is found if its label occurs. -/
theorem SkippedEntryValue.ekReport {trackEk : Bool} {label : Label} {bs : Bytes} {vars vars' : SkippedAlg}
    (h : SkippedEntryValue trackEk label bs vars vars') :
  FieldStep (.int hdrHpkeEk) (fun _ x x' => x' = (x || (hpke0KeDecrypt && trackEk))) label bs
    vars.hpkeEkFound vars'.hpkeEkFound
  := by
  unfold SkippedEntryValue at h
  unfold FieldStep
  split at h
  next hl =>
    rw [if_neg (by rw [hl]; decide)]
    obtain ⟨-, t, -, ⟨-, rfl⟩ | ⟨v, -, -, rfl⟩, -⟩ := h <;> rfl
  next =>
    split at h
    next hl =>
      rw [if_pos hl.2, h.2.2, hl.1, Bool.true_and]
    next hl =>
      split
      next hl' =>
        have hoff : hpke0KeDecrypt = false := by
          rw [← Bool.not_eq_true]
          exact fun hon => hl ⟨hon, hl'⟩
        rw [h.2, hoff, Bool.false_and]
        exact (Bool.or_false _).symm
      next => rw [h.2]

/-- A bucket as entries, and what it reports. -/
theorem SkippedBucket.entries {trackEk : Bool} {vars vars' : SkippedAlg} {bs : Bytes}
    (h : SkippedBucket trackEk vars bs vars') :
  ∃ es, MapEntries 0 bs es
    ∧ Scans (fun label _ => SkippedEntryValue trackEk label) 0 es { vars with hpkeEkFound := false } vars'
  := by
  obtain ⟨head, es, rfl, hhead, hs⟩ := h
  refine ⟨es, ⟨head, hhead, rfl, fun e he => ?_⟩, scans_of_steps (fun e s s' he => he.2) hs 0⟩
  obtain ⟨_, _, hentry⟩ := hs.forall_mem e he
  exact hentry.skipped

/-- A second algorithm is an error. -/
theorem count_alg_of_scans {idx : Nat} {es : List Entry} {x x' : Int × Bool}
    (h : Scans (fun label _ => FieldStep (.int hdrAlg) AlgReport label) idx es x x') :
  (labelsOf es).count (.int hdrAlg) + x.2.toNat = x'.2.toNat
  := by
  induction h with
  | nil => exact Nat.zero_add _
  | @cons idx e es x x₁ x' hv _ ih =>
      unfold FieldStep at hv
      split at hv
      next hl =>
        obtain ⟨hnew, hfound, -⟩ := hv
        rw [labelsOf, List.map_cons, hl, List.count_cons_self, hnew, Nat.add_right_comm]
        rw [hfound] at ih
        exact ih
      next hl =>
        rw [labelsOf, List.map_cons, List.count_cons_of_ne hl, ← hv]
        exact ih

/-- An encapsulated key is found if its label occurs. -/
theorem ekFound_of_scans {idx : Nat} {es : List Entry} {vars vars' : SkippedAlg}
    (h : Scans (fun label _ => SkippedEntryValue true label) idx es vars vars') :
  vars'.hpkeEkFound = true
    ↔ vars.hpkeEkFound = true ∨ (hpke0KeDecrypt = true ∧ .int hdrHpkeEk ∈ labelsOf es)
  := by
  induction h with
  | nil =>
      constructor
      · exact .inl
      · rintro (h | ⟨-, ⟨⟩⟩)
        exact h
  | @cons idx e es s s₁ s' hv _ ih =>
      have hcons : labelsOf (e :: es) = e.label :: labelsOf es := rfl
      have hstep := hv.ekReport
      unfold FieldStep at hstep
      rw [ih, hcons, List.mem_cons]
      split at hstep
      next hl =>
        rw [hstep, Bool.and_true, Bool.or_eq_true]
        constructor
        · rintro ((h | h) | h)
          · exact .inl h
          · exact .inr ⟨h, .inl hl.symm⟩
          · exact .inr ⟨h.1, .inr h.2⟩
        · rintro (h | ⟨h, -⟩)
          · exact .inl (.inl h)
          · exact .inl (.inr h)
      next hl =>
        rw [hstep]
        constructor
        · rintro (h | h)
          · exact .inl h
          · exact .inr ⟨h.1, .inr h.2⟩
        · rintro (h | ⟨h, hl' | hl'⟩)
          · exact .inl h
          · exact absurd hl'.symm hl
          · exact .inr ⟨h, hl'⟩

/-- What the two buckets of a recipient report: there is at most one algorithm in them. -/
structure SkippedReport (prot unprot : List Entry) (vars : SkippedAlg) : Prop where
  oneAlg : (labelsOf (prot ++ unprot)).count (.int hdrAlg) ≤ 1
  alg : FieldReport (.int hdrAlg) AlgReport (prot ++ unprot) (algUnset, false) (vars.alg, vars.algFound)
  ek : vars.hpkeEkFound = true ↔ hpke0KeDecrypt = true ∧ .int hdrHpkeEk ∈ labelsOf unprot

theorem skippedReport_of_buckets {prot unprot data : Bytes} {vars₀ vars : SkippedAlg}
    (hprot : SkippedProtected prot data vars₀) (hunprot : SkippedBucket true vars₀ unprot vars) :
  ∃ pes ues, BucketEntries 0 data pes ∧ MapEntries 0 unprot ues ∧ SkippedReport pes ues vars
  := by
  have halg : ∀ {trackEk : Bool} (label : Label) (i : Nat) (bs : Bytes) (s s' : SkippedAlg),
      SkippedEntryValue trackEk label bs s s' →
      FieldStep (.int hdrAlg) AlgReport label bs (s.alg, s.algFound) (s'.alg, s'.algFound) :=
    fun _ _ _ _ _ h => h.algReport
  obtain ⟨pes, hpes, hps⟩ : ∃ pes, BucketEntries 0 data pes
      ∧ Scans (fun label _ => FieldStep (.int hdrAlg) AlgReport label) 0 pes (algUnset, false)
        (vars₀.alg, vars₀.algFound) := by
    rcases hprot.2 with ⟨rfl, rfl⟩ | ⟨-, hbucket⟩
    · exact ⟨[], .inl ⟨rfl, rfl⟩, .nil _ _⟩
    · obtain ⟨pes, hpes, hps⟩ := hbucket.entries
      exact ⟨pes, .inr hpes, hps.map (fun s => (s.alg, s.algFound)) halg 0⟩
  obtain ⟨ues, hues, hus⟩ := hunprot.entries
  have hs := hps.append (hus.map (fun s => (s.alg, s.algFound)) halg 0)
  have hone : (labelsOf (pes ++ ues)).count (.int hdrAlg) ≤ 1 := by
    have hcount := count_alg_of_scans hs
    dsimp only at hcount
    rw [Bool.toNat_false, Nat.add_zero] at hcount
    rw [hcount]
    exact Bool.toNat_le _
  refine ⟨pes, ues, hpes, hues, hone, hs.fieldReport_of_count (f := id) (fun _ _ _ _ _ h => h) hone, ?_⟩
  rw [ekFound_of_scans hus]
  constructor
  · rintro (⟨⟨⟩⟩ | h)
    exact h
  · exact .inr

/-- The algorithm that a value gives is determined by it. -/
theorem AlgField.unique {flags : UInt32} {bs : Bytes} {old a b : Int} (ha : AlgField flags bs old a)
    (hb : AlgField flags bs old b) :
  a = b
  := by
  have tokens : ∀ {t t' : Token}, Accepted flags t → Accepted flags t' → t.bytes = t'.bytes → t = t' := by
    intro t t' ht ht' e
    rw [← List.append_nil t.bytes, ← List.append_nil t'.bytes] at e
    exact (Token.bytes_append_cancel ht.wellFormed ht'.wellFormed e).1
  rcases ha with ⟨t, ht, hv, rfl⟩ | ⟨⟨t, ht, hm, rfl⟩, rfl⟩
  · rcases hb with ⟨t', ht', hv', e⟩ | ⟨⟨t', ht', hm', e⟩, -⟩
    · rw [← tokens ht ht' e] at hv'
      exact Option.some.inj (hv.symm.trans hv')
    · rw [← tokens ht ht' e] at hm'
      rcases intOf_major hv with h | h <;> rw [h] at hm' <;> cases hm'
  · rcases hb with ⟨t', ht', hv', e⟩ | ⟨-, rfl⟩
    · rw [← tokens ht ht' e] at hv'
      rcases intOf_major hv' with h | h <;> rw [h] at hm <;> cases hm
    · rfl

/-- Where no algorithm is found, none is reported. -/
theorem SkippedReport.alg_of_not_found {prot unprot : List Entry} {vars : SkippedAlg}
    (h : SkippedReport prot unprot vars) (hf : vars.algFound = false) :
  vars.alg = algUnset ∧ .int hdrAlg ∉ labelsOf (prot ++ unprot)
  := by
  have hl : .int hdrAlg ∉ labelsOf (prot ++ unprot) := by
    intro hl
    obtain ⟨e, -, -, hfound, -⟩ := h.alg.of_mem hl
    exact Bool.false_ne_true (hf.symm.trans hfound)
  exact ⟨congrArg Prod.fst (h.alg.of_not_mem hl), hl⟩

/-- A recipient is reported as a direct one exactly if its algorithm is that. -/
theorem SkippedReport.reported_direct {prot unprot : List Entry} {vars : SkippedAlg}
    (h : SkippedReport prot unprot vars) :
  vars.reported = algDirect ↔ vars.alg = algDirect
  := by
  unfold SkippedAlg.reported
  split
  next himplicit =>
    rw [(h.alg_of_not_found himplicit.2.1).1]
    decide
  next => exact Iff.rfl

/-- The algorithm that the entries of the two buckets give is the one that is reported, unless there is none
and an encapsulated key makes it one of HPKE. -/
theorem SkippedReport.reported_cases {prot unprot : List Entry} {vars : SkippedAlg}
    (h : SkippedReport prot unprot vars) {alg : Int}
    (halg : FieldReport (.int hdrAlg) (AlgField 0) (prot ++ unprot) algUnset alg) :
  alg = vars.reported ∨ (alg = algUnset ∧ vars.reported = algHpke0Ke ∧ hpke0KeDecrypt = true
    ∧ .int hdrAlg ∉ labelsOf (prot ++ unprot))
  := by
  by_cases hl : .int hdrAlg ∈ labelsOf (prot ++ unprot)
  · obtain ⟨e, he, -, hfound, hfield⟩ := h.alg.of_mem hl
    obtain ⟨e', he', hfield'⟩ := halg.of_mem hl
    obtain rfl : e = e' := Option.some.inj (he.symm.trans he')
    dsimp only at hfound hfield
    left
    rw [SkippedAlg.reported, if_neg (by rw [hfound]; rintro ⟨-, ⟨⟩, -⟩)]
    exact hfield'.unique hfield
  · have hunset := halg.of_not_mem hl
    have hvars := congrArg Prod.fst (h.alg.of_not_mem hl)
    unfold SkippedAlg.reported
    split
    next himplicit => exact .inr ⟨hunset, rfl, himplicit.1, hl⟩
    next => exact .inl (hunset.trans hvars.symm)

/-! ### Recipients of three fields -/

theorem BstrValue.unique {bs data data' : Bytes} (h : BstrValue 0 bs data) (h' : BstrValue 0 bs data') :
  data = data'
  := by
  obtain ⟨t, ht, ⟨-, rfl⟩, rfl⟩ := h
  obtain ⟨t', ht', ⟨-, rfl⟩, e⟩ := h'
  rw [← List.append_nil t.bytes, ← List.append_nil t'.bytes] at e
  rw [(Token.bytes_append_cancel ht.wellFormed ht'.wellFormed e).1]

/-- A tree whose root starts with the two buckets of an array of three fields is that array. -/
theorem RecipientTree.cancel {d : Nat} {alg : Int} {bs r r' : Bytes} (h : RecipientTree d alg bs) {head : Token}
    {prot data unprot : Bytes} (hhead : Accepted 0 head) (hv : head.val = 3) (hprot : BstrValue 0 prot data)
    (hunprot : DataItem unprot) (e : bs ++ r = head.bytes ++ (prot ++ (unprot ++ r'))) :
  ∃ value vars, r' = value ++ r ∧ bs = head.bytes ++ (prot ++ (unprot ++ value))
    ∧ SkippedFields prot unprot value data vars ∧ alg = vars.reported
  := by
  obtain ⟨b, k, cs, rfl, ⟨head', prot', unprot', value, data', list, vars, rfl, hhead', -, hf, halg, hcase⟩, hcs⟩ := h
  obtain ⟨vars₀, ⟨hprot', hvars₀⟩, hunprot'⟩ := hf.buckets
  simp only [List.append_assoc] at e
  obtain ⟨rfl, e₁⟩ := Token.bytes_append_cancel hhead'.wellFormed hhead.wellFormed e
  obtain ⟨rfl, e₂⟩ := DataItem.append_cancel ⟨0, hprot'.items 0⟩ ⟨0, hprot.items 0⟩ e₁
  obtain ⟨rfl, e₃⟩ := DataItem.append_cancel hunprot'.dataItem hunprot e₂
  obtain rfl := hprot'.unique hprot
  rcases hcase with ⟨-, rfl, rfl⟩ | ⟨h4, -⟩
  · rcases hcs with ⟨-, rfl⟩ | ⟨hk, -⟩
    · refine ⟨value, vars, e₃.symm, ?_, hf, halg⟩
      simp only [List.append_nil]
    · exact absurd rfl hk
  · omega

/-- An array of three fields is a tree of recipients exactly if its fields are skipped. -/
theorem recipientTree_three {d : Nat} {alg : Int} {head : Token} {prot data unprot value : Bytes}
    (hhead : Accepted 0 head) (hm : head.major = .array) (hv : head.val = 3) (hprot : BstrValue 0 prot data)
    (hunprot : DataItem unprot) :
  RecipientTree d alg (head.bytes ++ (prot ++ (unprot ++ value)))
    ↔ ∃ vars, SkippedFields prot unprot value data vars ∧ alg = vars.reported
  := by
  constructor
  · intro h
    obtain ⟨value', vars, hvalue, -, hf, halg⟩ := h.cancel (r := []) hhead hv hprot hunprot (List.append_nil _)
    rw [List.append_nil] at hvalue
    rw [hvalue]
    exact ⟨vars, hf, halg⟩
  · rintro ⟨vars, hf, rfl⟩
    refine ⟨_, 0, [], (List.append_nil _).symm, ⟨head, prot, unprot, value, data, [], vars, ?_, hhead, hm, hf, rfl,
      .inl ⟨hv, rfl, rfl⟩⟩, .inl ⟨rfl, rfl⟩⟩
    rw [List.append_nil]

/-! ### What is accepted -/

/-- A value that can be skipped where an algorithm is expected. -/
def AlgReadable (bs : Bytes) : Prop :=
  TokenValue 0 (fun t => t.major = .tstr ∨ ∃ v, intOf t = some v ∧ inInt32Range v = true) bs

/-- An entry whose value can be skipped. -/
structure Entry.Skippable (e : Entry) : Prop where
  labelled : e.Labelled 0
  value : SkippedValue 0 e.value
  alg : e.label = .int hdrAlg → AlgReadable e.value

/-- Entries that can be skipped and whose labels differ are skipped. -/
theorem exists_steps_skippedEntry {trackEk : Bool} {es : List Entry} (h : ∀ e ∈ es, e.Skippable)
    (hnd : (labelsOf es).Nodup) (vars : SkippedAlg) (halg : vars.algFound = true → .int hdrAlg ∉ labelsOf es)
    (hek : vars.hpkeEkFound = true → .int hdrHpkeEk ∉ labelsOf es) :
  ∃ vars', Steps (SkippedEntry trackEk) es vars vars'
  := by
  induction es generalizing vars with
  | nil => exact ⟨vars, .nil vars⟩
  | cons e es ih =>
      obtain ⟨⟨hlabelled, hvalue, hreadable⟩, hes⟩ := List.forall_mem_cons.mp h
      obtain ⟨hnew, hnd⟩ := List.nodup_cons.mp hnd
      have halg' : vars.algFound = true → .int hdrAlg ∉ labelsOf es :=
        fun hf hl => halg hf (List.mem_cons_of_mem _ hl)
      have hek' : vars.hpkeEkFound = true → .int hdrHpkeEk ∉ labelsOf es :=
        fun hf hl => hek hf (List.mem_cons_of_mem _ hl)
      -- what the first entry leaves to the others
      obtain ⟨vars₁, hfirst, halg₁, hek₁⟩ : ∃ vars₁, SkippedEntryValue trackEk e.label e.value vars vars₁
          ∧ (vars₁.algFound = true → .int hdrAlg ∉ labelsOf es)
          ∧ (vars₁.hpkeEkFound = true → .int hdrHpkeEk ∉ labelsOf es) := by
        unfold SkippedEntryValue
        by_cases hl : e.label = .int hdrAlg
        · have hfound : vars.algFound = false := by
            rw [← Bool.not_eq_true]
            intro hf
            apply halg hf
            rw [← hl]
            exact List.mem_cons_self
          simp only [if_pos hl]
          obtain ⟨t, ht, hm | ⟨v, hv, hr⟩, hbytes⟩ := hreadable hl
          · exact ⟨_, ⟨hfound, t, ht, .inl ⟨hm, rfl⟩, hbytes⟩, fun _ => hl ▸ hnew, hek'⟩
          · exact ⟨_, ⟨hfound, t, ht, .inr ⟨v, hv, hr, rfl⟩, hbytes⟩, fun _ => hl ▸ hnew, hek'⟩
        simp only [if_neg hl]
        by_cases hl' : hpke0KeDecrypt = true ∧ e.label = .int hdrHpkeEk
        · simp only [if_pos hl']
          refine ⟨_, ⟨?_, hvalue, rfl⟩, halg', fun _ => hl'.2 ▸ hnew⟩
          rintro ⟨-, hf⟩
          apply hek hf
          rw [← hl'.2]
          exact List.mem_cons_self
        · simp only [if_neg hl']
          exact ⟨vars, ⟨hvalue, rfl⟩, halg', hek'⟩
      obtain ⟨vars', hs⟩ := ih hes hnd vars₁ halg₁ hek₁
      exact ⟨vars', .cons ⟨hlabelled, hfirst⟩ hs⟩

/-- After entries without an algorithm none is found that was not before. -/
theorem algFound_of_steps {trackEk : Bool} {es : List Entry} {vars vars' : SkippedAlg}
    (h : Steps (SkippedEntry trackEk) es vars vars') :
  vars'.algFound = true → vars.algFound = true ∨ .int hdrAlg ∈ labelsOf es
  := by
  induction h with
  | nil => exact .inl
  | @cons e es s s₁ s' he _ ih =>
      intro hf
      rcases ih hf with hf | hl
      · have hstep := he.2.algReport
        unfold FieldStep at hstep
        split at hstep
        next hl => exact .inr (List.mem_cons.mpr (.inl hl.symm))
        next => exact .inl ((congrArg Prod.snd hstep).symm.trans hf)
      · exact .inr (List.mem_cons_of_mem _ hl)

theorem BucketEntries.steps {data : Bytes} {es : List Entry} (h : BucketEntries 0 data es)
    (hes : ∀ e ∈ es, e.Skippable) (hnd : (labelsOf es).Nodup) :
  ∃ vars, ((data = [] ∧ vars = .init) ∨ (data ≠ [] ∧ SkippedBucket false .init data vars))
    ∧ (vars.algFound = true → .int hdrAlg ∈ labelsOf es)
  := by
  rcases h with ⟨rfl, rfl⟩ | ⟨head, hhead, rfl, -⟩
  · exact ⟨.init, .inl ⟨rfl, rfl⟩, by rintro ⟨⟩⟩
  · obtain ⟨vars, hs⟩ := @exists_steps_skippedEntry _ false _ hes hnd .init (by rintro ⟨⟩) (by rintro ⟨⟩)
    refine ⟨vars, .inr ⟨?_, head, es, rfl, hhead, hs⟩, fun hf => ?_⟩
    · exact List.append_ne_nil_of_left_ne_nil (List.ne_nil_of_length_pos head.one_le_length_bytes) _
    · rcases algFound_of_steps hs hf with hf' | hl
      · cases hf'
      · exact hl

/-- Two buckets whose entries can be skipped and whose labels differ are skipped. -/
theorem exists_skipped_buckets {prot data unprot : Bytes} {pes ues : List Entry} (hprot : BstrValue 0 prot data)
    (hpes : BucketEntries 0 data pes) (hues : MapEntries 0 unprot ues) (hnd : (labelsOf (pes ++ ues)).Nodup)
    (hp : ∀ e ∈ pes, e.Skippable) (hu : ∀ e ∈ ues, e.Skippable) :
  ∃ vars₀ vars, SkippedProtected prot data vars₀ ∧ SkippedBucket true vars₀ unprot vars
  := by
  rw [labelsOf, List.map_append] at hnd
  obtain ⟨hndp, hndu, hdisj⟩ := List.nodup_append.mp hnd
  obtain ⟨vars₀, hvars₀, hfound⟩ := hpes.steps hp hndp
  obtain ⟨head, hhead, rfl, -⟩ := hues
  obtain ⟨vars, hs⟩ := @exists_steps_skippedEntry _ true _ hu hndu { vars₀ with hpkeEkFound := false }
    (fun hf hl => hdisj _ (hfound hf) _ hl rfl) (by rintro ⟨⟩)
  exact ⟨vars₀, vars, ⟨hprot, hvars₀⟩, head, ues, rfl, hhead, hs⟩

end WolfCose
