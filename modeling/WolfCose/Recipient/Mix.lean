import WolfCose.Recipient.Skipped

/-!
# The mix of recipients

What `wolfCose_UpdateRecipientMode` admits when it is folded over the algorithms of a list of recipients:
no algorithm is missing, all are of one class, and a recipient of direct agreement is alone.
-/

namespace WolfCose

open Program Cbor Settings

/-! ### The policy -/

/-- The policy folded over a list of algorithms. -/
def foldRecipientMode (algs : List Int) (mode : Option RecipientMode) : Except Err (Option RecipientMode) :=
  algs.foldlM (fun mode alg => updateRecipientMode alg mode) mode

/-- The mode is that of the algorithms so far: they are of one class, and more than one of them are not of
direct agreement. -/
def MixOf (algs : List Int) (mode : Option RecipientMode) : Prop :=
  (∀ alg ∈ algs, alg ≠ algUnset ∧ mode = some (.ofAlg alg)) ∧ (algs = [] → mode = none)
    ∧ (mode = some .directAgreement → algs.length = 1)

/-- A list of algorithms that a message may have: none is missing, all are of one class, and one of direct
agreement is alone. -/
structure Mix (algs : List Int) : Prop where
  set : ∀ alg ∈ algs, alg ≠ algUnset
  sameClass : ∀ alg ∈ algs, ∀ alg' ∈ algs, RecipientMode.ofAlg alg = .ofAlg alg'
  alone : (∃ alg ∈ algs, RecipientMode.ofAlg alg = .directAgreement) → algs.length = 1

theorem foldRecipientMode_nil (mode : Option RecipientMode) :
  foldRecipientMode [] mode = .ok mode
  := rfl

theorem foldRecipientMode_append (algs algs' : List Int) (mode : Option RecipientMode) :
  foldRecipientMode (algs ++ algs') mode = foldRecipientMode algs mode >>= foldRecipientMode algs'
  := List.foldlM_append

theorem foldRecipientMode_singleton (alg : Int) (mode : Option RecipientMode) :
  foldRecipientMode [alg] mode = updateRecipientMode alg mode
  := by
  unfold foldRecipientMode
  rw [List.foldlM_cons]
  apply bind_pure

/-- One algorithm more. -/
theorem updateRecipientMode_eq_ok {alg : Int} {mode mode' : Option RecipientMode} :
  updateRecipientMode alg mode = .ok mode'
    ↔ alg ≠ algUnset ∧ mode' = some (.ofAlg alg)
      ∧ ∀ m, mode = some m → m = .ofAlg alg ∧ RecipientMode.ofAlg alg ≠ .directAgreement
  := by
  unfold updateRecipientMode
  by_cases hunset : alg = algUnset
  · rw [if_pos hunset]
    constructor
    · rintro ⟨⟩
    · rintro ⟨hset, -⟩
      exact absurd hunset hset
  rw [if_neg hunset]
  cases mode with
  | none =>
      constructor
      · rintro ⟨⟩
        refine ⟨hunset, rfl, ?_⟩
        rintro m ⟨⟩
      · rintro ⟨-, rfl, -⟩
        rfl
  | some m =>
      dsimp only
      split
      next hbad =>
        constructor
        · rintro ⟨⟩
        · rintro ⟨-, -, h⟩
          obtain ⟨hm, hne⟩ := h m rfl
          rcases hbad with hbad | hbad
          · exact absurd hm hbad
          · exact absurd hbad hne
      next hbad =>
        have hm : m = .ofAlg alg := Decidable.not_not.mp fun h => hbad (.inl h)
        constructor
        · rintro ⟨⟩
          refine ⟨hunset, by rw [hm], ?_⟩
          rintro _ ⟨⟩
          exact ⟨hm, fun h => hbad (.inr h)⟩
        · rintro ⟨-, rfl, -⟩
          rw [hm]

/-- One step of the policy extends a mix. -/
theorem MixOf.snoc_iff {algs : List Int} {alg : Int} {mode mode' : Option RecipientMode} (h : MixOf algs mode) :
  updateRecipientMode alg mode = .ok mode' ↔ MixOf (algs ++ [alg]) mode'
  := by
  obtain ⟨hall, hnil, halone⟩ := h
  rw [updateRecipientMode_eq_ok]
  constructor
  · rintro ⟨hset, rfl, hmode⟩
    refine ⟨?_, fun hn => absurd hn (List.append_ne_nil_of_right_ne_nil _ (List.cons_ne_nil _ _)), ?_⟩
    · intro a ha
      rcases List.mem_append.mp ha with ha | ha
      · obtain ⟨hset', hm⟩ := hall a ha
        exact ⟨hset', by rw [(hmode _ hm).1]⟩
      · rw [List.mem_singleton.mp ha]
        exact ⟨hset, rfl⟩
    · intro hag
      cases algs with
      | nil => rfl
      | cons a algs =>
          obtain ⟨-, hm⟩ := hall a List.mem_cons_self
          exact absurd (Option.some.inj hag) (hmode _ hm).2
  · rintro ⟨hall', -, halone'⟩
    obtain ⟨hset, rfl⟩ := hall' alg (List.mem_append_right _ (List.mem_singleton.mpr rfl))
    refine ⟨hset, rfl, ?_⟩
    rintro m rfl
    cases algs with
    | nil => cases hnil rfl
    | cons a algs =>
        obtain ⟨-, hm⟩ := hall a List.mem_cons_self
        obtain ⟨-, hm'⟩ := hall' a (List.mem_append_left _ List.mem_cons_self)
        have hclass : m = .ofAlg alg := Option.some.inj (hm.trans hm'.symm)
        refine ⟨hclass, fun hag => ?_⟩
        have hlen := halone' (congrArg some hag)
        rw [List.length_append, List.length_cons, List.length_singleton] at hlen
        omega

theorem MixOf.foldRecipientMode_iff {algs algs' : List Int} {mode mode' : Option RecipientMode}
    (h : MixOf algs mode) :
  foldRecipientMode algs' mode = .ok mode' ↔ MixOf (algs ++ algs') mode'
  := by
  induction algs' generalizing algs mode with
  | nil =>
      rw [foldRecipientMode_nil, List.append_nil]
      constructor
      · rintro ⟨⟩
        exact h
      · intro h'
        congr 1
        cases algs with
        | nil => rw [h.2.1 rfl, h'.2.1 rfl]
        | cons a algs => rw [(h.1 a List.mem_cons_self).2, (h'.1 a List.mem_cons_self).2]
  | cons alg algs' ih =>
      have hassoc : algs ++ alg :: algs' = (algs ++ [alg]) ++ algs' := by
        rw [List.append_assoc, List.singleton_append]
      rw [← List.singleton_append, foldRecipientMode_append, foldRecipientMode_singleton, List.singleton_append,
        hassoc]
      constructor
      · intro hfold
        cases hu : updateRecipientMode alg mode with
        | error e =>
            rw [hu] at hfold
            cases hfold
        | ok m =>
            rw [hu] at hfold
            exact (ih (h.snoc_iff.mp hu)).mp hfold
      · intro h'
        have hinit : MixOf (algs ++ [alg]) mode' := by
          refine ⟨fun a ha => h'.1 a (List.mem_append_left _ ha),
            fun hn => absurd hn (List.append_ne_nil_of_right_ne_nil _ (List.cons_ne_nil _ _)), fun hag => ?_⟩
          have hlen := h'.2.2 hag
          rw [List.length_append, List.length_append, List.length_singleton] at hlen
          rw [List.length_append, List.length_singleton]
          omega
        rw [h.snoc_iff.mpr hinit]
        exact (ih hinit).mpr h'

theorem mixOf_nil :
  MixOf [] none
  := by
  refine ⟨?_, fun _ => rfl, ?_⟩
  · rintro alg ⟨⟩
  · rintro ⟨⟩

theorem mix_iff {algs : List Int} :
  Mix algs ↔ ∃ mode, MixOf algs mode
  := by
  constructor
  · rintro ⟨hset, hsame, halone⟩
    cases algs with
    | nil => exact ⟨none, mixOf_nil⟩
    | cons a algs =>
        refine ⟨some (.ofAlg a), fun b hb => ⟨hset b hb, ?_⟩, fun hn => absurd hn (List.cons_ne_nil _ _), fun hag => ?_⟩
        · rw [hsame a List.mem_cons_self b hb]
        · exact halone ⟨a, List.mem_cons_self, Option.some.inj hag⟩
  · rintro ⟨mode, hall, -, halone⟩
    refine ⟨fun a ha => (hall a ha).1, fun a ha b hb => ?_, fun ⟨a, ha, hag⟩ => halone ?_⟩
    · exact Option.some.inj ((hall a ha).2.symm.trans (hall b hb).2)
    · rw [(hall a ha).2, hag]

/-- The policy accepts a list of algorithms exactly if it is a mix that is allowed. -/
theorem foldRecipientMode_ok_iff (algs : List Int) :
  (∃ mode, foldRecipientMode algs none = .ok mode) ↔ Mix algs
  := by
  simp only [mixOf_nil.foldRecipientMode_iff, List.nil_append, mix_iff]

/-- A part of a mix is a mix. -/
theorem Mix.of_append {algs algs' : List Int} (h : Mix (algs ++ algs')) :
  Mix algs
  := by
  refine ⟨fun a ha => h.set a (List.mem_append_left _ ha),
    fun a ha b hb => h.sameClass a (List.mem_append_left _ ha) b (List.mem_append_left _ hb), fun ⟨a, ha, hag⟩ => ?_⟩
  have hlen := h.alone ⟨a, List.mem_append_left _ ha, hag⟩
  rw [List.length_append] at hlen
  have := List.length_pos_of_mem ha
  omega

/-! ### The loops -/

variable [Settings]

/-- The loop over recipients that are not selected reads one tree after the other, and folds the policy over
their algorithms. -/
theorem runs_decodeSkippedRecipients (n : Nat) (mode : Option RecipientMode) (ctx : DecCtx)
    (mode' : Option RecipientMode) (ctx' : DecCtx) :
  Runs (decodeSkippedRecipients n mode) ctx mode' ctx'
    ↔ ∃ rs : List (Int × Bytes), rs.length = n ∧ (∀ r ∈ rs, RecipientTree maxDepth r.1 r.2)
      ∧ foldRecipientMode (rs.map Prod.fst) mode = .ok mode' ∧ ctx.Consumes (rs.flatMap Prod.snd) ctx'
  := by
  unfold decodeSkippedRecipients
  induction n generalizing mode ctx with
  | zero =>
      rw [runs_repeatM_zero]
      constructor
      · rintro ⟨rfl, rfl⟩
        refine ⟨[], rfl, ?_, rfl, ctx.consumes_nil⟩
        rintro r ⟨⟩
      · rintro ⟨rs, hn, -, hfold, hc⟩
        obtain rfl := List.eq_nil_of_length_eq_zero hn
        exact ⟨Except.ok.inj hfold, ctx.consumes_nil.unique hc⟩
  | succ n ih =>
      rw [runs_repeatM_succ]
      simp only [ih, runs_bind, runs_ofExcept, reads_decodeSkippedRecipient _ _ _]
      constructor
      · rintro ⟨m, c₁, ⟨alg, _, ⟨bs, hbs, hc⟩, hm, rfl⟩, rs, rfl, hrs, hfold, hc'⟩
        refine ⟨(alg, bs) :: rs, rfl, List.forall_mem_cons.mpr ⟨hbs, hrs⟩, ?_, hc.trans hc'⟩
        rw [List.map_cons, ← List.singleton_append, foldRecipientMode_append, foldRecipientMode_singleton]
        dsimp only
        rw [hm]
        exact hfold
      · rintro ⟨rs, hn, hrs, hfold, hc⟩
        obtain ⟨⟨alg, bs⟩, rs, rfl⟩ := List.exists_cons_of_length_eq_add_one hn
        obtain ⟨hbs, hrs⟩ := List.forall_mem_cons.mp hrs
        obtain ⟨c₁, hc₁, hc₂⟩ := hc.split
        rw [List.map_cons, ← List.singleton_append, foldRecipientMode_append, foldRecipientMode_singleton] at hfold
        dsimp only at hfold
        cases hm : updateRecipientMode alg mode with
        | error e =>
            rw [hm] at hfold
            cases hfold
        | ok m =>
            rw [hm] at hfold
            exact ⟨m, c₁, ⟨alg, c₁, ⟨bs, hbs, hc₁⟩, hm, rfl⟩, rs, Nat.succ.inj hn, hrs, hfold, hc₂⟩

/-- Lists of recipients that are skipped one after the other. -/
abbrev treesBytes (rs : List (Int × Bytes)) : Bytes := rs.flatMap Prod.snd

/-- An array of recipients of which the one at an index is selected: its head, the recipients before and after
the selected one, and the algorithm of that one. -/
structure RecipientList (head : Token) (before after : List (Int × Bytes)) (alg : Int) (index : Nat) : Prop where
  accepted : Accepted 0 head
  major : head.major = .array
  count : head.val = before.length + (after.length + 1)
  index_eq : before.length = index
  trees : ∀ r ∈ before ++ after, RecipientTree maxDepth r.1 r.2
  mix : Mix (before.map Prod.fst ++ alg :: after.map Prod.fst)

theorem RecipientNode.length_pos {alg : Int} {bs : Bytes} {k : Nat} (h : RecipientNode alg bs k) :
  1 ≤ bs.length
  := List.length_pos_iff.mpr h.ne_nil

theorem RecipientTree.length_pos {d : Nat} {alg : Int} {bs : Bytes} (h : RecipientTree d alg bs) :
  1 ≤ bs.length
  := by
  obtain ⟨b, k, cs, rfl, hb, -⟩ := h
  have := hb.length_pos
  rw [List.length_append]
  omega

theorem length_le_treesBytes {rs : List (Int × Bytes)} (h : ∀ r ∈ rs, RecipientTree maxDepth r.1 r.2) :
  rs.length ≤ (treesBytes rs).length
  := by
  induction rs with
  | nil => exact Nat.le_refl 0
  | cons r rs ih =>
      obtain ⟨hr, hrs⟩ := List.forall_mem_cons.mp h
      have h₁ := hr.length_pos
      have h₂ := ih hrs
      have hcons : treesBytes (r :: rs) = r.2 ++ treesBytes rs := List.flatMap_cons
      rw [hcons, List.length_append, List.length_cons]
      omega

/-- The steps that decode an array of recipients, the selected one by its own parser. -/
theorem recipientList_iff {index : Nat} {alg : Int} {S : Nat → Bytes → Prop} (hS : ∀ n bs, S n bs → bs ≠ [])
    (ctx ctx' : DecCtx) :
  (∃ count c₁, Runs decodeArrayStart ctx count c₁ ∧ index < count
      ∧ ∃ mode c₂, Runs (decodeSkippedRecipients index none) c₁ mode c₂
      ∧ ∃ bs c₃, S count bs ∧ c₂.Consumes bs c₃
      ∧ ∃ mode', updateRecipientMode alg mode = .ok mode'
      ∧ ∃ mode'', Runs (decodeSkippedRecipients (count - (index + 1)) mode') c₃ mode'' ctx')
    ↔ ∃ head before selected after, RecipientList head before after alg index ∧ S head.val selected
      ∧ ctx.Consumes (head.bytes ++ (treesBytes before ++ (selected ++ treesBytes after))) ctx'
  := by
  simp only [decodeArrayStart, runs_decodeArrayStartEx, runs_decodeSkippedRecipients]
  constructor
  · rintro ⟨count, c₁, ⟨-, head, hhead, hc₁, hm, hv, -⟩, hindex, mode, c₂, ⟨before, hlen, hbefore, hfold, hc₂⟩, bs, c₃,
      hbs, hc₃, mode', hmode, mode'', after, hlen', hafter, hfold', hc₄⟩
    refine ⟨head, before, bs, after, ⟨hhead, hm, by omega, hlen, ?_, ?_⟩, by rw [hv]; exact hbs,
      hc₁.trans (hc₂.trans (hc₃.trans hc₄))⟩
    · intro r hr
      rcases List.mem_append.mp hr with hr | hr
      · exact hbefore r hr
      · exact hafter r hr
    · apply (foldRecipientMode_ok_iff _).mp
      refine ⟨mode'', ?_⟩
      rw [foldRecipientMode_append, hfold, ← List.singleton_append]
      change foldRecipientMode ([alg] ++ after.map Prod.fst) mode = _
      rw [foldRecipientMode_append, foldRecipientMode_singleton, hmode]
      exact hfold'
  · rintro ⟨head, before, bs, after, hlist, hbs, hc⟩
    obtain ⟨c₁, hc₁, hc⟩ := hc.split
    obtain ⟨c₂, hc₂, hc⟩ := hc.split
    obtain ⟨c₃, hc₃, hc₄⟩ := hc.split
    have hbefore : ∀ r ∈ before, RecipientTree maxDepth r.1 r.2 :=
      fun r hr => hlist.trees r (List.mem_append_left _ hr)
    have hafter : ∀ r ∈ after, RecipientTree maxDepth r.1 r.2 :=
      fun r hr => hlist.trees r (List.mem_append_right _ hr)
    obtain ⟨mode'', hfold⟩ := (foldRecipientMode_ok_iff _).mpr hlist.mix
    rw [foldRecipientMode_append] at hfold
    -- the policy is folded over the three parts one after the other
    cases hmode : foldRecipientMode (before.map Prod.fst) none with
    | error e =>
        rw [hmode] at hfold
        cases hfold
    | ok mode =>
        rw [hmode, ← List.singleton_append] at hfold
        change foldRecipientMode ([alg] ++ after.map Prod.fst) mode = _ at hfold
        rw [foldRecipientMode_append, foldRecipientMode_singleton] at hfold
        cases hmode' : updateRecipientMode alg mode with
        | error e =>
            rw [hmode'] at hfold
            cases hfold
        | ok mode' =>
            rw [hmode'] at hfold
            have hcount := hlist.count
            have hindex := hlist.index_eq
            refine ⟨head.val, c₁, ⟨decodeFlagsValid_zero, head, hlist.accepted, hc₁, hlist.major, rfl, ?_⟩, by omega, mode,
              c₂, ⟨before, hindex, hbefore, hmode, hc₂⟩, bs, c₃, hbs, hc₃, mode', hmode', mode'', after, by omega, hafter,
              hfold, hc₄⟩
            have h₁ := length_le_treesBytes hbefore
            have h₂ := length_le_treesBytes hafter
            have h₃ := List.length_pos_iff.mpr (hS _ _ hbs)
            rw [Token.children, hlist.major]
            dsimp only
            rw [hc₂.length_rest_eq, hc₃.length_rest_eq, hc₄.length_rest_eq]
            omega

end WolfCose
