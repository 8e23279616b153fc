import WolfCose.Codec.Skip
import WolfCose.Recipient.Report

/-!
# The walk over a tree of recipients

The loops of `wolfCose_DecodeSkippedRecipient` end on every input and stay within the array of open levels.
What they accept is one tree of recipients as COSE has them.
-/

namespace WolfCose

open Program Cbor Settings

variable [Settings]

/-! ### The turns of the loops -/

/-- The local variables of `wolfCose_DecodeSkippedRecipient` and its context.  As in `wolfCose_CBOR_Skip_ex`,
the used slots of the array `stack` are a list, the last one first. -/
structure RecipientSkipping where
  walk : RecipientWalk
  ctx : DecCtx

/-- A turn of one of the loops: the outer one reads a recipient, and the inner one closes a level on which
nothing remains. -/
inductive RecipientTurn : RecipientSkipping → RecipientSkipping → Prop where
  | read {n : Nat} {s : List Nat} {alg : Option Int} {ctx ctx' : DecCtx} {next : RecipientWalk} :
      Runs (skippedRecipientStep ⟨n + 1, s, alg⟩) ctx next ctx' →
      RecipientTurn ⟨⟨n + 1, s, alg⟩, ctx⟩ ⟨next, ctx'⟩
  | close {r : Nat} {s : List Nat} {alg : Option Int} {ctx : DecCtx} :
      RecipientTurn ⟨⟨0, r :: s, alg⟩, ctx⟩ ⟨⟨r, s, alg⟩, ctx⟩

/-- The array has a slot for every open level, and no counter of recipients overflows. -/
structure RecipientSkipping.Fits (c : RecipientSkipping) : Prop where
  depth : c.walk.stack.length ≤ maxDepth
  remaining : c.walk.remaining ≤ sizeMax
  stack : ∀ r ∈ c.walk.stack, r ≤ sizeMax

/-- Where the loops start. -/
def RecipientSkipping.start (ctx : DecCtx) : RecipientSkipping := ⟨⟨1, [], none⟩, ctx⟩

namespace RecipientTurn

variable {c c' : RecipientSkipping} {n : Nat} {s : List Nat} {alg : Option Int} {ctx ctx' : DecCtx}

/-- A recipient that is read shortens what is left of the buffer. -/
theorem rest_lt {walk next : RecipientWalk} (h : Runs (skippedRecipientStep walk) ctx next ctx') :
  ctx'.rest.length < ctx.rest.length
  := by
  obtain ⟨_, _, _, hnode, hc, -⟩ := (runs_skippedRecipientStep _ _ _ _).mp h
  have h₁ := hc.length_rest_eq
  have h₂ := List.length_pos_iff.mpr hnode.ne_nil
  omega

/-- The loops end on every input. -/
theorem wellFounded :
  WellFounded fun c' c => RecipientTurn c c'
  := by
  apply Subrelation.wf _ (InvImage.wf
    (fun c : RecipientSkipping => (c.ctx.rest.length, c.walk.stack.length))
    (WellFounded.prod_lex Nat.lt_wfRel.wf Nat.lt_wfRel.wf))
  intro c' c h
  cases h with
  | read hstep =>
      apply Prod.Lex.left
      apply rest_lt hstep
  | close =>
      apply Prod.Lex.right
      apply Nat.lt_succ_self

/-- A turn uses a slot of the array for the levels that are open after it only. -/
theorem fits (h : RecipientTurn c c') (hc : c.Fits) :
  c'.Fits
  := by
  cases h with
  | @read n s alg ctx ctx' next hstep =>
      obtain ⟨a, bs, k, -, -, hk, hdepth, rfl⟩ := (runs_skippedRecipientStep _ _ _ _).mp hstep
      have hn : n + 1 ≤ sizeMax := hc.remaining
      have hrest := ctx'.length_rest_le
      have hmax := ctx'.bufSz_le
      unfold RecipientWalk.next
      by_cases h0 : k = 0
      · rw [if_pos h0]
        exact ⟨hc.depth, Nat.le_of_succ_le hn, hc.stack⟩
      · rw [if_neg h0]
        refine ⟨hdepth h0, ?_, List.forall_mem_cons.mpr ⟨Nat.le_of_succ_le hn, hc.stack⟩⟩
        dsimp only
        omega
  | close =>
      obtain ⟨hr, hs⟩ := List.forall_mem_cons.mp hc.stack
      exact ⟨Nat.le_of_succ_le hc.depth, hr, hs⟩

theorem fits_of_reaches (h : Relation.ReflTransGen RecipientTurn (.start ctx) c) :
  c.Fits
  := by
  induction h with
  | refl =>
      have hmax := lt_sizeMax
      refine ⟨Nat.zero_le _, ?_, ?_⟩
      · unfold RecipientSkipping.start
        dsimp only
        omega
      · rintro r ⟨⟩
  | tail _ hturn ih => exact hturn.fits ih

/-- The inner loop runs to its end. -/
theorem reaches_unwind (n : Nat) (s : List Nat) (alg : Option Int) (ctx : DecCtx) :
  Relation.ReflTransGen RecipientTurn ⟨⟨n, s, alg⟩, ctx⟩ ⟨⟨(unwind n s).1, (unwind n s).2, alg⟩, ctx⟩
  := by
  induction s generalizing n with
  | nil => cases n <;> exact .refl
  | cons r s ih =>
      cases n with
      | zero => exact .head .close (ih r)
      | succ n => exact .refl

/-- What the function returns is what its loops reach. -/
theorem reaches_of_runs {fuel : Nat} {found : Int} (hs : n = 0 → s = [])
    (h : Runs (skippedRecipientLoop fuel ⟨n, s, alg⟩) ctx found ctx') :
  ∃ alg', found = alg'.getD algUnset
    ∧ Relation.ReflTransGen RecipientTurn ⟨⟨n, s, alg⟩, ctx⟩ ⟨⟨0, [], alg'⟩, ctx'⟩
  := by
  induction fuel generalizing n s alg ctx with
  | zero => exact (runs_throw _ _ _ _ h).elim
  | succ fuel ih =>
      cases n with
      | zero =>
          obtain rfl := hs rfl
          rw [skippedRecipientLoop, if_pos rfl] at h
          obtain ⟨rfl, rfl⟩ := (runs_pure _ _ _ _).mp h
          exact ⟨alg, rfl, .refl⟩
      | succ n =>
          rw [skippedRecipientLoop, if_neg (Nat.succ_ne_zero n), runs_bind] at h
          obtain ⟨next, ctx₁, hstep, hloop⟩ := h
          obtain ⟨alg', hfound, hreach⟩ := ih unwind_eq_nil hloop
          refine ⟨alg', hfound, .head (.read hstep) ?_⟩
          apply (reaches_unwind next.remaining next.stack next.recipientAlg ctx₁).trans hreach

end RecipientTurn

/-- The number of turns that the loop is given does not matter when it is larger than the number of bytes
left. -/
theorem skippedRecipientLoop_congr {fuel fuel' : Nat} {walk : RecipientWalk} {ctx : DecCtx}
    (h : ctx.rest.length < fuel) (h' : ctx.rest.length < fuel') :
  skippedRecipientLoop fuel walk ctx = skippedRecipientLoop fuel' walk ctx
  := by
  induction fuel generalizing fuel' walk ctx with
  | zero => omega
  | succ fuel ih =>
      obtain ⟨fuel', rfl⟩ : ∃ k, fuel' = k + 1 := ⟨fuel' - 1, by omega⟩
      rw [skippedRecipientLoop, skippedRecipientLoop]
      split
      · rfl
      · simp only [bind, EStateM.bind]
        cases hstep : skippedRecipientStep walk ctx with
        | error e ctx₁ => rfl
        | ok next ctx₁ =>
            have hlt := RecipientTurn.rest_lt hstep
            apply ih
            · omega
            · omega

/-! ### Trees of recipients -/

/-- The algorithm of a recipient with the entries: that of the entry for it, or without one, HPKE if there is an
encapsulated key. -/
def RecipientAlgOf (prot unprot : List Entry) (alg : Int) : Prop :=
  (∃ e ∈ prot ++ unprot, e.label = .int hdrAlg ∧ AlgField 0 e.value algUnset alg)
    ∨ (.int hdrAlg ∉ labelsOf (prot ++ unprot)
      ∧ alg = if hpke0KeDecrypt = true ∧ .int hdrHpkeEk ∈ labelsOf unprot then algHpke0Ke else algUnset)

/-- The parts of a recipient. -/
structure RecipientParts (head : Token) (prot data unprot value list : Bytes) (pes ues : List Entry) (alg : Int)
    (k : Nat) : Prop where
  array : Accepted 0 head ∧ head.major = .array
  nested : (k = 0 ∧ head.val = 3 ∧ list = [])
    ∨ (k ≠ 0 ∧ head.val = 4 ∧ TokenValue 0 (fun t => t.major = .array ∧ t.val = k) list)
  protectedBucket : BstrValue 0 prot data ∧ BucketEntries 0 data pes
  unprotectedBucket : MapEntries 0 unprot ues
  oneAlg : (labelsOf (pes ++ ues)).count (.int hdrAlg) ≤ 1
  found : RecipientAlgOf pes ues alg
  third : value = [cborNull] ∨ ∃ d, BstrValue 0 value d
  direct : alg = algDirect → data = [] ∧ BstrValue 0 value [] ∧ k = 0

/-- A COSE_recipient without the recipients below it, its algorithm, and how many recipients these are. -/
def CoseRecipient (alg : Int) (bs : Bytes) (k : Nat) : Prop :=
  ∃ head prot data unprot value list pes ues, bs = Token.bytes head ++ (prot ++ (unprot ++ (value ++ list)))
    ∧ RecipientParts head prot data unprot value list pes ues alg k

/-- A COSE_recipient and the recipients below it, in at most `d` nested lists. -/
def CoseRecipientTree (d : Nat) (alg : Int) (bs : Bytes) : Prop :=
  ∃ b k cs, bs = b ++ cs ∧ CoseRecipient alg b k ∧ ((k = 0 ∧ cs = [])
    ∨ (k ≠ 0 ∧ ∃ e, d = e + 1 ∧ Forest (fun b k => ∃ alg, CoseRecipient alg b k) e k cs))

theorem SkippedReport.algOf {prot unprot : List Entry} {vars : SkippedAlg} (h : SkippedReport prot unprot vars) :
  RecipientAlgOf prot unprot vars.reported
  := by
  by_cases hl : .int hdrAlg ∈ labelsOf (prot ++ unprot)
  · obtain ⟨e, he, -, hfound, hfield⟩ := h.alg.of_mem hl
    dsimp only at hfound hfield
    left
    rw [SkippedAlg.reported, if_neg (by rw [hfound]; rintro ⟨-, ⟨⟩, -⟩)]
    exact ⟨e, (entryWith_eq_some he).1, (entryWith_eq_some he).2, hfield⟩
  · have hvars := h.alg.of_not_mem hl
    have halg : vars.alg = algUnset := congrArg Prod.fst hvars
    have hfound : vars.algFound = false := congrArg Prod.snd hvars
    refine .inr ⟨hl, ?_⟩
    unfold SkippedAlg.reported
    rw [halg]
    have hiff : (hpke0KeDecrypt = true ∧ vars.algFound = false ∧ vars.hpkeEkFound = true)
        ↔ (hpke0KeDecrypt = true ∧ .int hdrHpkeEk ∈ labelsOf unprot) := by
      rw [h.ek]
      constructor
      · rintro ⟨-, -, h⟩
        exact h
      · exact fun h => ⟨h.1, hfound, h⟩
    simp only [hiff]

/-- What is skipped as a node is a recipient. -/
theorem RecipientNode.cose {alg : Int} {bs : Bytes} {k : Nat} (h : RecipientNode alg bs k) :
  CoseRecipient alg bs k
  := by
  obtain ⟨head, prot, unprot, value, data, list, vars, rfl, hhead, hm, hf, rfl, hcase⟩ := h
  obtain ⟨vars₀, hprot, hunprot⟩ := hf.buckets
  obtain ⟨pes, ues, hpes, hues, hreport⟩ := skippedReport_of_buckets hprot hunprot
  refine ⟨head, prot, data, unprot, value, list, pes, ues, rfl, ⟨hhead, hm⟩, ?_, ⟨hprot.1, hpes⟩, hues,
    hreport.oneAlg, hreport.algOf, ?_, fun hdir => ?_⟩
  · rcases hcase with ⟨hv, hlist, hk⟩ | ⟨hv, hk, -, hlist⟩
    · exact .inl ⟨hk, hv, hlist⟩
    · exact .inr ⟨hk, hv, hlist⟩
  · have hvalue := hf.value
    unfold SkippedField at hvalue
    split at hvalue
    · exact .inr ⟨[], hvalue⟩
    · exact hvalue
  · have hvars := hreport.reported_direct.mp hdir
    have hvalue := hf.value
    unfold SkippedField at hvalue
    rw [if_pos hvars] at hvalue
    refine ⟨hf.direct hvars, hvalue, ?_⟩
    rcases hcase with ⟨-, -, hk⟩ | ⟨-, -, hne, -⟩
    · exact hk
    · exact absurd hdir hne

theorem RecipientTree.cose {d : Nat} {alg : Int} {bs : Bytes} (h : RecipientTree d alg bs) :
  CoseRecipientTree d alg bs
  := by
  obtain ⟨b, k, cs, rfl, hb, hcase⟩ := h
  refine ⟨b, k, cs, rfl, hb.cose, ?_⟩
  rcases hcase with hleaf | ⟨hk, e, he, hcs⟩
  · exact .inl hleaf
  · refine .inr ⟨hk, e, he, hcs.imp ?_⟩
    rintro b k ⟨alg, hnode⟩
    exact ⟨alg, hnode.cose⟩

end WolfCose
