import WolfCose.Recipient.Skipping

/-!
# The policy on the mix of recipients

The policy of `wolfCose_UpdateRecipientMode` is applied to the recipients one after the other, those before the
selected one, that one, and those after it.  Which one is selected makes no difference, except where a recipient of
HPKE has no algorithm: it is recognised if it is skipped, and if it is selected by a caller who expects HPKE.
-/

namespace WolfCose

open Program Cbor Settings

section

variable [Settings]

/-! ### Calls of the policy -/

/-- The calls of `wolfCose_UpdateRecipientMode` while an array of recipients is decoded: each with the algorithm of a
recipient and the mode of those before it.  The recipient at `index` is selected; the steps before its own call are
`algorithm`, and `select` are all steps for it, where both know how many recipients there are. -/
inductive MixCall (algorithm : Nat → Dec Int) (select : Nat → Option RecipientMode → Dec (Option RecipientMode))
    (index : Nat) (ctx : DecCtx) : Int → Option RecipientMode → Prop where
  | before {count k : Nat} {mode : Option RecipientMode} {alg : Int} {c₁ c₂ c₃ : DecCtx} :
      Runs decodeArrayStart ctx count c₁ → index < count → k < index →
      Runs (decodeSkippedRecipients k none) c₁ mode c₂ → Runs decodeSkippedRecipient c₂ alg c₃ →
      MixCall algorithm select index ctx alg mode
  | selected {count : Nat} {mode : Option RecipientMode} {alg : Int} {c₁ c₂ c₃ : DecCtx} :
      Runs decodeArrayStart ctx count c₁ → index < count →
      Runs (decodeSkippedRecipients index none) c₁ mode c₂ → Runs (algorithm count) c₂ alg c₃ →
      MixCall algorithm select index ctx alg mode
  | after {count k : Nat} {mode mode' mode'' : Option RecipientMode} {alg : Int} {c₁ c₂ c₃ c₄ c₅ : DecCtx} :
      Runs decodeArrayStart ctx count c₁ → index < count →
      Runs (decodeSkippedRecipients index none) c₁ mode c₂ → Runs (select count mode) c₂ mode' c₃ →
      k < count - (index + 1) → Runs (decodeSkippedRecipients k mode') c₃ mode'' c₄ →
      Runs decodeSkippedRecipient c₄ alg c₅ → MixCall algorithm select index ctx alg mode''

/-! ### What stands in the array -/

/-- Where the bytes stand, a recipient can be skipped in no other way than as these bytes with the algorithm. -/
def SkipsAs (alg : Int) (bs : Bytes) : Prop :=
  ∀ ctx c alg' c', ctx.Consumes bs c → Runs decodeSkippedRecipient ctx alg' c' → alg' = alg ∧ c' = c

/-- A tree of recipients is skipped as what it is. -/
theorem RecipientTree.skipsAs {alg : Int} {bs : Bytes} (h : RecipientTree maxDepth alg bs) :
  SkipsAs alg bs
  := by
  intro ctx c alg' c' hc hrun
  obtain ⟨rfl, rfl⟩ := hrun.unique ((runs_decodeSkippedRecipient_iff hc).mpr h)
  exact ⟨rfl, rfl⟩

/-- A list of recipients is skipped one after the other. -/
theorem runs_skipsAs {rs : List (Int × Bytes)} (hrs : ∀ r ∈ rs, SkipsAs r.1 r.2) {tail : Bytes} {ctx c c' : DecCtx}
    (hc : ctx.Consumes (treesBytes rs ++ tail) c) {mode mode' : Option RecipientMode}
    (hrun : Runs (decodeSkippedRecipients rs.length mode) ctx mode' c') :
  foldRecipientMode (rs.map Prod.fst) mode = .ok mode' ∧ ctx.Consumes (treesBytes rs) c' ∧ c'.Consumes tail c
  := by
  induction rs generalizing ctx mode with
  | nil =>
      rw [decodeSkippedRecipients, List.length_nil, runs_repeatM_zero] at hrun
      obtain ⟨rfl, rfl⟩ := hrun
      exact ⟨rfl, ctx.consumes_nil, hc⟩
  | cons r rs ih =>
      obtain ⟨hr, hrs⟩ := List.forall_mem_cons.mp hrs
      have hcons : treesBytes (r :: rs) = r.2 ++ treesBytes rs := List.flatMap_cons
      rw [hcons, List.append_assoc] at hc
      obtain ⟨c₁, hc₁, hc⟩ := hc.split
      rw [decodeSkippedRecipients, List.length_cons, runs_repeatM_succ] at hrun
      obtain ⟨mode₁, _, hstep, hrun⟩ := hrun
      simp only [runs_bind, runs_ofExcept] at hstep
      obtain ⟨alg, _, hskip, hmode, rfl⟩ := hstep
      obtain ⟨rfl, rfl⟩ := hr _ _ _ _ hc₁ hskip
      obtain ⟨hfold, hrest, htail⟩ := ih hrs hc hrun
      refine ⟨?_, ?_, htail⟩
      · rw [List.map_cons, ← List.singleton_append, foldRecipientMode_append, foldRecipientMode_singleton, hmode]
        exact hfold
      · rw [hcons]
        exact hc₁.trans hrest

omit [Settings] in
/-- The policy accepts every further algorithm of an allowed mix. -/
theorem Mix.update_ok {algs algs' : List Int} {alg : Int} {mode : Option RecipientMode}
    (h : Mix (algs ++ alg :: algs')) (hfold : foldRecipientMode algs none = .ok mode) :
  ∃ mode', updateRecipientMode alg mode = .ok mode'
  := by
  have hassoc : algs ++ alg :: algs' = (algs ++ [alg]) ++ algs' := by
    rw [List.append_assoc, List.singleton_append]
  rw [hassoc] at h
  obtain ⟨mode', hmode⟩ := (foldRecipientMode_ok_iff _).mpr h.of_append
  rw [foldRecipientMode_append, hfold] at hmode
  change foldRecipientMode [alg] mode = _ at hmode
  rw [foldRecipientMode_singleton] at hmode
  exact ⟨mode', hmode⟩

/-- The calls are made after the head of the array, at an index in it. -/
theorem MixCall.index_lt {algorithm : Nat → Dec Int} {select : Nat → Option RecipientMode → Dec (Option RecipientMode)}
    {index : Nat} {ctx : DecCtx} {alg : Int} {mode : Option RecipientMode}
    (h : MixCall algorithm select index ctx alg mode) :
  ∃ count c₁, Runs decodeArrayStart ctx count c₁ ∧ index < count
  := by
  cases h with
  | before harray hindex => exact ⟨_, _, harray, hindex⟩
  | selected harray hindex => exact ⟨_, _, harray, hindex⟩
  | after harray hindex => exact ⟨_, _, harray, hindex⟩

/-- The recipients of an array, as they are skipped, in an allowed mix; the one at an index is given with those
before and after it. -/
structure MixedArray (head : Token) (before after : List (Int × Bytes)) (alg : Int) (bs : Bytes) : Prop where
  accepted : Accepted 0 head
  major : head.major = .array
  count : head.val = before.length + (after.length + 1)
  skipsAs : ∀ r ∈ before ++ (alg, bs) :: after, SkipsAs r.1 r.2
  mix : Mix (before.map Prod.fst ++ alg :: after.map Prod.fst)

/-- The head of an array is read as it is. -/
theorem runs_decodeArrayStart_head {head : Token} (haccepted : Accepted 0 head) {tail : Bytes} {ctx c c₁ : DecCtx}
    {count : Nat} (hc : ctx.Consumes (head.bytes ++ tail) c) (hrun : Runs decodeArrayStart ctx count c₁) :
  count = head.val ∧ c₁.Consumes tail c
  := by
  rw [decodeArrayStart, runs_decodeArrayStartEx] at hrun
  obtain ⟨-, t, ht, hc', -, rfl, -⟩ := hrun
  obtain ⟨c₂, hc₁, hc₂⟩ := hc.split
  obtain ⟨rfl, -⟩ := Token.bytes_append_cancel haccepted.wellFormed ht.wellFormed
    (hc₁.rest_eq.symm.trans hc'.rest_eq)
  obtain rfl := hc₁.unique hc'
  exact ⟨rfl, hc₂⟩

/-- No call of the policy is rejected on an allowed mix, if the parser of the selected recipient finds the algorithm as
which it is skipped. -/
theorem MixCall.accepted {algorithm : Nat → Dec Int} {select : Nat → Option RecipientMode → Dec (Option RecipientMode)}
    {before after : List (Int × Bytes)} {ctx c : DecCtx} {alg a : Int} {mode : Option RecipientMode} {head : Token}
    {bs : Bytes} {P : Prop} (h : MixCall algorithm select before.length ctx alg mode)
    (harray : MixedArray head before after a bs)
    (hc : ctx.Consumes (head.bytes ++ (treesBytes before ++ (bs ++ treesBytes after))) c)
    (halg : ∀ n c₁ c₂ c₃ alg, c₁.Consumes bs c₂ → Runs (algorithm n) c₁ alg c₃ → alg = a ∨ (alg = algUnset ∧ P))
    (hselect : ∀ n c₁ c₂ c₃ mode mode', c₁.Consumes bs c₂ → Runs (select n mode) c₁ mode' c₃ →
      updateRecipientMode a mode = .ok mode' ∧ c₃ = c₂) :
  (∃ mode', updateRecipientMode alg mode = .ok mode') ∨ (alg = algUnset ∧ P)
  := by
  obtain ⟨haccepted, -, hcount, hskips, hmix⟩ := harray
  have hbefore : ∀ r ∈ before, SkipsAs r.1 r.2 := fun r hr => hskips r (List.mem_append_left _ hr)
  have hafter : ∀ r ∈ after, SkipsAs r.1 r.2 :=
    fun r hr => hskips r (List.mem_append_right _ (List.mem_cons_of_mem _ hr))
  -- one more recipient of a list is skipped after those before it
  have next {rs : List (Int × Bytes)} (hrs : ∀ r ∈ rs, SkipsAs r.1 r.2) {k : Nat} (hk : k < rs.length) {tail : Bytes}
      {c₁ c₂ c₃ : DecCtx} {m m' : Option RecipientMode} {alg : Int} (hc₁ : c₁.Consumes (treesBytes rs ++ tail) c)
      (hloop : Runs (decodeSkippedRecipients k m) c₁ m' c₂) (hskip : Runs decodeSkippedRecipient c₂ alg c₃) :
      ∃ rs₁ rs₂ b, rs = rs₁ ++ (alg, b) :: rs₂ ∧ foldRecipientMode (rs₁.map Prod.fst) m = .ok m' := by
    obtain ⟨rs₁, r, rs₂, rfl, rfl⟩ : ∃ rs₁ r rs₂, rs = rs₁ ++ r :: rs₂ ∧ rs₁.length = k :=
      ⟨rs.take k, rs[k], rs.drop (k + 1), by simp, by rw [List.length_take]; omega⟩
    have hsplit : treesBytes (rs₁ ++ r :: rs₂) ++ tail = treesBytes rs₁ ++ (r.2 ++ (treesBytes rs₂ ++ tail)) := by
      simp only [treesBytes, List.flatMap_append, List.flatMap_cons, List.append_assoc]
    rw [hsplit] at hc₁
    obtain ⟨hfold, -, hc₂⟩ := runs_skipsAs (fun r hr => hrs r (List.mem_append_left _ hr)) hc₁ hloop
    obtain ⟨c₄, hc₂, -⟩ := hc₂.split
    obtain ⟨rfl, -⟩ := hrs r (List.mem_append_right _ List.mem_cons_self) _ _ _ _ hc₂ hskip
    exact ⟨rs₁, rs₂, r.2, rfl, hfold⟩
  cases h with
  | before harray hindex hk hloop hskip =>
      obtain ⟨-, hc₁⟩ := runs_decodeArrayStart_head haccepted hc harray
      obtain ⟨rs₁, rs₂, b, rfl, hfold⟩ := next hbefore hk hc₁ hloop hskip
      rw [List.map_append, List.map_cons, List.append_assoc] at hmix
      exact .inl (hmix.update_ok hfold)
  | selected harray hindex hloop hrun =>
      obtain ⟨-, hc₁⟩ := runs_decodeArrayStart_head haccepted hc harray
      obtain ⟨hfold, -, hc₂⟩ := runs_skipsAs hbefore hc₁ hloop
      obtain ⟨c₃, hc₂, -⟩ := hc₂.split
      rcases halg _ _ _ _ _ hc₂ hrun with rfl | hexc
      · exact .inl (hmix.update_ok hfold)
      · exact .inr hexc
  | after harray hindex hloop hrun hk hloop' hskip =>
      obtain ⟨rfl, hc₁⟩ := runs_decodeArrayStart_head haccepted hc harray
      obtain ⟨hfold, -, hc₂⟩ := runs_skipsAs hbefore hc₁ hloop
      obtain ⟨c₃, hc₂, hc₃⟩ := hc₂.split
      obtain ⟨hmode, rfl⟩ := hselect _ _ _ _ _ _ hc₂ hrun
      rw [← List.append_nil (treesBytes after)] at hc₃
      obtain ⟨rs₁, rs₂, b, rfl, hfold'⟩ := next hafter (by omega) hc₃ hloop' hskip
      have hsplit : before.map Prod.fst ++ a :: (rs₁ ++ (alg, b) :: rs₂).map Prod.fst
          = (before.map Prod.fst ++ ([a] ++ rs₁.map Prod.fst)) ++ alg :: rs₂.map Prod.fst := by
        simp
      rw [hsplit] at hmix
      refine .inl (hmix.update_ok ?_)
      rw [foldRecipientMode_append, hfold]
      change foldRecipientMode ([a] ++ rs₁.map Prod.fst) _ = _
      rw [foldRecipientMode_append, foldRecipientMode_singleton, hmode]
      exact hfold'

/-- The recipients of a message, seen from an index other than that of the selected one. -/
theorem RecipientList.mixedArray {head : Token} {before after : List (Int × Bytes)} {alg : Int} {index : Nat}
    (h : RecipientList head before after alg index) {selected : Bytes} (hselected : SkipsAs alg selected) {index' : Nat}
    (hlt : index' < head.val) (hne : index' ≠ index) :
  ∃ before' a bs after', before ++ (alg, selected) :: after = before' ++ (a, bs) :: after'
    ∧ before'.length = index' ∧ RecipientTree maxDepth a bs ∧ MixedArray head before' after' a bs
  := by
  obtain ⟨haccepted, hm, hcount, hindex, htrees, hmix⟩ := h
  have hlen : (before ++ (alg, selected) :: after).length = head.val := by
    rw [List.length_append, List.length_cons, hcount]
  obtain ⟨before', r, after', hsplit, hlen'⟩ : ∃ before' r after',
      before ++ (alg, selected) :: after = before' ++ r :: after' ∧ before'.length = index' := by
    have hlt' : index' < (before ++ (alg, selected) :: after).length := by rwa [hlen]
    refine ⟨(before ++ (alg, selected) :: after).take index', (before ++ (alg, selected) :: after)[index'],
      (before ++ (alg, selected) :: after).drop (index' + 1), ?_, List.length_take_of_le (Nat.le_of_lt hlt')⟩
    rw [← List.drop_eq_getElem_cons hlt', List.take_append_drop]
  obtain ⟨a, bs⟩ := r
  refine ⟨before', a, bs, after', hsplit, hlen', ?_, haccepted, hm, ?_, ?_, ?_⟩
  · -- only the selected recipient need not be a tree, and it stands elsewhere
    have hget : (before ++ (alg, selected) :: after)[index']? = some (a, bs) := by
      rw [hsplit, ← hlen', List.getElem?_append_right (Nat.le_refl _), Nat.sub_self, List.getElem?_cons_zero]
    rw [List.getElem?_append] at hget
    split at hget
    · exact htrees _ (List.mem_append_left _ (List.mem_of_getElem? hget))
    · obtain ⟨k, hk⟩ : ∃ k, index' - before.length = k + 1 := ⟨index' - before.length - 1, by omega⟩
      rw [hk, List.getElem?_cons_succ] at hget
      exact htrees _ (List.mem_append_right _ (List.mem_of_getElem? hget))
  · rw [← hlen, hsplit, List.length_append, List.length_cons]
  · rw [← hsplit]
    intro r hr
    rcases List.mem_append.mp hr with hr | hr
    · exact (htrees r (List.mem_append_left _ hr)).skipsAs
    · rcases List.mem_cons.mp hr with rfl | hr
      · exact hselected
      · exact (htrees r (List.mem_append_right _ hr)).skipsAs
  · have hmap := congrArg (List.map Prod.fst) hsplit
    rw [List.map_append, List.map_append, List.map_cons, List.map_cons] at hmap
    rw [← hmap]
    exact hmix

omit [Settings] in
/-- The bytes of the recipients are the same, seen from any index. -/
theorem treesBytes_split {before before' after after' : List (Int × Bytes)} {alg alg' : Int} {bs bs' : Bytes}
    (h : before ++ (alg, bs) :: after = before' ++ (alg', bs') :: after') :
  treesBytes before ++ (bs ++ treesBytes after) = treesBytes before' ++ (bs' ++ treesBytes after')
  := by
  have hflat := congrArg treesBytes h
  simpa only [treesBytes, List.flatMap_append, List.flatMap_cons] using hflat

/-- What a cursor reads is within the limit for byte strings. -/
theorem length_le_of_consumes {bs : Bytes} {ctx c : DecCtx} (h : ctx.Consumes bs c) :
  bs.length ≤ sizeMax
  := by
  have h₁ := h.length_rest_eq
  have h₂ := ctx.length_rest_le
  have h₃ := ctx.bufSz_le
  omega

end

/-! ### COSE_Encrypt -/

section

variable [Settings] [RecipientSettings] [WolfCrypt]

/-- The steps of `wc_CoseEncrypt_Decrypt` for the selected recipient up to the call of the policy. -/
def decodeRecipientBuckets (recipient : Recipient) (contentAlgId : Int) (onlyRecipient : Bool) :
    Dec (RecipientProtected × RecipientUnprotected × Int) := do
  let arrayCount ← decodeArrayStart
  failIf (arrayCount ≠ 3) .cborMalformed
  let prot ← decodeRecipientProtected
  let isHpke := decide (isHpkeRecipient prot recipient.algId)
  failIf (isHpke = true ∧ (prot.state.contains hdrHpkeEk = true ∨ prot.state.contains hpke0PskIdLabel = true))
    .coseBadHdr
  let protectedAlg := if isHpke = true then algHpke0Ke else prot.hdr.alg
  MonadExcept.ofExcept (checkProtectedAlg recipient protectedAlg contentAlgId onlyRecipient)
  let unprot ← decodeRecipientUnprotected recipient.key prot isHpke
  let alg := recipientAlg isHpke unprot
  MonadExcept.ofExcept (validateRecipientKeyAlg recipient.key alg contentAlgId)
  return (prot, unprot, alg)

/-- The checks of `wc_CoseEncrypt_Decrypt` for the selected recipient after the call of the policy. -/
def checkMixedAlg (recipient : Recipient) (protectedData : Bytes) (recipientAlgId contentAlgId : Int)
    (bodyAlgProtected hasEphem onlyRecipient : Bool) : Except Err Unit := do
  rejectIf (recipientAlgId = algDirect ∧ protectedData.length ≠ 0) .coseBadHdr
  rejectIf (¬ recipientAlgSupported recipientAlgId) .coseBadAlg
  rejectIf (isKeyWrapAlg recipientAlgId ∧ protectedData.length ≠ 0) .coseBadHdr
  rejectIf (isEcdhEsDirectAlg recipientAlgId ∧ hasEphem = false) .coseBadAlg
  rejectIf (recipient.algId ≠ algUnset ∧ recipient.algId ≠ recipientAlgId) .coseBadAlg
  rejectIf (bodyAlgProtected = false ∧ ¬ (hpke0KeDecrypt = true ∧ recipientAlgId = algHpke0Ke) ∧
    (recipientAlgId ≠ algDirect ∨ recipient.key.all (fun key => key.alg ≠ contentAlgId) = true)) .coseBadAlg
  rejectIf (isEcdhEsDirectAlg recipientAlgId ∧ onlyRecipient = false) .coseBadHdr

/-- The selected recipient is decoded by the steps before the call of the policy, the call, and those after it. -/
theorem decodeEncryptRecipient_eq (recipient : Recipient) (contentAlgId : Int) (bodyAlgProtected onlyRecipient : Bool)
    (mode : Option RecipientMode) :
  decodeEncryptRecipient recipient contentAlgId bodyAlgProtected onlyRecipient mode = do
    let (prot, unprot, alg) ← decodeRecipientBuckets recipient contentAlgId onlyRecipient
    let mode ← MonadExcept.ofExcept (updateRecipientMode alg mode)
    MonadExcept.ofExcept (checkMixedAlg recipient prot.data alg contentAlgId bodyAlgProtected unprot.ephem.isSome
      onlyRecipient)
    let source ← decodeCekSource alg unprot
    return (⟨prot.data, alg, source⟩, mode)
  := by
  simp only [decodeEncryptRecipient, decodeRecipientBuckets, checkRecipientAlg, checkMixedAlg, ofExcept_bind, bind_assoc,
    pure_bind]
  rfl

/-- The steps of `wc_CoseEncrypt_Decrypt` that decode the message up to its recipients. -/
def decodeEncryptFields (detachedCt : Pointer) [AeadSettings] : Dec (Headers × Hdr × Option Bytes) := do
  decodeStart tagEncrypt 4 0
  let headers ← decodeHeaders 0
  MonadExcept.ofExcept (checkNonce headers.hdr)
  let (hdr, ciphertext) ← decodeMacPayload detachedCt headers.hdr
  return (headers, hdr, ciphertext)

variable [AeadSettings]

/-- A message is decoded by the steps up to its recipients, and those for them. -/
theorem decodeEncrypt_eq (recipient : Recipient) (index : Nat) (detachedCt : Pointer) :
  decodeEncrypt recipient index detachedCt = do
    let (headers, hdr, ciphertext) ← decodeEncryptFields detachedCt
    let selected ← decodeEncryptRecipients recipient index headers
    decodeEnd
    return ⟨headers, hdr, (verifyPayload detachedCt ciphertext).bytes, selected⟩
  := by
  simp only [decodeEncrypt, decodeEncryptFields, bind_assoc, pure_bind]

/-- The calls of the policy while a message is decoded with a recipient at an index. -/
def EncryptMixCall (recipient : Recipient) (index : Nat) (detachedCt : Pointer) (input : Buffer) (alg : Int)
    (mode : Option RecipientMode) : Prop :=
  ∃ headers hdr ciphertext ctx, Runs (decodeEncryptFields detachedCt) (.init input) (headers, hdr, ciphertext) ctx
    ∧ MixCall
      (fun count => do
        let (_, _, alg) ← decodeRecipientBuckets recipient headers.hdr.alg (decide (count = 1 ∧ index = 0))
        return alg)
      (fun count mode => do
        let (_, mode) ← decodeEncryptRecipient recipient headers.hdr.alg headers.algProtected
          (decide (count = 1 ∧ index = 0)) mode
        return mode)
      index ctx alg mode

/-- A recipient that has no algorithm but an encapsulated key, in a build that decrypts with HPKE. -/
def ImplicitHpke (bs : Bytes) : Prop :=
  hpke0KeDecrypt = true ∧ ∃ head prot data unprot value pes ues, bs = Token.bytes head ++ (prot ++ (unprot ++ value))
    ∧ BstrValue 0 prot data ∧ BucketEntries 0 data pes ∧ MapEntries 0 unprot ues
    ∧ .int hdrAlg ∉ labelsOf (pes ++ ues) ∧ .int hdrHpkeEk ∈ labelsOf ues

omit [RecipientSettings] [WolfCrypt] [AeadSettings] in
/-- HPKE is reported without an algorithm only if there is an encapsulated key. -/
theorem SkippedReport.ek_mem {pes ues : List Entry} {vars : SkippedAlg} (h : SkippedReport pes ues vars)
    (hl : .int hdrAlg ∉ labelsOf (pes ++ ues)) (hrep : vars.reported = algHpke0Ke) :
  .int hdrHpkeEk ∈ labelsOf ues
  := by
  have hunset : vars.alg = algUnset := congrArg Prod.fst (h.alg.of_not_mem hl)
  unfold SkippedAlg.reported at hrep
  split at hrep
  next hfound => exact (h.ek.mp hfound.2.2).2
  next =>
    rw [hunset] at hrep
    exact absurd hrep (by decide)

omit [AeadSettings] in
/-- The parser of the selected recipient finds the algorithm as which the recipient is skipped, unless it has none and
the caller does not expect HPKE. -/
theorem runs_decodeRecipientBuckets_tree {recipient : Recipient} {contentAlgId : Int} {onlyRecipient : Bool} {a : Int}
    {bs : Bytes} (htree : RecipientTree maxDepth a bs) {ctx c c' : DecCtx} (hc : ctx.Consumes bs c)
    {r : RecipientProtected × RecipientUnprotected × Int}
    (hrun : Runs (decodeRecipientBuckets recipient contentAlgId onlyRecipient) ctx r c') :
  r.2.2 = a ∨ (r.2.2 = algUnset ∧ ImplicitHpke bs ∧ recipient.algId ≠ algHpke0Ke)
  := by
  simp only [decodeRecipientBuckets, decodeArrayStart, runs_bind, runs_failIf, runs_pure, runs_ofExcept,
    runs_decodeArrayStartEx, reads_decodeRecipientProtected _ _ _, reads_decodeRecipientUnprotected _ _ _ _ _ _] at hrun
  obtain ⟨n, c₁, ⟨-, head, hhead, hc₁, -, hv, -⟩, _, _, ⟨hn, rfl⟩, prot, c₂, ⟨protBytes, hprot, hc₂⟩, _, _, ⟨-, rfl⟩, _,
    _, ⟨-, rfl⟩, unprot, c₃, ⟨unprotBytes, hunprot, hc₃⟩, _, _, ⟨-, rfl⟩, rfl, -⟩ := hrun
  have hdata : prot.data.length ≤ sizeMax := by
    have h₁ := hprot.1.length_le
    have h₂ := length_le_of_consumes hc₂
    omega
  obtain ⟨pes, ues, hsel⟩ := exists_selectedEntries hdata hprot hunprot
  have hread := (hc₁.trans (hc₂.trans hc₃)).rest_eq
  rw [hc.rest_eq, List.append_assoc, List.append_assoc] at hread
  obtain ⟨value, vars, -, hbs, hskip, rfl⟩ := htree.cancel hhead (hv.trans (Decidable.not_not.mp hn)) hprot.1
    hsel.items.dataItem hread
  obtain ⟨hreport, hentries⟩ := hskip.report hsel.bucket hsel.items
  rcases hsel.recipientAlg_cases rfl hunprot hreport with h | ⟨hunset, hrep, hon, hexpected, hl⟩
  · exact .inl h
  · exact .inr ⟨hunset, ⟨hon, head, protBytes, prot.data, unprotBytes, value, pes, ues, hbs, hprot.1, hsel.bucket,
      hentries, hl, hreport.ek_mem hl hrep⟩, hexpected⟩

omit [AeadSettings] in
/-- Where a recipient stands that is accepted as the selected one, it is skipped with the same algorithm, if it is
skipped at all. -/
theorem SelectedValue.skipsAs {recipient : Recipient} {contentAlgId : Int} {bodyAlgProtected onlyRecipient : Bool}
    {bs : Bytes} {selected : SelectedRecipient}
    (h : SelectedValue recipient contentAlgId bodyAlgProtected onlyRecipient bs selected) :
  SkipsAs selected.alg bs
  := by
  intro ctx c alg' c' hc hrun
  obtain ⟨bs', htree, hc'⟩ := (reads_decodeSkippedRecipient _ _ _).mp hrun
  have hlen := length_le_of_consumes hc
  obtain ⟨head, protBytes, unprotBytes, value, prot, isHpke, unprot, source, rfl, hhead, hm, hv, hf, rfl⟩ := h
  have hdata : prot.data.length ≤ sizeMax := by
    have h₁ := hf.protectedValue.1.length_le
    rw [List.length_append, List.length_append] at hlen
    omega
  obtain ⟨pes, ues, hsel⟩ := exists_selectedEntries hdata hf.protectedValue hf.unprotectedValue
  have hread := hc.rest_eq
  rw [hc'.rest_eq] at hread
  simp only [List.append_assoc] at hread
  obtain ⟨value', vars, hvalue, rfl, hskip, rfl⟩ := htree.cancel hhead hv hf.protectedValue.1 hsel.items.dataItem hread
  obtain ⟨hreport, -⟩ := hskip.report hsel.bucket hsel.items
  obtain ⟨rfl, -⟩ := DataItem.append_cancel (hf.source.skippedField keyWrap_ne_direct).dataItem hskip.value.dataItem
    hvalue
  refine ⟨?_, hc'.unique hc⟩
  rcases hsel.recipientAlg_cases hf.isHpke_eq hf.unprotectedValue hreport with h | ⟨h, -⟩
  · exact h.symm
  · exact absurd h hf.admitted.supported.ne_unset

omit [AeadSettings] in
/-- A recipient that is skipped is accepted as the selected one with the same algorithm, if it is accepted at all. -/
theorem runs_decodeEncryptRecipient_tree {recipient : Recipient} {contentAlgId : Int}
    {bodyAlgProtected onlyRecipient : Bool} {a : Int} {bs : Bytes} (htree : RecipientTree maxDepth a bs)
    {ctx c c' : DecCtx} (hc : ctx.Consumes bs c) {mode : Option RecipientMode}
    {r : SelectedRecipient × Option RecipientMode}
    (hrun : Runs (decodeEncryptRecipient recipient contentAlgId bodyAlgProtected onlyRecipient mode) ctx r c') :
  updateRecipientMode a mode = .ok r.2 ∧ c' = c
  := by
  obtain ⟨bs', hvalue, hc', hmode⟩ := (runs_decodeEncryptRecipient _ _ _ _ _ _ _ _).mp hrun
  obtain ⟨rfl, rfl⟩ := hvalue.skipsAs _ _ _ _ hc' ((runs_decodeSkippedRecipient_iff hc).mpr htree)
  exact ⟨hmode, rfl⟩

omit [RecipientSettings] [WolfCrypt] in
/-- Up to the recipients a message is decoded in one way, wherever its ciphertext is. -/
theorem runs_decodeEncryptFields_unique {detachedCt detachedCt' : Pointer} {ctx c c' : DecCtx}
    {r r' : Headers × Hdr × Option Bytes} (h : Runs (decodeEncryptFields detachedCt) ctx r c)
    (h' : Runs (decodeEncryptFields detachedCt') ctx r' c') :
  r.1 = r'.1 ∧ c = c'
  := by
  simp only [decodeEncryptFields, runs_bind, runs_pure, runs_ofExcept, reads_decodeMacPayload _ _ _ _ _] at h h'
  obtain ⟨_, c₁, hstart, headers, c₂, hheaders, _, _, ⟨-, rfl⟩, p, c₃, ⟨bs, hpayload, hc⟩, rfl, rfl⟩ := h
  obtain ⟨_, _, hstart', _, _, hheaders', _, _, ⟨-, rfl⟩, p', _, ⟨bs', hpayload', hc'⟩, rfl, rfl⟩ := h'
  obtain ⟨-, rfl⟩ := hstart.unique hstart'
  obtain ⟨rfl, rfl⟩ := hheaders.unique hheaders'
  obtain ⟨-, rfl⟩ := hc.items_unique hc' (hpayload.items 0) (hpayload'.items 0)
  exact ⟨rfl, rfl⟩

/-- A message that is accepted is decoded up to its recipients, and these are its last part. -/
theorem decodeEncrypt_recipients {recipient : Recipient} {index : Nat} {detachedCt : Pointer} {input : Buffer}
    {msg : EncryptMessage} (h : decodeBuffer (decodeEncrypt recipient index detachedCt) input = .ok msg) :
  ∃ start headers ciphertext head before after selected r ctx c,
    EncryptEncoding recipient index detachedCt input.bytes msg start headers ciphertext head before after selected
    ∧ Runs (decodeEncryptFields detachedCt) (.init input) r ctx ∧ r.1 = msg.headers
    ∧ ctx.Consumes (head.bytes ++ (treesBytes before ++ (selected ++ treesBytes after))) c
  := by
  have hf := decodeFlagsValid_zero
  rw [decodeBuffer_eq_ok, decodeEncrypt_eq] at h
  simp only [runs_bind, runs_pure, runs_decodeEncryptRecipients, runs_decodeEnd] at h
  obtain ⟨_, r, ctx, hfields, found, c, ⟨head, before, selected, after, hlist, hsel, hc⟩, _, _, ⟨hend, rfl⟩, rfl, rfl⟩ := h
  have hruns := hfields
  simp only [decodeEncryptFields, runs_bind, runs_pure, runs_ofExcept, runs_decodeStart hf, reads_decodeHeaders hf _ _ _,
    reads_decodeMacPayload _ _ _ _ _] at hfields
  obtain ⟨_, c₁, ⟨start, hstart, h₁, -⟩, headers, c₂, ⟨bs₂, hheaders, h₂⟩, _, _, ⟨hnonce, rfl⟩, ⟨hdr, ct⟩, c₃,
    ⟨bs₃, hpayload, h₃⟩, rfl, rfl⟩ := hfields
  exact ⟨start, bs₂, bs₃, head, before, after, selected, _, _, c, {
    input_eq := (h₁.trans (h₂.trans (h₃.trans hc))).init_end hend
    startValue := hstart
    headersValue := hheaders
    nonce := hnonce
    ciphertextValue := ⟨ct, hpayload, rfl⟩
    recipients := hlist
    selectedValue := hsel }, hruns, rfl, hc⟩

/-- For a message that is accepted with the recipient at an index, no call of the policy is rejected at another
index, unless the recipient there is one of HPKE without algorithm and the caller does not expect HPKE. -/
theorem EncryptMixCall.accepted {recipient recipient' : Recipient} {index index' : Nat}
    {detachedCt detachedCt' : Pointer} {input : Buffer} {msg : EncryptMessage} {start headers ciphertext selected : Bytes}
    {head : Token} {before after : List (Int × Bytes)} {r : Headers × Hdr × Option Bytes} {ctx c : DecCtx}
    (henc : EncryptEncoding recipient index detachedCt input.bytes msg start headers ciphertext head before after
      selected) (hfields : Runs (decodeEncryptFields detachedCt) (.init input) r ctx)
    (hc : ctx.Consumes (head.bytes ++ (treesBytes before ++ (selected ++ treesBytes after))) c) (hne : index' ≠ index)
    {alg : Int} {mode : Option RecipientMode} (h : EncryptMixCall recipient' index' detachedCt' input alg mode) :
  (∃ mode', updateRecipientMode alg mode = .ok mode')
    ∨ (alg = algUnset ∧ recipient'.algId ≠ algHpke0Ke
      ∧ ∃ a bs, (before ++ (msg.recipient.alg, selected) :: after)[index']? = some (a, bs) ∧ ImplicitHpke bs)
  := by
  obtain ⟨headers', hdr', ct', ctx', hfields', hcall⟩ := h
  obtain ⟨-, rfl⟩ := runs_decodeEncryptFields_unique hfields hfields'
  obtain ⟨count, c₁, hstart, hlt⟩ := hcall.index_lt
  obtain ⟨rfl, -⟩ := runs_decodeArrayStart_head henc.recipients.accepted hc hstart
  obtain ⟨before', a, bs, after', hsplit, rfl, htree, harray⟩ := henc.recipients.mixedArray henc.selectedValue.skipsAs hlt hne
  rw [treesBytes_split hsplit] at hc
  have hget : (before ++ (msg.recipient.alg, selected) :: after)[before'.length]? = some (a, bs) := by
    rw [hsplit, List.getElem?_append_right (Nat.le_refl _), Nat.sub_self, List.getElem?_cons_zero]
  have halg : ∀ n c₁ c₂ c₃ alg', c₁.Consumes bs c₂ →
      Runs (do
        let (_, _, alg) ← decodeRecipientBuckets recipient' headers'.hdr.alg (decide (n = 1 ∧ before'.length = 0))
        return alg) c₁ alg' c₃ →
      alg' = a ∨ (alg' = algUnset ∧ ImplicitHpke bs ∧ recipient'.algId ≠ algHpke0Ke) := by
    intro n c₁ c₂ c₃ alg' hc₁ hrun
    simp only [runs_bind, runs_pure] at hrun
    obtain ⟨found, _, hrun, rfl, rfl⟩ := hrun
    exact runs_decodeRecipientBuckets_tree htree hc₁ hrun
  have hselect : ∀ n c₁ c₂ c₃ mode₁ mode₂, c₁.Consumes bs c₂ →
      Runs (do
        let (_, mode) ← decodeEncryptRecipient recipient' headers'.hdr.alg headers'.algProtected
          (decide (n = 1 ∧ before'.length = 0)) mode₁
        return mode) c₁ mode₂ c₃ →
      updateRecipientMode a mode₁ = .ok mode₂ ∧ c₃ = c₂ := by
    intro n c₁ c₂ c₃ mode₁ mode₂ hc₁ hrun
    simp only [runs_bind, runs_pure] at hrun
    obtain ⟨found, _, hrun, rfl, rfl⟩ := hrun
    exact runs_decodeEncryptRecipient_tree htree hc₁ hrun
  rcases hcall.accepted harray hc halg hselect with hok | ⟨hunset, himp, hexp⟩
  · exact .inl hok
  · exact .inr ⟨hunset, hexp, a, bs, hget, himp⟩

end

/-! ### COSE_Mac -/

section

variable [Settings]

/-- The steps of `wc_CoseMac_Verify` for the selected recipient up to the call of the policy. -/
def decodeSelectedHeaders : Dec Headers := do
  let recipArrCount ← decodeArrayStart
  failIf (recipArrCount ≠ 3) .cborMalformed
  decodeHeaders 0

/-- The selected recipient is decoded by the steps before the call of the policy, the call, and those after it. -/
theorem decodeSelectedRecipient_eq (mode : Option RecipientMode) :
  decodeSelectedRecipient mode = do
    let recip ← decodeSelectedHeaders
    let mode ← MonadExcept.ofExcept (updateRecipientMode recip.hdr.alg mode)
    failIf (recip.hdr.alg = algDirect ∧ recip.protectedData.length ≠ 0) .coseBadHdr
    let value ← decodeRecipientValue recip.hdr.alg
    return (recip.hdr.alg, value, mode)
  := by
  simp only [decodeSelectedRecipient, decodeSelectedHeaders, bind_assoc]

/-- The steps of `wc_CoseMac_Verify` that decode the message up to its recipients. -/
def decodeMacFields (detached : Pointer) : Dec (Headers × (Hdr × Option Bytes) × Bytes) := do
  decodeStart tagMac 5 0
  let headers ← decodeHeaders 0
  let payload ← decodeMacPayload detached headers.hdr
  let tag ← decodeBstr
  return (headers, payload, tag)

/-- A message is decoded by the steps up to its recipients, and those for them. -/
theorem decodeMac_eq (detached : Pointer) (index : Nat) :
  decodeMac detached index = do
    let (headers, (hdr, payload), tag) ← decodeMacFields detached
    let (recipientAlg, recipientValue) ← decodeRecipients index
    decodeEnd
    return ⟨headers, hdr, payload, tag, recipientAlg, recipientValue⟩
  := by
  simp only [decodeMac, decodeMacFields, bind_assoc, pure_bind]

/-- The calls of the policy while a message is decoded with the recipient at an index selected. -/
def MacMixCall (index : Nat) (detached : Pointer) (input : Buffer) (alg : Int) (mode : Option RecipientMode) : Prop :=
  ∃ fields ctx, Runs (decodeMacFields detached) (.init input) fields ctx
    ∧ MixCall
      (fun _ => do
        let recip ← decodeSelectedHeaders
        return recip.hdr.alg)
      (fun _ mode => do
        let (_, _, mode) ← decodeSelectedRecipient mode
        return mode)
      index ctx alg mode

/-- The parser of the selected recipient finds the algorithm as which the recipient is skipped, if that is one of
direct encryption. -/
theorem runs_decodeSelectedHeaders_tree {a : Int} {bs : Bytes} (htree : RecipientTree maxDepth a bs)
    (ha : RecipientMode.ofAlg a = .directEncryption) {ctx c c' : DecCtx} (hc : ctx.Consumes bs c) {recip : Headers}
    (hrun : Runs decodeSelectedHeaders ctx recip c') :
  recip.hdr.alg = a
  := by
  simp only [decodeSelectedHeaders, decodeArrayStart, runs_bind, runs_failIf, runs_decodeArrayStartEx,
    reads_decodeHeaders decodeFlagsValid_zero _ _ _] at hrun
  obtain ⟨n, c₁, ⟨-, head, hhead, hc₁, -, hv, -⟩, _, _, ⟨hn, rfl⟩, headers, hheaders, hc₂⟩ := hrun
  obtain ⟨prot, unprot, pes, ues, rfl, hb⟩ := hheaders.buckets (length_le_of_consumes hc₂)
  have hread := (hc₁.trans hc₂).rest_eq
  rw [hc.rest_eq, List.append_assoc, List.append_assoc] at hread
  obtain ⟨value, vars, -, -, hskip, rfl⟩ := htree.cancel hhead (hv.trans (Decidable.not_not.mp hn)) hb.protectedBytes
    hb.entries.items.dataItem hread
  obtain ⟨hreport, -⟩ := hskip.report hb.bucket hb.entries.items
  rcases hreport.reported_cases hb.alg with h | ⟨-, h, -⟩
  · exact h
  · rw [h] at ha
    cases ha

/-- A recipient that is skipped is accepted as the selected one with the same algorithm, if it is accepted at all. -/
theorem runs_decodeSelectedRecipient_tree {a : Int} {bs : Bytes} (htree : RecipientTree maxDepth a bs)
    {ctx c c' : DecCtx} (hc : ctx.Consumes bs c) {mode : Option RecipientMode}
    {r : Int × Option Bytes × Option RecipientMode} (hrun : Runs (decodeSelectedRecipient mode) ctx r c') :
  updateRecipientMode a mode = .ok r.2.2 ∧ c' = c
  := by
  obtain ⟨bs', hvalue, hc', hmode⟩ := (runs_decodeSelectedRecipient _ _ _ _).mp hrun
  have hset : r.1 ≠ algUnset := (updateRecipientMode_eq_ok.mp hmode).1
  have htree' := hvalue.skipped (length_le_of_consumes hc') hset maxDepth
  obtain ⟨rfl, rfl⟩ := htree'.skipsAs _ _ _ _ hc' ((runs_decodeSkippedRecipient_iff hc).mpr htree)
  exact ⟨hmode, rfl⟩

/-- Up to the recipients a message is decoded in one way, wherever its payload is. -/
theorem runs_decodeMacFields_unique {detached detached' : Pointer} {ctx c c' : DecCtx}
    {r r' : Headers × (Hdr × Option Bytes) × Bytes} (h : Runs (decodeMacFields detached) ctx r c)
    (h' : Runs (decodeMacFields detached') ctx r' c') :
  c = c'
  := by
  simp only [decodeMacFields, runs_bind, runs_pure, reads_decodeMacPayload _ _ _ _ _] at h h'
  obtain ⟨_, c₁, hstart, headers, c₂, hheaders, p, c₃, ⟨bs, hpayload, hc⟩, tag, c₄, htag, -, rfl⟩ := h
  obtain ⟨_, _, hstart', _, _, hheaders', p', _, ⟨bs', hpayload', hc'⟩, _, _, htag', -, rfl⟩ := h'
  obtain ⟨-, rfl⟩ := hstart.unique hstart'
  obtain ⟨rfl, rfl⟩ := hheaders.unique hheaders'
  obtain ⟨-, rfl⟩ := hc.items_unique hc' (hpayload.items 0) (hpayload'.items 0)
  exact (htag.unique htag').2

/-- A message that is accepted is decoded up to its recipients, and these are its last part. -/
theorem decodeMac_recipients {index : Nat} {detached : Pointer} {input : Buffer} {msg : MacMessage}
    (h : decodeBuffer (decodeMac detached index) input = .ok msg) :
  ∃ head before after selected fields ctx c, RecipientList head before after msg.recipientAlg index
    ∧ MacSelectedValue selected msg.recipientAlg msg.recipientValue
    ∧ Runs (decodeMacFields detached) (.init input) fields ctx
    ∧ ctx.Consumes (head.bytes ++ (treesBytes before ++ (selected ++ treesBytes after))) c
  := by
  rw [decodeBuffer_eq_ok, decodeMac_eq] at h
  simp only [runs_bind, runs_pure, runs_decodeRecipients] at h
  obtain ⟨_, fields, ctx, hfields, r, c, ⟨head, before, selected, after, hlist, hsel, hc⟩, _, _, _, rfl, rfl⟩ := h
  exact ⟨head, before, after, selected, fields, ctx, c, hlist, hsel, hfields, hc⟩

/-- For a message that is accepted with a direct recipient at an index, no call of the policy is rejected at another
index. -/
theorem MacMixCall.accepted {index index' : Nat} {detached detached' : Pointer} {input : Buffer} {msg : MacMessage}
    (hdec : decodeBuffer (decodeMac detached index) input = .ok msg) (hdirect : msg.recipientAlg = algDirect)
    (hne : index' ≠ index) {alg : Int} {mode : Option RecipientMode} (h : MacMixCall index' detached' input alg mode) :
  ∃ mode', updateRecipientMode alg mode = .ok mode'
  := by
  obtain ⟨head, before, after, selected, fields, ctx, c, hlist, hsel, hfields, hc⟩ := decodeMac_recipients hdec
  obtain ⟨fields', ctx', hfields', hcall⟩ := h
  obtain rfl := runs_decodeMacFields_unique hfields hfields'
  obtain ⟨count, c₁, hstart, hlt⟩ := hcall.index_lt
  obtain ⟨rfl, -⟩ := runs_decodeArrayStart_head hlist.accepted hc hstart
  have hskips : SkipsAs msg.recipientAlg selected := by
    intro ctx₂ c₂ alg' c₃ hc₂ hrun
    have hset : msg.recipientAlg ≠ algUnset := by
      rw [hdirect]
      decide
    exact (hsel.skipped (length_le_of_consumes hc₂) hset maxDepth).skipsAs _ _ _ _ hc₂ hrun
  obtain ⟨before', a, bs, after', hsplit, rfl, htree, harray⟩ := hlist.mixedArray hskips hlt hne
  rw [treesBytes_split hsplit] at hc
  have ha : RecipientMode.ofAlg a = .directEncryption := by
    have hmap := congrArg (List.map Prod.fst) hsplit
    rw [List.map_append, List.map_append, List.map_cons, List.map_cons] at hmap
    have hmem : msg.recipientAlg ∈ before'.map Prod.fst ++ a :: after'.map Prod.fst := by
      rw [← hmap]
      exact List.mem_append_right _ List.mem_cons_self
    rw [harray.mix.sameClass a (List.mem_append_right _ List.mem_cons_self) _ hmem, hdirect]
    rfl
  have halg : ∀ (n : Nat) c₁ c₂ c₃ alg', c₁.Consumes bs c₂ →
      Runs (do
        let recip ← decodeSelectedHeaders
        return recip.hdr.alg) c₁ alg' c₃ →
      alg' = a ∨ (alg' = algUnset ∧ False) := by
    intro n c₁ c₂ c₃ alg' hc₁ hrun
    simp only [runs_bind, runs_pure] at hrun
    obtain ⟨recip, _, hrun, rfl, rfl⟩ := hrun
    exact .inl (runs_decodeSelectedHeaders_tree htree ha hc₁ hrun)
  have hselect : ∀ (n : Nat) c₁ c₂ c₃ mode₁ mode₂, c₁.Consumes bs c₂ →
      Runs (do
        let (_, _, mode) ← decodeSelectedRecipient mode₁
        return mode) c₁ mode₂ c₃ →
      updateRecipientMode a mode₁ = .ok mode₂ ∧ c₃ = c₂ := by
    intro n c₁ c₂ c₃ mode₁ mode₂ hc₁ hrun
    simp only [runs_bind, runs_pure] at hrun
    obtain ⟨found, _, hrun, rfl, rfl⟩ := hrun
    exact runs_decodeSelectedRecipient_tree htree hc₁ hrun
  rcases hcall.accepted harray hc halg hselect with hok | ⟨-, hfalse⟩
  · exact hok
  · exact hfalse.elim

end

/-! ### Any order, any index -/

/-- A mix is allowed in any order. -/
theorem Mix.perm {algs algs' : List Int} (h : Mix algs) (hperm : algs.Perm algs') :
  Mix algs'
  := by
  constructor
  · intro alg halg
    exact h.set alg (hperm.mem_iff.mpr halg)
  · intro alg halg alg' halg'
    exact h.sameClass alg (hperm.mem_iff.mpr halg) alg' (hperm.mem_iff.mpr halg')
  · rintro ⟨alg, halg, hag⟩
    rw [← hperm.length_eq]
    exact h.alone ⟨alg, hperm.mem_iff.mpr halg, hag⟩

section

variable [Settings] [RecipientSettings] [AeadSettings] [MacSettings] [WolfCrypt] [AeadCrypt] [RecipientCrypt] [MacCrypt]

/-- The policy accepts a list of algorithms exactly if it is an allowed mix, in any order.  For a message that is
accepted at an index, no call of the policy is rejected at another index, except for the selected recipient of
COSE_Encrypt itself if it is one of HPKE without algorithm and the caller does not expect HPKE.  A call is the step
between those that decode the selected recipient before it and after it. -/
theorem recipient_mix :
  (∀ algs, (∃ mode, foldRecipientMode algs none = .ok mode) ↔ Mix algs)
  ∧ (∀ algs algs', algs.Perm algs' → Mix algs → Mix algs')
  ∧ (∀ recipient index args out env out', encryptDecrypt recipient index args out env = (.ok (), out') →
      ∃ r input msg start headers ciphertext head before after selected, recipient = some r ∧ args.input = some input
        ∧ EncryptEncoding r index args.detachedCt input.bytes msg start headers ciphertext head before after selected
        ∧ ∀ recipient' index' detachedCt' alg mode, index' ≠ index →
          EncryptMixCall recipient' index' detachedCt' input alg mode →
          (∃ mode', updateRecipientMode alg mode = .ok mode')
            ∨ (alg = algUnset ∧ recipient'.algId ≠ algHpke0Ke ∧ ∃ a bs,
                (before ++ (msg.recipient.alg, selected) :: after)[index']? = some (a, bs) ∧ ImplicitHpke bs))
  ∧ (∀ args out out', macVerify args out = (.ok (), out') →
      ∃ input, args.input = some input ∧ ∀ index' detached' alg mode, index' ≠ args.recipientIndex →
        MacMixCall index' detached' input alg mode → ∃ mode', updateRecipientMode alg mode = .ok mode')
  ∧ (∀ recipient contentAlgId bodyAlgProtected onlyRecipient mode,
      decodeEncryptRecipient recipient contentAlgId bodyAlgProtected onlyRecipient mode = do
        let (prot, unprot, alg) ← decodeRecipientBuckets recipient contentAlgId onlyRecipient
        let mode ← MonadExcept.ofExcept (updateRecipientMode alg mode)
        MonadExcept.ofExcept (checkMixedAlg recipient prot.data alg contentAlgId bodyAlgProtected unprot.ephem.isSome
          onlyRecipient)
        let source ← decodeCekSource alg unprot
        return (⟨prot.data, alg, source⟩, mode))
  ∧ ∀ mode, decodeSelectedRecipient mode = do
      let recip ← decodeSelectedHeaders
      let mode ← MonadExcept.ofExcept (updateRecipientMode recip.hdr.alg mode)
      failIf (recip.hdr.alg = algDirect ∧ recip.protectedData.length ≠ 0) .coseBadHdr
      let value ← decodeRecipientValue recip.hdr.alg
      return (recip.hdr.alg, value, mode)
  := by
  refine ⟨foldRecipientMode_ok_iff, fun _ _ hperm h => h.perm hperm, ?_, ?_, decodeEncryptRecipient_eq,
    decodeSelectedRecipient_eq⟩
  · intro recipient index args out env out' h
    obtain ⟨r, input, _, _, _, _, msg, rfl, hinput, -, -, -, hopened⟩ := encryptDecrypt_ok h
    obtain ⟨start, headers, ciphertext, head, before, after, selected, _, ctx, c, henc, hfields, -, hc⟩ :=
      decodeEncrypt_recipients hopened.decoded
    refine ⟨r, input, msg, start, headers, ciphertext, head, before, after, selected, rfl, hinput, henc, ?_⟩
    intro recipient' index' detachedCt' alg mode hne hcall
    apply hcall.accepted henc hfields hc hne
  · intro args out out' h
    obtain ⟨recipient, input, msg, -, hinput, hdec, hdirect⟩ := macVerify_decoded h
    refine ⟨input, hinput, ?_⟩
    intro index' detached' alg mode hne hcall
    apply hcall.accepted hdec hdirect hne

end

section Instances

attribute [local instance] defaultSettings defaultAeadSettings defaultRecipientSettings p256Crypt

/-- The key that wraps the key of the message. -/
def wrappingKey : Bytes := (List.range 16).map fun i => UInt8.ofNat (16 + i)

/-- The key of the message. -/
def wrappedCek : Bytes := (List.range 16).map fun i => UInt8.ofNat (48 + i)

/-- The wrapped key. -/
def wrappedKey : Bytes :=
  [0x6B, 0x53, 0x16, 0xE4, 0x72, 0x64, 0x02, 0x18, 0x7F, 0x7C, 0x1E, 0x5B, 0x70, 0x16, 0xAB, 0xAB, 0xA2, 0x35,
   0xC8, 0xD2, 0x06, 0xAA, 0xB3, 0x82]

/-- The ciphertext of three bytes, with its tag. -/
def wrappedCiphertext : Bytes :=
  [0x26, 0xED, 0xFD, 0x9B, 0xB2, 0x19, 0x14, 0xE4, 0xA4, 0x73, 0xEF, 0xEE, 0xAF, 0x23, 0xB5, 0x1A, 0x93, 0x1C,
   0x7B]

/-- The calls that decrypt the message. -/
def wrappedCalls : RecordedCalls where
  aesGcm := [((wrappedCek, (List.range 12).map UInt8.ofNat,
    [0x83, 0x67] ++ ctxEncrypt ++ [0x43, 0xA1, 0x01, 0x01, 0x40], wrappedCiphertext), [0x01, 0x02, 0x03])]
  unwrap := [((wrappingKey, wrappedKey), wrappedCek)]
  ecdh := []
  kdf := []

/-- A recipient with an encapsulated key but no algorithm. -/
def implicitRecipient : Bytes :=
  [0x83, 0x40, 0xA1, 0x23, 0x58, 0x41] ++ List.replicate 65 0x04 ++ [0x58, 0x20] ++ List.replicate 32 0x00

/-- A message for a recipient with AES key wrap and this one. -/
def implicitMessage : Bytes :=
  [0xD8, 0x60, 0x84, 0x43, 0xA1, 0x01, 0x01, 0xA1, 0x05, 0x4C] ++ (List.range 12).map UInt8.ofNat ++ [0x53]
    ++ wrappedCiphertext ++ [0x82, 0x83, 0x40, 0xA1, 0x01, 0x22, 0x58, 0x18] ++ wrappedKey ++ implicitRecipient

/-- A recipient without algorithm that has the key. -/
def wrappingRecipient : Recipient := ⟨algUnset, some (.ofSymmetric wrappingKey), .null 0⟩

/-- The arguments that decrypt the message. -/
def implicitArgs : DecryptArgs where
  input := some (.ofBytes implicitMessage)
  detachedCt := .null 0
  extAad := .null 0
  scratch := some (.ofBytes (List.replicate 128 0))

/-- The primitives as far as the calls go. -/
@[reducible]
def wrappedAeadCrypt : AeadCrypt := wrappedCalls.aeadCrypt

/-- The ways to distribute a key as far as the calls go. -/
@[reducible]
def wrappedRecipientCrypt : RecipientCrypt := wrappedCalls.recipientCrypt

attribute [local instance] wrappedAeadCrypt wrappedRecipientCrypt

/-- What decrypting the message with the recipient at an index does. -/
def implicitResult (index : Nat) : Checked Unit × DecryptOut :=
  encryptDecrypt (some wrappingRecipient) index implicitArgs ⟨some .zero, some [0, 0, 0], some 0⟩ ()

set_option maxRecDepth 4000 in
/-- The message is decrypted with the first recipient, and with the second one the policy rejects it. -/
theorem implicit_recipient_rejected :
  (implicitResult 0).1 = .ok () ∧ (implicitResult 0).2.plaintext = some [0x01, 0x02, 0x03]
  ∧ (implicitResult 1).1 = .error (.err .coseBadAlg)
  ∧ ∃ alg mode, EncryptMixCall wrappingRecipient 1 (.null 0) (.ofBytes implicitMessage) alg mode
    ∧ ¬ ∃ mode', updateRecipientMode alg mode = .ok mode'
  := by
  refine ⟨by decide +kernel, by decide +kernel, by decide +kernel, algUnset, some .keyTransport, ?_, ?_⟩
  · exact ⟨_, _, _, _, rfl, .selected rfl Nat.one_lt_two rfl rfl⟩
  · rintro ⟨mode', ⟨⟩⟩

end Instances

end WolfCose
