import WolfCose.EatPsa.Claims
import WolfCose.Lib.DataItems
import Mathlib.Data.List.Perm.Basic

/-!
# The order of the claims

The claims themselves may stand in any order.  Only the duplicate scan depends on it: it reads the
software components again with the generic walker, which counts their nesting from the array on,
unless no claim follows them.
-/

namespace WolfCose

open Program Cbor Settings EatPsaSettings

section

/-! ### Two claims commute -/

theorem EatPsaToken.store_comm (token : EatPsaToken) {d₁ d₂ : EatPsaClaimData} (h : d₁.claim ≠ d₂.claim) :
  (token.store d₁).store d₂ = (token.store d₂).store d₁
  := by
  cases d₁ <;> cases d₂ <;> first | rfl | exact absurd rfl h

theorem EatPsaClaimVars.add_comm (vars : EatPsaClaimVars) {c₁ c₂ : EatPsaClaim} (l : Bool) {d₁ d₂ : EatPsaClaimData}
    (h : d₁.claim ≠ d₂.claim) :
  (vars.add c₁ l d₁).add c₂ l d₂ = (vars.add c₂ l d₂).add c₁ l d₁
  := by
  simp only [add, EatPsaToken.store_comm vars.token h, UInt32.or_assoc, UInt32.or_comm c₁.bit]

variable [Settings] [EatPsaSettings]

/-- Of two claims in a row each could have come first. -/
theorem EatPsaClaimVars.Admits.swap {vars : EatPsaClaimVars} {c₁ c₂ : EatPsaClaim} {l₁ l₂ : Bool}
    {d₁ : EatPsaClaimData} (h₁ : vars.Admits c₁ l₁) (h₂ : (vars.add c₁ l₁ d₁).Admits c₂ l₂) (d₂ : EatPsaClaimData) :
  vars.Admits c₂ l₂ ∧ (vars.add c₂ l₂ d₂).Admits c₁ l₁ ∧ l₁ = l₂ ∧ c₁ ≠ c₂
  := by
  have hseen := h₂.new
  rw [EatPsaClaimVars.add, uint32_or_and_eq_zero] at hseen
  have hmix := h₂.unmixed
  have hmix₁ := h₁.unmixed
  have hl : l₁ = l₂ := by
    cases l₁ <;> cases l₂ <;> simp [EatPsaClaimVars.add] at hmix ⊢
  subst hl
  refine ⟨⟨h₂.enabled, hmix₁, hseen.1⟩, ⟨h₁.enabled, ?_, ?_⟩, rfl, ?_⟩
  · cases l₁ <;> simpa [EatPsaClaimVars.add] using hmix₁
  · rw [EatPsaClaimVars.add, uint32_or_and_eq_zero, UInt32.and_comm c₂.bit]
    exact ⟨h₁.new, hseen.2⟩
  · rintro rfl
    rw [UInt32.and_self] at hseen
    exact c₁.bit_ne_zero hseen.2

variable [MacSettings]

/-- Two entries of a claims map in a row may be exchanged. -/
theorem eatPsaClaimValue_swap (e₁ e₂ : EatPsaEntry) (s s₁ s₂ : EatPsaClaimVars)
    (h₁ : EatPsaEntrySteps EatPsaClaimValue e₁ s s₁) (h₂ : EatPsaEntrySteps EatPsaClaimValue e₂ s₁ s₂) :
  ∃ s₁', EatPsaEntrySteps EatPsaClaimValue e₂ s s₁' ∧ EatPsaEntrySteps EatPsaClaimValue e₁ s₁' s₂
  := by
  obtain ⟨hl₁, hv₁⟩ := h₁
  obtain ⟨hl₂, hv₂⟩ := h₂
  unfold EatPsaEntrySteps EatPsaClaimValue
  unfold EatPsaClaimValue at hv₁ hv₂
  cases hc₁ : e₁.label.toInt.bind eatPsaClaimType with
  | none =>
      rw [hc₁] at hv₁
      obtain ⟨hskip, rfl⟩ := hv₁
      exact ⟨s₂, ⟨hl₂, hv₂⟩, hl₁, hskip, rfl⟩
  | some r₁ =>
      obtain ⟨c₁, l₁⟩ := r₁
      rw [hc₁] at hv₁
      obtain ⟨hadm₁, d₁, henc₁, rfl⟩ := hv₁
      cases hc₂ : e₂.label.toInt.bind eatPsaClaimType with
      | none =>
          rw [hc₂] at hv₂
          obtain ⟨hskip, rfl⟩ := hv₂
          exact ⟨s, ⟨hl₂, hskip, rfl⟩, hl₁, hadm₁, d₁, henc₁, rfl⟩
      | some r₂ =>
          obtain ⟨c₂, l₂⟩ := r₂
          rw [hc₂] at hv₂
          obtain ⟨hadm₂, d₂, henc₂, rfl⟩ := hv₂
          obtain ⟨hfirst, hsecond, rfl, hne⟩ := hadm₁.swap hadm₂ d₂
          refine ⟨s.add c₂ l₁ d₂, ⟨hl₂, hfirst, d₂, henc₂, rfl⟩, hl₁, hsecond, d₁, henc₁, ?_⟩
          apply EatPsaClaimVars.add_comm
          rw [henc₁.claim_eq, henc₂.claim_eq]
          exact hne

/-- The claims of a token may stand in any order. -/
theorem EatPsaClaimsToken.perm {es es' : List EatPsaEntry} {token : EatPsaToken} (h : EatPsaClaimsToken es token)
    (hperm : es.Perm es') :
  EatPsaClaimsToken es' token
  := by
  obtain ⟨vars, hsteps, hcheck⟩ := h
  exact ⟨vars, hsteps.perm eatPsaClaimValue_swap hperm, hcheck⟩

/-- A token has one entry of software components at most. -/
theorem EatPsaClaimsToken.components_unique {init : List EatPsaEntry} {e last : EatPsaEntry} {token : EatPsaToken}
    (h : EatPsaClaimsToken (init ++ [last]) token) (hmem : e ∈ init) (he : e.IsComponents)
    (hlast : last.IsComponents) :
  False
  := by
  obtain ⟨a, b, rfl⟩ := List.append_of_mem hmem
  have hperm : ((a ++ e :: b) ++ [last]).Perm (last :: e :: (a ++ b)) :=
    (List.perm_append_singleton _ _).trans (List.perm_middle.cons _)
  obtain ⟨vars, hsteps, -⟩ := h.perm hperm
  obtain ⟨s₁, ⟨-, h₁⟩, hsteps⟩ := Steps.cons_iff.mp hsteps
  obtain ⟨s₂, ⟨-, h₂⟩, -⟩ := Steps.cons_iff.mp hsteps
  obtain ⟨l₁, hl₁⟩ := hlast
  obtain ⟨l₂, hl₂⟩ := he
  rw [EatPsaClaimValue, hl₁] at h₁
  obtain ⟨hadm₁, d₁, -, rfl⟩ := h₁
  rw [EatPsaClaimValue, hl₂] at h₂
  obtain ⟨hadm₂, d₂, -, -⟩ := h₂
  obtain ⟨-, -, -, hne⟩ := hadm₁.swap hadm₂ d₂
  exact hne rfl

/-- The generic walker accepts the value of every entry but that of the software components. -/
theorem EatPsaClaimsToken.skipped {es : List EatPsaEntry} {token : EatPsaToken} (h : EatPsaClaimsToken es token)
    {e : EatPsaEntry} (he : e ∈ es) (hne : ¬ e.IsComponents) :
  SkippedValue eatPsaDecodeFlags e.value
  := by
  obtain ⟨vars, hsteps, -⟩ := h
  obtain ⟨_, _, -, hv⟩ := hsteps.forall_mem e he
  unfold EatPsaClaimValue at hv
  split at hv
  · exact hv.1
  · rename_i hclaim
    obtain ⟨-, _, henc, -⟩ := hv
    apply henc.skipped
    rintro rfl
    exact hne ⟨_, hclaim⟩

end

/-! ### Claims maps -/

/-- The encoding of entries, given by the encodings of their labels and values. -/
def pairsBytes (ps : List (Bytes × Bytes)) : Bytes := ps.flatMap fun p => p.1 ++ p.2

theorem dataItems_pairs {ps : List (Bytes × Bytes)} (h : ∀ p ∈ ps, DataItems 1 p.1 ∧ DataItems 1 p.2) :
  DataItems (2 * ps.length) (pairsBytes ps)
  := by
  induction ps with
  | nil => exact .nil
  | cons p ps ih =>
      obtain ⟨⟨h₁, h₂⟩, hps⟩ := List.forall_mem_cons.mp h
      rw [List.length_cons, Nat.mul_add, Nat.add_comm]
      exact (h₁.append h₂).append (ih hps)

theorem dataItem_pairsMap {ps : List (Bytes × Bytes)} (hlen : ps.length < 2 ^ 64)
    (h : ∀ p ∈ ps, DataItems 1 p.1 ∧ DataItems 1 p.2) :
  DataItems 1 (preferredHead .map ps.length ++ pairsBytes ps)
  := DataItems.of_head rfl hlen (dataItems_pairs h)

/-- The encodings of the label and of the value of an entry. -/
def EatPsaEntry.pair (e : EatPsaEntry) : Bytes × Bytes := (e.token.bytes, e.value)

theorem eatPsaEntriesBytes_eq (es : List EatPsaEntry) :
  eatPsaEntriesBytes es = pairsBytes (es.map EatPsaEntry.pair)
  := by
  rw [pairsBytes, List.flatMap_map]
  rfl

/-- Entries are known from their encoding. -/
theorem pairs_cancel {ps qs : List (Bytes × Bytes)} (hp : ∀ p ∈ ps, DataItems 1 p.1 ∧ DataItems 1 p.2)
    (hq : ∀ q ∈ qs, DataItems 1 q.1 ∧ DataItems 1 q.2) (hlen : ps.length = qs.length) {r r' : Bytes}
    (e : pairsBytes ps ++ r = pairsBytes qs ++ r') :
  ps = qs ∧ r = r'
  := by
  induction ps generalizing qs with
  | nil =>
      obtain rfl := List.eq_nil_of_length_eq_zero hlen.symm
      exact ⟨rfl, e⟩
  | cons p ps ih =>
      obtain _ | ⟨q, qs⟩ := qs
      · cases hlen
      obtain ⟨⟨hp₁, hp₂⟩, hps⟩ := List.forall_mem_cons.mp hp
      obtain ⟨⟨hq₁, hq₂⟩, hqs⟩ := List.forall_mem_cons.mp hq
      have e : p.1 ++ (p.2 ++ (pairsBytes ps ++ r)) = q.1 ++ (q.2 ++ (pairsBytes qs ++ r')) := by
        simpa [pairsBytes] using e
      obtain ⟨hlabel, e⟩ := hp₁.append_cancel hq₁ e
      obtain ⟨hvalue, e⟩ := hp₂.append_cancel hq₂ e
      obtain ⟨rfl, rfl⟩ := ih hps hqs (Nat.succ.inj hlen) e
      exact ⟨congrArg (· :: ps) (Prod.ext hlabel hvalue), rfl⟩

/-- The bytes around the entries of a map: its head, or those of a map of indefinite length. -/
def MapFrame (count : Nat) (opening closing : Bytes) : Prop :=
  (closing = [] ∧ ∃ head : Token, opening = head.bytes ∧ head.WellFormed ∧ head.major = .map ∧ head.val = count) ∨
    (closing = [breakByte] ∧ opening = [initialByte .map 31])

section

variable [Settings]

/-- A claims map: the bytes around the entries, and for each entry the encodings of its label and
of its value, which are data items of any form. -/
structure EatPsaClaimsMap where
  opening : Bytes
  entries : List (Bytes × Bytes)
  closing : Bytes
  frame : MapFrame entries.length opening closing
  items : ∀ p ∈ entries, DataItems 1 p.1 ∧ DataItems 1 p.2
  fits : (opening ++ (pairsBytes entries ++ closing)).length ≤ sizeMax

namespace EatPsaClaimsMap

/-- The payload that is a claims map. -/
def payload (m : EatPsaClaimsMap) : Buffer := ⟨m.opening ++ (pairsBytes m.entries ++ m.closing), m.fits⟩

/-- The claims map with its entries in another order. -/
def reorder (m : EatPsaClaimsMap) {entries : List (Bytes × Bytes)} (h : m.entries.Perm entries) : EatPsaClaimsMap where
  opening := m.opening
  entries := entries
  closing := m.closing
  frame := by
    rw [← h.length_eq]
    exact m.frame
  items := fun p hp => m.items p (h.mem_iff.mpr hp)
  fits := by
    have hlen : (pairsBytes entries).length = (pairsBytes m.entries).length :=
      (h.symm.flatMap_right fun p : Bytes × Bytes => p.1 ++ p.2).length_eq
    have hfits := m.fits
    simp only [List.length_append, hlen] at hfits ⊢
    exact hfits

end EatPsaClaimsMap

/-- Whether the code reads the encoding of a label as the label of the software components. -/
def eatPsaIsComponents (label : Bytes) : Bool :=
  match eatPsaDecodeLabel (.init (.ofBytes label)) with
  | .ok label _ => (label.toInt.bind eatPsaClaimType).any fun r => r.1 = .components
  | .error _ _ => false

/-- Whether the generic walker accepts a value. -/
def eatPsaSkips (value : Bytes) : Bool :=
  match skipEx eatPsaDecodeFlags (.init (.ofBytes value)) with
  | .ok _ _ => true
  | .error _ _ => false

variable [EatPsaSettings]

theorem eatPsaIsComponents_iff {e : EatPsaEntry} (he : e.Labelled) (hlen : e.token.bytes.length ≤ sizeMax) :
  eatPsaIsComponents e.token.bytes = true ↔ e.IsComponents
  := by
  have hc : (DecCtx.init (.ofBytes e.token.bytes)).Consumes e.token.bytes
      ((DecCtx.init (.ofBytes e.token.bytes)).advance e.token.bytes.length) := by
    apply DecCtx.consumes_of_rest (r := [])
    rw [DecCtx.rest_init, Buffer.bytes_ofBytes hlen, List.append_nil]
  have hrun := (runs_eatPsaDecodeLabel _ _ _).mpr ⟨e.token, he.accepted, hc, he.label_eq⟩
  unfold Runs at hrun
  rw [eatPsaIsComponents, hrun, EatPsaEntry.IsComponents]
  show (e.label.toInt.bind eatPsaClaimType).any (fun r => r.1 = .components) = true ↔ _
  cases e.label.toInt.bind eatPsaClaimType with
  | none => simp
  | some r => simp [Prod.ext_iff]

theorem eatPsaSkips_iff {value : Bytes} (hitem : EatPsaItem value) (hlen : value.length ≤ sizeMax) :
  eatPsaSkips value = true ↔ SkippedValue eatPsaDecodeFlags value
  := by
  have hrest : (DecCtx.init (.ofBytes value)).rest = value ++ [] := by
    rw [DecCtx.rest_init, Buffer.bytes_ofBytes hlen, List.append_nil]
  have hruns : eatPsaSkips value = true
      ↔ ∃ ctx', Runs (skipEx eatPsaDecodeFlags) (.init (.ofBytes value)) () ctx' := by
    unfold eatPsaSkips Runs
    cases h : skipEx eatPsaDecodeFlags (.init (.ofBytes value)) <;> simp
  rw [hruns]
  simp only [runs_skipEx decodeFlagsValid_eatPsa]
  constructor
  · rintro ⟨_, bs, hbs, hc⟩
    obtain ⟨_, hitem⟩ := hitem
    obtain ⟨rfl, -⟩ := hc.items_unique (DecCtx.consumes_of_rest hrest) hbs hitem
    exact hbs
  · intro h
    exact ⟨_, value, h, DecCtx.consumes_of_rest hrest⟩

omit [EatPsaSettings] in
theorem EatPsaItem.dataItem {bs : Bytes} (h : EatPsaItem bs) :
  DataItems 1 bs
  := by
  obtain ⟨_, h⟩ := h
  exact .of_items Accepted.wf h

omit [Settings] [EatPsaSettings] in
theorem length_le_pairsBytes {ps : List (Bytes × Bytes)} {p : Bytes × Bytes} (h : p ∈ ps) :
  p.1.length + p.2.length ≤ (pairsBytes ps).length
  := by
  obtain ⟨a, b, rfl⟩ := List.append_of_mem h
  simp only [pairsBytes, List.flatMap_append, List.flatMap_cons, List.length_append]
  omega

variable [MacSettings]

namespace EatPsaClaimsMap

/-- The rules on claims that do not depend on their order: the map has a length and is not too
long, its labels are different integers or texts, and its claims together are a token. -/
def Accepts (m : EatPsaClaimsMap) (token : EatPsaToken) : Prop :=
  m.closing = [] ∧ m.entries.length ≤ maxClaims
    ∧ ∃ es : List EatPsaEntry, es.map EatPsaEntry.pair = m.entries ∧ (es.map EatPsaEntry.label).Nodup
      ∧ EatPsaClaimsToken es token

/-- The generic walker accepts the software components, where other claims follow them. -/
def Rereads (m : EatPsaClaimsMap) : Prop :=
  ∀ p ∈ m.entries.dropLast, eatPsaIsComponents p.1 = true → eatPsaSkips p.2 = true

/-- The rules on claims hold in any order. -/
theorem accepts_reorder {m : EatPsaClaimsMap} {entries : List (Bytes × Bytes)} (h : m.entries.Perm entries)
    {token : EatPsaToken} (ha : m.Accepts token) :
  (m.reorder h).Accepts token
  := by
  obtain ⟨hclosing, hlen, es, hes, hnodup, htoken⟩ := ha
  have hcomp : entries.Perm (es.map EatPsaEntry.pair) := by
    rw [hes]
    exact h.symm
  rw [← congrFun (congrFun (List.eq_map_comp_perm EatPsaEntry.pair) entries) es] at hcomp
  obtain ⟨es', hes', hperm⟩ := hcomp
  refine ⟨hclosing, ?_, es', hes'.symm, ?_, htoken.perm hperm.symm⟩
  · show entries.length ≤ maxClaims
    rw [← h.length_eq]
    exact hlen
  · exact (hperm.map EatPsaEntry.label).nodup_iff.mpr hnodup

omit [EatPsaSettings] [MacSettings] in
theorem fits_of_mem {m : EatPsaClaimsMap} {p : Bytes × Bytes} (h : p ∈ m.entries) :
  p.1.length ≤ sizeMax ∧ p.2.length ≤ sizeMax
  := by
  have hle := length_le_pairsBytes h
  have hfits := m.fits
  simp only [List.length_append] at hfits
  omega

/-- The entries of a token are read as labels and data items. -/
theorem entry_of_token {es : List EatPsaEntry} {token : EatPsaToken} (h : EatPsaClaimsToken es token) :
  ∀ e ∈ es, e.Labelled ∧ EatPsaItem e.value
  := by
  obtain ⟨vars, hsteps, -⟩ := h
  intro e he
  obtain ⟨_, _, hl, hv⟩ := hsteps.forall_mem e he
  exact ⟨hl, hv.item⟩

/-- A claims map is decoded exactly if it follows the rules on claims and the duplicate scan can
read the software components again. -/
theorem decode_eq_ok {m : EatPsaClaimsMap} {token : EatPsaToken} :
  eatPsaDecodeClaims (some m.payload) = .ok token ↔ m.Accepts token ∧ m.Rereads
  := by
  rw [eatPsaDecodeClaims_eq_ok]
  constructor
  · rintro ⟨head, es, hbytes, hhead, hlimit, htoken, hnodup, hread⟩
    have hentry := entry_of_token htoken
    have hpairs : ∀ p ∈ es.map EatPsaEntry.pair, DataItems 1 p.1 ∧ DataItems 1 p.2 := by
      intro p hp
      obtain ⟨e, he, rfl⟩ := List.mem_map.mp hp
      obtain ⟨hl, hi⟩ := hentry e he
      exact ⟨EatPsaItem.dataItem ⟨0, hl.token_items 0⟩, hi.dataItem⟩
    have hframe : es.map EatPsaEntry.pair = m.entries ∧ m.closing = [] := by
      have hbytes : m.opening ++ (pairsBytes m.entries ++ m.closing) = eatPsaMapBytes head es := hbytes
      rw [eatPsaMapBytes, eatPsaEntriesBytes_eq] at hbytes
      rcases m.frame with ⟨hclosing, head', hopening, hwf, hm, hv⟩ | ⟨-, hopening⟩
      · rw [hopening] at hbytes
        obtain ⟨rfl, hpairsBytes⟩ := Token.bytes_append_cancel hwf hhead.accepted.wellFormed hbytes
        rw [← List.append_nil (pairsBytes (es.map _))] at hpairsBytes
        have hlen : m.entries.length = (es.map EatPsaEntry.pair).length := by
          rw [List.length_map, ← hv, hhead.val]
        obtain ⟨hes, -⟩ := pairs_cancel m.items hpairs hlen hpairsBytes
        exact ⟨hes.symm, hclosing⟩
      · rw [hopening] at hbytes
        exact (DataItems.headByte_ne hhead.accepted.wellFormed hbytes.symm).elim
    obtain ⟨hes, hclosing⟩ := hframe
    refine ⟨⟨hclosing, ?_, es, hes, hnodup, htoken⟩, ?_⟩
    · rw [← hes, List.length_map]
      exact hlimit
    · intro p hp hcomp
      have hmem : p ∈ m.entries := List.dropLast_subset _ hp
      rw [← hes, ← List.map_dropLast] at hp
      obtain ⟨e, he, rfl⟩ := List.mem_map.mp hp
      obtain ⟨-, hi⟩ := hentry e (List.dropLast_subset _ he)
      exact (eatPsaSkips_iff hi (fits_of_mem hmem).2).mpr (hread e he)
  · rintro ⟨⟨hclosing, hlen, es, hes, hnodup, htoken⟩, hreads⟩
    have hentry := entry_of_token htoken
    rcases m.frame with ⟨-, head, hopening, hwf, hm, hv⟩ | ⟨hbreak, -⟩
    · refine ⟨head, es, ?_, ?_, ?_, htoken, hnodup, ?_⟩
      · show m.opening ++ (pairsBytes m.entries ++ m.closing) = _
        rw [hopening, hclosing, List.append_nil, eatPsaMapBytes, eatPsaEntriesBytes_eq, hes]
      · apply eatPsaMapHead_of_wellFormed hwf hm
        rw [hv, ← hes, List.length_map]
      · rw [← List.length_map EatPsaEntry.pair, hes]
        exact hlen
      · intro e he
        have hmem := List.dropLast_subset _ he
        obtain ⟨hl, hi⟩ := hentry e hmem
        have hpair : e.pair ∈ m.entries.dropLast := by
          rw [← hes, ← List.map_dropLast]
          exact List.mem_map_of_mem he
        have hfits := fits_of_mem (List.dropLast_subset _ hpair)
        by_cases hcomp : e.IsComponents
        · apply (eatPsaSkips_iff hi hfits.2).mp
          exact hreads _ hpair ((eatPsaIsComponents_iff hl hfits.1).mpr hcomp)
        · apply htoken.skipped hmem hcomp
    · rw [hclosing] at hbreak
      cases hbreak

/-- The software components stand last. -/
def ComponentsLast (m : EatPsaClaimsMap) : Prop :=
  ∃ p ∈ m.entries.getLast?, eatPsaIsComponents p.1 = true

/-- The generic walker accepts the software components. -/
def ComponentsSkipped (m : EatPsaClaimsMap) : Prop :=
  ∀ p ∈ m.entries, eatPsaIsComponents p.1 = true → eatPsaSkips p.2 = true

omit [EatPsaSettings] [MacSettings] in
theorem componentsSkipped_reorder {m : EatPsaClaimsMap} {entries : List (Bytes × Bytes)}
    (h : m.entries.Perm entries) :
  (m.reorder h).ComponentsSkipped ↔ m.ComponentsSkipped
  := forall_congr' fun _ => imp_congr_left h.symm.mem_iff

/-- Where the rules on claims are followed, the duplicate scan fails on software components only,
and not if they stand last. -/
theorem rereads_iff {m : EatPsaClaimsMap} {token : EatPsaToken} (h : m.Accepts token) :
  m.Rereads ↔ m.ComponentsSkipped ∨ m.ComponentsLast
  := by
  obtain ⟨-, -, es, hes, -, htoken⟩ := h
  constructor
  · intro hreads
    rw [or_iff_not_imp_left, ComponentsSkipped]
    intro hbad
    push Not at hbad
    obtain ⟨p, hp, hcomp, hskip⟩ := hbad
    have hne : m.entries ≠ [] := List.ne_nil_of_mem hp
    have hlast : p = m.entries.getLast hne := by
      rw [← List.dropLast_append_getLast hne] at hp
      rcases List.mem_append.mp hp with hp | hp
      · exact absurd (hreads p hp hcomp) hskip
      · exact List.mem_singleton.mp hp
    refine ⟨p, ?_, hcomp⟩
    rw [List.getLast?_eq_some_getLast hne, hlast]
    rfl
  · rintro (hskip | ⟨last, hlast, hcomp⟩) p hp hpcomp
    · apply hskip p (List.dropLast_subset _ hp) hpcomp
    · exfalso
      have hentry := entry_of_token htoken
      rw [← List.dropLast_append_getLast? last hlast] at hes
      obtain ⟨init, lasts, rfl, hinit, hlasts⟩ := List.map_eq_append_iff.mp hes
      obtain ⟨e, rfl, rfl⟩ := List.map_eq_singleton_iff.mp hlasts
      rw [← hinit] at hp
      obtain ⟨e', he', rfl⟩ := List.mem_map.mp hp
      have components {e : EatPsaEntry} (hmem : e.pair ∈ m.entries) (hl : e.Labelled)
          (hcomp : eatPsaIsComponents e.pair.1 = true) : e.IsComponents :=
        (eatPsaIsComponents_iff hl (fits_of_mem hmem).1).mp hcomp
      apply htoken.components_unique he'
      · apply components _ (hentry e' (List.mem_append_left _ he')).1 hpcomp
        apply List.dropLast_subset
        rwa [← hinit]
      · apply components (List.mem_of_getLast? hlast) (hentry e (by simp)).1 hcomp

end EatPsaClaimsMap

/-- Two decoded payloads have the same outcome: both are refused, or both are the same token. -/
def EatPsaSameOutcome (r r' : Except Err EatPsaToken) : Prop :=
  (∃ token, r = .ok token ∧ r' = .ok token) ∨ (∃ e e', r = .error e ∧ r' = .error e')

omit [Settings] [EatPsaSettings] [MacSettings] in
theorem eatPsaSameOutcome_iff {r r' : Except Err EatPsaToken} :
  EatPsaSameOutcome r r' ↔ ∀ token, r = .ok token ↔ r' = .ok token
  := by
  constructor
  · rintro (⟨token, rfl, rfl⟩ | ⟨e, e', rfl, rfl⟩) token' <;> simp
  · intro h
    cases r with
    | ok token => exact .inl ⟨token, rfl, (h token).mp rfl⟩
    | error e =>
        cases r' with
        | ok token => exact .inl ⟨token, (h token).mpr rfl, rfl⟩
        | error e' => exact .inr ⟨e, e', rfl, rfl⟩

/-- Decoding claims does not depend on the order of the map exactly if the claims break a rule
that holds in any order, or the generic walker accepts the software components, or they stand last
in both orders or in neither. -/
theorem eatPsa_claims_order (m : EatPsaClaimsMap) {entries : List (Bytes × Bytes)} (h : m.entries.Perm entries) :
  EatPsaSameOutcome (eatPsaDecodeClaims (some m.payload)) (eatPsaDecodeClaims (some (m.reorder h).payload))
    ↔ ¬ (∃ token, m.Accepts token) ∨ m.ComponentsSkipped ∨ (m.ComponentsLast ↔ (m.reorder h).ComponentsLast)
  := by
  have haccepts (token : EatPsaToken) : (m.reorder h).Accepts token ↔ m.Accepts token :=
    ⟨fun ha => EatPsaClaimsMap.accepts_reorder (m := m.reorder h) h.symm ha, EatPsaClaimsMap.accepts_reorder h⟩
  simp only [eatPsaSameOutcome_iff, EatPsaClaimsMap.decode_eq_ok, haccepts]
  by_cases hex : ∃ token, m.Accepts token
  · obtain ⟨token, ha⟩ := hex
    have hreads : (∀ token, m.Accepts token ∧ m.Rereads ↔ m.Accepts token ∧ (m.reorder h).Rereads)
        ↔ (m.Rereads ↔ (m.reorder h).Rereads) :=
      ⟨fun hall => by simpa [ha] using hall token, fun hiff token => and_congr_right fun _ => hiff⟩
    rw [hreads, EatPsaClaimsMap.rereads_iff ha, EatPsaClaimsMap.rereads_iff ((haccepts token).mpr ha),
      EatPsaClaimsMap.componentsSkipped_reorder]
    have hnot : ¬ ¬ ∃ token, m.Accepts token := fun hno => hno ⟨token, ha⟩
    tauto
  · have hno (token : EatPsaToken) : ¬ m.Accepts token := fun ha => hex ⟨token, ha⟩
    simp [hno]

end

section Instances

attribute [local instance] defaultSettings defaultMacSettings defaultEatPsaSettings

/-- A zero in arrays of one element each. -/
def nestedZero : Nat → Bytes
  | 0 => preferredHead .uint 0
  | depth + 1 => preferredHead .array 1 ++ nestedZero depth

/-- A software component with a claim under an unknown label, nested seven deep. -/
def nestedComponents : Bytes × Bytes :=
  (preferredHead .uint 2399, preferredHead .array 1 ++ (preferredHead .map 3 ++ pairsBytes
    [(preferredHead .uint 2, stringBytes .bstr (List.replicate 32 0x11)),
      (preferredHead .uint 5, stringBytes .bstr (List.replicate 32 0x22)),
      (preferredHead .uint 99, nestedZero 7)]))

/-- The other claims of a token. -/
def plainClaims : List (Bytes × Bytes) :=
  [(preferredHead .uint 10, stringBytes .bstr (List.replicate 32 0x33)),
    (preferredHead .uint 256, stringBytes .bstr (0x01 :: List.replicate 32 0x44)),
    (preferredHead .uint 265, stringBytes .tstr eatPsaTfmProfile),
    (preferredHead .uint 2394, preferredHead .uint 1),
    (preferredHead .uint 2395, preferredHead .uint 0x3000),
    (preferredHead .uint 2396, stringBytes .bstr (List.replicate 32 0x55))]

/-- The claims map with the nested component first. -/
def nestedClaims : EatPsaClaimsMap where
  opening := preferredHead .map 7
  entries := nestedComponents :: plainClaims
  closing := []
  frame := .inl ⟨rfl, Token.ofHead .map 7, (Token.bytes_ofHead _ _).symm,
    Token.wellFormed_ofHead rfl (by decide), rfl, rfl⟩
  items := by
    have uint {v : Nat} (hv : v < 2 ^ 64) : DataItems 1 (preferredHead .uint v) := by
      rw [← List.append_nil (preferredHead _ _)]
      exact .of_head rfl hv .nil
    have nested (depth : Nat) : DataItems 1 (nestedZero depth) := by
      induction depth with
      | zero => exact uint (by decide)
      | succ depth ih => exact .of_head rfl (by decide) ih
    have components : DataItems 1 nestedComponents.2 := by
      refine .of_head rfl (by decide) (@dataItem_pairsMap [_, _, _] (by decide) ?_)
      simp only [List.forall_mem_cons]
      refine ⟨⟨uint (by decide), .of_string rfl (by decide)⟩, ⟨uint (by decide), .of_string rfl (by decide)⟩,
        ⟨uint (by decide), nested 7⟩, List.forall_mem_nil _⟩
    simp only [plainClaims, List.forall_mem_cons]
    refine ⟨⟨uint (by decide), components⟩, ⟨uint (by decide), .of_string rfl (by decide)⟩,
      ⟨uint (by decide), .of_string rfl (by decide)⟩, ⟨uint (by decide), .of_string rfl (by decide)⟩,
      ⟨uint (by decide), uint (by decide)⟩, ⟨uint (by decide), uint (by decide)⟩,
      ⟨uint (by decide), .of_string rfl (by decide)⟩, List.forall_mem_nil _⟩
  fits := by decide +kernel

theorem nestedClaims_perm :
  nestedClaims.entries.Perm (plainClaims ++ [nestedComponents])
  := (List.perm_append_singleton _ _).symm

theorem eatPsa_claims_order_instance :
  EatPsaSameOutcome (eatPsaDecodeClaims (some nestedClaims.payload))
      (eatPsaDecodeClaims (some (nestedClaims.reorder nestedClaims_perm).payload))
    ↔ ¬ (∃ token, nestedClaims.Accepts token) ∨ nestedClaims.ComponentsSkipped
      ∨ (nestedClaims.ComponentsLast ↔ (nestedClaims.reorder nestedClaims_perm).ComponentsLast)
  := eatPsa_claims_order nestedClaims nestedClaims_perm

/-- With a nested component, the same claims are a token or not, depending on their order. -/
theorem eatPsa_claims_order_differs :
  ¬ ∀ (m : EatPsaClaimsMap) (entries : List (Bytes × Bytes)) (h : m.entries.Perm entries),
    EatPsaSameOutcome (eatPsaDecodeClaims (some m.payload)) (eatPsaDecodeClaims (some (m.reorder h).payload))
  := by
  intro h
  have hfirst : (eatPsaDecodeClaims (some nestedClaims.payload)).isOk = false := by decide +kernel
  have hlast : (eatPsaDecodeClaims (some (nestedClaims.reorder nestedClaims_perm).payload)).isOk = true := by
    decide +kernel
  rcases h nestedClaims _ nestedClaims_perm with ⟨token, hok, -⟩ | ⟨_, e, -, herr⟩
  · rw [hok] at hfirst
    cases hfirst
  · rw [herr] at hlast
    cases hlast

end Instances

end WolfCose
