import WolfCose.Codec.DecodeSpec

/-!
# The labels seen in a header

The state `WOLFCOSE_HDR_STATE` of `wolfcose_hdr.c` records the labels of a header map: a
bit for each label of small magnitude, and two lists for the other integer labels and for
the text labels.  `HdrState.Represents` says that a state records exactly the labels of a
list.
-/

namespace WolfCose

open Program Cbor Settings

/-! ### Header labels -/

/-- `WOLFCOSE_HDR_ALG` -/
def hdrAlg : Int := 1

/-- `WOLFCOSE_HDR_CRIT` -/
def hdrCrit : Int := 2

/-- `WOLFCOSE_HDR_CONTENT_TYPE` -/
def hdrContentType : Int := 3

/-- `WOLFCOSE_HDR_KID` -/
def hdrKid : Int := 4

/-- `WOLFCOSE_HDR_IV` -/
def hdrIv : Int := 5

/-- `WOLFCOSE_HDR_PARTIAL_IV` -/
def hdrPartialIv : Int := 6

/-- `WOLFCOSE_HDR_COUNTERSIGNATURE_LEGACY` -/
def hdrCountersignatureLegacy : Int := 7

/-- `WOLFCOSE_HDR_COUNTERSIGNATURE0_LEGACY` -/
def hdrCountersignature0Legacy : Int := 9

/-- `WOLFCOSE_HDR_COUNTERSIGNATURE_V2` -/
def hdrCountersignatureV2 : Int := 11

/-- `WOLFCOSE_HDR_COUNTERSIGNATURE0_V2` -/
def hdrCountersignature0V2 : Int := 12

/-- `WOLFCOSE_HDR_HPKE_EK` -/
def hdrHpkeEk : Int := -4

/-- `WOLFCOSE_HDR_X5CHAIN` -/
def hdrX5chain : Int := 33

/-! ### The state -/

/-- `wolfCose_LabelBit` -/
def labelBit (label : Int) : UInt32 :=
  if label ≥ 1 ∧ label ≤ 16 then 1 <<< (UInt32.ofNat label.toNat - 1)
  else if label ≤ -1 ∧ label ≥ -16 then 1 <<< (UInt32.ofNat (-label).toNat + 15)
  else 0

/-- The state `WOLFCOSE_HDR_STATE`.  A text label is kept as a pointer to its encoding, the
bytes from there to the end of the buffer. -/
structure HdrState where
  labelBits : UInt32
  extraIntegerLabels : List Int
  extraTextLabels : List Bytes

namespace HdrState

/-- `wolfCose_HdrStateInit` -/
def init : HdrState := ⟨0, [], []⟩

/-- `wolfCose_HdrStateContains` -/
def contains (state : HdrState) (label : Int) : Bool :=
  let bit := labelBit label
  if bit ≠ 0 ∧ state.labelBits &&& bit ≠ 0 then true
  else state.extraIntegerLabels.any (· == label)

section

variable [Settings]

/-- `wolfCose_HdrStateAdd` -/
def add (state : HdrState) (label : Int) : Except Err HdrState :=
  let bit := labelBit label
  if bit ≠ 0 then .ok { state with labelBits := state.labelBits ||| bit }
  else if state.extraIntegerLabels.length ≥ maxMapItems then .error .cborMalformed
  else .ok { state with extraIntegerLabels := state.extraIntegerLabels ++ [label] }

/-- `wolfCose_HdrStateCheckAndAdd` -/
def checkAndAdd (state : HdrState) (label : Int) : Except Err HdrState :=
  if state.contains label then .error .cborMalformed else state.add label

end

end HdrState

/-- The number of bytes of the head that starts with an initial byte, as
`wolfCose_TextLabelEquals` computes it. -/
def textHeadLen (ai : Nat) : Nat :=
  if ai < 24 then 1 else if ai = 24 then 2 else if ai = 25 then 3 else if ai = 26 then 5 else 9

/-- `wolfCose_TextLabelEquals` -/
def textLabelEquals [Settings] (encoded : Bytes) (label : Bytes) : Bool :=
  match encoded with
  | [] => false
  | ib :: args =>
      let ai := additionalInfo ib
      let headLen := textHeadLen ai
      let textLen := if ai < 24 then ai else Bytes.ofBe (args.take (headLen - 1))
      ai ≤ 27 && textLen ≤ sizeMax - headLen && textLen == label.length &&
        (encoded.drop headLen).take label.length == label

namespace HdrState

variable [Settings]

/-- `wolfCose_HdrStateContainsLabel` -/
def containsLabel (state : HdrState) : Label → Bool
  | .int val => state.contains val
  | .text text => textLabels && state.extraTextLabels.any (textLabelEquals · text)

/-- `wolfCose_HdrStateAddLabel` -/
def addLabel (state : HdrState) (label : Label) (encodedLabel : Bytes) : Except Err HdrState :=
  match label with
  | .int val => state.add val
  | .text _ =>
      if textLabels = false then .error .cborMalformed
      else if encodedLabel = [] then .error .invalidArg
      else if state.extraTextLabels.length ≥ maxMapItems then .error .cborMalformed
      else .ok { state with extraTextLabels := state.extraTextLabels ++ [encodedLabel] }

/-- `wolfCose_HdrStateCheckAndAddLabel` -/
def checkAndAddLabel (state : HdrState) (label : Label) (encodedLabel : Bytes) :
    Except Err HdrState :=
  match label with
  | .int val => state.checkAndAdd val
  | .text _ =>
      if state.containsLabel label then .error .cborMalformed
      else state.addLabel label encodedLabel

end HdrState

/-! ### Bits -/

/-- Different labels have different bits. -/
theorem labelBit_and_labelBit (l l' : Int) :
  labelBit l &&& labelBit l' ≠ 0 ↔ labelBit l ≠ 0 ∧ l = l'
  := by
  have small : ∀ n m : Fin 33, labelBit (n.val - 16) &&& labelBit (m.val - 16) ≠ 0
      ↔ labelBit (n.val - 16) ≠ 0 ∧ n = m := by
    decide +kernel
  have large : ∀ k : Int, ¬ (-16 ≤ k ∧ k ≤ 16) → labelBit k = 0 := by
    intro k hk
    unfold labelBit
    rw [if_neg (by omega), if_neg (by omega)]
  by_cases hl : -16 ≤ l ∧ l ≤ 16
  · by_cases hl' : -16 ≤ l' ∧ l' ≤ 16
    · have h := small ⟨(l + 16).toNat, by omega⟩ ⟨(l' + 16).toNat, by omega⟩
      have e : ((l + 16).toNat : Int) - 16 = l := by omega
      have e' : ((l' + 16).toNat : Int) - 16 = l' := by omega
      simp only [e, e', Fin.mk.injEq] at h
      rw [h]
      constructor
      · rintro ⟨h₁, h₂⟩
        exact ⟨h₁, by omega⟩
      · rintro ⟨h₁, rfl⟩
        exact ⟨h₁, rfl⟩
    · rw [large l' hl', UInt32.and_zero]
      constructor
      · exact fun h => absurd rfl h
      · rintro ⟨-, rfl⟩
        exact absurd hl hl'
  · rw [large l hl, UInt32.zero_and]
    simp

/-- The bits of the labels of a list. -/
def labelsBits : List Label → UInt32
  | [] => 0
  | .int l :: ls => labelBit l ||| labelsBits ls
  | .text _ :: ls => labelsBits ls

theorem uint32_or_and_ne_zero (a b c : UInt32) :
  (a ||| b) &&& c ≠ 0 ↔ a &&& c ≠ 0 ∨ b &&& c ≠ 0
  := by
  have distrib : (a ||| b) &&& c = (a &&& c) ||| (b &&& c) := by
    apply UInt32.toBitVec_inj.mp
    ext i
    simp [Bool.and_or_distrib_right]
  rw [distrib, ne_eq, UInt32.or_eq_zero_iff, Decidable.not_and_iff_or_not]

theorem uint32_and_ne_zero_of_subset {a b c : UInt32} (h : a &&& ~~~ b = 0) (hc : a &&& c ≠ 0) :
  b &&& c ≠ 0
  := by
  intro hb
  apply hc
  have split : a &&& c = (a &&& ~~~ b) &&& c ||| a &&& (b &&& c) := by
    apply UInt32.toBitVec_inj.mp
    ext i
    simp only [UInt32.toBitVec_and, UInt32.toBitVec_or, UInt32.toBitVec_not, BitVec.getElem_and,
      BitVec.getElem_or, BitVec.getElem_not]
    cases a.toBitVec[i] <;> cases b.toBitVec[i] <;> simp
  rw [split, h, hb]
  simp

/-- The labels that crit may list have bits. -/
theorem labelBit_ne_zero {l : Int} (h₁ : 1 ≤ l) (h₆ : l ≤ 6) :
  labelBit l ≠ 0
  := by
  have key : ∀ k : Fin 7, k.val ≠ 0 → labelBit k.val ≠ 0 := by decide
  have h := key ⟨l.toNat, by omega⟩ (by simp; omega)
  rwa [show ((l.toNat : Nat) : Int) = l by omega] at h

/-- The bit of a label is among the bits of a list of labels exactly if the label is in the
list. -/
theorem labelsBits_and_labelBit (ls : List Label) (l : Int) :
  labelsBits ls &&& labelBit l ≠ 0 ↔ labelBit l ≠ 0 ∧ .int l ∈ ls
  := by
  induction ls with
  | nil => simp [labelsBits]
  | cons x ls ih =>
      cases x with
      | int k =>
          rw [labelsBits, uint32_or_and_ne_zero, ih, labelBit_and_labelBit, List.mem_cons,
            Label.int.injEq]
          constructor
          · rintro (⟨h, rfl⟩ | ⟨h, hm⟩)
            · exact ⟨h, .inl rfl⟩
            · exact ⟨h, .inr hm⟩
          · rintro ⟨h, rfl | hm⟩
            · exact .inl ⟨h, rfl⟩
            · exact .inr ⟨h, hm⟩
      | text t =>
          rw [labelsBits, ih, List.mem_cons]
          simp

theorem labelsBits_append (ls ls' : List Label) :
  labelsBits (ls ++ ls') = labelsBits ls ||| labelsBits ls'
  := by
  induction ls with
  | nil => simp [labelsBits]
  | cons x ls ih =>
      cases x with
      | int k => rw [List.cons_append, labelsBits, labelsBits, ih, UInt32.or_assoc]
      | text t => rw [List.cons_append, labelsBits, labelsBits, ih]

/-! ### What a state represents -/

section

variable [Settings]

/-- A pointer to the encoding of a text label. -/
def EncodesText (encoded : Bytes) (text : Bytes) : Prop :=
  ∃ t r flags, Accepted flags t ∧ t.major = .tstr ∧ t.data = text ∧ encoded = t.bytes ++ r
    ∧ encoded.length ≤ sizeMax

/-- Comparing a label with an encoded label compares the texts. -/
theorem EncodesText.textLabelEquals_iff {encoded text : Bytes} (h : EncodesText encoded text)
    (label : Bytes) :
  textLabelEquals encoded label = true ↔ text = label
  := by
  obtain ⟨⟨w, m, v, d⟩, r, flags, ht, hm, rfl, rfl, hl⟩ := h
  obtain ⟨hlt, hd⟩ := ht.wellFormed
  simp only at hm hlt hd
  subst hm
  simp only [MajorType.isString, if_true] at hd
  have hai := Width.ai_lt hlt
  have hhead : textHeadLen (w.ai v) = 1 + w.size := by
    cases w with
    | imm => exact if_pos hlt
    | _ => rfl
  have hlen : (if w.ai v < 24 then w.ai v
      else Bytes.ofBe ((Bytes.be w.size v ++ (d ++ r)).take w.size)) = v := by
    have htake : (Bytes.be w.size v ++ (d ++ r)).take w.size = Bytes.be w.size v := by
      rw [List.take_append_of_le_length (by simp), List.take_of_length_le (by simp)]
    cases w with
    | imm => exact if_pos hlt
    | _ =>
        rw [htake, if_neg (by simp [Width.ai])]
        exact Bytes.ofBe_be (by rw [← Width.bound_le_pow (by decide)]; exact hlt)
  have hdrop : (initialByte .tstr (w.ai v) :: (Bytes.be w.size v ++ (d ++ r))).drop (1 + w.size)
      = d ++ r := by
    rw [Nat.add_comm, List.drop_succ_cons]
    rw [List.drop_append_of_le_length (by simp), List.drop_of_length_le (by simp), List.nil_append]
  have hsize : v ≤ sizeMax - (1 + w.size) := by
    rw [List.length_append, Token.length_bytes] at hl
    simp only at hl
    omega
  simp only [Token.bytes, headBytes, List.cons_append, List.append_assoc, textLabelEquals,
    additionalInfo_initialByte .tstr (Nat.lt_trans hai (by decide)), hhead, Nat.add_sub_cancel_left,
    hlen, hdrop, Bool.and_eq_true, decide_eq_true_eq, beq_iff_eq]
  constructor
  · rintro ⟨⟨-, rfl⟩, htake⟩
    rw [← hd, List.take_left] at htake
    exact htake
  · rintro rfl
    exact ⟨⟨⟨by omega, hsize⟩, hd.symm⟩, List.take_left⟩

/-- Text labels are supported by some builds only. -/
def LabelEnabled (label : Label) : Prop :=
  ∀ text, label = .text text → textLabels = true

/-- The encoding of a label stands at a pointer.  Only the encodings of text labels are
kept. -/
def EncodesLabel (encoded : Bytes) (label : Label) : Prop :=
  ∀ text, label = .text text → EncodesText encoded text

namespace HdrState

/-- The state with a label that it does not record yet. -/
def push (state : HdrState) (label : Label) (encodedLabel : Bytes) : HdrState :=
  match label with
  | .int val =>
      if labelBit val ≠ 0 then { state with labelBits := state.labelBits ||| labelBit val }
      else { state with extraIntegerLabels := state.extraIntegerLabels ++ [val] }
  | .text _ => { state with extraTextLabels := state.extraTextLabels ++ [encodedLabel] }

/-- The state records exactly the labels of a list. -/
structure Represents [Settings] (state : HdrState) (labels : List Label) : Prop where
  bits : state.labelBits = labelsBits labels
  integers : ∀ v, v ∈ state.extraIntegerLabels ↔ labelBit v = 0 ∧ .int v ∈ labels
  integers_length : state.extraIntegerLabels.length ≤ labels.length
  enabled : ∀ l ∈ labels, LabelEnabled l
  texts : ∀ e ∈ state.extraTextLabels, ∃ s, EncodesText e s ∧ .text s ∈ labels
  texts_complete : ∀ s, .text s ∈ labels → ∃ e ∈ state.extraTextLabels, EncodesText e s
  texts_length : state.extraTextLabels.length ≤ labels.length

theorem represents_init :
  Represents init []
  where
  bits := rfl
  integers := by simp [init]
  integers_length := Nat.le_refl 0
  enabled := List.forall_mem_nil _
  texts := List.forall_mem_nil _
  texts_complete := by rintro _ ⟨⟩
  texts_length := Nat.le_refl 0

namespace Represents

variable {state : HdrState} {labels : List Label}

theorem contains_iff (h : Represents state labels) (l : Int) :
  state.contains l = true ↔ .int l ∈ labels
  := by
  have hbit := labelsBits_and_labelBit labels l
  have hint := h.integers l
  unfold contains
  rw [h.bits]
  dsimp only
  by_cases hb : labelBit l = 0
  · rw [if_neg (fun h => h.1 hb), List.any_eq_true]
    constructor
    · rintro ⟨x, hx, he⟩
      rw [beq_iff_eq.mp he] at hx
      exact (hint.mp hx).2
    · exact fun hm => ⟨l, hint.mpr ⟨hb, hm⟩, beq_self_eq_true l⟩
  · by_cases hm : Label.int l ∈ labels
    · rw [if_pos ⟨hb, hbit.mpr ⟨hb, hm⟩⟩]
      simp [hm]
    · rw [if_neg (fun h => hm (hbit.mp h.2).2), List.any_eq_true]
      constructor
      · rintro ⟨x, hx, he⟩
        rw [beq_iff_eq.mp he] at hx
        exact absurd (hint.mp hx).1 hb
      · exact fun h => absurd h hm

/-- A state contains the labels it represents. -/
theorem containsLabel_iff (h : Represents state labels) (l : Label) :
  state.containsLabel l = true ↔ l ∈ labels
  := by
  cases l with
  | int v => exact h.contains_iff v
  | text s =>
      simp only [containsLabel, Bool.and_eq_true, List.any_eq_true]
      constructor
      · rintro ⟨-, e, he, heq⟩
        obtain ⟨s', hs', hm⟩ := h.texts e he
        rw [(hs'.textLabelEquals_iff s).mp heq] at hm
        exact hm
      · intro hm
        obtain ⟨e, he, hs⟩ := h.texts_complete s hm
        exact ⟨h.enabled _ hm s rfl, e, he, (hs.textLabelEquals_iff s).mpr rfl⟩

theorem push (h : Represents state labels) {l : Label} {encoded : Bytes}
    (hl : LabelEnabled l) (he : EncodesLabel encoded l) :
  Represents (state.push l encoded) (labels ++ [l])
  := by
  have enabled : ∀ x ∈ labels ++ [l], LabelEnabled x := by
    intro x hx
    rcases List.mem_append.mp hx with hx | hx
    · exact h.enabled x hx
    · rw [List.mem_singleton.mp hx]
      exact hl
  have hlen : (labels ++ [l]).length = labels.length + 1 := List.length_append
  have hint := h.integers_length
  have htext := h.texts_length
  have old : ∀ e ∈ state.extraTextLabels, ∃ s, EncodesText e s ∧ .text s ∈ labels ++ [l] := by
    intro e hm
    obtain ⟨s, hs, hm⟩ := h.texts e hm
    exact ⟨s, hs, List.mem_append_left _ hm⟩
  cases l with
  | int v =>
      have complete : ∀ s, .text s ∈ labels ++ [.int v] →
          ∃ e ∈ state.extraTextLabels, EncodesText e s := by
        intro s hm
        exact h.texts_complete s (by simpa using hm)
      by_cases hb : labelBit v = 0
      · rw [HdrState.push, if_neg (not_not.mpr hb)]
        exact {
          bits := by
            rw [labelsBits_append, h.bits]
            simp [labelsBits, hb]
          integers := by
            intro x
            rw [List.mem_append, List.mem_singleton, h.integers x, List.mem_append,
              List.mem_singleton, Label.int.injEq]
            constructor
            · rintro (⟨h₁, h₂⟩ | rfl)
              · exact ⟨h₁, .inl h₂⟩
              · exact ⟨hb, .inr rfl⟩
            · rintro ⟨h₁, h₂ | rfl⟩
              · exact .inl ⟨h₁, h₂⟩
              · exact .inr rfl
          integers_length := by
            rw [hlen, List.length_append]
            exact Nat.succ_le_succ hint
          enabled := enabled
          texts := old
          texts_complete := complete
          texts_length := by
            rw [hlen]
            exact Nat.le_succ_of_le htext }
      · rw [HdrState.push, if_pos hb]
        exact {
          bits := by
            rw [labelsBits_append, h.bits]
            simp [labelsBits]
          integers := by
            intro x
            rw [h.integers x, List.mem_append, List.mem_singleton, Label.int.injEq]
            constructor
            · exact fun ⟨h₁, h₂⟩ => ⟨h₁, .inl h₂⟩
            · rintro ⟨h₁, h₂ | rfl⟩
              · exact ⟨h₁, h₂⟩
              · exact absurd h₁ hb
          integers_length := by
            rw [hlen]
            exact Nat.le_succ_of_le hint
          enabled := enabled
          texts := old
          texts_complete := complete
          texts_length := by
            rw [hlen]
            exact Nat.le_succ_of_le htext }
  | text s =>
      exact {
        bits := by
          rw [labelsBits_append, HdrState.push, h.bits]
          simp [labelsBits]
        integers := by
          intro x
          rw [HdrState.push, h.integers x, List.mem_append, List.mem_singleton]
          simp
        integers_length := by
          rw [hlen]
          exact Nat.le_succ_of_le hint
        enabled := enabled
        texts := by
          intro e hm
          rw [HdrState.push, List.mem_append, List.mem_singleton] at hm
          rcases hm with hm | rfl
          · exact old e hm
          · exact ⟨s, he s rfl, List.mem_append_right _ List.mem_cons_self⟩
        texts_complete := by
          intro s' hm
          rw [List.mem_append, List.mem_singleton, Label.text.injEq] at hm
          rw [HdrState.push]
          rcases hm with hm | rfl
          · obtain ⟨e, hm, hs⟩ := h.texts_complete s' hm
            exact ⟨e, List.mem_append_left _ hm, hs⟩
          · exact ⟨encoded, List.mem_append_right _ List.mem_cons_self, he _ rfl⟩
        texts_length := by
          rw [hlen, HdrState.push, List.length_append]
          exact Nat.succ_le_succ htext }

/-- A label is added to a state that records fewer labels than a map may have. -/
theorem addLabel_eq_ok (h : Represents state labels) {l : Label} {encoded : Bytes}
    (hn : labels.length < maxMapItems) (he : EncodesLabel encoded l) {state' : HdrState} :
  state.addLabel l encoded = .ok state' ↔ LabelEnabled l ∧ state' = state.push l encoded
  := by
  have hint := h.integers_length
  have htext := h.texts_length
  cases l with
  | int v =>
      have hl : LabelEnabled (.int v) := by rintro _ ⟨⟩
      rw [addLabel, add, HdrState.push]
      split
      · simp [hl, eq_comm]
      · rw [if_neg (by omega)]
        simp [hl, eq_comm]
  | text s =>
      have hne : encoded ≠ [] := by
        obtain ⟨t, r, _, _, _, _, rfl, _⟩ := he s rfl
        simp [t.bytes_ne_nil]
      have hl : LabelEnabled (.text s) ↔ textLabels = true :=
        ⟨fun h => h s rfl, fun h _ _ => h⟩
      rw [hl, addLabel, HdrState.push]
      cases textLabels with
      | false => simp
      | true =>
          rw [if_neg (by simp), if_neg hne, if_neg (by omega), Except.ok.injEq]
          simp [eq_comm]

/-- A label is added once. -/
theorem checkAndAddLabel_eq_ok (h : Represents state labels) {l : Label} {encoded : Bytes}
    (hn : labels.length < maxMapItems) (he : EncodesLabel encoded l) {state' : HdrState} :
  state.checkAndAddLabel l encoded = .ok state'
    ↔ l ∉ labels ∧ LabelEnabled l ∧ state' = state.push l encoded
  := by
  have hadd : state.addLabel l encoded = .ok state' ↔ _ := h.addLabel_eq_ok hn he
  have hc := h.containsLabel_iff l
  cases l with
  | int v =>
      rw [checkAndAddLabel, checkAndAdd]
      rw [containsLabel] at hc
      rw [addLabel] at hadd
      by_cases hm : Label.int v ∈ labels
      · simp [hc.mpr hm, hm]
      · rw [if_neg (fun h => hm (hc.mp h)), hadd]
        simp [hm]
  | text s =>
      rw [checkAndAddLabel]
      by_cases hm : Label.text s ∈ labels
      · simp [hc.mpr hm, hm]
      · rw [if_neg (fun h => hm (hc.mp h)), hadd]
        simp [hm]

end Represents

end HdrState

end

end WolfCose
