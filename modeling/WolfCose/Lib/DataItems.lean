import WolfCose.Lib.Items

/-!
# Data items of any form

The well-formed data items of CBOR, nested as deep as may be, of definite or indefinite length
and with heads of any width.  A sequence of them is its own end: no sequence of as many items is
a proper prefix of another.
-/

namespace Cbor

/-- The byte that ends an item of indefinite length. -/
def breakByte : UInt8 := initialByte .simple 31

/-- The number of data items that belong to a token. -/
def Token.nested (t : Token) : Nat := if t.major = .tag then 1 else t.children

/-- What stands in an item of indefinite length, as `k` items `cs`: the chunks of a string, the
elements of an array, or the entries of a map. -/
def IndefiniteContent (m : MajorType) (k : Nat) (cs : Bytes) : Prop :=
  m = .array ∨ (m = .map ∧ 2 ∣ k) ∨
    (m.isString = true ∧ ∃ ts : List Token, cs = ts.flatMap Token.bytes ∧ ∀ t ∈ ts, t.major = m)

/-- Sequences of `n` well-formed data items. -/
inductive DataItems : Nat → Bytes → Prop where
  | nil : DataItems 0 []
  | definite {n : Nat} {t : Token} {cs bs : Bytes} :
      t.WellFormed → DataItems t.nested cs → DataItems n bs → DataItems (n + 1) (t.bytes ++ (cs ++ bs))
  | indefinite {n k : Nat} {m : MajorType} {cs bs : Bytes} :
      IndefiniteContent m k cs → DataItems k cs → DataItems n bs →
      DataItems (n + 1) (initialByte m 31 :: (cs ++ (breakByte :: bs)))

namespace DataItems

variable {n m : Nat} {a b r r' : Bytes}

theorem eq_nil (h : DataItems 0 a) :
  a = []
  := by
  cases h with
  | nil => rfl

theorem append (ha : DataItems n a) (hb : DataItems m b) :
  DataItems (n + m) (a ++ b)
  := by
  induction ha with
  | nil => simpa using hb
  | definite ht hcs _ _ ih =>
      rw [List.append_assoc, List.append_assoc, Nat.add_right_comm]
      apply definite ht hcs ih
  | indefinite hcontent hcs _ _ ih =>
      rw [List.cons_append, List.append_assoc, List.cons_append, Nat.add_right_comm]
      apply indefinite hcontent hcs ih

/-- A token with the items that belong to it is an item. -/
theorem of_token {t : Token} {cs : Bytes} (ht : t.WellFormed) (hcs : DataItems t.nested cs) :
  DataItems 1 (t.bytes ++ cs)
  := by
  rw [← List.append_nil cs]
  apply definite ht hcs .nil

theorem of_head {major : MajorType} {v : Nat} {cs : Bytes} (hm : major.isString = false) (hv : v < 2 ^ 64)
    (hcs : DataItems (Token.ofHead major v).nested cs) :
  DataItems 1 (preferredHead major v ++ cs)
  := by
  rw [← Token.bytes_ofHead]
  apply of_token (Token.wellFormed_ofHead hm hv) hcs

theorem of_string {major : MajorType} {data : Bytes} (hm : major.isString = true) (hl : data.length < 2 ^ 64) :
  DataItems 1 (stringBytes major data)
  := by
  rw [← Token.bytes_ofString, ← List.append_nil (Token.bytes _)]
  apply of_token (Token.wellFormed_ofString hm hl)
  cases major <;> first | exact nil | cases hm

/-- A sequence of items is its first item and the others. -/
theorem uncons (h : DataItems (n + 1) a) :
  ∃ x y, a = x ++ y ∧ DataItems 1 x ∧ DataItems n y
  := by
  cases h with
  | @definite _ t cs bs ht hcs hbs =>
      refine ⟨t.bytes ++ (cs ++ []), bs, ?_, .definite ht hcs .nil, hbs⟩
      simp
  | @indefinite _ k m cs bs hcontent hcs hbs =>
      refine ⟨initialByte m 31 :: (cs ++ (breakByte :: [])), bs, ?_, .indefinite hcontent hcs .nil, hbs⟩
      simp

/-- Items of definite length and bounded depth are data items. -/
theorem of_items {P : Token → Prop} (hP : ∀ t, P t → t.WellFormed) {d : Nat} (h : Items P d n a) :
  DataItems n a
  := by
  induction h with
  | nil d => apply nil
  | @leaf d n t bs ht hm hc _ ih =>
      have hnested : DataItems t.nested [] := by
        rw [Token.nested, if_neg hm, hc]
        apply nil
      exact definite (hP t ht) hnested ih
  | @tag d n t bs ht hm hb ih =>
      obtain ⟨x, y, rfl, hx, hy⟩ := ih.uncons
      apply definite (hP t ht) _ hy
      rwa [Token.nested, if_pos hm]
  | @container d n t cs bs ht hc _ _ ihcs ihbs =>
      apply definite (hP t ht) _ ihbs
      rwa [Token.nested, if_neg (Token.ne_tag_of_children hc)]

/-- The first byte of a token is not that of an item of indefinite length. -/
theorem headByte_ne {t : Token} (ht : t.WellFormed) {major : MajorType} {x : Bytes}
    (e : t.bytes ++ x = initialByte major 31 :: r) :
  False
  := by
  rw [Token.bytes, headBytes, List.cons_append, List.cons_append] at e
  have hai := Width.ai_lt ht.val_lt
  have := (initialByte_injective (by omega) (by omega) (List.cons.inj e).1).2
  omega

theorem not_isSimple {k : Nat} {major : MajorType} {cs : Bytes} (h : IndefiniteContent major k cs) :
  major ≠ .simple
  := by
  rintro rfl
  rcases h with h | ⟨h, -⟩ | ⟨h, -⟩ <;> cases h

/-- An item does not start with the byte that ends an item of indefinite length. -/
theorem ne_break (h : DataItems (n + 1) a) :
  a ++ r ≠ breakByte :: r'
  := by
  intro e
  cases h with
  | definite ht =>
      rw [List.append_assoc] at e
      apply headByte_ne ht e
  | indefinite hcontent =>
      apply not_isSimple hcontent
      exact (initialByte_injective (by omega) (by omega) (List.cons.inj e).1).1

/-- A shorter sequence of items is the start of a longer one. -/
theorem exists_rest (ha : DataItems n a) (hb : DataItems m b) (hnm : n ≤ m) (e : a ++ r = b ++ r') :
  ∃ c, b = a ++ c ∧ DataItems (m - n) c
  := by
  induction hL : a.length + b.length using Nat.strong_induction_on generalizing n m a b r r' with
  | _ L ih =>
  cases ha with
  | nil => exact ⟨b, rfl, hb⟩
  | @definite n t cs as ht hcs has =>
      cases hb with
      | nil => omega
      | @definite m t' cs' bs ht' hcs' hbs =>
          simp only [List.append_assoc] at e
          have hpos := t.one_le_length_bytes
          simp only [List.length_append] at hL
          obtain ⟨rfl, e₁⟩ := Token.bytes_append_cancel ht ht' e
          obtain ⟨c, rfl, hc⟩ := ih _ (by omega) hcs hcs' (Nat.le_refl _) e₁ rfl
          rw [Nat.sub_self] at hc
          obtain rfl := hc.eq_nil
          rw [List.append_nil, List.append_cancel_left_eq] at e₁
          obtain ⟨c, rfl, hc⟩ := ih _ (by omega) has hbs (Nat.le_of_succ_le_succ hnm) e₁ rfl
          refine ⟨c, by simp, ?_⟩
          rwa [Nat.add_sub_add_right]
      | indefinite =>
          rw [List.append_assoc] at e
          exact (headByte_ne ht e).elim
  | @indefinite n k major cs as hcontent hcs has =>
      cases hb with
      | nil => omega
      | definite ht' =>
          rw [List.append_assoc] at e
          exact (headByte_ne ht' e.symm).elim
      | @indefinite m k' major' cs' bs hcontent' hcs' hbs =>
          simp only [List.cons_append, List.append_assoc] at e
          simp only [List.length_cons, List.length_append] at hL
          obtain ⟨hbyte, e₁⟩ := List.cons.inj e
          obtain ⟨rfl, -⟩ := initialByte_injective (by omega) (by omega) hbyte
          obtain rfl : cs = cs' := by
            rcases Nat.le_total k k' with hk | hk
            · obtain ⟨c, rfl, hc⟩ := ih _ (by omega) hcs hcs' hk e₁ rfl
              rw [List.append_assoc, List.append_cancel_left_eq] at e₁
              cases hd : k' - k with
              | zero =>
                  rw [hd] at hc
                  rw [hc.eq_nil, List.append_nil]
              | succ d =>
                  rw [hd] at hc
                  exact (hc.ne_break e₁.symm).elim
            · obtain ⟨c, rfl, hc⟩ := ih _ (by omega) hcs' hcs hk e₁.symm rfl
              rw [List.append_assoc, List.append_cancel_left_eq] at e₁
              cases hd : k - k' with
              | zero =>
                  rw [hd] at hc
                  rw [hc.eq_nil, List.append_nil]
              | succ d =>
                  rw [hd] at hc
                  exact (hc.ne_break e₁).elim
          rw [List.append_cancel_left_eq] at e₁
          obtain ⟨-, e₂⟩ := List.cons.inj e₁
          obtain ⟨c, rfl, hc⟩ := ih _ (by omega) has hbs (Nat.le_of_succ_le_succ hnm) e₂ rfl
          refine ⟨c, by simp, ?_⟩
          rwa [Nat.add_sub_add_right]

/-- Two sequences of as many items with the same start are the same. -/
theorem append_cancel (ha : DataItems n a) (hb : DataItems n b) (e : a ++ r = b ++ r') :
  a = b ∧ r = r'
  := by
  obtain ⟨c, rfl, hc⟩ := exists_rest ha hb (Nat.le_refl n) e
  rw [Nat.sub_self] at hc
  obtain rfl := hc.eq_nil
  simpa using e

end DataItems

end Cbor
