import WolfCose.Lib.Items

/-!
# Data items with other heads

The argument of a head may be carried in more bytes than it needs.  Two encodings that differ in nothing but
that have the same tokens, one after the other, up to the widths of their arguments.
-/

namespace Cbor

/-- Two tokens have the same argument.  The width of a simple value is part of its meaning, as it tells a value
from the bits of a floating-point number. -/
structure Token.SameArgument (t t' : Token) : Prop where
  wellFormed : t.WellFormed
  wellFormed' : t'.WellFormed
  major : t'.major = t.major
  val : t'.val = t.val
  data : t'.data = t.data
  simple : t.major = .simple → t'.width = t.width

namespace Token.SameArgument

variable {t t' : Token}

theorem refl (h : t.WellFormed) :
  t.SameArgument t
  := ⟨h, h, rfl, rfl, rfl, fun _ => rfl⟩

theorem symm (h : t.SameArgument t') :
  t'.SameArgument t
  := ⟨h.wellFormed', h.wellFormed, h.major.symm, h.val.symm, h.data.symm,
    fun hs => (h.simple (h.major.symm.trans hs)).symm⟩

theorem children (h : t.SameArgument t') :
  t'.children = t.children
  := by
  unfold Token.children
  rw [h.major, h.val]

end Token.SameArgument

instance (t : Token) : Decidable t.WellFormed :=
  decidable_of_iff (t.val < t.width.bound ∧ t.data.length = if t.major.isString then t.val else 0)
    ⟨fun h => ⟨h.1, h.2⟩, fun h => ⟨h.1, h.2⟩⟩

instance (t t' : Token) : Decidable (t.SameArgument t') :=
  decidable_of_iff (t.WellFormed ∧ t'.WellFormed ∧ t'.major = t.major ∧ t'.val = t.val ∧ t'.data = t.data
      ∧ (t.major = .simple → t'.width = t.width))
    ⟨fun h => ⟨h.1, h.2.1, h.2.2.1, h.2.2.2.1, h.2.2.2.2.1, h.2.2.2.2.2⟩,
      fun h => ⟨h.wellFormed, h.wellFormed', h.major, h.val, h.data, h.simple⟩⟩

/-- The second byte string has the tokens of the first one, with the same arguments. -/
inductive Rewidth : Bytes → Bytes → Prop where
  | nil : Rewidth [] []
  | token {t t' : Token} {a b : Bytes} : t.SameArgument t' → Rewidth a b → Rewidth (t.bytes ++ a) (t'.bytes ++ b)

namespace Rewidth

variable {a b c d : Bytes} {t : Token}

theorem symm (h : Rewidth a b) :
  Rewidth b a
  := by
  induction h with
  | nil => exact nil
  | token ht _ ih => exact token ht.symm ih

theorem append (h : Rewidth a b) (h' : Rewidth c d) :
  Rewidth (a ++ c) (b ++ d)
  := by
  induction h with
  | nil => exact h'
  | token ht _ ih =>
      rw [List.append_assoc, List.append_assoc]
      exact token ht ih

theorem of_token {t' : Token} (h : t.SameArgument t') :
  Rewidth t.bytes t'.bytes
  := by
  rw [← List.append_nil t.bytes, ← List.append_nil t'.bytes]
  exact token h nil

theorem of_tokens {ts ts' : List Token} (h : List.Forall₂ Token.SameArgument ts ts') :
  Rewidth (ts.flatMap Token.bytes) (ts'.flatMap Token.bytes)
  := by
  induction h with
  | nil => exact nil
  | cons ht _ ih => exact token ht ih

/-- The first token is the only one that the bytes start with. -/
theorem split (ht : t.WellFormed) (h : Rewidth (t.bytes ++ a) b) :
  ∃ t' c, b = t'.bytes ++ c ∧ t.SameArgument t' ∧ Rewidth a c
  := by
  generalize hbytes : t.bytes ++ a = whole at h
  cases h with
  | nil => exact absurd (List.append_eq_nil_iff.mp hbytes).1 t.bytes_ne_nil
  | token hsame hrest =>
      obtain ⟨rfl, rfl⟩ := Token.bytes_append_cancel ht hsame.wellFormed hbytes
      exact ⟨_, _, rfl, hsame, hrest⟩

end Rewidth

/-! ### What does not depend on the widths -/

/-- What starts with bytes of a kind still does with other widths. -/
def Survives (R : Bytes → Prop) : Prop :=
  ∀ ⦃a r b : Bytes⦄, R a → Rewidth (a ++ r) b → ∃ a' r', b = a' ++ r' ∧ R a' ∧ Rewidth a a' ∧ Rewidth r r'

namespace Survives

variable {R S : Bytes → Prop}

/-- Bytes of a kind are of this kind with other widths. -/
theorem whole (h : Survives R) {a b : Bytes} (ha : R a) (hab : Rewidth a b) :
  R b
  := by
  rw [← List.append_nil a] at hab
  obtain ⟨a', r', rfl, ha', -, hnil⟩ := h ha hab
  generalize hr : ([] : Bytes) = r at hnil
  cases hnil with
  | nil =>
      rw [List.append_nil]
      exact ha'
  | token => exact absurd (List.append_eq_nil_iff.mp hr.symm).1 (Token.bytes_ne_nil _)

theorem nil :
  Survives (fun bs => bs = [])
  := by
  rintro _ r b rfl h
  exact ⟨[], b, rfl, rfl, .nil, h⟩

theorem append (hR : Survives R) (hS : Survives S) :
  Survives (fun bs => ∃ a b, bs = a ++ b ∧ R a ∧ S b)
  := by
  rintro _ r b ⟨a₁, a₂, rfl, h₁, h₂⟩ h
  rw [List.append_assoc] at h
  obtain ⟨b₁, s, rfl, hb₁, hw₁, h⟩ := hR h₁ h
  obtain ⟨b₂, r', rfl, hb₂, hw₂, h⟩ := hS h₂ h
  exact ⟨b₁ ++ b₂, r', (List.append_assoc _ _ _).symm, ⟨b₁, b₂, rfl, hb₁, hb₂⟩, hw₁.append hw₂, h⟩

theorem or (hR : Survives R) (hS : Survives S) :
  Survives (fun bs => R bs ∨ S bs)
  := by
  intro a r b ha h
  obtain hRa | hSa := ha
  · obtain ⟨a', r', hb, hR', hw⟩ := hR hRa h
    exact ⟨a', r', hb, .inl hR', hw⟩
  · obtain ⟨a', r', hb, hS', hw⟩ := hS hSa h
    exact ⟨a', r', hb, .inr hS', hw⟩

theorem and (hR : Survives R) (p : Prop) :
  Survives (fun bs => R bs ∧ p)
  := by
  intro a r b ha h
  obtain ⟨a', r', hb, hR', hw⟩ := hR ha.1 h
  exact ⟨a', r', hb, ⟨hR', ha.2⟩, hw⟩

theorem witnessed {α : Sort*} {R : α → Bytes → Prop} (hR : ∀ x, Survives (R x)) :
  Survives (fun bs => ∃ x, R x bs)
  := by
  intro a r b ha h
  obtain ⟨x, hx⟩ := ha
  obtain ⟨a', r', hb, hR', hw⟩ := hR x hx h
  exact ⟨a', r', hb, ⟨x, hR'⟩, hw⟩

/-- A token of a kind that its argument decides. -/
theorem token {Q : Token → Prop} (wf : ∀ t, Q t → t.WellFormed) (hQ : ∀ t t', t.SameArgument t' → Q t → Q t') :
  Survives (fun bs => ∃ t, Q t ∧ bs = t.bytes)
  := by
  rintro _ r b ⟨t, ht, rfl⟩ h
  obtain ⟨t', r', rfl, hsame, hr⟩ := h.split (wf t ht)
  exact ⟨t'.bytes, r', rfl, ⟨t', hQ t t' hsame ht, rfl⟩, .of_token hsame, hr⟩

/-- A simple value has no other width. -/
theorem simple {t : Token} (wf : t.WellFormed) (ht : t.major = .simple) :
  Survives (fun bs => bs = t.bytes)
  := by
  rintro _ r b rfl h
  obtain ⟨t', r', rfl, hsame, hr⟩ := h.split wf
  have heq : t'.bytes = t.bytes := by
    unfold Token.bytes
    rw [hsame.simple ht, hsame.major, hsame.val, hsame.data]
  exact ⟨t'.bytes, r', rfl, heq, .of_token hsame, hr⟩

/-- Data items of tokens of a kind that their arguments decide. -/
theorem items {P : Token → Prop} (wf : ∀ t, P t → t.WellFormed) (hP : ∀ t t', t.SameArgument t' → P t → P t')
    (d n : Nat) :
  Survives (Items P d n)
  := by
  intro a r b ha h
  induction ha generalizing r b with
  | nil d => exact ⟨[], b, rfl, .nil d, .nil, h⟩
  | leaf hPt hm hc _ ih =>
      rw [List.append_assoc] at h
      obtain ⟨t', c, rfl, hsame, h⟩ := h.split (wf _ hPt)
      obtain ⟨a', r', rfl, hitems, hw, h⟩ := ih h
      refine ⟨t'.bytes ++ a', r', (List.append_assoc _ _ _).symm, ?_, .token hsame hw, h⟩
      apply Items.leaf (hP _ _ hsame hPt)
      · rwa [hsame.major]
      · rwa [hsame.children]
      · exact hitems
  | tag hPt hm _ ih =>
      rw [List.append_assoc] at h
      obtain ⟨t', c, rfl, hsame, h⟩ := h.split (wf _ hPt)
      obtain ⟨a', r', rfl, hitems, hw, h⟩ := ih h
      refine ⟨t'.bytes ++ a', r', (List.append_assoc _ _ _).symm, ?_, .token hsame hw, h⟩
      exact Items.tag (hP _ _ hsame hPt) (hsame.major.trans hm) hitems
  | container hPt hc _ _ ihc ih =>
      rw [List.append_assoc, List.append_assoc] at h
      obtain ⟨t', c, rfl, hsame, h⟩ := h.split (wf _ hPt)
      obtain ⟨a₁, r₁, rfl, hitems₁, hw₁, h⟩ := ihc h
      obtain ⟨a₂, r₂, rfl, hitems₂, hw₂, h⟩ := ih h
      refine ⟨t'.bytes ++ (a₁ ++ a₂), r₂, by simp only [List.append_assoc], ?_, .token hsame (hw₁.append hw₂), h⟩
      apply Items.container (hP _ _ hsame hPt)
      · rwa [hsame.children]
      · rwa [hsame.children]
      · exact hitems₂

end Survives

end Cbor
