import WolfCose.Codec.Decode
import WolfCose.Lib.Reads

/-!
# Text strings

The check of `wolfCose_CBOR_IsUtf8` accepts exactly the encodings of sequences of Unicode scalar
values, which the characters of Lean are.
-/

namespace WolfCose

open Program

/-- A byte string is the UTF-8 encoding of a sequence of characters. -/
def Utf8 (bs : Bytes) : Prop :=
  ∃ cs : List Char, bs = cs.flatMap String.utf8EncodeChar

/-! ### One character -/

theorem isContinuation_iff {b : UInt8} :
  isContinuation b = true ↔ 0x80 ≤ b.toNat ∧ b.toNat < 0xC0
  := by
  have key : ∀ n : Fin 256, isContinuation (UInt8.ofNat n.val) = true ↔ 0x80 ≤ n.val ∧ n.val < 0xC0 := by
    decide +kernel
  have h := key ⟨b.toNat, b.toNat_lt⟩
  rwa [UInt8.ofNat_toNat] at h

/-- The code point of a character that is given by its code point. -/
theorem val_ofNat {v : Nat} (h : v.isValidChar) :
  (Char.ofNat v).val.toNat = v
  := by
  rw [Char.ofNat, dif_pos h]
  rfl

namespace Utf8

variable {b₀ b₁ b₂ b₃ : UInt8} {t : Bytes}

theorem nil :
  Utf8 []
  := ⟨[], rfl⟩

theorem cons (c : Char) (h : Utf8 t) :
  Utf8 (String.utf8EncodeChar c ++ t)
  := by
  obtain ⟨cs, rfl⟩ := h
  exact ⟨c :: cs, rfl⟩

theorem one (h₀ : b₀.toNat ≤ 0x7F) (h : Utf8 t) :
  Utf8 (b₀ :: t)
  := by
  have hv : b₀.toNat.isValidChar := .inl (by omega)
  have he : String.utf8EncodeChar (Char.ofNat b₀.toNat) = [b₀] := by
    rw [String.utf8EncodeChar, val_ofNat hv, if_pos h₀, UInt8.ofNat_toNat]
  have hc := cons (Char.ofNat b₀.toNat) h
  rwa [he] at hc

theorem two (h₀ : 0xC2 ≤ b₀.toNat ∧ b₀.toNat ≤ 0xDF) (h₁ : 0x80 ≤ b₁.toNat ∧ b₁.toNat < 0xC0) (h : Utf8 t) :
  Utf8 (b₀ :: b₁ :: t)
  := by
  obtain ⟨v, hv⟩ : ∃ v, v = (b₀.toNat - 0xC0) * 64 + (b₁.toNat - 0x80) := ⟨_, rfl⟩
  have hvalid : v.isValidChar := .inl (by omega)
  have he : String.utf8EncodeChar (Char.ofNat v) = [b₀, b₁] := by
    have e₀ : v / 64 % 0x20 + 0xC0 = b₀.toNat := by omega
    have e₁ : v % 0x40 + 0x80 = b₁.toNat := by omega
    rw [String.utf8EncodeChar, val_ofNat hvalid, if_neg (by omega), if_pos (by omega), e₀, e₁]
    simp only [UInt8.ofNat_toNat]
  have hc := cons (Char.ofNat v) h
  rwa [he] at hc

theorem three (h₀ : 0xE0 ≤ b₀.toNat ∧ b₀.toNat ≤ 0xEF) (h₁ : 0x80 ≤ b₁.toNat ∧ b₁.toNat < 0xC0)
    (h₂ : 0x80 ≤ b₂.toNat ∧ b₂.toNat < 0xC0) (hlow : b₀.toNat = 0xE0 → 0xA0 ≤ b₁.toNat)
    (hhigh : b₀.toNat = 0xED → b₁.toNat < 0xA0) (h : Utf8 t) :
  Utf8 (b₀ :: b₁ :: b₂ :: t)
  := by
  obtain ⟨v, hv⟩ : ∃ v, v = (b₀.toNat - 0xE0) * 4096 + (b₁.toNat - 0x80) * 64 + (b₂.toNat - 0x80) := ⟨_, rfl⟩
  have hvalid : v.isValidChar := by
    unfold Nat.isValidChar
    omega
  have he : String.utf8EncodeChar (Char.ofNat v) = [b₀, b₁, b₂] := by
    have e₀ : v / 4096 % 0x10 + 0xE0 = b₀.toNat := by omega
    have e₁ : v / 64 % 0x40 + 0x80 = b₁.toNat := by omega
    have e₂ : v % 0x40 + 0x80 = b₂.toNat := by omega
    rw [String.utf8EncodeChar, val_ofNat hvalid, if_neg (by omega), if_neg (by omega), if_pos (by omega), e₀, e₁, e₂]
    simp only [UInt8.ofNat_toNat]
  have hc := cons (Char.ofNat v) h
  rwa [he] at hc

theorem four (h₀ : 0xF0 ≤ b₀.toNat ∧ b₀.toNat ≤ 0xF4) (h₁ : 0x80 ≤ b₁.toNat ∧ b₁.toNat < 0xC0)
    (h₂ : 0x80 ≤ b₂.toNat ∧ b₂.toNat < 0xC0) (h₃ : 0x80 ≤ b₃.toNat ∧ b₃.toNat < 0xC0)
    (hlow : b₀.toNat = 0xF0 → 0x90 ≤ b₁.toNat) (hhigh : b₀.toNat = 0xF4 → b₁.toNat < 0x90) (h : Utf8 t) :
  Utf8 (b₀ :: b₁ :: b₂ :: b₃ :: t)
  := by
  obtain ⟨v, hv⟩ : ∃ v, v = (b₀.toNat - 0xF0) * 262144 + (b₁.toNat - 0x80) * 4096 + (b₂.toNat - 0x80) * 64
      + (b₃.toNat - 0x80) := ⟨_, rfl⟩
  have hvalid : v.isValidChar := by
    unfold Nat.isValidChar
    omega
  have he : String.utf8EncodeChar (Char.ofNat v) = [b₀, b₁, b₂, b₃] := by
    have e₀ : v / 262144 % 0x08 + 0xF0 = b₀.toNat := by omega
    have e₁ : v / 4096 % 0x40 + 0x80 = b₁.toNat := by omega
    have e₂ : v / 64 % 0x40 + 0x80 = b₂.toNat := by omega
    have e₃ : v % 0x40 + 0x80 = b₃.toNat := by omega
    rw [String.utf8EncodeChar, val_ofNat hvalid, if_neg (by omega), if_neg (by omega), if_neg (by omega),
      e₀, e₁, e₂, e₃]
    simp only [UInt8.ofNat_toNat]
  have hc := cons (Char.ofNat v) h
  rwa [he] at hc

end Utf8

/-! ### The check -/

/-- What the check accepts is UTF-8. -/
theorem utf8_of_isUtf8 (bs : Bytes) :
  isUtf8 bs = true → Utf8 bs
  := by
  fun_induction isUtf8 bs
  all_goals simp only [Bool.and_eq_true, Bool.not_eq_true', decide_eq_false_iff_not, isContinuation_iff,
    UInt8.le_iff_toNat_le, UInt8.lt_iff_toNat_lt, gt_iff_lt, UInt8.reduceToNat, ← UInt8.toNat_inj] at *
  case case1 => exact fun _ => .nil
  case case2 ih h => exact fun ht => .one h (ih ht)
  case case3 ih _ h =>
      rintro ⟨h₁, ht⟩
      exact .two h h₁ (ih ht)
  case case5 ih _ _ =>
      rintro ⟨⟨h₁, h₂⟩, ht⟩
      exact .three (by decide) (by omega) h₂ (fun _ => by omega) (by rintro ⟨⟩) (ih ht)
  case case7 ih _ _ _ =>
      rintro ⟨⟨h₁, h₂⟩, ht⟩
      exact .three (by decide) (by omega) h₂ (by rintro ⟨⟩) (fun _ => by omega) (ih ht)
  case case9 ih _ _ _ _ h =>
      rintro ⟨⟨h₁, h₂⟩, ht⟩
      exact .three (by omega) h₁ h₂ (by omega) (by omega) (ih ht)
  case case11 ih _ _ _ _ _ =>
      rintro ⟨⟨⟨h₁, h₂⟩, h₃⟩, ht⟩
      exact .four (by decide) (by omega) h₂ h₃ (fun _ => by omega) (by rintro ⟨⟩) (ih ht)
  case case13 ih _ _ _ _ _ _ =>
      rintro ⟨⟨⟨h₁, h₂⟩, h₃⟩, ht⟩
      exact .four (by decide) (by omega) h₂ h₃ (by rintro ⟨⟩) (fun _ => by omega) (ih ht)
  case case15 ih _ _ _ _ _ _ _ h =>
      rintro ⟨⟨⟨h₁, h₂⟩, h₃⟩, ht⟩
      exact .four (by omega) h₁ h₂ h₃ (by omega) (by omega) (ih ht)
  all_goals rintro ⟨⟩

section Accepts

variable {b₀ b₁ b₂ b₃ : UInt8} {t : Bytes}

theorem isUtf8_two (h₀ : 0xC2 ≤ b₀.toNat ∧ b₀.toNat ≤ 0xDF) (h₁ : 0x80 ≤ b₁.toNat ∧ b₁.toNat < 0xC0) :
  isUtf8 (b₀ :: b₁ :: t) = isUtf8 t
  := by
  have hc₁ := isContinuation_iff.mpr h₁
  rw [isUtf8.eq_def]
  simp only [UInt8.le_iff_toNat_le, UInt8.reduceToNat, hc₁, Bool.true_and]
  rw [if_neg (by omega), if_pos h₀]

theorem isUtf8_three (h₀ : 0xE0 ≤ b₀.toNat ∧ b₀.toNat ≤ 0xEF) (h₁ : 0x80 ≤ b₁.toNat ∧ b₁.toNat < 0xC0)
    (h₂ : 0x80 ≤ b₂.toNat ∧ b₂.toNat < 0xC0) (hlow : b₀.toNat = 0xE0 → 0xA0 ≤ b₁.toNat)
    (hhigh : b₀.toNat = 0xED → b₁.toNat < 0xA0) :
  isUtf8 (b₀ :: b₁ :: b₂ :: t) = isUtf8 t
  := by
  have hc₁ := isContinuation_iff.mpr h₁
  have hc₂ := isContinuation_iff.mpr h₂
  rw [isUtf8.eq_def]
  simp only [UInt8.le_iff_toNat_le, UInt8.lt_iff_toNat_lt, gt_iff_lt, UInt8.reduceToNat, ← UInt8.toNat_inj, hc₁, hc₂,
    Bool.true_and]
  rw [if_neg (by omega), if_neg (by omega)]
  by_cases h : b₀.toNat = 0xE0
  · rw [if_pos h, decide_eq_false (by omega), decide_eq_false (by omega)]
    rfl
  rw [if_neg h]
  by_cases h' : b₀.toNat = 0xED
  · rw [if_pos h', decide_eq_false (by omega), decide_eq_false (by omega)]
    rfl
  · rw [if_neg h', if_pos (by omega)]

theorem isUtf8_four (h₀ : 0xF0 ≤ b₀.toNat ∧ b₀.toNat ≤ 0xF4) (h₁ : 0x80 ≤ b₁.toNat ∧ b₁.toNat < 0xC0)
    (h₂ : 0x80 ≤ b₂.toNat ∧ b₂.toNat < 0xC0) (h₃ : 0x80 ≤ b₃.toNat ∧ b₃.toNat < 0xC0)
    (hlow : b₀.toNat = 0xF0 → 0x90 ≤ b₁.toNat) (hhigh : b₀.toNat = 0xF4 → b₁.toNat < 0x90) :
  isUtf8 (b₀ :: b₁ :: b₂ :: b₃ :: t) = isUtf8 t
  := by
  have hc₁ := isContinuation_iff.mpr h₁
  have hc₂ := isContinuation_iff.mpr h₂
  have hc₃ := isContinuation_iff.mpr h₃
  rw [isUtf8.eq_def]
  simp only [UInt8.le_iff_toNat_le, UInt8.lt_iff_toNat_lt, gt_iff_lt, UInt8.reduceToNat, ← UInt8.toNat_inj, hc₁, hc₂,
    hc₃, Bool.true_and]
  rw [if_neg (by omega), if_neg (by omega), if_neg (by omega), if_neg (by omega), if_neg (by omega)]
  by_cases h : b₀.toNat = 0xF0
  · rw [if_pos h, decide_eq_false (by omega), decide_eq_false (by omega)]
    rfl
  rw [if_neg h]
  by_cases h' : b₀.toNat = 0xF4
  · rw [if_pos h', decide_eq_false (by omega), decide_eq_false (by omega)]
    rfl
  · rw [if_neg h', if_pos (by omega)]

end Accepts

/-- The encoding of a character is passed over. -/
theorem isUtf8_utf8EncodeChar_append (c : Char) (t : Bytes) :
  isUtf8 (String.utf8EncodeChar c ++ t) = isUtf8 t
  := by
  have hvalid : c.val.toNat.isValidChar := c.valid
  obtain ⟨v, hv⟩ : ∃ v, v = c.val.toNat := ⟨_, rfl⟩
  unfold Nat.isValidChar at hvalid
  rw [← hv] at hvalid
  have hmod {n : Nat} (h : n < 256) : (UInt8.ofNat n).toNat = n := by
    rw [UInt8.toNat_ofNat', Nat.mod_eq_of_lt h]
  have h₁ : (UInt8.ofNat (v / 64 % 0x40 + 0x80)).toNat = v / 64 % 0x40 + 0x80 := hmod (by omega)
  have h₂ : (UInt8.ofNat (v % 0x40 + 0x80)).toNat = v % 0x40 + 0x80 := hmod (by omega)
  have h₃ : (UInt8.ofNat (v / 4096 % 0x40 + 0x80)).toNat = v / 4096 % 0x40 + 0x80 := hmod (by omega)
  rw [String.utf8EncodeChar, ← hv]
  by_cases hone : v ≤ 0x7F
  · rw [if_pos hone, List.singleton_append, isUtf8.eq_def]
    simp only [UInt8.le_iff_toNat_le, UInt8.reduceToNat]
    rw [if_pos]
    rwa [hmod (by omega)]
  rw [if_neg hone]
  by_cases htwo : v ≤ 0x7FF
  · have h₀ : (UInt8.ofNat (v / 64 % 0x20 + 0xC0)).toNat = v / 64 % 0x20 + 0xC0 := hmod (by omega)
    rw [if_pos htwo]
    apply isUtf8_two
    all_goals omega
  rw [if_neg htwo]
  by_cases hthree : v ≤ 0xFFFF
  · have h₀ : (UInt8.ofNat (v / 4096 % 0x10 + 0xE0)).toNat = v / 4096 % 0x10 + 0xE0 := hmod (by omega)
    rw [if_pos hthree]
    apply isUtf8_three
    all_goals omega
  · have h₀ : (UInt8.ofNat (v / 262144 % 0x08 + 0xF0)).toNat = v / 262144 % 0x08 + 0xF0 := hmod (by omega)
    rw [if_neg hthree]
    apply isUtf8_four
    all_goals omega

/-- The check accepts exactly UTF-8. -/
theorem isUtf8_iff {bs : Bytes} :
  isUtf8 bs = true ↔ Utf8 bs
  := by
  constructor
  · exact utf8_of_isUtf8 bs
  · rintro ⟨cs, rfl⟩
    induction cs with
    | nil => rfl
    | cons c cs ih =>
        rw [List.flatMap_cons, isUtf8_utf8EncodeChar_append]
        exact ih

/-! ### The loop -/

section

variable (data : Nat → UInt8)

/-- `(data[i] & 0xC0u) != 0x80u` -/
def readNotContinuation (i : Nat) : Reading Empty Bool := do
  let b ← readByte data i
  return !isContinuation b

/-- `(data[i] < low) || (data[i] > high)` -/
def readOutside (low high : UInt8) (i : Nat) : Reading Empty Bool := do
  let b ← readByte data i
  if b < low then
    return true
  else do
    let b ← readByte data i
    return b > high

/-- The tests of a branch, as far as they are needed. -/
def anyTest : List (Reading Empty Bool) → Reading Empty Bool
  | [] => return false
  | test :: tests => do
      if ← test then
        return true
      else
        anyTest tests

/-- The branches of `wolfCose_CBOR_IsUtf8` for a lead byte with further bytes behind it: one test for
each of them, where there are as many.  The result is the next index, unless a test fails. -/
def readSequence (len i : Nat) (tests : List (Reading Empty Bool)) : Reading Empty (Option Nat) := do
  if len - i < tests.length then
    return none
  else if ← anyTest tests then
    return none
  else
    return some (i + tests.length)

/-- One turn of the loop of `wolfCose_CBOR_IsUtf8`, after the lead byte has been read. -/
def readCharacter (len i : Nat) (first : UInt8) : Reading Empty (Option Nat) :=
  if first ≤ 0x7F then
    return some i
  else if 0xC2 ≤ first ∧ first ≤ 0xDF then
    readSequence len i [readNotContinuation data i]
  else if first = 0xE0 then
    readSequence len i [readOutside data 0xA0 0xBF i, readNotContinuation data (i + 1)]
  else if first = 0xED then
    readSequence len i [readOutside data 0x80 0x9F i, readNotContinuation data (i + 1)]
  else if (0xE1 ≤ first ∧ first ≤ 0xEC) ∨ (0xEE ≤ first ∧ first ≤ 0xEF) then
    readSequence len i [readNotContinuation data i, readNotContinuation data (i + 1)]
  else if first = 0xF0 then
    readSequence len i
      [readOutside data 0x90 0xBF i, readNotContinuation data (i + 1), readNotContinuation data (i + 2)]
  else if first = 0xF4 then
    readSequence len i
      [readOutside data 0x80 0x8F i, readNotContinuation data (i + 1), readNotContinuation data (i + 2)]
  else if 0xF1 ≤ first ∧ first ≤ 0xF3 then
    readSequence len i
      [readNotContinuation data i, readNotContinuation data (i + 1), readNotContinuation data (i + 2)]
  else
    return none

/-- The loop of `wolfCose_CBOR_IsUtf8`, of at most `n` turns. -/
def isUtf8Loop (len : Nat) : Nat → Nat → Reading Empty Bool
  | 0, _ => return true
  | n + 1, i => do
      if i < len then
        let first ← readByte data i
        match ← readCharacter data len (i + 1) first with
        | some i => isUtf8Loop len n i
        | none => return false
      else
        return true

end

/-- `wolfCose_CBOR_IsUtf8` on bytes in memory, beside its reads of them. -/
def isUtf8At (data : Option (Nat → UInt8)) (len : Nat) : Reading Empty Bool :=
  match data with
  | none => return len = 0
  | some data => isUtf8Loop data len len 0

/-! ### What the loop reads -/

section

variable {data : Nat → UInt8} {len i n : Nat}

theorem readsBelow_notContinuation (hi : i < len) :
  ReadsTo len (readNotContinuation data i) (!isContinuation (data i))
  := .bind (ReadsBelow.readByte hi) (.pure _)

theorem readsBelow_outside {low high : UInt8} (hi : i < len) :
  ReadsTo len (readOutside data low high i) (!(!(data i < low) && !(data i > high)))
  := by
  apply ReadsTo.bind (ReadsBelow.readByte hi)
  by_cases hlow : data i < low
  · rw [if_pos hlow, decide_eq_true hlow]
    exact .pure true
  · rw [if_neg hlow, decide_eq_false hlow, Bool.not_false, Bool.true_and, Bool.not_not]
    exact .bind (ReadsBelow.readByte hi) (.pure _)

theorem readsBelow_anyTest {tests : List (Reading Empty Bool)} {oks : List Bool}
    (h : List.Forall₂ (fun test ok => ReadsTo len test (!ok)) tests oks) :
  ReadsTo len (anyTest tests) (!oks.all id)
  := by
  induction h with
  | nil => exact .pure false
  | @cons test ok tests oks htest _ ih =>
      apply htest.bind
      cases ok with
      | false => exact .pure true
      | true => exact ih

/-- A branch whose bytes are all there reads them as far as they pass. -/
theorem readsBelow_sequence {tests : List (Reading Empty Bool)} {oks : List Bool} (hlen : i + tests.length ≤ len)
    (h : List.Forall₂ (fun test ok => ReadsTo len test (!ok)) tests oks) :
  ReadsTo len (readSequence len i tests) (if oks.all id then some (i + tests.length) else none)
  := by
  rw [readSequence, if_neg (by omega)]
  apply (readsBelow_anyTest h).bind
  cases oks.all id with
  | false => exact .pure none
  | true => exact .pure _

theorem readsBelow_sequence_short {tests : List (Reading Empty Bool)} (hlen : len < i + tests.length) (hi : i ≤ len) :
  ReadsTo len (readSequence len i tests) none
  := by
  rw [readSequence, if_pos (by omega)]
  exact .pure none

/-- What a turn of the loop leaves for the check: nothing, or the bytes from the next index on. -/
structure LeavesUtf8 (data : Nat → UInt8) (len i : Nat) (p : Reading Empty (Option Nat)) (valid : Bool) : Prop where
  run : ∃ r, ReadsTo len p r ∧ valid = r.elim false (fun i' => isUtf8 (bytesFrom data len i'))
    ∧ ∀ i' ∈ r, i ≤ i' ∧ i' ≤ len

theorem leavesUtf8_none {p : Reading Empty (Option Nat)} (h : ReadsTo len p none) :
  LeavesUtf8 data len i p false
  := ⟨none, h, rfl, by simp⟩

/-- A branch leaves the bytes behind it where its own pass the tests. -/
theorem leavesUtf8_sequence {tests : List (Reading Empty Bool)} {oks : List Bool} (hlen : i + tests.length ≤ len)
    (h : List.Forall₂ (fun test ok => ReadsTo len test (!ok)) tests oks) :
  LeavesUtf8 data len i (readSequence len i tests)
    (oks.all id && isUtf8 (bytesFrom data len (i + tests.length)))
  := by
  refine ⟨_, readsBelow_sequence hlen h, ?_, ?_⟩
  · cases oks.all id <;> rfl
  · cases oks.all id with
    | false => simp
    | true => simpa using hlen

/-- A branch leaves what its pattern says, which fails where bytes are missing. -/
theorem leavesUtf8_branch {tests : List (Reading Empty Bool)} {oks : List Bool} {valid : Bool} (hi : i ≤ len)
    (htests : i + tests.length ≤ len → List.Forall₂ (fun test ok => ReadsTo len test (!ok)) tests oks)
    (hvalid : i + tests.length ≤ len → valid = (oks.all id && isUtf8 (bytesFrom data len (i + tests.length))))
    (hshort : len < i + tests.length → valid = false) :
  LeavesUtf8 data len i (readSequence len i tests) valid
  := by
  by_cases hlen : i + tests.length ≤ len
  · rw [hvalid hlen]
    exact leavesUtf8_sequence hlen (htests hlen)
  · have hlt := Nat.lt_of_not_le hlen
    rw [hshort hlt]
    exact leavesUtf8_none (readsBelow_sequence_short hlt hi)

theorem leavesUtf8_one (hi : i ≤ len) :
  LeavesUtf8 data len i (readSequence len i [readNotContinuation data i])
    (match bytesFrom data len i with
    | b₁ :: t' => isContinuation b₁ && isUtf8 t'
    | _ => false)
  := by
  refine @leavesUtf8_branch data len i _ [isContinuation (data i)] _ hi ?_ ?_ ?_
  · intro hlen
    exact .cons (readsBelow_notContinuation hlen) .nil
  · intro hlen
    rw [bytesFrom_of_lt hlen]
    simp
  · intro hlen
    rw [bytesFrom_of_le (Nat.le_of_lt_succ hlen)]

section Branches

variable {test : Reading Empty Bool} {ok : UInt8 → Bool}

theorem leavesUtf8_two (hi : i ≤ len) (htest : i < len → ReadsTo len test (!ok (data i))) :
  LeavesUtf8 data len i (readSequence len i [test, readNotContinuation data (i + 1)])
    (match bytesFrom data len i with
    | b₁ :: b₂ :: t' => ok b₁ && isContinuation b₂ && isUtf8 t'
    | _ => false)
  := by
  refine @leavesUtf8_branch data len i _ [ok (data i), isContinuation (data (i + 1))] _ hi ?_ ?_ ?_
  · intro (hlen : i + 2 ≤ len)
    exact .cons (htest (by omega)) (.cons (readsBelow_notContinuation (by omega)) .nil)
  · intro (hlen : i + 2 ≤ len)
    rw [bytesFrom_of_lt (by omega), bytesFrom_of_lt (by omega)]
    simp
  · intro (hlen : len < i + 2)
    have hlength : (bytesFrom data len i).length = len - i := length_bytesFrom
    split
    · simp_all only [List.length_cons]
      omega
    · rfl

theorem leavesUtf8_three (hi : i ≤ len) (htest : i < len → ReadsTo len test (!ok (data i))) :
  LeavesUtf8 data len i
    (readSequence len i [test, readNotContinuation data (i + 1), readNotContinuation data (i + 2)])
    (match bytesFrom data len i with
    | b₁ :: b₂ :: b₃ :: t' => ok b₁ && isContinuation b₂ && isContinuation b₃ && isUtf8 t'
    | _ => false)
  := by
  refine @leavesUtf8_branch data len i _ [ok (data i), isContinuation (data (i + 1)), isContinuation (data (i + 2))] _ hi
    ?_ ?_ ?_
  · intro (hlen : i + 3 ≤ len)
    exact .cons (htest (by omega))
      (.cons (readsBelow_notContinuation (by omega)) (.cons (readsBelow_notContinuation (by omega)) .nil))
  · intro (hlen : i + 3 ≤ len)
    rw [bytesFrom_of_lt (by omega), bytesFrom_of_lt (by omega), bytesFrom_of_lt (by omega)]
    simp [Bool.and_assoc]
  · intro (hlen : len < i + 3)
    have hlength : (bytesFrom data len i).length = len - i := length_bytesFrom
    split
    · simp_all only [List.length_cons]
      omega
    · rfl

end Branches

theorem leavesUtf8_ite {c : Prop} [Decidable c] {p q : Reading Empty (Option Nat)} {a b : Bool}
    (hp : LeavesUtf8 data len i p a) (hq : LeavesUtf8 data len i q b) :
  LeavesUtf8 data len i (if c then p else q) (if c then a else b)
  := by
  split
  · exact hp
  · exact hq

/-- A turn of the loop does what the check does for a lead byte. -/
theorem leavesUtf8_character (first : UInt8) (hi : i ≤ len) :
  LeavesUtf8 data len i (readCharacter data len i first) (isUtf8 (first :: bytesFrom data len i))
  := by
  rw [isUtf8.eq_def, readCharacter]
  dsimp only
  apply leavesUtf8_ite ⟨_, .pure _, rfl, by simpa using hi⟩
  apply leavesUtf8_ite (leavesUtf8_one hi)
  apply leavesUtf8_ite (leavesUtf8_two hi readsBelow_outside)
  apply leavesUtf8_ite (leavesUtf8_two hi readsBelow_outside)
  apply leavesUtf8_ite (leavesUtf8_two hi readsBelow_notContinuation)
  apply leavesUtf8_ite (leavesUtf8_three hi readsBelow_outside)
  apply leavesUtf8_ite (leavesUtf8_three hi readsBelow_outside)
  apply leavesUtf8_ite (leavesUtf8_three hi readsBelow_notContinuation)
  exact leavesUtf8_none (.pure none)

/-- The loop checks the bytes that are left, and reads none behind them. -/
theorem readsBelow_isUtf8Loop (hi : i ≤ len) (hn : len - i ≤ n) :
  ReadsTo len (isUtf8Loop data len n i) (isUtf8 (bytesFrom data len i))
  := by
  induction n generalizing i with
  | zero =>
      rw [bytesFrom_of_le (by omega)]
      exact .pure true
  | succ n ih =>
      by_cases hlt : i < len
      · rw [isUtf8Loop, if_pos hlt, bytesFrom_of_lt hlt]
        obtain ⟨⟨r, hrun, hvalid, hnext⟩⟩ := leavesUtf8_character (data i) (Nat.succ_le_of_lt hlt)
        rw [hvalid]
        apply ReadsTo.bind (ReadsBelow.readByte hlt)
        apply ReadsTo.bind hrun
        cases r with
        | none => exact .pure false
        | some i' =>
            obtain ⟨hle, hle'⟩ := hnext i' rfl
            exact ih hle' (by omega)
      · rw [isUtf8Loop, if_neg hlt, bytesFrom_of_le (by omega)]
        exact .pure true

end

/-- `wolfCose_CBOR_IsUtf8` accepts exactly the concatenations of the encodings of Unicode scalar
values, and reads no byte beyond the length. -/
theorem isUtf8At_iff (data : Option (Nat → UInt8)) (len : Nat) :
  ∃ valid reads, isUtf8At data len [] = .ok valid reads
    ∧ (valid = true ↔ (data = none → len = 0) ∧ ∀ bytes ∈ data, Utf8 ((List.range len).map bytes))
    ∧ ∀ j ∈ reads, j < len
  := by
  cases data with
  | none =>
      refine ⟨len = 0, [], rfl, ?_, List.forall_mem_nil _⟩
      simp
  | some bytes =>
      obtain ⟨more, hrun, hmore⟩ := @readsBelow_isUtf8Loop bytes len 0 len (Nat.zero_le _) (Nat.sub_le _ _) []
      refine ⟨_, _, hrun, ?_, hmore⟩
      rw [isUtf8_iff, bytesFrom, Nat.sub_zero, List.range_eq_range']
      simp

end WolfCose
