import WolfCose.Lib.Bytes

/-!
# Heads of CBOR data items

A data item starts with a head: an initial byte that carries the major type and five bits
of additional information, and an argument of 0, 1, 2, 4 or 8 further bytes in big-endian
order.  A byte or text string carries its content after the head.  A `Token` is a head
together with that content; the data items of RFC 8949 with definite lengths are built
from tokens, and a sequence of tokens is never a proper prefix of another.
-/

namespace Cbor

/-! ### Major types and initial bytes -/

/-- The major types. -/
inductive MajorType where
  | uint | negint | bstr | tstr | array | map | tag | simple
  deriving DecidableEq, Repr

/-- The number of a major type. -/
def MajorType.code : MajorType → Nat
  | .uint => 0
  | .negint => 1
  | .bstr => 2
  | .tstr => 3
  | .array => 4
  | .map => 5
  | .tag => 6
  | .simple => 7

/-- The major type of an initial byte. -/
def MajorType.ofByte (b : UInt8) : MajorType :=
  match (b >>> 5).toNat with
  | 0 => .uint
  | 1 => .negint
  | 2 => .bstr
  | 3 => .tstr
  | 4 => .array
  | 5 => .map
  | 6 => .tag
  | _ => .simple

/-- The initial byte with a major type and additional information. -/
def initialByte (m : MajorType) (ai : Nat) : UInt8 :=
  UInt8.ofNat (m.code * 32 + ai)

/-- The additional information of an initial byte. -/
def additionalInfo (b : UInt8) : Nat :=
  (b &&& 0x1F).toNat

theorem ofByte_initialByte (m : MajorType) {ai : Nat} (h : ai < 32) :
  MajorType.ofByte (initialByte m ai) = m
  := by
  have key : ∀ a : Fin 32, MajorType.ofByte (initialByte m a.val) = m := by
    cases m <;> decide
  exact key ⟨ai, h⟩

theorem additionalInfo_initialByte (m : MajorType) {ai : Nat} (h : ai < 32) :
  additionalInfo (initialByte m ai) = ai
  := by
  have key : ∀ a : Fin 32, additionalInfo (initialByte m a.val) = a.val := by
    cases m <;> decide
  exact key ⟨ai, h⟩

/-- A byte is the initial byte of its major type and its additional information. -/
theorem initialByte_ofByte (b : UInt8) :
  initialByte (MajorType.ofByte b) (additionalInfo b) = b
  := by
  have key : ∀ n : Fin 256, initialByte (MajorType.ofByte (UInt8.ofNat n.val))
      (additionalInfo (UInt8.ofNat n.val)) = UInt8.ofNat n.val := by
    decide +kernel
  have h := key ⟨b.toNat, b.toNat_lt⟩
  rwa [UInt8.ofNat_toNat] at h

theorem initialByte_injective {m m' : MajorType} {ai ai' : Nat} (h : ai < 32) (h' : ai' < 32)
    (e : initialByte m ai = initialByte m' ai') :
  m = m' ∧ ai = ai'
  := by
  constructor
  · rw [← ofByte_initialByte m h, e, ofByte_initialByte m' h']
  · rw [← additionalInfo_initialByte m h, e, additionalInfo_initialByte m' h']

/-! ### Argument widths -/

/-- How the argument of a head is carried: in the initial byte, or in 1, 2, 4 or 8 bytes
after it. -/
inductive Width where
  | imm | one | two | four | eight
  deriving DecidableEq, Repr

/-- The number of argument bytes after the initial byte. -/
def Width.size : Width → Nat
  | .imm => 0
  | .one => 1
  | .two => 2
  | .four => 4
  | .eight => 8

/-- The arguments of a width are those below its bound. -/
def Width.bound : Width → Nat
  | .imm => 24
  | .one => 0x100
  | .two => 0x10000
  | .four => 0x100000000
  | .eight => 0x10000000000000000

/-- The additional information of a head whose argument `v` is carried in a width. -/
def Width.ai (v : Nat) : Width → Nat
  | .imm => v
  | .one => 24
  | .two => 25
  | .four => 26
  | .eight => 27

/-- The shortest width that carries `v`. -/
def Width.preferred (v : Nat) : Width :=
  if v ≤ 23 then .imm
  else if v ≤ 0xFF then .one
  else if v ≤ 0xFFFF then .two
  else if v ≤ 0xFFFFFFFF then .four
  else .eight

theorem Width.bound_le (w : Width) :
  w.bound ≤ 2 ^ 64
  := by
  cases w <;> decide

theorem Width.bound_le_pow {w : Width} (h : w ≠ .imm) :
  w.bound = 256 ^ w.size
  := by
  cases w
  · exact absurd rfl h
  all_goals rfl

theorem Width.ai_lt {w : Width} {v : Nat} (h : v < w.bound) :
  w.ai v < 28
  := by
  cases w
  · exact Nat.lt_of_lt_of_le h (by decide)
  all_goals simp [ai]

/-- The preferred width carries its argument. -/
theorem Width.lt_bound_preferred {v : Nat} (h : v < 2 ^ 64) :
  v < (Width.preferred v).bound
  := by
  unfold Width.preferred
  repeat' split
  all_goals simp only [Width.bound]; omega

/-- A width that carries `v` has the additional information of another width that carries
`v'` only if the two are the same width. -/
theorem Width.eq_of_ai_eq {w w' : Width} {v v' : Nat} (h : v < w.bound) (h' : v' < w'.bound)
    (e : w.ai v = w'.ai v') :
  w = w'
  := by
  cases w <;> cases w' <;> simp only [Width.ai, Width.bound] at h h' e ⊢ <;> omega

/-! ### Tokens -/

/-- The bytes of a head. -/
def headBytes (w : Width) (m : MajorType) (v : Nat) : Bytes :=
  initialByte m (w.ai v) :: Bytes.be w.size v

/-- The bytes of a head with its argument in the shortest form. -/
def preferredHead (m : MajorType) (v : Nat) : Bytes :=
  headBytes (Width.preferred v) m v

/-- The bytes of a string with its head in the shortest form. -/
def stringBytes (m : MajorType) (data : Bytes) : Bytes :=
  preferredHead m data.length ++ data

theorem preferredHead_ne_nil (m : MajorType) (v : Nat) :
  preferredHead m v ≠ []
  := List.cons_ne_nil _ _

@[simp]
theorem length_headBytes (w : Width) (m : MajorType) (v : Nat) :
  (headBytes w m v).length = 1 + w.size
  := by
  rw [headBytes, List.length_cons, Bytes.length_be, Nat.add_comm]

/-- Whether the content of an item with this major type follows its head as bytes. -/
def MajorType.isString : MajorType → Bool
  | .bstr => true
  | .tstr => true
  | _ => false

/-- A head and, for a string, its content. -/
structure Token where
  width : Width
  major : MajorType
  val : Nat
  data : Bytes
  deriving DecidableEq, Repr

namespace Token

/-- The bytes of a token. -/
def bytes (t : Token) : Bytes :=
  headBytes t.width t.major t.val ++ t.data

/-- The argument of a token is carried by its width, and the content of a string has the
length its head announces. -/
structure WellFormed (t : Token) : Prop where
  val_lt : t.val < t.width.bound
  length_data : t.data.length = if t.major.isString then t.val else 0

theorem length_bytes (t : Token) :
  t.bytes.length = 1 + t.width.size + t.data.length
  := by
  rw [bytes, List.length_append, length_headBytes]

theorem bytes_ne_nil (t : Token) :
  t.bytes ≠ []
  := by
  intro h
  have := t.length_bytes
  rw [h, List.length_nil] at this
  omega

theorem one_le_length_bytes (t : Token) :
  1 ≤ t.bytes.length
  := by
  rw [length_bytes]
  omega

theorem headBytes_append_cancel {w w' : Width} {m m' : MajorType} {v v' : Nat} {r r' : Bytes}
    (h : v < w.bound) (h' : v' < w'.bound)
    (e : headBytes w m v ++ r = headBytes w' m' v' ++ r') :
  w = w' ∧ m = m' ∧ v = v' ∧ r = r'
  := by
  simp only [headBytes, List.cons_append] at e
  injection e with hi hr
  have hai := Width.ai_lt h
  have hai' := Width.ai_lt h'
  obtain ⟨hm, ha⟩ := initialByte_injective (by omega) (by omega) hi
  have hw := Width.eq_of_ai_eq h h' ha
  subst hw
  obtain ⟨hb, hr'⟩ := List.append_inj hr (by simp)
  refine ⟨rfl, hm, ?_, hr'⟩
  cases hw : w with
  | imm =>
      rw [hw] at ha
      exact ha
  | _ =>
      rw [Width.bound_le_pow (by rw [hw]; decide)] at h h'
      rw [← Bytes.ofBe_be h, hb, Bytes.ofBe_be h']

/-- Tokens are prefix free: the first token of a byte string is determined by it. -/
theorem bytes_append_cancel {t t' : Token} {r r' : Bytes} (h : t.WellFormed)
    (h' : t'.WellFormed) (e : t.bytes ++ r = t'.bytes ++ r') :
  t = t' ∧ r = r'
  := by
  obtain ⟨w, m, v, d⟩ := t
  obtain ⟨w', m', v', d'⟩ := t'
  simp only [bytes, List.append_assoc] at e
  obtain ⟨hw, hm, hv, hr⟩ := headBytes_append_cancel h.val_lt h'.val_lt e
  subst hw
  subst hm
  subst hv
  have hl : d.length = d'.length := by
    rw [h.length_data, h'.length_data]
  obtain ⟨hd, hr'⟩ := List.append_inj hr hl
  subst hd
  exact ⟨rfl, hr'⟩

/-- Where tokens one after another start with other tokens, they are these tokens and more. -/
theorem prefix_of_flatMap_bytes {ts us : List Token} (ht : ∀ t ∈ ts, t.WellFormed)
    (hu : ∀ u ∈ us, u.WellFormed) (h : ts.flatMap bytes <+: us.flatMap bytes) :
  ts <+: us
  := by
  induction ts generalizing us with
  | nil => exact List.nil_prefix
  | cons t ts ih =>
      obtain ⟨r, e⟩ := h
      cases us with
      | nil =>
          rw [List.flatMap_nil, List.flatMap_cons, List.append_assoc] at e
          exact absurd (List.append_eq_nil_iff.mp e).1 t.bytes_ne_nil
      | cons u us =>
          rw [List.flatMap_cons, List.flatMap_cons, List.append_assoc] at e
          obtain ⟨rfl, e'⟩ := bytes_append_cancel (ht t List.mem_cons_self)
            (hu u List.mem_cons_self) e
          rw [List.cons_prefix_cons]
          refine ⟨rfl, ih (fun x hx => ht x (List.mem_cons_of_mem _ hx))
            (fun x hx => hu x (List.mem_cons_of_mem _ hx)) ⟨r, e'⟩⟩

/-- Reading tokens one after another recovers them. -/
theorem flatMap_bytes_injective {ts us : List Token} (ht : ∀ t ∈ ts, t.WellFormed)
    (hu : ∀ u ∈ us, u.WellFormed) (e : ts.flatMap bytes = us.flatMap bytes) :
  ts = us
  := by
  have h₁ := prefix_of_flatMap_bytes ht hu ⟨[], by rw [e, List.append_nil]⟩
  have h₂ := prefix_of_flatMap_bytes hu ht ⟨[], by rw [e, List.append_nil]⟩
  apply h₁.eq_of_length
  exact Nat.le_antisymm h₁.length_le h₂.length_le

/-! ### Tokens in the shortest form -/

/-- The head with a major type and argument in the shortest form. -/
def ofHead (m : MajorType) (v : Nat) : Token := ⟨Width.preferred v, m, v, []⟩

/-- The string with a major type and content and its head in the shortest form. -/
def ofString (m : MajorType) (data : Bytes) : Token :=
  ⟨Width.preferred data.length, m, data.length, data⟩

@[simp]
theorem bytes_ofHead (m : MajorType) (v : Nat) :
  (ofHead m v).bytes = preferredHead m v
  := List.append_nil _

@[simp]
theorem bytes_ofString (m : MajorType) (data : Bytes) :
  (ofString m data).bytes = stringBytes m data
  := rfl

theorem wellFormed_ofHead {m : MajorType} {v : Nat} (hm : m.isString = false)
    (hv : v < 2 ^ 64) :
  (ofHead m v).WellFormed
  where
  val_lt := Width.lt_bound_preferred hv
  length_data := by
    rw [ofHead, hm]
    rfl

theorem wellFormed_ofString {m : MajorType} {data : Bytes} (hm : m.isString = true)
    (hl : data.length < 2 ^ 64) :
  (ofString m data).WellFormed
  where
  val_lt := Width.lt_bound_preferred hl
  length_data := by
    rw [ofString, hm]
    rfl

end Token

end Cbor
