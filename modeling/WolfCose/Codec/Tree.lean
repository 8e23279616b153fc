import WolfCose.Codec.DecodeSpec
import WolfCose.Codec.Encode

/-!
# Trees of data items

A caller writes a tree of CBOR data items with the functions `wc_CBOR_Encode*`, node by
node, and reads one back with the functions `wc_CBOR_Decode*`, choosing at each node the
function for the major type that `wc_CBOR_PeekType` reports.  The public decoder has no
function of its own for `false`, `true` and `null`: they are recognised by the major type
and the value that `wc_CBOR_DecodeHead` returns.

Encoding a tree and decoding it gives the tree back.  The converse, that decoding and
encoding again gives the bytes back, holds except where a simple value was read from the
head of a floating-point number, which `wc_CBOR_DecodeHead` does not tell apart.
-/

namespace WolfCose

open Program Cbor Settings

/-! ### Trees -/

/-- A text string, which is always UTF-8. -/
structure Text where
  bytes : Bytes
  valid : isUtf8 bytes = true

/-- The text string with the given bytes, if they are UTF-8. -/
def Text.ofBytes? (bs : Bytes) : Option Text :=
  if h : isUtf8 bs = true then some ⟨bs, h⟩ else none

theorem Text.ofBytes?_bytes (text : Text) :
  ofBytes? text.bytes = some text
  := dif_pos text.valid

/-- A tree of data items with definite lengths. -/
inductive Tree where
  | int (v : Int64)
  | bstr (data : Bytes)
  | tstr (str : Text)
  | array (items : List Tree)
  | map (entries : List (Tree × Tree))
  | tag (tag : UInt64) (item : Tree)
  | bool (b : Bool)
  | null

/-- Induction over trees. -/
@[elab_as_elim]
theorem Tree.induct {motive : Tree → Prop}
    (int : ∀ v, motive (.int v)) (bstr : ∀ data, motive (.bstr data))
    (tstr : ∀ str, motive (.tstr str))
    (array : ∀ items, (∀ v ∈ items, motive v) → motive (.array items))
    (map : ∀ entries, (∀ e ∈ entries, motive e.1 ∧ motive e.2) → motive (.map entries))
    (tag : ∀ t item, motive item → motive (.tag t item))
    (bool : ∀ b, motive (.bool b)) (null : motive .null) (v : Tree) :
  motive v
  :=
  @Tree.rec motive (fun vs => ∀ v ∈ vs, motive v) (fun es => ∀ e ∈ es, motive e.1 ∧ motive e.2)
    (fun e => motive e.1 ∧ motive e.2)
    int bstr tstr array map tag bool null
    (fun _ h => absurd h List.not_mem_nil)
    (fun _ _ hv hvs => List.forall_mem_cons.mpr ⟨hv, hvs⟩)
    (fun _ h => absurd h List.not_mem_nil)
    (fun _ _ he hes => List.forall_mem_cons.mpr ⟨he, hes⟩)
    (fun _ _ h₁ h₂ => ⟨h₁, h₂⟩) v

section

variable [Settings]

mutual

/-- Writing a tree with the functions `wc_CBOR_Encode*`. -/
def encodeTree : Tree → Enc Unit
  | .int v => encodeInt v.toInt
  | .bstr data => encodeBstr (.mem data)
  | .tstr str => encodeTstr (.mem str.bytes)
  | .array items => do
      encodeArrayStart items.length
      encodeTrees items
  | .map entries => do
      encodeMapStart entries.length
      encodeEntries entries
  | .tag tag item => do
      encodeTag tag.toNat
      encodeTree item
  | .bool b => if b then encodeTrue else encodeFalse
  | .null => encodeNull

/-- Writing the elements of an array. -/
def encodeTrees : List Tree → Enc Unit
  | [] => return ()
  | v :: vs => do
      encodeTree v
      encodeTrees vs

/-- Writing the keys and values of a map. -/
def encodeEntries : List (Tree × Tree) → Enc Unit
  | [] => return ()
  | (k, v) :: es => do
      encodeTree k
      encodeTree v
      encodeEntries es

end

/-- Reading `n` items one after another. -/
def decodeMany {α : Type} (p : Dec α) : Nat → Dec (List α)
  | 0 => return []
  | n + 1 => do
      let a ← p
      let as ← decodeMany p n
      return a :: as

/-- The simple value of an item that `wc_CBOR_DecodeHead` returns, recognised by its major
type and its value. -/
def simpleTree (item : Item) : Option Tree :=
  if item.majorType = .simple ∧ item.val = 20 then some (.bool false)
  else if item.majorType = .simple ∧ item.val = 21 then some (.bool true)
  else if item.majorType = .simple ∧ item.val = 22 then some .null
  else none

/-- Reading a tree whose first head has a major type, the trees below it with `next`. -/
def decodeNode (next : Dec Tree) : MajorType → Dec Tree
  | .uint | .negint => do
      let v ← decodeInt
      return .int (Int64.ofInt v)
  | .bstr => do
      let data ← decodeBstr
      return .bstr data
  | .tstr => do
      let str ← decodeTstr
      match Text.ofBytes? str with
      | some text => return .tstr text
      | none => throw .cborMalformed
  | .array => do
      let n ← decodeArrayStart
      let items ← decodeMany next n
      return .array items
  | .map => do
      let n ← decodeMapStart
      let entries ← decodeMany (do let k ← next; let v ← next; return (k, v)) n
      return .map entries
  | .tag => do
      let tag ← decodeTag
      let item ← next
      return .tag (UInt64.ofNat tag) item
  | .simple => do
      let item ← decodeHead
      match simpleTree item with
      | some v => return v
      | none => throw .cborType

/-- Reading a tree with the functions `wc_CBOR_Decode*`, with a bound on its height. -/
def decodeTreeWithin : Nat → Dec Tree
  | 0 => throw .cborDepth
  | fuel + 1 => do
      let ctx ← get
      match ctx.peekType with
      | none => throw .cborMalformed
      | some m => decodeNode (decodeTreeWithin fuel) m

/-- Reading a tree.  Every level takes at least one byte, so a tree is no higher than the
buffer is long. -/
def decodeTree : Dec Tree := do
  let ctx ← get
  decodeTreeWithin (ctx.bufSz + 1)

/-! ### The tokens of a tree -/

/-- The token of an integer. -/
def intToken (v : Int) : Token :=
  if v ≥ 0 then .ofHead .uint v.toNat else .ofHead .negint (-(v + 1)).toNat

mutual

/-- The tokens of a tree, with every head in its shortest form. -/
def treeTokens : Tree → List Token
  | .int v => [intToken v.toInt]
  | .bstr data => [.ofString .bstr data]
  | .tstr str => [.ofString .tstr str.bytes]
  | .array items => .ofHead .array items.length :: treesTokens items
  | .map entries => .ofHead .map entries.length :: entriesTokens entries
  | .tag tag item => .ofHead .tag tag.toNat :: treeTokens item
  | .bool b => [.ofHead .simple (if b then 21 else 20)]
  | .null => [.ofHead .simple 22]

/-- The tokens of the elements of an array. -/
def treesTokens : List Tree → List Token
  | [] => []
  | v :: vs => treeTokens v ++ treesTokens vs

/-- The tokens of the keys and values of a map. -/
def entriesTokens : List (Tree × Tree) → List Token
  | [] => []
  | (k, v) :: es => treeTokens k ++ treeTokens v ++ entriesTokens es

end

/-- The bytes of a tree. -/
def treeBytes (v : Tree) : Bytes := (treeTokens v).flatMap Token.bytes

omit [Settings] in
theorem treesTokens_eq (vs : List Tree) :
  treesTokens vs = vs.flatMap treeTokens
  := by
  induction vs with
  | nil => rfl
  | cons v vs ih => rw [treesTokens, ih, List.flatMap_cons]

omit [Settings] in
theorem entriesTokens_eq (es : List (Tree × Tree)) :
  entriesTokens es = es.flatMap fun e => treeTokens e.1 ++ treeTokens e.2
  := by
  induction es with
  | nil => rfl
  | cons e es ih => rw [entriesTokens, ih, List.flatMap_cons]

omit [Settings] in
theorem intHead_eq (v : Int) :
  intHead v = (intToken v).bytes
  := by
  unfold intHead intToken
  split
  · exact (Token.bytes_ofHead _ _).symm
  · exact (Token.bytes_ofHead _ _).symm

/-- Writing a tree writes the bytes of its tokens, and fails only for want of room. -/
theorem emits_encodeTree (v : Tree) :
  Emits (encodeTree v) (treeBytes v)
  := by
  unfold treeBytes
  induction v using Tree.induct with
  | int v =>
      rw [encodeTree, treeTokens, List.flatMap_singleton, ← intHead_eq]
      exact emits_encodeInt v.toInt
  | bstr data =>
      rw [encodeTree, treeTokens, List.flatMap_singleton]
      exact emits_encodeBstr_mem data
  | tstr str =>
      rw [encodeTree, treeTokens, List.flatMap_singleton]
      exact emits_encodeTstr_mem str.valid
  | array items ih =>
      rw [encodeTree, treeTokens, List.flatMap_cons, Token.bytes_ofHead]
      apply (emits_encodeHead _ _).bind
      induction items with
      | nil => exact Emits.pure
      | cons v vs ihs =>
          obtain ⟨hv, hvs⟩ := List.forall_mem_cons.mp ih
          rw [encodeTrees, treesTokens, List.flatMap_append]
          exact hv.bind (ihs hvs)
  | map entries ih =>
      rw [encodeTree, treeTokens, List.flatMap_cons, Token.bytes_ofHead]
      apply (emits_encodeHead _ _).bind
      induction entries with
      | nil => exact Emits.pure
      | cons e es ihs =>
          obtain ⟨⟨hk, hv⟩, hes⟩ := List.forall_mem_cons.mp ih
          rw [encodeEntries, entriesTokens, List.flatMap_append, List.flatMap_append,
            List.append_assoc]
          exact hk.bind (hv.bind (ihs hes))
  | tag tag item ih =>
      rw [encodeTree, treeTokens, List.flatMap_cons, Token.bytes_ofHead]
      exact (emits_encodeHead _ _).bind ih
  | bool b =>
      rw [encodeTree]
      cases b
      · exact emits_encodeSimpleVal cborFalse
      · exact emits_encodeSimpleVal cborTrue
  | null => exact emits_encodeSimpleVal cborNull

omit [Settings] in
/-- What holds of the heads and strings that the encoder writes holds of every token of a
tree. -/
theorem forall_mem_treeTokens {Q : Token → Prop}
    (head : ∀ m v, m ≠ .simple → Q (.ofHead m v))
    (string : ∀ m data, m.isString = true → Q (.ofString m data))
    (simple : ∀ v, v < 24 → Q (.ofHead .simple v)) (v : Tree) :
  ∀ t ∈ treeTokens v, Q t
  := by
  induction v using Tree.induct with
  | int v =>
      rw [treeTokens, List.forall_mem_singleton, intToken]
      split
      · exact head _ _ (by rintro ⟨⟩)
      · exact head _ _ (by rintro ⟨⟩)
  | bstr data => exact List.forall_mem_singleton.mpr (string _ _ rfl)
  | tstr str => exact List.forall_mem_singleton.mpr (string _ _ rfl)
  | array items ih =>
      rw [treeTokens, treesTokens_eq, List.forall_mem_cons]
      refine ⟨head _ _ (by rintro ⟨⟩), fun t ht => ?_⟩
      obtain ⟨v, hv, ht⟩ := List.mem_flatMap.mp ht
      exact ih v hv t ht
  | map entries ih =>
      rw [treeTokens, entriesTokens_eq, List.forall_mem_cons]
      refine ⟨head _ _ (by rintro ⟨⟩), fun t ht => ?_⟩
      obtain ⟨e, he, ht⟩ := List.mem_flatMap.mp ht
      rcases List.mem_append.mp ht with ht | ht
      · exact (ih e he).1 t ht
      · exact (ih e he).2 t ht
  | tag tag item ih =>
      rw [treeTokens, List.forall_mem_cons]
      exact ⟨head _ _ (by rintro ⟨⟩), ih⟩
  | bool b =>
      cases b
      · exact List.forall_mem_singleton.mpr (simple _ (by decide))
      · exact List.forall_mem_singleton.mpr (simple _ (by decide))
  | null => exact List.forall_mem_singleton.mpr (simple _ (by decide))

omit [Settings] in
/-- A value below 24 is carried in the initial byte. -/
theorem preferred_of_lt {v : Nat} (h : v < 24) :
  Width.preferred v = .imm
  := if_pos (Nat.le_of_lt_succ h)

omit [Settings] in
/-- The tokens of a tree have the shortest width. -/
theorem preferred_treeTokens (v : Tree) :
  ∀ t ∈ treeTokens v, t.width = Width.preferred t.val
  := forall_mem_treeTokens (fun _ _ _ => rfl) (fun _ _ _ => rfl) (fun _ _ => rfl) v

omit [Settings] in
/-- The tokens of a tree that carry simple values are single bytes. -/
theorem imm_treeTokens (v : Tree) :
  ∀ t ∈ treeTokens v, (t.major = .simple → t.width = .imm)
  := by
  refine forall_mem_treeTokens (fun _ _ hm h => absurd h hm) (fun m _ hm h => ?_)
    (fun v hv _ => preferred_of_lt hv) v
  change m = .simple at h
  subst h
  exact absurd hm (by decide)

/-! ### Decoding the tokens of a tree -/

theorem accepted_ofHead {flags : UInt32} {m : MajorType} {v : Nat} (hm : m.isString = false)
    (hs : m ≠ .simple) (hv : v < 2 ^ 64) :
  Accepted flags (.ofHead m v)
  where
  wellFormed := Token.wellFormed_ofHead hm hv
  simple h := absurd h hs
  preferred _ _ := rfl
  utf8 h := by
    change m = .tstr at h
    subst h
    exact absurd hm (by decide)

theorem accepted_ofString {flags : UInt32} {m : MajorType} {data : Bytes}
    (hm : m.isString = true) (hl : data.length < 2 ^ 64)
    (hu : m = .tstr → isUtf8 data = true) :
  Accepted flags (.ofString m data)
  where
  wellFormed := Token.wellFormed_ofString hm hl
  simple h := by
    change m = .simple at h
    subst h
    exact absurd hm (by decide)
  preferred _ _ := rfl
  utf8 := hu

theorem accepted_ofSimple {flags : UInt32} {v : Nat} (hv : v < 24) :
  Accepted flags (.ofHead .simple v)
  where
  wellFormed := Token.wellFormed_ofHead rfl (by omega)
  simple _ h := by
    change Width.preferred v = .one at h
    rw [preferred_of_lt hv] at h
    cases h
  preferred _ h := absurd rfl h
  utf8 := by rintro ⟨⟩

omit [Settings] in
theorem intOf_intToken {v : Int} (h₁ : -2 ^ 63 ≤ v) (h₂ : v < 2 ^ 63) :
  intOf (intToken v) = some v
  := by
  unfold intToken
  split
  · have hn : v.toNat ≤ 2 ^ 63 - 1 := by omega
    have h : intOf (.ofHead .uint v.toNat) = some (v.toNat : Int) := if_pos hn
    rw [h, Int.toNat_of_nonneg (by assumption)]
  · have hn : (-(v + 1)).toNat ≤ 2 ^ 63 - 1 := by omega
    have h : intOf (.ofHead .negint (-(v + 1)).toNat) = some (-1 - ((-(v + 1)).toNat : Int)) :=
      if_pos hn
    rw [h]
    congr 1
    omega

theorem accepted_intToken {flags : UInt32} {v : Int} (h₁ : -2 ^ 63 ≤ v) (h₂ : v < 2 ^ 63) :
  Accepted flags (intToken v)
  := by
  unfold intToken
  split
  · exact accepted_ofHead rfl (by rintro ⟨⟩) (by omega)
  · exact accepted_ofHead rfl (by rintro ⟨⟩) (by omega)

omit [Settings] in
theorem intToken_major (v : Int) :
  (intToken v).major = .uint ∨ (intToken v).major = .negint
  := by
  unfold intToken
  split
  · exact .inl rfl
  · exact .inr rfl

/-- The bytes at the cursor are no more than an object holds. -/
theorem DecCtx.Consumes.length_lt {ctx ctx' : DecCtx} {bs : Bytes} (h : ctx.Consumes bs ctx') :
  bs.length < 2 ^ 64
  := by
  have h₁ := h.length_rest_eq
  have h₂ := ctx.length_rest_le
  have h₃ := ctx.bufSz_le
  have h₄ := sizeMax_lt
  omega

/-- Items are read one after another when each is read for its bytes. -/
theorem runs_decodeMany {α : Type} {p : Dec α} {f : α → Bytes} {as : List α}
    (h : ∀ a ∈ as, ∀ ctx ctx', ctx.Consumes (f a) ctx' → Runs p ctx a ctx')
    {ctx ctx' : DecCtx} (hc : ctx.Consumes (as.flatMap f) ctx') :
  Runs (decodeMany p as.length) ctx as ctx'
  := by
  induction as generalizing ctx with
  | nil =>
      rw [List.flatMap_nil] at hc
      exact (runs_pure _ _ _ _).mpr ⟨rfl, ctx.consumes_nil.unique hc⟩
  | cons a as ih =>
      obtain ⟨ha, has⟩ := List.forall_mem_cons.mp h
      rw [List.flatMap_cons] at hc
      obtain ⟨ctx₁, hc₁, hc₂⟩ := hc.split
      simp only [List.length_cons, decodeMany, runs_bind, runs_pure]
      exact ⟨a, ctx₁, ha _ _ hc₁, as, ctx', ih has hc₂, rfl, rfl⟩

omit [Settings] in
theorem one_le_length_treeBytes (v : Tree) :
  1 ≤ (treeBytes v).length
  := by
  have head : ∀ t ts, 1 ≤ ((t :: ts).flatMap Token.bytes).length := by
    intro t ts
    have := t.one_le_length_bytes
    rw [List.flatMap_cons, List.length_append]
    omega
  unfold treeBytes
  cases v <;> exact head _ _

omit [Settings] in
theorem mul_length_le_length_flatMap {α : Type} {f : α → Bytes} {k : Nat} {as : List α}
    (h : ∀ a ∈ as, k ≤ (f a).length) :
  k * as.length ≤ (as.flatMap f).length
  := by
  induction as with
  | nil => exact Nat.le_refl 0
  | cons a as ih =>
      obtain ⟨ha, has⟩ := List.forall_mem_cons.mp h
      have h₁ := ih has
      rw [List.flatMap_cons, List.length_append, List.length_cons, Nat.mul_succ]
      omega

omit [Settings] in
theorem length_le_length_flatMap {α : Type} {f : α → Bytes} {as : List α} {a : α} (h : a ∈ as) :
  (f a).length ≤ (as.flatMap f).length
  := by
  obtain ⟨xs, ys, rfl⟩ := List.append_of_mem h
  rw [List.flatMap_append, List.flatMap_cons, List.length_append, List.length_append]
  omega

omit [Settings] in
theorem flatMap_treesTokens (vs : List Tree) :
  (treesTokens vs).flatMap Token.bytes = vs.flatMap treeBytes
  := by
  rw [treesTokens_eq, List.flatMap_assoc]
  rfl

omit [Settings] in
theorem flatMap_entriesTokens (es : List (Tree × Tree)) :
  (entriesTokens es).flatMap Token.bytes = es.flatMap fun e => treeBytes e.1 ++ treeBytes e.2
  := by
  simp only [entriesTokens_eq, List.flatMap_assoc, List.flatMap_append, treeBytes]

/-- What follows the first token of a tree at the cursor is no more than an object holds. -/
theorem length_lt_of_cons {v : Tree} {t : Token} {ts : List Token} {ctx ctx' : DecCtx}
    (hc : ctx.Consumes (treeBytes v) ctx') (hv : treeTokens v = t :: ts) :
  t.data.length + (ts.flatMap Token.bytes).length < 2 ^ 64
  := by
  have hl := hc.length_lt
  rw [treeBytes, hv, List.flatMap_cons, List.length_append, Token.length_bytes] at hl
  omega

/-- With a token at the cursor, the branch for its major type is taken. -/
theorem runs_decodeTreeWithin_succ {fuel : Nat} {t : Token} {r : Bytes} {ctx ctx₁ : DecCtx}
    (ht : t.WellFormed) (hc : ctx.Consumes (t.bytes ++ r) ctx₁) (v : Tree) (ctx' : DecCtx) :
  Runs (decodeTreeWithin (fuel + 1)) ctx v ctx'
    ↔ Runs (decodeNode (decodeTreeWithin fuel) t.major) ctx v ctx'
  := by
  simp only [decodeTreeWithin, runs_bind, runs_get]
  constructor
  · rintro ⟨_, _, ⟨rfl, rfl⟩, h⟩
    rwa [DecCtx.peekType_eq ht hc] at h
  · intro h
    refine ⟨ctx, ctx, ⟨rfl, rfl⟩, ?_⟩
    rwa [DecCtx.peekType_eq ht hc]

/-- A tree at the cursor is decoded by the branch for the major type of its first token,
once the fuel has been used for one level. -/
theorem runs_decodeTreeWithin_of_node {v : Tree} {t : Token} {ts : List Token} {fuel : Nat}
    {ctx ctx' : DecCtx} (hv : treeTokens v = t :: ts) (ht : t.WellFormed)
    (hfuel : (treeBytes v).length ≤ fuel) (hc : ctx.Consumes (treeBytes v) ctx')
    (node : ∀ fuel ctx₁, (ts.flatMap Token.bytes).length ≤ fuel → ctx.Consumes t.bytes ctx₁ →
      ctx₁.Consumes (ts.flatMap Token.bytes) ctx' →
      Runs (decodeNode (decodeTreeWithin fuel) t.major) ctx v ctx') :
  Runs (decodeTreeWithin fuel) ctx v ctx'
  := by
  rw [treeBytes, hv, List.flatMap_cons] at hfuel hc
  have hlen := t.one_le_length_bytes
  rw [List.length_append] at hfuel
  obtain ⟨fuel, rfl⟩ := Nat.exists_eq_add_one_of_ne_zero (show fuel ≠ 0 by omega)
  rw [runs_decodeTreeWithin_succ ht hc]
  obtain ⟨ctx₁, hc₁, hc₂⟩ := hc.split
  exact node fuel ctx₁ (by omega) hc₁ hc₂

/-- The bytes of a tree at the cursor are decoded to the tree. -/
theorem runs_decodeTreeWithin (v : Tree) {fuel : Nat} {ctx ctx' : DecCtx}
    (hfuel : (treeBytes v).length ≤ fuel) (hc : ctx.Consumes (treeBytes v) ctx') :
  Runs (decodeTreeWithin fuel) ctx v ctx'
  := by
  induction v using Tree.induct generalizing fuel ctx ctx' with
  | int v =>
      have ht : Accepted 0 (intToken v.toInt) := accepted_intToken v.le_toInt v.toInt_lt
      refine runs_decodeTreeWithin_of_node rfl ht.wellFormed hfuel hc fun _ ctx₁ _ hc₁ hc₂ => ?_
      obtain rfl := ctx₁.consumes_nil.unique hc₂
      have hv : Runs decodeInt ctx v.toInt ctx₁ :=
        (runs_decodeIntEx _ _ _ _).mpr ⟨decodeFlagsValid_zero, _, ht, hc₁,
          intOf_intToken v.le_toInt v.toInt_lt⟩
      have hr : Runs (do let v ← decodeInt; return Tree.int (Int64.ofInt v)) ctx (.int v) ctx₁ := by
        simp only [runs_bind, runs_pure]
        exact ⟨_, _, hv, by rw [Int64.ofInt_toInt], rfl⟩
      rcases intToken_major v.toInt with h | h <;> rw [h] <;> exact hr
  | bstr data =>
      have ht : Accepted 0 (Token.ofString .bstr data) :=
        accepted_ofString rfl (Nat.lt_of_le_of_lt (Nat.le_add_right _ _) (length_lt_of_cons hc rfl)) (by rintro ⟨⟩)
      refine runs_decodeTreeWithin_of_node rfl ht.wellFormed hfuel hc fun _ ctx₁ _ hc₁ hc₂ => ?_
      obtain rfl := ctx₁.consumes_nil.unique hc₂
      exact (runs_bind _ _ _ _ _).mpr ⟨data, ctx₁, (runs_decodeBstrEx _ _ _ _).mpr
        ⟨decodeFlagsValid_zero, _, ht, hc₁, rfl, rfl⟩, (runs_pure _ _ _ _).mpr ⟨rfl, rfl⟩⟩
  | tstr str =>
      have ht : Accepted 0 (Token.ofString .tstr str.bytes) :=
        accepted_ofString rfl (Nat.lt_of_le_of_lt (Nat.le_add_right _ _) (length_lt_of_cons hc rfl)) fun _ => str.valid
      refine runs_decodeTreeWithin_of_node rfl ht.wellFormed hfuel hc fun _ ctx₁ _ hc₁ hc₂ => ?_
      obtain rfl := ctx₁.consumes_nil.unique hc₂
      refine (runs_bind _ _ _ _ _).mpr ⟨str.bytes, ctx₁, (runs_decodeBytesEx _ _ _ _ _).mpr
        ⟨decodeFlagsValid_zero, _, ht, hc₁, rfl, rfl⟩, ?_⟩
      rw [Text.ofBytes?_bytes]
      exact (runs_pure _ _ _ _).mpr ⟨rfl, rfl⟩
  | array items ih =>
      have hchildren : items.length ≤ ((treesTokens items).flatMap Token.bytes).length := by
        rw [flatMap_treesTokens, ← Nat.one_mul items.length]
        exact mul_length_le_length_flatMap fun v _ => one_le_length_treeBytes v
      have hlt := length_lt_of_cons hc rfl
      have ht : Accepted 0 (Token.ofHead .array items.length) :=
        accepted_ofHead rfl (by rintro ⟨⟩) (by omega)
      refine runs_decodeTreeWithin_of_node rfl ht.wellFormed hfuel hc
        fun fuel ctx₁ hfuel hc₁ hc₂ => ?_
      refine (runs_bind _ _ _ _ _).mpr ⟨items.length, ctx₁, (runs_decodeArrayStartEx _ _ _ _).mpr
        ⟨decodeFlagsValid_zero, _, ht, hc₁, rfl, rfl, ?_⟩, ?_⟩
      · rw [hc₂.length_rest_eq]
        exact Nat.le_trans hchildren (Nat.le_add_right _ _)
      · rw [flatMap_treesTokens] at hfuel hc₂
        refine (runs_bind _ _ _ _ _).mpr ⟨items, ctx', runs_decodeMany (f := treeBytes) ?_ hc₂,
          (runs_pure _ _ _ _).mpr ⟨rfl, rfl⟩⟩
        intro v hv c c' hc
        exact ih v hv (Nat.le_trans (length_le_length_flatMap hv) hfuel) hc
  | map entries ih =>
      have hchildren : 2 * entries.length ≤ ((entriesTokens entries).flatMap Token.bytes).length := by
        rw [flatMap_entriesTokens]
        refine mul_length_le_length_flatMap fun e _ => ?_
        have h₁ := one_le_length_treeBytes e.1
        have h₂ := one_le_length_treeBytes e.2
        rw [List.length_append]
        omega
      have hlt := length_lt_of_cons hc rfl
      have ht : Accepted 0 (Token.ofHead .map entries.length) :=
        accepted_ofHead rfl (by rintro ⟨⟩) (by omega)
      refine runs_decodeTreeWithin_of_node rfl ht.wellFormed hfuel hc
        fun fuel ctx₁ hfuel hc₁ hc₂ => ?_
      refine (runs_bind _ _ _ _ _).mpr ⟨entries.length, ctx₁, (runs_decodeMapStartEx _ _ _ _).mpr
        ⟨decodeFlagsValid_zero, _, ht, hc₁, rfl, rfl, ?_⟩, ?_⟩
      · rw [hc₂.length_rest_eq]
        exact Nat.le_trans hchildren (Nat.le_add_right _ _)
      · rw [flatMap_entriesTokens] at hfuel hc₂
        refine (runs_bind _ _ _ _ _).mpr ⟨entries, ctx', runs_decodeMany ?_ hc₂,
          (runs_pure _ _ _ _).mpr ⟨rfl, rfl⟩⟩
        intro e he c c' hc
        have hle : (treeBytes e.1 ++ treeBytes e.2).length ≤ fuel :=
          Nat.le_trans
            (length_le_length_flatMap (f := fun e => treeBytes e.1 ++ treeBytes e.2) he) hfuel
        rw [List.length_append] at hle
        obtain ⟨c₁, h₁, h₂⟩ := hc.split
        simp only [runs_bind, runs_pure]
        exact ⟨_, _, (ih e he).1 (by omega) h₁, _, _, (ih e he).2 (by omega) h₂, rfl, rfl⟩
  | tag tag item ih =>
      have ht : Accepted 0 (Token.ofHead .tag tag.toNat) := accepted_ofHead rfl (by rintro ⟨⟩) tag.toNat_lt
      refine runs_decodeTreeWithin_of_node rfl ht.wellFormed hfuel hc
        fun fuel ctx₁ hfuel hc₁ hc₂ => ?_
      refine (runs_bind _ _ _ _ _).mpr ⟨tag.toNat, ctx₁, (runs_decodeTagEx _ _ _ _).mpr
        ⟨decodeFlagsValid_zero, _, ht, hc₁, rfl, rfl⟩, ?_⟩
      refine (runs_bind _ _ _ _ _).mpr ⟨item, ctx', ih hfuel hc₂, ?_⟩
      exact (runs_pure _ _ _ _).mpr ⟨by rw [UInt64.ofNat_toNat], rfl⟩
  | bool b =>
      have ht : Accepted 0 (Token.ofHead .simple (if b then 21 else 20)) :=
        accepted_ofSimple (by split <;> decide)
      refine runs_decodeTreeWithin_of_node rfl ht.wellFormed hfuel hc fun _ ctx₁ _ hc₁ hc₂ => ?_
      obtain rfl := ctx₁.consumes_nil.unique hc₂
      refine (runs_bind _ _ _ _ _).mpr ⟨_, ctx₁, (runs_decodeHeadEx _ _ _ _).mpr
        ⟨decodeFlagsValid_zero, _, ht, hc₁, rfl⟩, ?_⟩
      cases b
      · exact (runs_pure _ _ _ _).mpr ⟨rfl, rfl⟩
      · exact (runs_pure _ _ _ _).mpr ⟨rfl, rfl⟩
  | null =>
      have ht : Accepted 0 (Token.ofHead .simple 22) := accepted_ofSimple (by decide)
      refine runs_decodeTreeWithin_of_node rfl ht.wellFormed hfuel hc fun _ ctx₁ _ hc₁ hc₂ => ?_
      obtain rfl := ctx₁.consumes_nil.unique hc₂
      exact (runs_bind _ _ _ _ _).mpr ⟨_, ctx₁, (runs_decodeHeadEx _ _ _ _).mpr
        ⟨decodeFlagsValid_zero, _, ht, hc₁, rfl⟩, (runs_pure _ _ _ _).mpr ⟨rfl, rfl⟩⟩

/-! ### The tokens that are decoded -/

/-- Between the contexts stand accepted tokens that are decoded to the same items as the
given ones. -/
def DecCtx.ReadsTokens (ctx : DecCtx) (us : List Token) (ctx' : DecCtx) : Prop :=
  ∃ ts : List Token, (∀ t ∈ ts, Accepted 0 t) ∧ ts.map tokenItem = us.map tokenItem
    ∧ ctx.Consumes (ts.flatMap Token.bytes) ctx'

namespace DecCtx.ReadsTokens

variable {ctx ctx₁ ctx' : DecCtx} {us vs : List Token}

theorem nil (ctx : DecCtx) :
  ctx.ReadsTokens [] ctx
  := ⟨[], List.forall_mem_nil _, rfl, ctx.consumes_nil⟩

theorem one {t u : Token} (ht : Accepted 0 t) (h : tokenItem t = tokenItem u)
    (hc : ctx.Consumes t.bytes ctx') :
  ctx.ReadsTokens [u] ctx'
  := by
  refine ⟨[t], List.forall_mem_singleton.mpr ht, congrArg (fun i => [i]) h, ?_⟩
  rwa [List.flatMap_singleton]

theorem append (h₁ : ctx.ReadsTokens us ctx₁) (h₂ : ctx₁.ReadsTokens vs ctx') :
  ctx.ReadsTokens (us ++ vs) ctx'
  := by
  obtain ⟨ts₁, ha₁, hm₁, hc₁⟩ := h₁
  obtain ⟨ts₂, ha₂, hm₂, hc₂⟩ := h₂
  refine ⟨ts₁ ++ ts₂, List.forall_mem_append.mpr ⟨ha₁, ha₂⟩, ?_, ?_⟩
  · rw [List.map_append, List.map_append, hm₁, hm₂]
  · rw [List.flatMap_append]
    exact hc₁.trans hc₂

end DecCtx.ReadsTokens

/-- Items read one after another are read from the tokens of each. -/
theorem readsTokens_decodeMany {α : Type} {p : Dec α} {f : α → List Token}
    (h : ∀ ctx a ctx', Runs p ctx a ctx' → ctx.ReadsTokens (f a) ctx') {n : Nat} {as : List α}
    {ctx ctx' : DecCtx} (hr : Runs (decodeMany p n) ctx as ctx') :
  as.length = n ∧ ctx.ReadsTokens (as.flatMap f) ctx'
  := by
  induction n generalizing as ctx with
  | zero =>
      obtain ⟨rfl, rfl⟩ := (runs_pure _ _ _ _).mp hr
      exact ⟨rfl, .nil ctx⟩
  | succ n ih =>
      simp only [decodeMany, runs_bind, runs_pure] at hr
      obtain ⟨a, ctx₁, ha, as, ctx₂, has, rfl, rfl⟩ := hr
      obtain ⟨hl, hreads⟩ := ih has
      rw [List.length_cons, List.flatMap_cons, hl]
      exact ⟨rfl, (h _ _ _ ha).append hreads⟩

omit [Settings] in
/-- A token without content is decoded to the same item as the head in the shortest form. -/
theorem tokenItem_ofHead {t : Token} (ht : t.WellFormed) (hs : t.major.isString = false) :
  tokenItem t = tokenItem (.ofHead t.major t.val)
  := by
  have hl := ht.length_data
  rw [hs] at hl
  rw [tokenItem, List.eq_nil_of_length_eq_zero hl]
  rfl

omit [Settings] in
theorem tokenItem_ofString {t : Token} (ht : t.WellFormed) (hs : t.major.isString = true) :
  tokenItem t = tokenItem (.ofString t.major t.data)
  := by
  have hl := ht.length_data
  rw [hs, if_pos rfl] at hl
  rw [tokenItem, ← hl]
  rfl

omit [Settings] in
/-- An integer that is read fits `int64_t`, and its token spells it. -/
theorem tokenItem_intToken {t : Token} {v : Int} (ht : t.WellFormed) (h : intOf t = some v) :
  tokenItem t = tokenItem (intToken (Int64.ofInt v).toInt)
  := by
  unfold intOf at h
  split at h
  · rename_i hm
    obtain ⟨hle, hv⟩ := Option.ite_none_right_eq_some.mp h
    obtain rfl := Option.some.inj hv
    rw [Int64.toInt_ofInt_of_le (by omega) (by omega), intToken, if_pos (by omega),
      Int.toNat_natCast, tokenItem_ofHead ht (by rw [hm]; rfl), hm]
  · rename_i hm
    obtain ⟨hle, hv⟩ := Option.ite_none_right_eq_some.mp h
    obtain rfl := Option.some.inj hv
    have hn : (-(-1 - (t.val : Int) + 1)).toNat = t.val := by omega
    rw [Int64.toInt_ofInt_of_le (by omega) (by omega), intToken, if_neg (by omega), hn,
      tokenItem_ofHead ht (by rw [hm]; rfl), hm]
  · cases h

omit [Settings] in
theorem tokenItem_simple {t : Token} {v : Tree} (ht : t.WellFormed)
    (h : simpleTree (tokenItem t) = some v) :
  ∃ u, treeTokens v = [u] ∧ tokenItem t = tokenItem u
  := by
  have item : ∀ n, (tokenItem t).majorType = .simple ∧ (tokenItem t).val = n →
      tokenItem t = tokenItem (.ofHead .simple n) := by
    rintro n ⟨hm, hv⟩
    change t.major = .simple at hm
    change t.val = n at hv
    rw [tokenItem_ofHead ht (by rw [hm]; rfl), hm, hv]
  unfold simpleTree at h
  split at h
  · obtain rfl := Option.some.inj h
    exact ⟨_, rfl, item 20 (by assumption)⟩
  split at h
  · obtain rfl := Option.some.inj h
    exact ⟨_, rfl, item 21 (by assumption)⟩
  split at h
  · obtain rfl := Option.some.inj h
    exact ⟨_, rfl, item 22 (by assumption)⟩
  · cases h

/-- One node of a tree is decoded only from tokens that are decoded to the same items as its
own, if this holds of the trees below it. -/
theorem readsTokens_decodeNode {next : Dec Tree}
    (hnext : ∀ ctx v ctx', Runs next ctx v ctx' → ctx.ReadsTokens (treeTokens v) ctx')
    {m : MajorType} {ctx ctx' : DecCtx} {v : Tree} (h : Runs (decodeNode next m) ctx v ctx') :
  ctx.ReadsTokens (treeTokens v) ctx'
  := by
  have int : Runs (do let v ← decodeInt; return Tree.int (Int64.ofInt v)) ctx v ctx' →
      ctx.ReadsTokens (treeTokens v) ctx' := by
    intro h
    simp only [runs_bind, runs_pure] at h
    obtain ⟨i, _, hi, rfl, rfl⟩ := h
    obtain ⟨-, t, ht, hc, hv⟩ := (runs_decodeIntEx _ _ _ _).mp hi
    exact .one ht (tokenItem_intToken ht.wellFormed hv) hc
  cases m with
  | uint => exact int h
  | negint => exact int h
  | bstr =>
      simp only [decodeNode, runs_bind, runs_pure] at h
      obtain ⟨data, _, hd, rfl, rfl⟩ := h
      obtain ⟨-, t, ht, hc, hm, rfl⟩ := (runs_decodeBstrEx _ _ _ _).mp hd
      refine .one ht ?_ hc
      rw [tokenItem_ofString ht.wellFormed (by rw [hm]; rfl), hm]
  | tstr =>
      simp only [decodeNode, runs_bind] at h
      obtain ⟨str, _, hd, h⟩ := h
      obtain ⟨-, t, ht, hc, hm, rfl⟩ := (runs_decodeBytesEx _ _ _ _ _).mp hd
      rw [Text.ofBytes?, dif_pos (ht.utf8 hm)] at h
      obtain ⟨rfl, rfl⟩ := (runs_pure _ _ _ _).mp h
      refine .one ht ?_ hc
      rw [tokenItem_ofString ht.wellFormed (by rw [hm]; rfl), hm]
  | array =>
      simp only [decodeNode, runs_bind, runs_pure] at h
      obtain ⟨n, ctx₁, hn, items, _, hitems, rfl, rfl⟩ := h
      obtain ⟨-, t, ht, hc, hm, rfl, -⟩ := (runs_decodeArrayStartEx _ _ _ _).mp hn
      obtain ⟨hl, hreads⟩ := readsTokens_decodeMany hnext hitems
      rw [treeTokens, treesTokens_eq, hl, ← hm]
      exact (DecCtx.ReadsTokens.one ht
        (tokenItem_ofHead ht.wellFormed (by rw [hm]; rfl)) hc).append hreads
  | map =>
      simp only [decodeNode, runs_bind, runs_pure] at h
      obtain ⟨n, ctx₁, hn, entries, _, hentries, rfl, rfl⟩ := h
      obtain ⟨-, t, ht, hc, hm, rfl, -⟩ := (runs_decodeMapStartEx _ _ _ _).mp hn
      obtain ⟨hl, hreads⟩ := readsTokens_decodeMany
        (f := fun e => treeTokens e.1 ++ treeTokens e.2) (fun c e c' he => by
          simp only [runs_bind, runs_pure] at he
          obtain ⟨k, c₁, hk, w, _, hw, rfl, rfl⟩ := he
          exact (hnext _ _ _ hk).append (hnext _ _ _ hw)) hentries
      rw [treeTokens, entriesTokens_eq, hl, ← hm]
      exact (DecCtx.ReadsTokens.one ht
        (tokenItem_ofHead ht.wellFormed (by rw [hm]; rfl)) hc).append hreads
  | tag =>
      simp only [decodeNode, runs_bind, runs_pure] at h
      obtain ⟨n, ctx₁, hn, item, _, hitem, rfl, rfl⟩ := h
      obtain ⟨-, t, ht, hc, hm, rfl⟩ := (runs_decodeTagEx _ _ _ _).mp hn
      have hlt : t.val < UInt64.size :=
        Nat.lt_of_lt_of_le ht.wellFormed.val_lt (Width.bound_le _)
      rw [treeTokens, UInt64.toNat_ofNat_of_lt' hlt, ← hm]
      exact (DecCtx.ReadsTokens.one ht
        (tokenItem_ofHead ht.wellFormed (by rw [hm]; rfl)) hc).append (hnext _ _ _ hitem)
  | simple =>
      simp only [decodeNode, runs_bind] at h
      obtain ⟨item, ctx₁, hi, h⟩ := h
      obtain ⟨-, t, ht, hc, rfl⟩ := (runs_decodeHeadEx _ _ _ _).mp hi
      split at h
      · rename_i w hw
        obtain ⟨rfl, rfl⟩ := (runs_pure _ _ _ _).mp h
        obtain ⟨u, hu, e⟩ := tokenItem_simple ht.wellFormed hw
        rw [hu]
        exact .one ht e hc
      · exact absurd h (runs_throw _ _ _ _)

/-- A tree is decoded only from tokens that are decoded to the same items as its own. -/
theorem readsTokens_decodeTreeWithin {fuel : Nat} {ctx ctx' : DecCtx} {v : Tree}
    (h : Runs (decodeTreeWithin fuel) ctx v ctx') :
  ctx.ReadsTokens (treeTokens v) ctx'
  := by
  induction fuel generalizing ctx ctx' v with
  | zero => exact absurd h (runs_throw _ _ _ _)
  | succ fuel ih =>
      simp only [decodeTreeWithin, runs_bind, runs_get] at h
      obtain ⟨_, _, ⟨rfl, rfl⟩, h⟩ := h
      split at h
      · exact absurd h (runs_throw _ _ _ _)
      exact readsTokens_decodeNode (fun c w c' hw => ih hw) h

theorem readsTokens_decodeTree {ctx ctx' : DecCtx} {v : Tree} (h : Runs decodeTree ctx v ctx') :
  ctx.ReadsTokens (treeTokens v) ctx'
  := by
  simp only [decodeTree, runs_bind, runs_get] at h
  obtain ⟨_, _, ⟨rfl, rfl⟩, h⟩ := h
  exact readsTokens_decodeTreeWithin h

/-! ### Canonical encodings -/

/-- No head in a byte string is that of a floating-point number: the byte string is made of
tokens, and on major type 7 the argument takes at most one byte. -/
def NoFloatHead (bs : Bytes) : Prop :=
  ∃ ts : List Token, (∀ t ∈ ts, t.WellFormed ∧ (t.major = .simple → t.width.size ≤ 1))
    ∧ bs = ts.flatMap Token.bytes

omit [Settings] in
theorem eq_of_tokenItem_eq {t u : Token} (hw : t.width = u.width)
    (h : tokenItem t = tokenItem u) :
  t = u
  := by
  obtain ⟨w, m, v, d⟩ := t
  obtain ⟨w', m', v', d'⟩ := u
  simp only [tokenItem, Item.mk.injEq] at h hw
  obtain ⟨rfl, rfl, rfl⟩ := h
  rw [hw]

omit [Settings] in
theorem wellFormed_of_tokenItem_eq {t u : Token} (ht : t.WellFormed)
    (hu : u.width = Width.preferred u.val) (h : tokenItem t = tokenItem u) :
  u.WellFormed
  := by
  obtain ⟨w, m, v, d⟩ := t
  obtain ⟨w', m', v', d'⟩ := u
  simp only [tokenItem, Item.mk.injEq] at h
  obtain ⟨rfl, rfl, rfl⟩ := h
  refine ⟨?_, ht.length_data⟩
  change v < w'.bound
  rw [show w' = Width.preferred v from hu]
  exact Width.lt_bound_preferred (Nat.lt_of_lt_of_le ht.val_lt (Width.bound_le w))

/-- An accepted token whose argument, if it is on major type 7, takes at most one byte and
is below 24 has the shortest width. -/
theorem Accepted.preferred_of_size {t : Token} (ht : Accepted 0 t)
    (h : t.major = .simple → t.width.size ≤ 1 ∧ t.val < 24) :
  t.width = Width.preferred t.val
  := by
  by_cases hm : t.major = .simple
  · obtain ⟨hs, hv⟩ := h hm
    rw [preferred_of_lt hv]
    have hsimple := ht.simple hm
    cases hw : t.width with
    | imm => rfl
    | one =>
        have := hsimple hw
        omega
    | two | four | eight =>
        rw [hw] at hs
        exact absurd hs (by decide)
  · exact ht.preferred allowsNonpreferred_zero hm

/-- The tokens that are decoded to a tree are the tree's own exactly if none of them is a
floating-point head. -/
theorem eq_treeTokens_iff {v : Tree} {ts : List Token} (ha : ∀ t ∈ ts, Accepted 0 t)
    (hm : ts.map tokenItem = (treeTokens v).map tokenItem) :
  ts = treeTokens v ↔ ∀ t ∈ ts, t.major = .simple → t.width.size ≤ 1
  := by
  constructor
  · rintro rfl t ht hs
    rw [imm_treeTokens v t ht hs]
    decide
  · intro hs
    have hl : ts.length = (treeTokens v).length := by
      rw [← List.length_map (f := tokenItem), hm, List.length_map]
    refine List.ext_getElem hl fun i h₁ h₂ => ?_
    have hi : tokenItem ts[i] = tokenItem (treeTokens v)[i] := by
      have := List.getElem_of_eq hm (i := i) (by rwa [List.length_map])
      rwa [List.getElem_map, List.getElem_map] at this
    have hmaj : ts[i].major = (treeTokens v)[i].major := congrArg Item.majorType hi
    have hval : ts[i].val = (treeTokens v)[i].val := congrArg Item.val hi
    have hmem := List.getElem_mem h₂
    refine eq_of_tokenItem_eq ?_ hi
    rw [preferred_treeTokens v _ hmem, ← hval]
    refine (ha _ (List.getElem_mem h₁)).preferred_of_size fun hsimple => ?_
    refine ⟨hs _ (List.getElem_mem h₁) hsimple, ?_⟩
    -- a simple value of a tree stands in the initial byte
    have himm := imm_treeTokens v _ hmem (hmaj ▸ hsimple)
    rw [preferred_treeTokens v _ hmem, ← hval] at himm
    unfold Width.preferred at himm
    split at himm
    · omega
    · repeat' split at himm
      all_goals cases himm

/-- A tree that was decoded from a byte string is encoded to the same byte string exactly if
no head in it is that of a floating-point number. -/
theorem DecCtx.ReadsTokens.treeBytes_eq_iff {ctx ctx' : DecCtx} {v : Tree} {bs : Bytes}
    (h : ctx.ReadsTokens (treeTokens v) ctx') (hc : ctx.Consumes bs ctx') :
  treeBytes v = bs ↔ NoFloatHead bs
  := by
  obtain ⟨ts, ha, hm, hts⟩ := h
  obtain rfl := hts.bytes_unique hc
  have hwf : ∀ t ∈ ts, t.WellFormed := fun t ht => (ha t ht).wellFormed
  constructor
  · intro he
    have hu : ∀ u ∈ treeTokens v, u.WellFormed := by
      intro u hu
      have hu' := List.mem_map_of_mem (f := tokenItem) hu
      rw [← hm] at hu'
      obtain ⟨t, ht, e⟩ := List.mem_map.mp hu'
      exact wellFormed_of_tokenItem_eq (hwf t ht) (preferred_treeTokens v u hu) e
    obtain rfl := Token.flatMap_bytes_injective hu hwf he
    exact ⟨_, fun t ht => ⟨hwf t ht, fun hs => (eq_treeTokens_iff ha hm).mp rfl t ht hs⟩, rfl⟩
  · rintro ⟨us, hus, e⟩
    obtain rfl := Token.flatMap_bytes_injective hwf (fun u hu => (hus u hu).1) e
    rw [treeBytes, ← (eq_treeTokens_iff ha hm).mpr fun t ht => (hus t ht).2]

/-- What an encoder has written stands at its old cursor for a decoder. -/
theorem consumes_put {ctx : EncCtx} {bs : Bytes} (h : ctx.idx + bs.length ≤ ctx.bufSz) :
  DecCtx.Consumes ⟨(ctx.put bs).buf, ctx.idx⟩ bs ⟨(ctx.put bs).buf, (ctx.put bs).idx⟩
  := by
  have hidx : (ctx.buf.bytes.take ctx.idx).length = ctx.idx :=
    List.length_take_of_le (Nat.le_trans (Nat.le_add_right _ _) h)
  refine ⟨⟨ctx.buf.bytes.drop (ctx.idx + bs.length), ?_⟩, rfl⟩
  change _ = (Bytes.overwrite ctx.buf.bytes ctx.idx bs).drop ctx.idx
  rw [Bytes.overwrite_eq h, List.append_assoc, List.drop_left' hidx]

/-- Encoding a tree into any buffer with room for it and decoding it from where it was
written gives the tree and ends where the encoder ended.  Decoding a tree from any bytes and
encoding it gives those bytes back exactly if no head in them is that of a floating-point
number, and a tree is decoded from at most one such byte string. -/
theorem encode_decode_tree :
  (∀ (v : Tree) (ctx : EncCtx), ctx.idx + (treeBytes v).length ≤ ctx.bufSz →
      ∃ ctx', Runs (encodeTree v) ctx () ctx' ∧
        Runs decodeTree ⟨ctx'.buf, ctx.idx⟩ v ⟨ctx'.buf, ctx'.idx⟩)
    ∧ (∀ (ctx ctx' : DecCtx) (v : Tree) (bs : Bytes), Runs decodeTree ctx v ctx' →
        ctx.Consumes bs ctx' →
        ((∀ buf : Buffer, bs.length ≤ buf.bytes.length → encodeInto (encodeTree v) buf = .ok bs)
          ↔ NoFloatHead bs))
    ∧ ∀ (ctx₁ ctx₁' ctx₂ ctx₂' : DecCtx) (v : Tree) (bs₁ bs₂ : Bytes),
        Runs decodeTree ctx₁ v ctx₁' → ctx₁.Consumes bs₁ ctx₁' → NoFloatHead bs₁ →
        Runs decodeTree ctx₂ v ctx₂' → ctx₂.Consumes bs₂ ctx₂' → NoFloatHead bs₂ → bs₁ = bs₂
  := by
  refine ⟨?_, ?_, ?_⟩
  · intro v ctx hroom
    refine ⟨ctx.put (treeBytes v), (emits_encodeTree v).runs_of_fits hroom, ?_⟩
    simp only [decodeTree, runs_bind, runs_get]
    refine ⟨_, _, ⟨rfl, rfl⟩, runs_decodeTreeWithin v ?_ (consumes_put hroom)⟩
    have hsize : DecCtx.bufSz ⟨(ctx.put (treeBytes v)).buf, ctx.idx⟩ = ctx.bufSz :=
      ctx.bufSz_put (treeBytes v)
    omega
  · intro ctx ctx' v bs hr hc
    rw [← (readsTokens_decodeTree hr).treeBytes_eq_iff hc]
    have hne : treeBytes v ≠ [] := List.ne_nil_of_length_pos (one_le_length_treeBytes v)
    simp only [(emits_encodeTree v).encodeInto_iff hne]
    constructor
    · intro h
      have hl : bs.length ≤ sizeMax := by
        have h₁ := hc.length_rest_eq
        have h₂ := ctx.length_rest_le
        have h₃ := ctx.bufSz_le
        omega
      exact (h ⟨bs, hl⟩ (Nat.le_refl _)).2.symm
    · rintro rfl buf hroom
      exact ⟨hroom, rfl⟩
  · intro ctx₁ ctx₁' ctx₂ ctx₂' v bs₁ bs₂ h₁ hc₁ hn₁ h₂ hc₂ hn₂
    rw [← ((readsTokens_decodeTree h₁).treeBytes_eq_iff hc₁).mpr hn₁]
    exact ((readsTokens_decodeTree h₂).treeBytes_eq_iff hc₂).mpr hn₂

end

section Instances

attribute [local instance] defaultSettings

/-- The array of `-1`, the map from `1` to a byte string, and `null`. -/
def sampleTree : Tree := .array [.int (-1), .map [(.int 1, .bstr [0x02])], .null]

theorem encode_decode_tree_instance :
  (∃ ctx', Runs (encodeTree sampleTree) (.init (.ofBytes (List.replicate 8 0))) () ctx' ∧
      Runs decodeTree ⟨ctx'.buf, 0⟩ sampleTree ⟨ctx'.buf, ctx'.idx⟩)
    ∧ ((∀ buf : Buffer, 7 ≤ buf.bytes.length → encodeInto (encodeTree sampleTree) buf
        = .ok [0x83, 0x20, 0xA1, 0x01, 0x41, 0x02, 0xF6])
      ↔ NoFloatHead [0x83, 0x20, 0xA1, 0x01, 0x41, 0x02, 0xF6])
  := by
  constructor
  · exact encode_decode_tree.1 sampleTree _ (by decide)
  · exact encode_decode_tree.2.1 (.init (.ofBytes [0x83, 0x20, 0xA1, 0x01, 0x41, 0x02, 0xF6]))
      _ sampleTree _ rfl (DecCtx.consumes_of_rest (List.append_nil _).symm)

/-- The half-precision number with the bits `0x0014` is decoded as `false`, which also has
its own byte, and is encoded as that byte. -/
theorem false_decoded_from_float :
  (∃ ctx', Runs decodeTree (.init (.ofBytes [0xF9, 0x00, 0x14])) (.bool false) ctx'
      ∧ DecCtx.Consumes (.init (.ofBytes [0xF9, 0x00, 0x14])) [0xF9, 0x00, 0x14] ctx')
    ∧ (∃ ctx', Runs decodeTree (.init (.ofBytes [0xF4])) (.bool false) ctx'
      ∧ DecCtx.Consumes (.init (.ofBytes [0xF4])) [0xF4] ctx')
    ∧ encodeInto (encodeTree (.bool false)) (.ofBytes [0x00, 0x00, 0x00]) = .ok [0xF4]
  := by
  refine ⟨⟨_, rfl, DecCtx.consumes_of_rest (List.append_nil _).symm⟩,
    ⟨_, rfl, DecCtx.consumes_of_rest (List.append_nil _).symm⟩, rfl⟩

end Instances

end WolfCose
