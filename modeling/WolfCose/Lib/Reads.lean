import WolfCose.Lib.Bytes
import WolfCose.Lib.StateError

/-!
# Reading memory

Memory is a byte for every index, so that a program may read any of it; the indices that it reads
are recorded.  `ReadsBelow len p x` says that the program `p` has the result `x` and reads only
indices below `len`.
-/

namespace Program

variable {ε α β : Type}

/-- A program that reads memory. -/
abbrev Reading (ε α : Type) := EStateM ε (List Nat) α

/-- The byte at an index. -/
def readByte (memory : Nat → UInt8) (i : Nat) : Reading ε UInt8 := do
  modify (· ++ [i])
  return memory i

/-- The `n` bytes from an index on. -/
def readBytes (memory : Nat → UInt8) (i n : Nat) : Reading ε Bytes := do
  modify (· ++ List.range' i n)
  return (List.range' i n).map memory

/-- The end of a program with a result. -/
def endsWith (x : Except ε α) (reads : List Nat) : EStateM.Result ε (List Nat) α :=
  match x with
  | .ok a => .ok a reads
  | .error e => .error e reads

/-- A program has a result, and reads below a length only. -/
def ReadsBelow (len : Nat) (p : Reading ε α) (x : Except ε α) : Prop :=
  ∀ reads, ∃ more, p reads = endsWith x (reads ++ more) ∧ ∀ j ∈ more, j < len

namespace ReadsBelow

variable {len : Nat} {p : Reading ε α} {x : Except ε α}

theorem ofExcept (x : Except ε α) :
  ReadsBelow len (MonadExcept.ofExcept x) x
  := by
  intro reads
  refine ⟨[], ?_, List.forall_mem_nil _⟩
  rw [List.append_nil]
  cases x <;> rfl

theorem pure (a : α) :
  ReadsBelow len (Pure.pure a : Reading ε α) (.ok a)
  := ofExcept (.ok a)

theorem failIf (bad : Prop) [Decidable bad] (e : ε) :
  ReadsBelow len (failIf bad e) (if bad then .error e else .ok ())
  := by
  intro reads
  refine ⟨[], ?_, List.forall_mem_nil _⟩
  rw [List.append_nil]
  unfold Program.failIf
  split <;> rfl

/-- A program and what follows read below the length if both do. -/
theorem bind {f : α → Reading ε β} {g : α → Except ε β} (hp : ReadsBelow len p x)
    (hf : ∀ a, x = .ok a → ReadsBelow len (f a) (g a)) :
  ReadsBelow len (p >>= f) (x >>= g)
  := by
  intro reads
  obtain ⟨more, hrun, hmore⟩ := hp reads
  cases x with
  | error e =>
      refine ⟨more, ?_, hmore⟩
      change EStateM.bind p f reads = _
      rw [EStateM.bind, hrun]
      rfl
  | ok a =>
      obtain ⟨more', hrun', hmore'⟩ := hf a rfl (reads ++ more)
      refine ⟨more ++ more', ?_, ?_⟩
      · change EStateM.bind p f reads = _
        rw [EStateM.bind, hrun, ← List.append_assoc]
        exact hrun'
      · rw [List.forall_mem_append]
        exact ⟨hmore, hmore'⟩

/-- A program succeeds with its result. -/
theorem runs_iff (h : ReadsBelow len p x) {reads : List Nat} {a : α} :
  (∃ reads', Runs p reads a reads') ↔ x = .ok a
  := by
  obtain ⟨more, hrun, -⟩ := h reads
  unfold Runs
  rw [hrun]
  cases x with
  | ok b => simp [endsWith]
  | error e => simp [endsWith]

/-- A program that succeeds, and what follows. -/
theorem bindOk {f : α → Reading ε β} {a : α} {y : Except ε β} (hp : ReadsBelow len p (.ok a))
    (hf : ReadsBelow len (f a) y) :
  ReadsBelow len (p >>= f) y
  := by
  apply bind (g := fun _ => y) hp
  intro a' ha
  obtain rfl := Except.ok.inj ha
  exact hf

theorem readByte {memory : Nat → UInt8} {i : Nat} (hi : i < len) :
  ReadsBelow len (readByte memory i : Reading ε UInt8) (.ok (memory i))
  := fun _ => ⟨[i], rfl, List.forall_mem_singleton.mpr hi⟩

theorem readBytes {memory : Nat → UInt8} {i n : Nat} (hi : i + n ≤ len) :
  ReadsBelow len (readBytes memory i n : Reading ε Bytes) (.ok ((List.range' i n).map memory))
  := by
  refine fun _ => ⟨List.range' i n, rfl, ?_⟩
  intro j hj
  rw [List.mem_range'_1] at hj
  omega

end ReadsBelow

/-- A program has a value, and reads below a length only. -/
def ReadsTo (len : Nat) (p : Reading ε α) (a : α) : Prop := ReadsBelow len p (.ok a)

namespace ReadsTo

variable {len : Nat} {p : Reading ε α} {a : α}

theorem pure (a : α) :
  ReadsTo len (Pure.pure a : Reading ε α) a
  := ReadsBelow.pure a

theorem bind {f : α → Reading ε β} {b : β} (hp : ReadsTo len p a) (hf : ReadsTo len (f a) b) :
  ReadsTo len (p >>= f) b
  := ReadsBelow.bindOk hp hf

end ReadsTo

/-! ### Bytes of memory -/

/-- The bytes below a length, from an index on. -/
def bytesFrom (memory : Nat → UInt8) (len i : Nat) : Bytes := (List.range' i (len - i)).map memory

section

variable {memory : Nat → UInt8} {len i : Nat}

theorem bytesFrom_of_lt (hi : i < len) :
  bytesFrom memory len i = memory i :: bytesFrom memory len (i + 1)
  := by
  obtain ⟨k, hk⟩ : ∃ k, len - i = k + 1 := ⟨len - i - 1, by omega⟩
  rw [bytesFrom, hk, List.range'_succ, List.map_cons, bytesFrom, show len - (i + 1) = k by omega]

theorem bytesFrom_of_le (hi : len ≤ i) :
  bytesFrom memory len i = []
  := by rw [bytesFrom, Nat.sub_eq_zero_of_le hi, List.range'_zero, List.map_nil]

theorem length_bytesFrom :
  (bytesFrom memory len i).length = len - i
  := by rw [bytesFrom, List.length_map, List.length_range']

theorem drop_bytesFrom (n : Nat) :
  (bytesFrom memory len i).drop n = bytesFrom memory len (i + n)
  := by
  rw [bytesFrom, ← List.map_drop, List.drop_range', bytesFrom]
  congr 2
  · omega
  · omega

theorem take_bytesFrom {n : Nat} (hn : i + n ≤ len) :
  (bytesFrom memory len i).take n = (List.range' i n).map memory
  := by
  rw [bytesFrom, ← List.map_take, List.take_range'_of_length_ge (by omega)]

end

end Program
