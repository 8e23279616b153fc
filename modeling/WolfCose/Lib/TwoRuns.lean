import WolfCose.Lib.Checks
import WolfCose.Lib.Bytes

/-!
# Two runs

Two runs of a program are related if both fail with the same error, or both succeed and their results
are related.  Two runs that write into buffers of the same size write the same if each byte of the
buffers ends up as the same byte in both, or is touched in neither.
-/

namespace Program

variable {ε α α' β β' : Type}

/-- Two results are the same error, or successful and related. -/
inductive Related (R : α → α' → Prop) : Except ε α → Except ε α' → Prop
  | ok {a : α} {a' : α'} : R a a' → Related R (.ok a) (.ok a')
  | error (e : ε) : Related R (.error e) (.error e)

namespace Related

variable {R : α → α' → Prop} {S : β → β' → Prop}

/-- A chain is related to another one if their parts are. -/
theorem bind {x : Except ε α} {x' : Except ε α'} {f : α → Except ε β} {f' : α' → Except ε β'} (hx : Related R x x')
    (hf : ∀ {a a'}, R a a' → Related S (f a) (f' a')) :
  Related S (x >>= f) (x' >>= f')
  := by
  cases hx with
  | ok h => exact hf h
  | error e => exact error e

/-- A step that is the same in both chains. -/
theorem bindSame (x : Except ε α) {f : α → Except ε β} {f' : α → Except ε β'}
    (hf : ∀ {a}, x = .ok a → Related S (f a) (f' a)) :
  Related S (x >>= f) (x >>= f')
  := by
  cases x with
  | ok a => exact hf rfl
  | error e => exact error e

theorem ite {c : Prop} [Decidable c] {x y : Except ε α} {x' y' : Except ε α'} (hx : c → Related R x x')
    (hy : ¬ c → Related R y y') :
  Related R (if c then x else y) (if c then x' else y')
  := by
  split
  · apply hx
    assumption
  · apply hy
    assumption

end Related

end Program

namespace Bytes

/-- The bytes of a byte string after writing over it. -/
theorem getElem?_overwrite (l : Bytes) (off : Nat) (ws : Bytes) (i : Nat) :
  (overwrite l off ws)[i]? = if off ≤ i ∧ i < off + ws.length ∧ i < l.length then ws[i - off]? else l[i]?
  := by
  induction l generalizing off ws i with
  | nil => rw [overwrite, if_neg (fun h => absurd h.2.2 (Nat.not_lt_zero i))]
  | cons b bs ih =>
      cases off with
      | zero =>
          cases ws with
          | nil => rw [overwrite_nil, if_neg (fun h => absurd h.2.1 (Nat.not_lt_zero i))]
          | cons w ws =>
              cases i with
              | zero => rw [overwrite, if_pos (by simp)]; rfl
              | succ i =>
                  rw [overwrite, List.getElem?_cons_succ, ih]
                  simp
      | succ n =>
          cases i with
          | zero => rw [overwrite, if_neg (by omega)]; rfl
          | succ i =>
              rw [overwrite, List.getElem?_cons_succ, ih]
              simp [Nat.add_right_comm n 1]

/-- Two byte strings that come from two others of the same length by writing the same bytes: each
byte is the same in both or has been written in neither. -/
structure SameWrites (l l' bs bs' : Bytes) : Prop where
  length_eq : bs.length = l.length
  length_eq' : bs'.length = l'.length
  length_same : l.length = l'.length
  byte : ∀ i : Nat, bs[i]? = bs'[i]? ∨ bs[i]? = l[i]? ∧ bs'[i]? = l'[i]?

namespace SameWrites

variable {l l' bs bs' : Bytes}

/-- Nothing has been written. -/
theorem start (h : l.length = l'.length) :
  SameWrites l l' l l'
  := ⟨rfl, rfl, h, fun _ => .inr ⟨rfl, rfl⟩⟩

theorem overwrite (h : SameWrites l l' bs bs') (off : Nat) (ws : Bytes) :
  SameWrites l l' (bs.overwrite off ws) (bs'.overwrite off ws)
  := by
  refine ⟨?_, ?_, h.length_same, ?_⟩
  · rw [length_overwrite, h.length_eq]
  · rw [length_overwrite, h.length_eq']
  · intro i
    rw [getElem?_overwrite, getElem?_overwrite, h.length_eq, h.length_eq', h.length_same]
    split
    · exact .inl rfl
    · exact h.byte i

/-- From the same byte string the same one results. -/
theorem eq (h : SameWrites l l bs bs') :
  bs = bs'
  := by
  apply List.ext_getElem?
  intro i
  rcases h.byte i with hi | ⟨hi, hi'⟩
  · exact hi
  · rw [hi, hi']

end SameWrites

end Bytes
