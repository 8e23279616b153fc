import WolfCose.Lib.Checks
import WolfCose.Codec.Decode

/-!
# Programs that may leave what C defines

The functions of the library that work with key objects may do something that C leaves
undefined: follow a pointer as if it pointed to an object of another type.  Such a function
ends with an error code or with that; the functions that only read and write buffers are
lifted among them.
-/

namespace WolfCose

open Program Settings

/-- How a function ends that does not succeed: with an error code, or by doing something
that C leaves undefined. -/
inductive Fault where
  | err (e : Err)
  | undefined
  deriving DecidableEq, Repr

/-- The result of a function that may leave what C defines. -/
abbrev Checked (α : Type) := Except Fault α

variable {α : Type}

/-- A function with an error code among those that may leave what C defines. -/
def lift (x : Except Err α) : Checked α :=
  x.mapError .err

/-- The step `if (bad) ret = e;`. -/
def failWhen (bad : Prop) [Decidable bad] (e : Err) : Checked Unit :=
  rejectIf bad (.err e)

@[simp]
theorem lift_eq_ok {x : Except Err α} {a : α} :
  lift x = .ok a ↔ x = .ok a
  := mapError_eq_ok

@[simp]
theorem failWhen_eq_ok {bad : Prop} [Decidable bad] {e : Err} {u : Unit} :
  failWhen bad e = .ok u ↔ ¬ bad
  := rejectIf_eq_ok

/-- A step whose errors are all reported as the given one. -/
def failAs (e : Err) : Checked α → Checked α
  | .error (.err _) => .error (.err e)
  | r => r

@[simp]
theorem failAs_eq_ok {e : Err} {x : Checked α} {a : α} :
  failAs e x = .ok a ↔ x = .ok a
  := by
  unfold failAs
  split <;> simp

/-- The function stays within what C defines. -/
abbrev Defined (x : Checked α) : Prop :=
  Avoids .undefined x

theorem defined_lift (x : Except Err α) :
  Defined (lift x)
  := Avoids.mapError (by rintro _ ⟨⟩) x

theorem defined_failWhen {bad : Prop} [Decidable bad] {e : Err} :
  Defined (failWhen bad e)
  := Avoids.rejectIf (by rintro ⟨⟩)

variable [Settings]

/-- What a decoder returns for a whole buffer. -/
def decodeBuffer (p : Dec α) (b : Buffer) : Checked α :=
  match p (.init b) with
  | .ok a _ => .ok a
  | .error e _ => .error (.err e)

@[simp]
theorem decodeBuffer_eq_ok {p : Dec α} {b : Buffer} {a : α} :
  decodeBuffer p b = .ok a ↔ ∃ ctx', Runs p (.init b) a ctx'
  := by
  unfold decodeBuffer Runs
  cases p (.init b) with
  | ok a' ctx' => simp
  | error e ctx' => simp

theorem defined_decodeBuffer (p : Dec α) (b : Buffer) :
  Defined (decodeBuffer p b)
  := by
  unfold decodeBuffer
  split
  · apply Avoids.ok
  · apply Avoids.error
    rintro ⟨⟩

end WolfCose
