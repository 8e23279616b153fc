import WolfCose.Sig.Runs

/-!
# Delegated signing against local signing

A key may have its signing delegated to a callback.  If the callback returns the signatures that
the primitive for the key makes, then a delegated signing step that succeeds makes the signature
that the local step makes.  What a step does depends only on the environment it starts in, and
the calls it makes are added to those made before.
-/

namespace WolfCose

open Program Settings WolfCrypt

section

variable [WolfCrypt]

/-! ### Callbacks -/

/-- The key with its signing delegated to a callback. -/
def Key.delegateTo (key : Key) (cb : SignCb) : Key := { key with signCb := some cb }

variable [Settings]

variable {key : Key} {cb cb' : SignCb} {alg : Int} {rng : Option Rng} {scratchSz : Nat} {tbs sig sig' : Bytes}
  {call : SignCall} {s s' : SignState} {env' : Env}

/-- The bytes to be signed determine what is signed. -/
theorem Digest.unique {h h' : HashType} {d d' : Bytes} (hd : Digest alg tbs h d)
    (hd' : Digest alg tbs h' d') :
  d = d'
  := by
  have he := (hashFor_eq_ok (r := (h, d))).mpr hd
  rw [(hashFor_eq_ok (r := (h', d'))).mpr hd'] at he
  exact (Prod.mk.inj (Except.ok.inj he)).2.symm

theorem SignedInput.unique {input input' : Bytes} (h : SignedInput alg tbs input)
    (h' : SignedInput alg tbs input') :
  input = input'
  := by
  unfold SignedInput at h h'
  split at h
  · rename_i hh
    rw [if_pos hh] at h'
    obtain ⟨_, hd⟩ := h
    obtain ⟨_, hd'⟩ := h'
    apply hd.unique hd'
  · rename_i hh
    rw [if_neg hh] at h'
    rw [h, h']

omit [WolfCrypt] [Settings] in
/-- The end of a program with a given result. -/
def ending {ε σ α : Type} : Except ε α → σ → EStateM.Result ε σ α
  | .ok a, s => .ok a s
  | .error e, s => .error e s

/-- The result of a program and the environment it leaves depend on the environment it starts in,
and the calls it adds to those made before satisfy `P`. -/
def Appends {α : Type} (P : Invocation → Prop) (p : Signing α) : Prop :=
  ∀ env, ∃ x env' new, (∀ inv ∈ new, P inv) ∧
    ∀ before, p ⟨env, before⟩ = ending x ⟨env', before ++ new⟩

namespace Appends

variable {α β : Type} {P : Invocation → Prop} {p : Signing α} {f : α → Signing β}

omit [Settings]

theorem bind (hp : Appends P p) (hf : ∀ a, Appends P (f a)) :
  Appends P (p >>= f)
  := by
  intro env
  obtain ⟨x, env₁, new₁, hnew₁, hrun₁⟩ := hp env
  cases x with
  | ok a =>
      obtain ⟨y, env₂, new₂, hnew₂, hrun₂⟩ := hf a env₁
      refine ⟨y, env₂, new₁ ++ new₂, List.forall_mem_append.mpr ⟨hnew₁, hnew₂⟩, ?_⟩
      intro before
      change EStateM.bind p f _ = _
      rw [EStateM.bind, hrun₁, ← List.append_assoc, ← hrun₂]
      rfl
  | error e =>
      refine ⟨.error e, env₁, new₁, hnew₁, ?_⟩
      intro before
      change EStateM.bind p f _ = _
      rw [EStateM.bind, hrun₁]
      rfl

theorem check {x : Checked α} :
  Appends P (check x)
  := by
  intro env
  refine ⟨x, env, [], List.forall_mem_nil _, ?_⟩
  intro before
  rw [List.append_nil]
  cases x with
  | ok a => rfl
  | error e => rfl

theorem pure {a : α} :
  Appends P (Pure.pure a)
  := check (x := .ok a)

theorem throw {e : Fault} :
  Appends P (MonadExcept.throw e : Signing α)
  := check (x := .error e)

theorem withEnv {g : Env → α × Env} :
  Appends P (withEnv g)
  := by
  intro env
  refine ⟨.ok (g env).1, (g env).2, [], List.forall_mem_nil _, ?_⟩
  intro before
  rw [List.append_nil]
  rfl

theorem ite {c : Prop} [Decidable c] {q : Signing α} (hp : Appends P p) (hq : Appends P q) :
  Appends P (if c then p else q)
  := by
  split
  · exact hp
  · exact hq

/-- A run adds its calls whatever the calls before were. -/
theorem runs (h : Appends P p) {env : Env} {before : List Invocation} {a : α} {s' : SignState}
    (hr : Runs p ⟨env, before⟩ a s') :
  ∃ new, (∀ inv ∈ new, P inv) ∧ s'.invocations = before ++ new
    ∧ ∀ before', Runs p ⟨env, before'⟩ a ⟨s'.env, before' ++ new⟩
  := by
  obtain ⟨x, env', new, hnew, hrun⟩ := h env
  unfold Runs at *
  rw [hrun before] at hr
  cases x with
  | ok b =>
      obtain ⟨rfl, rfl⟩ := EStateM.Result.ok.inj hr
      exact ⟨new, hnew, rfl, fun before' => hrun before'⟩
  | error e => cases hr

end Appends

/-! ### What the steps call -/

/-- A callback that is called once reports the expected length. -/
theorem CallsBack.expected {inv : Invocation} {key' : Key} {alg' : Int} {call' : SignCall} {buf : Bytes} {n : Nat}
    (h : CallsBack key cb alg tbs call sig s s') (hinv : inv = .signCb key alg call (some (sig, sig.length)))
    (he : inv = .signCb key' alg' call' (some (buf, n))) :
  signSigLen (some key') alg' = .ok n
  := by
  rw [hinv] at he
  obtain ⟨rfl, rfl, -, he⟩ := Invocation.signCb.inj he
  obtain ⟨-, rfl⟩ := Prod.mk.inj (Option.some.inj he)
  exact h.length

end

end WolfCose
