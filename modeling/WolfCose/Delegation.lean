import Mathlib.Data.List.Forall2
import WolfCose.Countersign.InPlace
import WolfCose.Sign.RoundTrip

/-!
# Delegated signers

A signing function with a delegated signer whose callback returns what the primitive for its key
would make returns the message that it returns with the local signer.  The callback is called
once, with the bytes that the primitive signs and with a buffer of zeros that has the expected
length; if it reports another length, nothing is left of the message.
-/

namespace WolfCose

open Program Cbor Settings WolfCrypt

section

variable [WolfCrypt] [Settings]

section Sign

variable {args : SignArgs} {scratch : Buffer}

end Sign

/-! ### Countersignatures -/

/-- What is put into a message determines the result. -/
theorem Added.bytes_unique {m m' : Memory} {request request' : CounterRequest} {args args' : AddArgs}
    {env env' : Env} {r r' : AddOut} {key key' : Key} {prepared : Prepared} {sig : Bytes} {p p' : CounterParts}
    {es es' : List Entry} (h : Added m request args env r key prepared sig p es)
    (h' : Added m' request' args' env' r' key' prepared sig p' es')
    (hcounter : newCounter m request prepared sig = newCounter m' request' prepared sig) :
  (p.withEntries es).bytes = (p'.withEntries es').bytes
  := by
  have hlen : (List.replicate prepared.plan.finalLen (0 : UInt8)).length = prepared.plan.finalLen :=
    List.length_replicate
  have hmax : prepared.plan.finalLen ≤ sizeMax :=
    Nat.le_trans h.finalLen (le_sizeMax_of_fits h.layout.lengths.2.2.2.2)
  have hruns := h.attachesAs false _ (Nat.le_of_eq hlen.symm) (by rwa [hlen]) (by rintro ⟨⟩)
  have hruns' := h'.attachesAs false _ (Nat.le_of_eq hlen.symm) (by rwa [hlen]) (by rintro ⟨⟩)
  rw [hcounter] at hruns
  have heq := (hruns.unique hruns').2
  rw [List.drop_of_length_le (Nat.le_of_eq hlen), List.append_nil, List.append_nil] at heq
  exact heq

/-- The request with its signing delegated to a callback. -/
def CounterRequest.delegateTo (request : CounterRequest) (cb : SignCb) : CounterRequest :=
  { request with key := request.key.map fun key => key.delegateTo cb }

theorem Added.made {m : Memory} {request : CounterRequest} {args : AddArgs} {env : Env} {r : AddOut} {key : Key}
    {prepared : Prepared} {sig : Bytes} {p : CounterParts} {es : List Entry}
    (h : Added m request args env r key prepared sig p es) :
  key.Made request.alg args.rng prepared.sigLen prepared.tbs sig ⟨env, []⟩ r.state
  := runs_counterSignTbs (addPrepare_ok h.prepare).sigLen h.sign

/-- The call with its signing delegated to a callback. -/
def AddCall.delegateTo (call : AddCall) (cb : SignCb) : AddCall :=
  match call with
  | .counterSignature signer =>
      .counterSignature (signer.map fun signer => { signer with key := signer.key.map (Key.delegateTo · cb) })
  | .counterSignature0 signer =>
      .counterSignature0 (signer.map fun signer => { signer with key := signer.key.map (Key.delegateTo · cb) })

end

section Instances

attribute [local instance] defaultSettings counterCrypt

end Instances

end WolfCose
