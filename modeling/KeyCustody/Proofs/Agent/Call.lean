import KeyCustody.Agent.Basic
import Mathlib.Tactic.Common

/-!
# Calls as data

A `Call` is one call of the custodian with its arguments, and `Agent.serve` makes it. With calls as
data a statement about all of them, and a run that makes them in any order, can be written down.
-/

namespace KeyCustody

/-- A call of the custodian. -/
inductive Call where
  | provision (serviceKey certificate privateKey : Bytes)
  | register (measurements : List Measurement)
  | attest (ta : Uuid) (m : Measurement)
  | revoke (ta : Uuid)
  | search (key : KeyRef)
  | generate (key : KeyRef) (attributes : Bytes)
  | delete (key : KeyRef)
  | destroy (key : KeyRef)
  | exit (ta : Uuid)
  | poll (count : Nat) (accept : Bytes → Except Fault Unit)
  | submit (reply : Reply)
  | close

/-- What a call answers when it succeeds. -/
inductive Answer where
  | done
  | certificate (octets : Bytes)
  | count (n : Nat)
  | verdict (wasVerified : Bool)
  | lookup (outcome : Lookup)
  | sequence (n : Nat)
  | polled (outcome : Polled)
  | receipt (outcome : Receipt)
  deriving DecidableEq

namespace Agent

variable {σ : Type} [Store σ]

/-- The outcome of a call, with its answer among the answers of all calls. -/
def wrap {α : Type} (f : α → Answer) (outcome : Except Fault α × Agent σ) :
    Except Fault Answer × Agent σ :=
  (outcome.1.map f, outcome.2)

/-- Makes a call. -/
def serve (a : Agent σ) : Call → Except Fault Answer × Agent σ
  | .provision serviceKey certificate privateKey =>
    wrap .certificate (a.provision serviceKey certificate privateKey)
  | .register measurements => wrap .count (a.register measurements)
  | .attest ta m => wrap (fun _ => .done) (a.attest ta m)
  | .revoke ta => (.ok (.verdict (a.revoke ta).1), (a.revoke ta).2)
  | .search key => wrap .lookup (a.search key)
  | .generate key attributes => wrap .lookup (a.generate key attributes)
  | .delete key => wrap .sequence (a.delete key)
  | .destroy key => wrap .sequence (a.destroy key)
  | .exit ta => wrap .count (a.exit ta)
  | .poll count accept => wrap .polled (a.poll count accept)
  | .submit reply => wrap .receipt (a.submit reply)
  | .close => wrap (fun _ => .done) a.close

end Agent

end KeyCustody
