import KeyCustody.Anchor
import KeyCustody.Gate
import KeyCustody.Keyring
import KeyCustody.Outbox
import KeyCustody.Wire.Batch
import KeyCustody.Wire.Reply

/-!
# The state of custody and its transitions

All that the custodian knows of keys, commands and applications is one value, `Custody`. A
transition takes it to the next state or fails, and says what it answers; it neither checks who
calls nor stores anything.

An entry and the commands for its key move together: a lookup that misses queues a command and lets
the entry wait for it, a deletion leaves a tombstone for as long as some command concerns the key,
and a reply or the expiry of a command settles the entry that waits for exactly this command.
-/

namespace KeyCustody

/-- The keyring, the outbox and the gate. -/
structure Custody where
  keyring : Keyring
  outbox : Outbox
  gate : Gate
  deriving DecidableEq

/-- The answer to a lookup: the material, the number of the command that it waits for, or that the
last command failed, so that the next lookup starts over. -/
inductive Lookup where
  | ready (material : Bytes)
  | pending (sequence : Nat)
  | failed
  deriving DecidableEq, Repr

/-- What a poll answers: the batch handed out and the number of commands that expired. -/
structure Polled where
  batch : Batch
  expired : Nat
  deriving DecidableEq

/-- What an accepted reply did: the command, its final status, and the number of the command that
was queued in its place, if any. -/
structure Receipt where
  sequence : Nat
  kind : CommandKind
  status : CommandStatus
  followUp : Option Nat
  deriving DecidableEq, Repr

namespace Custody

/-- The state in which nothing is held or trusted. -/
def fresh (capacity : Nat) : Custody := ⟨Keyring.empty, Outbox.empty capacity, Gate.empty⟩

/-- The fresh state that continues the numbers of another one. -/
def freshAfter (capacity : Nat) (s : Custody) : Custody :=
  { fresh capacity with outbox := (Outbox.empty capacity).resumeFrom s.outbox.nextSequence }

/-- The state as a restart finds it, without verdicts. -/
def withoutVerdicts (s : Custody) : Custody := { s with gate := s.gate.withoutVerdicts }

/-! ### Entries and commands -/

/-- Queues a command. -/
def enqueue (s : Custody) (kind : CommandKind) (key : KeyRef) (payload : Bytes) :
    Except Fault (Nat × Custody) := do
  let (sequence, outbox) ← s.outbox.enqueue kind key payload
  .ok (sequence, { s with outbox := outbox })

/-- Fails the entry that waits for a command. -/
def failEntry (s : Custody) (c : Command) : Custody :=
  { s with keyring := s.keyring.markFailed c.key c.sequence }

/-- Drops the tombstone of a key once no command concerns the key. -/
def collect (s : Custody) (key : KeyRef) : Custody :=
  match s.keyring.get? key with
  | some entry =>
    if entry.status = .deleted ∧ !s.outbox.references key then
      { s with keyring := s.keyring.remove key }
    else s
  | none => s

/-- Drops an entry whose failure has been told, leaving a tombstone while some command concerns the
key. -/
def retire (s : Custody) (key : KeyRef) (sequence : Nat) : Custody :=
  if s.outbox.references key then
    { s with keyring := s.keyring.markDeleted key sequence }
  else { s with keyring := s.keyring.remove key }

/-! ### Calls of applications -/

/-- The answer that needs no command: material that is there, or a command already on its way. -/
def cached? (s : Custody) (key : KeyRef) : Option Lookup :=
  match s.keyring.get? key with
  | some entry =>
    match entry.status with
    | .ready => some (.ready (entry.material.getD []))
    | .pending => some (.pending entry.lastSequence)
    | .deleted | .failed => none
  | none => none

/-- Queues a command for key material and lets the entry wait for it. -/
def request (s : Custody) (kind : CommandKind) (key : KeyRef) (payload : Bytes) :
    Except Fault (Lookup × Custody) := do
  let (sequence, s) ← s.enqueue kind key payload
  .ok (.pending sequence, { s with keyring := s.keyring.markPending key sequence })

/-- Looks for a key at the key service, or tells that the last attempt failed. -/
def search (s : Custody) (key : KeyRef) : Except Fault (Lookup × Custody) :=
  match s.keyring.get? key with
  | some entry =>
    if entry.status = .failed then .ok (.failed, s.retire key entry.lastSequence)
    else s.request .search key []
  | none => s.request .search key []

/-- Has a key generated; the attributes travel as the payload. -/
def generate (s : Custody) (key : KeyRef) (attributes : Bytes) :
    Except Fault (Lookup × Custody) :=
  s.request .generate key attributes

/-- Queues a command that ends a key, and deletes the key at once. -/
def strike (s : Custody) (kind : CommandKind) (key : KeyRef) : Except Fault (Nat × Custody) := do
  let (sequence, s) ← s.enqueue kind key []
  .ok (sequence, { s with keyring := s.keyring.markDeleted key sequence })

/-- Deletes a key and tells the key service. -/
def delete (s : Custody) (key : KeyRef) : Except Fault (Nat × Custody) := s.strike .delete key

/-- Deletes a key and has it revoked for good; answers with the number of the revocation. -/
def destroy (s : Custody) (key : KeyRef) : Except Fault (Nat × Custody) := do
  let (_, s) ← s.strike .delete key
  s.strike .destroy key

/-- Destroys the keys of a list of identifiers. -/
def destroyAll (s : Custody) (ta : Uuid) : List String → Except Fault Custody
  | [] => .ok s
  | id :: rest => do
    let (_, s) ← s.destroy ⟨ta, id⟩
    s.destroyAll ta rest

/-- The identifiers of the keys of an application that are not deleted. -/
def liveIds (s : Custody) (ta : Uuid) : List String :=
  (s.keyring.idsOf ta).filter fun id =>
    match s.keyring.get? ⟨ta, id⟩ with
    | some entry => entry.status ≠ .deleted
    | none => false

/-- Ends an application: destroys its keys and drops its verdict; answers with their number. -/
def exit (s : Custody) (ta : Uuid) : Except Fault (Nat × Custody) := do
  let live := s.liveIds ta
  let s ← s.destroyAll ta live
  .ok (live.length, { s with gate := s.gate.revoke ta })

/-! ### Calls of the relay -/

/-- Trusts more measurements; answers with the number of new ones. -/
def register (s : Custody) (measurements : List Measurement) : Nat × Custody :=
  let gate := s.gate.register measurements
  (gate.allowed.size - s.gate.allowed.size, { s with gate := gate })

/-- Hands out up to `count` commands and settles the entries of those that waited too long. -/
def poll (s : Custody) (count : Nat) (limit : Option Nat) : Except Fault (Polled × Custody) := do
  let (draw, outbox) ← s.outbox.draw count limit
  let s := draw.expired.foldl (fun s c => (s.failEntry c).collect c.key)
    { s with outbox := outbox }
  .ok (⟨Batch.ofCommands draw.commands draw.remaining, draw.expired.length⟩, s)

/-- Whether a reply with this result completes a command of this kind. That a key was not found
completes a search only; any other command asks for something that exists. -/
def completes (kind : CommandKind) : ReplyResult → Bool
  | .success => true
  | .notFound => kind = .search
  | .failure => false

/-- Settles the entry that waits for an answered command, and says which command was queued in its
place: a search that found nothing is followed by the generation of the key. -/
def settle (s : Custody) (c : Command) (result : ReplyResult) (material : Bytes) :
    Except Fault (Option Nat × Custody) :=
  if c.kind.yieldsKey then
    match result with
    | .success =>
      .ok (none, { s with keyring := s.keyring.markReady c.key c.sequence material })
    | .notFound =>
      if c.kind = .search then
        if s.keyring.isPendingOn c.key c.sequence then do
          let (sequence, s) ← s.enqueue .generate c.key []
          .ok (some sequence,
            { s with keyring := s.keyring.repoint c.key c.sequence sequence })
        else .ok (none, s)
      else .ok (none, s.failEntry c)
    | .failure => .ok (none, s.failEntry c)
  else .ok (none, s)

/-- The check that the material of a successful reply to a command for a key has an admissible
size. -/
def checkMaterial (s : Custody) (reply : Reply) (material : Bytes) : Except Fault Unit :=
  match s.outbox.get? reply.sequence with
  | some c =>
    if c.kind.yieldsKey ∧ reply.result = .success ∧
        (material.isEmpty ∨ Anchor.maxKeySize < material.length) then
      .error (.badBufferData (.materialSize Anchor.maxKeySize material.length))
    else .ok ()
  | none => .ok ()

/-- Applies a reply whose payload writes `material`. -/
def answer (s : Custody) (reply : Reply) (material : Bytes) :
    Except Fault (Receipt × Custody) := do
  s.checkMaterial reply material
  let success := match s.outbox.get? reply.sequence with
    | some c => completes c.kind reply.result
    | none => false
  let (c, outbox) ← s.outbox.finalize reply.sequence success
  let (followUp, s) ← settle { s with outbox := outbox } c reply.result material
  .ok (⟨c.sequence, c.kind, c.status, followUp⟩, s.collect c.key)

end Custody

end KeyCustody
