import KeyCustody.Custody.Snapshot
import KeyCustody.Settings
import KeyCustody.Store.Basic

/-!
# The custodian

An `Agent` is the custodian as it runs: its settings, its record store, the trust anchor once there
is one, and the state of custody. Each call runs to its end, waits for nobody, and answers with a
result and the agent after it.

A call that changes what is stored works on a copy of the state: the copy is committed first and
takes effect only if the commit succeeds (`Agent.transact`), so a call that fails leaves the agent
as it was. `Agent.close` alone is not of this kind: it erases the anchor before it commits.
-/

namespace KeyCustody

/-- The custodian over a store. -/
structure Agent (σ : Type) where
  settings : Settings
  store : σ
  anchor : Option Anchor
  custody : Custody

/-- The counts that describe an agent. -/
structure Status where
  isInitialized : Bool
  pending : Nat
  ready : Nat
  deleted : Nat
  failed : Nat
  depth : Nat
  queued : Nat
  capacity : Nat
  nextSequence : Nat
  trusted : Nat
  verified : Nat
  deriving DecidableEq, Repr

/-- The JSON value of the counts; those of the entries stand together. -/
def Status.toJson (s : Status) : Json :=
  .object
    [Json.member "initialized" (.bool s.isInitialized),
      Json.member "cache" (.object
        [Json.member "pending" (.ofNat s.pending), Json.member "ready" (.ofNat s.ready),
          Json.member "deleted" (.ofNat s.deleted), Json.member "failed" (.ofNat s.failed)]),
      Json.member "queue_depth" (.ofNat s.depth),
      Json.member "queued" (.ofNat s.queued),
      Json.member "max_queue_depth" (.ofNat s.capacity),
      Json.member "next_sequence" (.ofNat s.nextSequence),
      Json.member "trusted_measurements" (.ofNat s.trusted),
      Json.member "verified_tas" (.ofNat s.verified)]

namespace Agent

variable {σ : Type}

/-- Whether the anchor is set. -/
def isInitialized (a : Agent σ) : Bool := a.anchor.isSome

/-- The counts that describe an agent. -/
def status (a : Agent σ) : Status where
  isInitialized := a.isInitialized
  pending := a.custody.keyring.count .pending
  ready := a.custody.keyring.count .ready
  deleted := a.custody.keyring.count .deleted
  failed := a.custody.keyring.count .failed
  depth := a.custody.outbox.depth
  queued := a.custody.outbox.queuedCount
  capacity := a.custody.outbox.capacity
  nextSequence := a.custody.outbox.nextSequence
  trusted := a.custody.gate.allowed.size
  verified := a.custody.gate.verdicts.size

/-! ### Conditions -/

/-- The check that the anchor is set. -/
def requireInitialized (a : Agent σ) : Except Fault Unit :=
  if a.isInitialized then .ok () else .error .notInitialized

/-- The check that an application has been verified. -/
def requireVerified (a : Agent σ) (ta : Uuid) : Except Fault Unit :=
  if a.custody.gate.isVerified ta then .ok () else .error (.security (.unverified ta))

/-- The check that a call about a key may go on. -/
def authorize (a : Agent σ) (key : KeyRef) : Except Fault Unit := do
  a.requireInitialized
  a.requireVerified key.owner
  if KeyRef.isValidId key.id then .ok () else .error (.badParameters (.keyId key.id))

variable [Store σ]

/-! ### Starting -/

/-- The anchor that a store holds. -/
def loadAnchor (store : σ) : Except StoreFault (Option Anchor) := do
  let serviceKey ← Store.load store Anchor.serviceKeyRecord
  let certificate ← Store.load store Anchor.certificateRecord
  let privateKey ← Store.load store Anchor.privateKeyRecord
  .ok (Anchor.ofRecords? serviceKey certificate privateKey)

/-- The state that a start finds. A snapshot without an anchor was left behind by a close, and only
the numbers of commands go on from it. -/
def restore (capacity : Nat) (anchor : Option Anchor) (snapshot : Option Bytes) :
    Except StoreFault Custody :=
  match snapshot with
  | none => .ok (Custody.fresh capacity)
  | some text =>
    match anchor, Custody.decode? text with
    | some _, some saved => .ok saved
    | some _, none => .error (.integrity .badSnapshot)
    | none, some saved => .ok (Custody.freshAfter capacity saved)
    | none, none => .ok (Custody.fresh capacity)

/-- The agent over a store that may hold what an earlier one left. -/
def start (settings : Settings) (store : σ) : Except Fault (Agent σ) := do
  settings.check.mapError fun fault => .badParameters (.settings fault)
  let anchor ← (loadAnchor store).mapError .storage
  let snapshot ← (Store.load store Custody.record).mapError .storage
  let custody ← (restore settings.maxQueueDepth anchor snapshot).mapError .storage
  let outbox := custody.outbox.withCapacity settings.maxQueueDepth
  .ok ⟨settings, store, anchor, { custody with outbox := outbox }⟩

/-! ### Changing what is stored -/

/-- Lets a transition take effect if it succeeds and its outcome can be committed. -/
def transact {α : Type} (a : Agent σ) (transition : Custody → Except Fault (α × Custody)) :
    Except Fault α × Agent σ :=
  match transition a.custody with
  | .error fault => (.error fault, a)
  | .ok (answer, custody) =>
    match Store.commit a.store [(Custody.record, custody.encode)] with
    | (.ok (), store) => (.ok answer, { a with store := store, custody := custody })
    | (.error fault, store) => (.error (.storage fault), { a with store := store })

/-- Sets the anchor, with a state in which nothing is held; answers with the certificate. -/
def provision (a : Agent σ) (serviceKey certificate privateKey : Bytes) :
    Except Fault Bytes × Agent σ :=
  match Anchor.make serviceKey certificate privateKey with
  | .error fault => (.error fault, a)
  | .ok anchor =>
    if a.isInitialized then (.error .alreadyInitialized, a)
    else
      let custody := Custody.freshAfter a.settings.maxQueueDepth a.custody
      match Store.commit a.store (anchor.records ++ [(Custody.record, custody.encode)]) with
      | (.ok (), store) =>
        (.ok certificate, { a with store := store, anchor := some anchor, custody := custody })
      | (.error fault, store) => (.error (.storage fault), { a with store := store })

/-- Ends custody: erases the anchor and forgets all but the number of the next command, so that a
reply that is still on its way can never answer a later command. -/
def close (a : Agent σ) : Except Fault Unit × Agent σ :=
  match Store.erase a.store Anchor.recordNames with
  | (.error fault, store) => (.error (.storage fault), { a with store := store })
  | (.ok (), store) =>
    let custody := Custody.freshAfter a.settings.maxQueueDepth a.custody
    match Store.commit store [(Custody.record, custody.encode)] with
    | (result, store) =>
      (result.mapError .storage,
        { a with store := store, anchor := none, custody := custody })

/-! ### Calls of the relay -/

/-- Trusts more measurements; answers with the number of new ones. -/
def register (a : Agent σ) (measurements : List Measurement) : Except Fault Nat × Agent σ :=
  match a.requireInitialized with
  | .error fault => (.error fault, a)
  | .ok () =>
    if measurements.isEmpty ∨ Measurement.maxPerRegistration < measurements.length then
      (.error (.badParameters (.hashCount Measurement.maxPerRegistration measurements.length)), a)
    else a.transact fun s => .ok (s.register measurements)

omit [Store σ] in
/-- What a poll for up to `count` commands would hand out. -/
def offer (a : Agent σ) (count : Nat) : Except Fault Polled := do
  a.requireInitialized
  let (polled, _) ← a.custody.poll count a.settings.replyTimeout
  .ok polled

/-- Hands out up to `count` commands. The encoded batch is shown to `accept` first; if that refuses
it, nothing is handed out. -/
def poll (a : Agent σ) (count : Nat) (accept : Bytes → Except Fault Unit) :
    Except Fault Polled × Agent σ :=
  match a.requireInitialized with
  | .error fault => (.error fault, a)
  | .ok () =>
    a.transact fun s => do
      let (polled, s) ← s.poll count a.settings.replyTimeout
      accept polled.batch.encode
      .ok (polled, s)

/-- Applies the reply to a command. -/
def submit (a : Agent σ) (reply : Reply) : Except Fault Receipt × Agent σ :=
  match a.requireInitialized with
  | .error fault => (.error fault, a)
  | .ok () =>
    match reply.material with
    | .error fault => (.error fault, a)
    | .ok material => a.transact fun s => s.answer reply material

/-! ### Calls of applications -/

omit [Store σ] in
/-- Presents the measurement of an application. Verdicts are not stored. -/
def attest (a : Agent σ) (ta : Uuid) (m : Measurement) : Except Fault Unit × Agent σ :=
  match a.requireInitialized with
  | .error fault => (.error fault, a)
  | .ok () =>
    match a.custody.gate.attest ta m with
    | .error cause => (.error (.security cause), a)
    | .ok gate => (.ok (), { a with custody := { a.custody with gate := gate } })

omit [Store σ] in
/-- Drops the verdict on an application; answers whether there was one. -/
def revoke (a : Agent σ) (ta : Uuid) : Bool × Agent σ :=
  (a.custody.gate.isVerified ta,
    { a with custody := { a.custody with gate := a.custody.gate.revoke ta } })

/-- Looks a key up, asking the key service for it on a miss. -/
def search (a : Agent σ) (key : KeyRef) : Except Fault Lookup × Agent σ :=
  match a.authorize key with
  | .error fault => (.error fault, a)
  | .ok () =>
    match a.custody.cached? key with
    | some answer => (.ok answer, a)
    | none => a.transact fun s => s.search key

/-- Asks for a key to be generated; the attributes travel with the command. -/
def generate (a : Agent σ) (key : KeyRef) (attributes : Bytes) :
    Except Fault Lookup × Agent σ :=
  match a.authorize key with
  | .error fault => (.error fault, a)
  | .ok () =>
    if Anchor.maxKeySize < attributes.length then
      (.error (.badParameters (.attributes Anchor.maxKeySize)), a)
    else
      match a.custody.cached? key with
      | some answer => (.ok answer, a)
      | none => a.transact fun s => s.generate key attributes

/-- Deletes a key at once; answers with the number of the command that tells the key service. -/
def delete (a : Agent σ) (key : KeyRef) : Except Fault Nat × Agent σ :=
  match a.authorize key with
  | .error fault => (.error fault, a)
  | .ok () => a.transact fun s => s.delete key

/-- Deletes a key and has it revoked for good; answers with the number of the revocation. -/
def destroy (a : Agent σ) (key : KeyRef) : Except Fault Nat × Agent σ :=
  match a.authorize key with
  | .error fault => (.error fault, a)
  | .ok () => a.transact fun s => s.destroy key

/-- Ends an application: destroys all of its keys and drops its verdict. -/
def exit (a : Agent σ) (ta : Uuid) : Except Fault Nat × Agent σ :=
  match (do a.requireInitialized; a.requireVerified ta : Except Fault Unit) with
  | .error fault => (.error fault, a)
  | .ok () => a.transact fun s => s.exit ta

end Agent

end KeyCustody
