import KeyCustody.Invocation.Dispatch

/-!
# Sessions with the trusted side

An `Endpoint` opens sessions, takes invocations for an open one, and closes it. `Session.within`
opens a session for the length of a computation and closes it on every way out. The calls of a
session put their arguments into a block of slots and read the results out of it again.
-/

namespace KeyCustody

/-- A way to reach the trusted side. Every call answers with a result and the endpoint after it. -/
class Endpoint (ε : Type) where
  /-- Opens a session and answers with its number. -/
  openSession : ε → Except Fault Nat × ε
  /-- Carries out a command of a given number in a session. -/
  invoke : ε → (session command : Nat) → Block → Except Fault Unit × Block × ε
  /-- Closes a session. -/
  closeSession : ε → Nat → ε

namespace Session

variable {ε : Type} [Endpoint ε]

/-- The largest size of the certificate that comes back. -/
def certificateRoom : Nat := Anchor.maxCertificateSize

/-- Runs a computation in a session of its own, which is closed at its end. -/
def within {α : Type} (e : ε) (body : Nat → ε → Except Fault α × ε) : Except Fault α × ε :=
  match Endpoint.openSession e with
  | (.error fault, e) => (.error fault, e)
  | (.ok session, e) =>
    let (result, e) := body session e
    (result, Endpoint.closeSession e session)

/-- The octets that came out through a slot. -/
def outputOf (slot : Slot) : Bytes :=
  match slot.memory? with
  | some memory => memory.bytes
  | none => []

/-- Sets the anchor; answers with the certificate that comes back. -/
def provision (e : ε) (session : Nat) (serviceKey certificate privateKey : Bytes) :
    Except Fault Bytes × ε :=
  let block : Block :=
    ⟨.memoryIn (.input serviceKey), .memoryIn (.input certificate),
      .memoryIn (.input privateKey), .memoryOut (.output certificateRoom)⟩
  let (result, block, e) := Endpoint.invoke e session RelayCommand.provision.id block
  (result.map fun _ => outputOf block.fourth, e)

/-- Registers measurements. -/
def register (e : ε) (session : Nat) (measurements : List Measurement) : Except Fault Unit × ε :=
  let block : Block :=
    ⟨.memoryIn (.input (measurements.flatMap (·.octets))),
      .valueIn (asValue measurements.length) 0, .empty, .empty⟩
  let (result, _, e) := Endpoint.invoke e session RelayCommand.register.id block
  (result, e)

/-- The batch that came out through a block, if the counts beside it agree. -/
def batchOf (block : Block) : Except Fault Batch :=
  match Batch.decode? (outputOf block.first) with
  | none => .error (.generic .undecodableBatch)
  | some batch =>
    let (returned, remaining) := block.second.valueOut?.getD (0, 0)
    if returned = batch.requests.length ∧ remaining = batch.remaining then .ok batch
    else
      .error (.generic (.countsDisagree returned remaining batch.requests.length batch.remaining))

/-- Polls for commands. -/
def requests (e : ε) (session : Nat) : Except Fault Batch × ε :=
  let block : Block :=
    ⟨.memoryOut (.output maxRequestBuffer), .valueOut 0 0, .empty, .empty⟩
  let (result, block, e) := Endpoint.invoke e session RelayCommand.poll.id block
  (result.bind fun _ => batchOf block, e)

/-- Hands in a reply; answers whether it was accepted. -/
def respond (e : ε) (session : Nat) (reply : Reply) : Except Fault Bool × ε :=
  let block : Block :=
    ⟨.memoryIn (.input reply.encode), .valueOut 0 0, .empty, .empty⟩
  let (result, block, e) := Endpoint.invoke e session RelayCommand.reply.id block
  (result.map fun _ => (block.second.valueOut?.map (·.1)) = some 1, e)

/-- Ends custody. -/
def close (e : ε) (session : Nat) : Except Fault Unit × ε :=
  let (result, _, e) := Endpoint.invoke e session RelayCommand.close.id Block.empty
  (result, e)

end Session

end KeyCustody
