import KeyCustody.Agent.Basic
import KeyCustody.Invocation.Slot

/-!
# Invocations

The five commands by which the relay reaches the custodian. `Agent.invoke` finds the command of a
number, checks the kinds of the four slots and the sizes of what they refer to before it touches any
state, and writes the outcome back into the block.
-/

namespace KeyCustody

/-- A command of the relay. -/
inductive RelayCommand where
  | provision
  | register
  | poll
  | reply
  | close
  deriving DecidableEq, Repr

namespace RelayCommand

/-- The number of a command. -/
def id : RelayCommand → Nat
  | provision => 1
  | register => 2
  | poll => 3
  | reply => 4
  | close => 5

/-- The name of a command in diagnostics. -/
def name : RelayCommand → String
  | provision => "Initialize"
  | register => "SendTaHash"
  | poll => "GetRequest"
  | reply => "RespondRequest"
  | close => "CloseKta"

/-- The command of a number. -/
def ofId (n : Nat) : Except Fault RelayCommand :=
  match [provision, register, poll, reply, close].find? (·.id = n) with
  | some command => .ok command
  | none => .error (.badParameters (.unknownCommand n))

end RelayCommand

/-- The largest size of the buffer that receives a batch. -/
def maxRequestBuffer : Nat := 256 * 1024

/-- The number modulo the size of a value slot. -/
def asValue (n : Nat) : Nat := n % 0x100000000

namespace Agent

variable {σ : Type} [Store σ]

/-- The fault of a block whose slots are of the wrong kinds. -/
def wrongKinds (block : Block) (expected : List SlotKind) : Fault :=
  .badParameters (.slotKinds block.kinds expected)

/-- Sets the anchor from three input buffers and writes the certificate to an output buffer. The
room for the certificate is checked before the anchor is set. -/
def invokeProvision (a : Agent σ) (block : Block) : Except Fault Unit × Block × Agent σ :=
  match block with
  | ⟨.memoryIn serviceKey, .memoryIn certificate, .memoryIn privateKey, .memoryOut out⟩ =>
    let inputs : Except Fault (Bytes × Bytes × Bytes) := do
      let serviceKey ← serviceKey.checked Anchor.maxKeySize "KCM public key"
      let certificate ← certificate.checked Anchor.maxCertificateSize "KTA certificate"
      let privateKey ← privateKey.checked Anchor.maxKeySize "KTA private key"
      .ok (serviceKey, certificate, privateKey)
    match inputs with
    | .error fault => (.error fault, block, a)
    | .ok (serviceKey, certificate, privateKey) =>
      if a.isInitialized then (.error .alreadyInitialized, block, a)
      else
        match out.checked Anchor.maxCertificateSize "certificate output" with
        | .error fault => (.error fault, block, a)
        | .ok room =>
          if room.length < certificate.length then
            (.error (.badBufferData (.shortOutput certificate.length room.length)),
              { block with fourth := .memoryOut { out with size := certificate.length } }, a)
          else
            match a.provision serviceKey certificate privateKey with
            | (.error fault, a) => (.error fault, block, a)
            | (.ok echoed, a) =>
              let (result, out) := out.write echoed
              (result, { block with fourth := .memoryOut out }, a)
  | _ => (.error (wrongKinds block [.memoryIn, .memoryIn, .memoryIn, .memoryOut]), block, a)

/-- Registers the measurements of an input buffer, whose number is given beside it. -/
def invokeRegister (a : Agent σ) (block : Block) : Except Fault Unit × Block × Agent σ :=
  match block with
  | ⟨.memoryIn buffer, .valueIn count _, .empty, .empty⟩ =>
    match buffer.checked (Measurement.maxPerRegistration * Measurement.size) "hash buffer" with
    | .error fault => (.error fault, block, a)
    | .ok octets =>
      if count = 0 ∨ Measurement.maxPerRegistration < count then
        (.error (.badParameters (.hashCount Measurement.maxPerRegistration count)), block, a)
      else
        match Measurement.list? octets count with
        | none => (.error (.badParameters (.hashBuffer octets.length count)), block, a)
        | some measurements =>
          let (result, a) := a.register measurements
          (result.map fun _ => (), block, a)
  | _ => (.error (wrongKinds block [.memoryIn, .valueIn, .empty, .empty]), block, a)

/-- Polls into an output buffer, and writes the numbers of commands handed out and still queued
beside it. -/
def invokePoll (a : Agent σ) (block : Block) : Except Fault Unit × Block × Agent σ :=
  match block with
  | ⟨.memoryOut out, .valueOut _ _, .empty, .empty⟩ =>
    match out.checked maxRequestBuffer "request buffer" with
    | .error fault => (.error fault, block, a)
    | .ok _ =>
      match a.offer a.settings.maxBatch with
      | .error fault => (.error fault, block, a)
      | .ok offered =>
        let written := (out.write offered.batch.encode).2
        let block := { block with first := .memoryOut written }
        match a.poll a.settings.maxBatch fun batch => (out.write batch).1 with
        | (.error fault, a) => (.error fault, block, a)
        | (.ok polled, a) =>
          let counts := Slot.valueOut (asValue polled.batch.requests.length)
            (asValue polled.batch.remaining)
          (.ok (), { block with second := counts }, a)
  | _ => (.error (wrongKinds block [.memoryOut, .valueOut, .empty, .empty]), block, a)

/-- Applies the reply of an input buffer, and writes whether it was accepted beside it. -/
def invokeReply (a : Agent σ) (block : Block) : Except Fault Unit × Block × Agent σ :=
  match block with
  | ⟨.memoryIn buffer, .valueOut _ _, .empty, .empty⟩ =>
    let block := { block with second := .valueOut 0 0 }
    let reply : Except Fault Reply := do
      Reply.decode (← buffer.checked Anchor.maxCertificateSize "reply buffer")
    match reply with
    | .error fault => (.error fault, block, a)
    | .ok reply =>
      match a.submit reply with
      | (.error fault, a) => (.error fault, block, a)
      | (.ok _, a) => (.ok (), { block with second := .valueOut 1 0 }, a)
  | _ => (.error (wrongKinds block [.memoryIn, .valueOut, .empty, .empty]), block, a)

/-- Ends custody. -/
def invokeClose (a : Agent σ) (block : Block) : Except Fault Unit × Block × Agent σ :=
  match block with
  | ⟨.empty, .empty, .empty, .empty⟩ =>
    let (result, a) := a.close
    (result, block, a)
  | _ => (.error (wrongKinds block [.empty, .empty, .empty, .empty]), block, a)

/-- One invocation: the command of a number with its block of slots. -/
def invoke (a : Agent σ) (id : Nat) (block : Block) : Except Fault Unit × Block × Agent σ :=
  match RelayCommand.ofId id with
  | .error fault => (.error fault, block, a)
  | .ok .provision => a.invokeProvision block
  | .ok .register => a.invokeRegister block
  | .ok .poll => a.invokePoll block
  | .ok .reply => a.invokeReply block
  | .ok .close => a.invokeClose block

end Agent

end KeyCustody
