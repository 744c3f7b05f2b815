import KeyCustody.Command

/-!
# Batches of requests

What a poll hands to the relay: the commands with their payloads in hexadecimal, and how many are
still queued behind them. `Batch.encode` writes a batch as a JSON text and `Batch.decode?` reads
one.
-/

namespace KeyCustody

/-- A command as it travels to the key service. -/
structure Request where
  sequence : Nat
  kind : CommandKind
  key : KeyRef
  payload : String
  deriving DecidableEq

namespace Request

/-- The request that carries a command. -/
def ofCommand (c : Command) : Request := ⟨c.sequence, c.kind, c.key, Hex.encode c.payload⟩

/-- The JSON value of a request. -/
def toJson (r : Request) : Json :=
  .object
    [Json.member "sequence" (.ofNat r.sequence),
      Json.member "kind" (.ofText r.kind.name),
      Json.member "ta_identity" (.ofText r.key.owner.text),
      Json.member "key_id" (.ofText r.key.id),
      Json.member "payload" (.ofText r.payload)]

/-- The request of a JSON value. -/
def ofJson? (value : Json) : Option Request := do
  let fields ← value.fields? ["sequence", "kind", "ta_identity", "key_id", "payload"]
  let sequence ← fields.required "sequence" Json.nat64?
  let kind ← fields.required "kind" fun value => value.caseName?.bind CommandKind.ofName?
  let owner ← fields.required "ta_identity" fun value => value.text?.bind Uuid.parse?
  let id ← fields.required "key_id" Json.text?
  let payload ← fields.required "payload" Json.text?
  some ⟨sequence, kind, ⟨owner, id⟩, payload⟩

end Request

/-- The requests that a poll hands out, with the version of their form and the number of commands
still queued. -/
structure Batch where
  version : Nat
  requests : List Request
  remaining : Nat
  deriving DecidableEq

namespace Batch

/-- The version of the form in which batches are written. -/
def currentVersion : Nat := 1

/-- The batch of commands that were handed out. -/
def ofCommands (commands : List Command) (remaining : Nat) : Batch :=
  ⟨currentVersion, commands.map Request.ofCommand, remaining⟩

/-- The JSON value of a batch. -/
def toJson (b : Batch) : Json :=
  .object
    [Json.member "version" (.ofNat b.version),
      Json.member "commands" (.array (b.requests.map Request.toJson)),
      Json.member "remaining" (.ofNat b.remaining)]

/-- The batch of a JSON value. -/
def ofJson? (value : Json) : Option Batch := do
  let fields ← value.fields? ["version", "commands", "remaining"]
  let version ← fields.required "version" Json.nat32?
  let requests ← fields.required "commands" (Json.list? Request.ofJson?)
  let remaining ← fields.required "remaining" Json.nat64?
  some ⟨version, requests, remaining⟩

/-- The JSON text of a batch. -/
def encode (b : Batch) : Bytes := b.toJson.render

/-- The batch that a JSON text writes. -/
def decode? (text : Bytes) : Option Batch := (Json.parse? text).bind ofJson?

end Batch

end KeyCustody
