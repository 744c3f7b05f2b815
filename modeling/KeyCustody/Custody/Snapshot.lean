import KeyCustody.Calendar.Instant
import KeyCustody.Custody.Basic

/-!
# Snapshots of the state

The state is stored as one JSON text: entries under the texts of their keys, commands in order, and
trusted measurements in hexadecimal. Verdicts are not part of it. `Custody.encode` writes a snapshot
and `Custody.decode?` reads one.
-/

namespace KeyCustody

/-- Reads a text that has to be an instant, of which nothing is kept. -/
def Json.instant? (value : Json) : Option Unit := do
  if Calendar.isInstant (← value.text?) then some () else none

/-- The instant that is written. -/
def Json.instant : Json := .ofText Calendar.placeholder

/-- The JSON value of a measurement. -/
def Measurement.toJson (m : Measurement) : Json := .ofText m.text

/-- The measurement of a JSON value. -/
def Measurement.ofJson? (value : Json) : Option Measurement := value.text?.bind Measurement.parse?

namespace Gate

/-- The JSON value of a gate. -/
def toJson (g : Gate) : Json :=
  .object [Json.member "allow_list" (.array (g.allowed.keys.map Measurement.toJson))]

/-- The gate of a JSON value. -/
def ofJson? (value : Json) : Option Gate := do
  let fields ← value.fields? ["allow_list"]
  let allowed ← fields.required "allow_list" (Json.list? Measurement.ofJson?)
  some (Gate.ofList allowed)

/-- The JSON text of a gate. -/
def encode (g : Gate) : Bytes := g.toJson.render

/-- The gate that a JSON text writes. -/
def decode? (text : Bytes) : Option Gate := (Json.parse? text).bind ofJson?

end Gate

namespace Command

/-- The JSON value of a command. -/
def toJson (c : Command) : Json :=
  .object
    [Json.member "sequence" (.ofNat c.sequence),
      Json.member "kind" (.ofText c.kind.name),
      Json.member "ta_identity" (.ofText c.key.owner.text),
      Json.member "key_id" (.ofText c.key.id),
      Json.member "payload" (.ofOctets c.payload),
      Json.member "status" (.ofText c.status.name),
      Json.member "enqueued_at" Json.instant,
      Json.member "polls_outstanding" (.ofNat c.polls)]

/-- The command of a JSON value. -/
def ofJson? (value : Json) : Option Command := do
  let fields ← value.fields?
    ["sequence", "kind", "ta_identity", "key_id", "payload", "status", "enqueued_at",
      "polls_outstanding"]
  let sequence ← fields.required "sequence" Json.nat64?
  let kind ← fields.required "kind" fun value => value.caseName?.bind CommandKind.ofName?
  let owner ← fields.required "ta_identity" fun value => value.text?.bind Uuid.parse?
  let id ← fields.required "key_id" Json.text?
  let payload ← fields.required "payload" Json.octets?
  let status ← fields.required "status" fun value => value.caseName?.bind CommandStatus.ofName?
  fields.required "enqueued_at" Json.instant?
  let polls ← fields.required "polls_outstanding" Json.nat32?
  some ⟨sequence, kind, ⟨owner, id⟩, payload, status, polls⟩

end Command

namespace Outbox

/-- The JSON value of an outbox. -/
def toJson (q : Outbox) : Json :=
  .object
    [Json.member "commands" (.array (q.commands.map Command.toJson)),
      Json.member "next_sequence" (.ofNat q.nextSequence),
      Json.member "max_depth" (.ofNat q.capacity)]

/-- The outbox of a JSON value. -/
def ofJson? (value : Json) : Option Outbox := do
  let fields ← value.fields? ["commands", "next_sequence", "max_depth"]
  let commands ← fields.required "commands" (Json.list? Command.ofJson?)
  let nextSequence ← fields.required "next_sequence" Json.nat64?
  let capacity ← fields.required "max_depth" Json.nat64?
  some ⟨commands, nextSequence, capacity⟩

end Outbox

namespace Entry

/-- The JSON value of the material of an entry. -/
def materialToJson : Option Bytes → Json
  | some material => .ofOctets material
  | none => .null

/-- The JSON value of an entry. -/
def toJson (e : Entry) : Json :=
  .object
    [Json.member "ta_identity" (.ofText e.key.owner.text),
      Json.member "key_id" (.ofText e.key.id),
      Json.member "key_material" (materialToJson e.material),
      Json.member "status" (.ofText e.status.name),
      Json.member "last_sequence" (.ofNat e.lastSequence),
      Json.member "updated_at" Json.instant]

/-- The entry of a JSON value. -/
def ofJson? (value : Json) : Option Entry := do
  let fields ← value.fields?
    ["ta_identity", "key_id", "key_material", "status", "last_sequence", "updated_at"]
  let owner ← fields.required "ta_identity" fun value => value.text?.bind Uuid.parse?
  let id ← fields.required "key_id" Json.text?
  let material ← fields.optional "key_material" Json.octets?
  let status ← fields.required "status" fun value => value.caseName?.bind KeyStatus.ofName?
  let lastSequence ← fields.required "last_sequence" Json.nat64?
  fields.required "updated_at" Json.instant?
  some ⟨⟨owner, id⟩, material, status, lastSequence⟩

end Entry

namespace Keyring

/-- The JSON value of a keyring. -/
def toJson (k : Keyring) : Json :=
  .object
    [Json.member "entries"
      (.object (k.entries.entries.map fun entry => Json.member entry.1 entry.2.toJson))]

/-- The keyring of a JSON value; of two entries under one text the later counts. -/
def ofJson? (value : Json) : Option Keyring := do
  let fields ← value.fields? ["entries"]
  let members ← fields.required "entries" Json.members?
  let entries ← members.mapM fun member => (Entry.ofJson? member.2).map (member.1, ·)
  some ⟨Table.ofList entries⟩

end Keyring

namespace Custody

/-- The record that holds the snapshot. -/
def record : String := "ktastate"

/-- The JSON value of a state. -/
def toJson (s : Custody) : Json :=
  .object
    [Json.member "cache" s.keyring.toJson, Json.member "queue" s.outbox.toJson,
      Json.member "gate" s.gate.toJson]

/-- The state of a JSON value. -/
def ofJson? (value : Json) : Option Custody := do
  let fields ← value.fields? ["cache", "queue", "gate"]
  let keyring ← fields.required "cache" Keyring.ofJson?
  let outbox ← fields.required "queue" Outbox.ofJson?
  let gate ← fields.required "gate" Gate.ofJson?
  some ⟨keyring, outbox, gate⟩

/-- The snapshot of a state. -/
def encode (s : Custody) : Bytes := s.toJson.render

/-- The state that a snapshot holds. -/
def decode? (text : Bytes) : Option Custody := (Json.parse? text).bind ofJson?

end Custody

end KeyCustody
