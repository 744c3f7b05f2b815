import KeyCustody.Json.Fields
import KeyCustody.KeyRef

/-!
# Commands

A command asks the key service to generate, look up, delete or permanently destroy one key. It is
queued until a poll hands it to the relay, awaits its reply from then on, and ends completed or
failed.
-/

namespace KeyCustody

/-- What a command asks for. -/
inductive CommandKind where
  | generate
  | search
  | delete
  | destroy
  deriving DecidableEq, Repr

namespace CommandKind

/-- The name of a kind in messages and records. -/
def name : CommandKind → String
  | generate => "GenerateKey"
  | search => "SearchKey"
  | delete => "DeleteKey"
  | destroy => "DestroyKey"

/-- The kind of a name. -/
def ofName? (s : String) : Option CommandKind :=
  [generate, search, delete, destroy].find? (·.name = s)

/-- Whether a successful reply carries key material. -/
def yieldsKey : CommandKind → Bool
  | generate | search => true
  | delete | destroy => false

end CommandKind

/-- How far a command has come. -/
inductive CommandStatus where
  | queued
  | delivered
  | awaitingReply
  | completed
  | failed
  deriving DecidableEq, Repr

namespace CommandStatus

/-- The name of a status in records. -/
def name : CommandStatus → String
  | queued => "Queued"
  | delivered => "Delivered"
  | awaitingReply => "AwaitingReply"
  | completed => "Completed"
  | failed => "Failed"

/-- The status of a name. -/
def ofName? (s : String) : Option CommandStatus :=
  [queued, delivered, awaitingReply, completed, failed].find? (·.name = s)

/-- Whether the command has been handed to the relay and may be answered. -/
def isShipped : CommandStatus → Bool
  | delivered | awaitingReply => true
  | _ => false

end CommandStatus

/-- A command in the outbox. `polls` counts the polls since its delivery. -/
structure Command where
  sequence : Nat
  kind : CommandKind
  key : KeyRef
  payload : Bytes
  status : CommandStatus
  polls : Nat
  deriving DecidableEq

end KeyCustody
