import KeyCustody.Fault
import KeyCustody.Json.Fields

/-!
# Replies

What the key service answers to one request: the number of the command, a result, and for a key that
was found or generated its material in hexadecimal. A reply is written and read as a JSON text.
-/

namespace KeyCustody

/-- The result that a reply reports. `notFound` answers a search for a key that the service does
not hold. -/
inductive ReplyResult where
  | success
  | notFound
  | failure
  deriving DecidableEq, Repr

namespace ReplyResult

/-- The name of a result in messages. -/
def name : ReplyResult → String
  | success => "Success"
  | notFound => "NotFound"
  | failure => "Failure"

/-- The result of a name. -/
def ofName? (s : String) : Option ReplyResult :=
  [success, notFound, failure].find? (·.name = s)

end ReplyResult

/-- The answer to one command. -/
structure Reply where
  sequence : Nat
  result : ReplyResult
  payload : String
  deriving DecidableEq, Repr

namespace Reply

/-- The reply of success with a payload. -/
def success (sequence : Nat) (payload : Bytes) : Reply :=
  ⟨sequence, .success, Hex.encode payload⟩

/-- The reply that a key does not exist. -/
def notFound (sequence : Nat) : Reply := ⟨sequence, .notFound, ""⟩

/-- The reply of failure. -/
def failure (sequence : Nat) : Reply := ⟨sequence, .failure, ""⟩

/-- The JSON value of a reply. -/
def toJson (r : Reply) : Json :=
  .object
    [Json.member "sequence" (.ofNat r.sequence),
      Json.member "result" (.ofText r.result.name),
      Json.member "payload" (.ofText r.payload)]

/-- The reply of a JSON value; the payload may be missing. -/
def ofJson? (value : Json) : Option Reply := do
  let fields ← value.fields? ["sequence", "result", "payload"]
  let sequence ← fields.required "sequence" Json.nat64?
  let result ← fields.required "result" fun value => value.caseName?.bind ReplyResult.ofName?
  let payload ← fields.orElse "payload" "" Json.text?
  some ⟨sequence, result, payload⟩

/-- The JSON text of a reply. -/
def encode (r : Reply) : Bytes := r.toJson.render

/-- The reply that a JSON text writes. -/
def decode (text : Bytes) : Except Fault Reply :=
  match (Json.parse? text).bind ofJson? with
  | some reply => .ok reply
  | none => .error (.badBufferData .malformedReply)

/-- The octets that the payload writes. -/
def material (r : Reply) : Except Fault Bytes :=
  (Hex.decode r.payload).mapError fun why => .badBufferData (.payload why)

end Reply

end KeyCustody
