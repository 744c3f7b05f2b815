import KeyCustody.Relay.KeyService
import KeyCustody.Relay.Session

/-!
# The courier

The custodian cannot reach the network, so a courier polls it: it carries the commands of each batch
to the key service and hands every answer back, until a poll comes back empty or enough rounds have
been made (`Courier.pollOnce`).
-/

namespace KeyCustody

/-- The settings of a courier: the time between two polls in milliseconds, and the largest number of
rounds in one of them. -/
structure CourierSettings where
  interval : Nat
  maxRounds : Nat
  deriving DecidableEq, Repr

namespace CourierSettings

/-- The settings where nothing else is said. -/
def standard : CourierSettings := ⟨1000, 16⟩

/-- The JSON value of settings. -/
def toJson (s : CourierSettings) : Json :=
  .object
    [Json.member "poll_interval_ms" (.ofNat s.interval),
      Json.member "max_rounds" (.ofNat s.maxRounds)]

/-- The settings of a JSON value. -/
def ofJson? (value : Json) : Option CourierSettings := do
  let fields ← value.fields? ["poll_interval_ms", "max_rounds"]
  let interval ← fields.orElse "poll_interval_ms" standard.interval Json.nat64?
  let maxRounds ← fields.orElse "max_rounds" standard.maxRounds Json.nat64?
  some ⟨interval, maxRounds⟩

/-- The JSON text of settings. -/
def encode (s : CourierSettings) : Bytes := s.toJson.render

/-- The settings that a JSON text writes. -/
def decode? (text : Bytes) : Option CourierSettings := (Json.parse? text).bind ofJson?

end CourierSettings

/-- What one poll has done: its rounds, the commands carried, and the answers accepted and
rejected. -/
structure PollReport where
  rounds : Nat
  delivered : Nat
  accepted : Nat
  rejected : Nat
  deriving DecidableEq, Repr

/-- A courier between an endpoint and a key service. -/
structure Courier (ε κ : Type) where
  settings : CourierSettings
  endpoint : ε
  service : κ

namespace Courier

variable {ε κ : Type} [Endpoint ε] [KeyService κ]

/-- Runs a call of the courier that needs the endpoint alone. -/
def call {α : Type} (c : Courier ε κ) (body : Nat → ε → Except Fault α × ε) :
    Except Fault α × Courier ε κ :=
  let (result, endpoint) := Session.within c.endpoint body
  (result, { c with endpoint := endpoint })

/-- Sets the anchor and presents the certificate to the key service. -/
def bootstrap (c : Courier ε κ) (serviceKey certificate privateKey : Bytes) :
    Except Fault Bytes × Courier ε κ :=
  match c.call fun session e => Session.provision e session serviceKey certificate privateKey with
  | (.ok echoed, c) => (.ok echoed, { c with service := KeyService.enrol c.service echoed })
  | (.error fault, c) => (.error fault, c)

/-- Registers measurements. -/
def register (c : Courier ε κ) (measurements : List Measurement) :
    Except Fault Unit × Courier ε κ :=
  c.call fun session e => Session.register e session measurements

/-- Ends custody. -/
def close (c : Courier ε κ) : Except Fault Unit × Courier ε κ :=
  c.call fun session e => Session.close e session

/-- Has one request answered and hands the answer back. -/
def carry (c : Courier ε κ) (session : Nat) (report : PollReport) (request : Request) :
    PollReport × Courier ε κ :=
  let (reply, service) := KeyService.handle c.service request
  let (result, endpoint) := Session.respond c.endpoint session reply
  let report := match result with
    | .ok true => { report with accepted := report.accepted + 1 }
    | _ => { report with rejected := report.rejected + 1 }
  (report, { c with endpoint := endpoint, service := service })

/-- Has the requests of a batch answered, one after the other. -/
def carryAll (c : Courier ε κ) (session : Nat) (report : PollReport) :
    List Request → PollReport × Courier ε κ
  | [] => (report, c)
  | request :: rest =>
    let (report, c) := c.carry session report request
    c.carryAll session report rest

/-- Up to `rounds` more rounds of a poll. -/
def rounds (c : Courier ε κ) (session : Nat) (report : PollReport) :
    Nat → Except Fault PollReport × Courier ε κ
  | 0 => (.ok report, c)
  | left + 1 =>
    match Session.requests c.endpoint session with
    | (.error fault, endpoint) => (.error fault, { c with endpoint := endpoint })
    | (.ok batch, endpoint) =>
      let c := { c with endpoint := endpoint }
      let report := { report with rounds := report.rounds + 1 }
      if batch.requests.isEmpty ∧ batch.remaining = 0 then (.ok report, c)
      else
        let report := { report with delivered := report.delivered + batch.requests.length }
        let (report, c) := c.carryAll session report batch.requests
        c.rounds session report left

/-- Polls until nothing comes back. -/
def pollOnce (c : Courier ε κ) : Except Fault PollReport × Courier ε κ :=
  match Endpoint.openSession c.endpoint with
  | (.error fault, endpoint) => (.error fault, { c with endpoint := endpoint })
  | (.ok session, endpoint) =>
    let c := { c with endpoint := endpoint }
    let (result, c) := c.rounds session ⟨0, 0, 0, 0⟩ c.settings.maxRounds
    (result, { c with endpoint := Endpoint.closeSession c.endpoint session })

end Courier

end KeyCustody
