import KeyCustody.Fault
import KeyCustody.Json.Fields

/-!
# Settings of the custodian

Every setting has a standard value, so a settings text may leave out any of them. Settings are used
only after `Settings.check` has found them within their bounds.
-/

namespace KeyCustody

/-- The folder and the secret of the sealed store, the bounds on the outbox and on one poll, and the
number of polls after which an unanswered command fails, if it ever does. -/
structure Settings where
  storageFolder : String
  deviceSecret : String
  maxQueueDepth : Nat
  maxBatch : Nat
  replyTimeout : Option Nat
  deriving DecidableEq, Repr

namespace Settings

/-- The settings where nothing else is said. -/
def standard : Settings where
  storageFolder := "kta-sealed"
  deviceSecret := "kta-simulated-device-secret"
  maxQueueDepth := 32
  maxBatch := 32
  replyTimeout := none

/-- The largest admissible bound on the outbox. -/
def queueDepthCeiling : Nat := 1024

/-- The largest admissible bound on one poll. -/
def batchCeiling : Nat := 32

/-- The check that settings are within their bounds. -/
def check (s : Settings) : Except SettingsFault Unit :=
  if s.maxQueueDepth = 0 ∨ queueDepthCeiling < s.maxQueueDepth then
    .error (.queueDepth s.maxQueueDepth)
  else if s.maxBatch = 0 ∨ batchCeiling < s.maxBatch then .error (.batch s.maxBatch)
  else if s.replyTimeout = some 0 then .error .noTimeout
  else if s.deviceSecret = "" then .error .noSecret
  else .ok ()

/-- The settings of a JSON value. -/
def ofJson? (value : Json) : Option Settings := do
  let fields ← value.fields?
    ["storage_dir", "device_secret", "max_queue_depth", "max_batch", "reply_timeout_polls"]
  let storageFolder ← fields.orElse "storage_dir" standard.storageFolder Json.text?
  let deviceSecret ← fields.orElse "device_secret" standard.deviceSecret Json.text?
  let maxQueueDepth ← fields.orElse "max_queue_depth" standard.maxQueueDepth Json.nat64?
  let maxBatch ← fields.orElse "max_batch" standard.maxBatch Json.nat64?
  let replyTimeout ← fields.orElse "reply_timeout_polls" standard.replyTimeout
    (Json.nullable? Json.nat32?)
  some { storageFolder, deviceSecret, maxQueueDepth, maxBatch, replyTimeout }

/-- The settings that a JSON text writes, within their bounds. -/
def decode (text : Bytes) : Except SettingsFault Settings :=
  match (Json.parse? text).bind ofJson? with
  | none => .error .malformed
  | some settings => settings.check.map fun _ => settings

end Settings

end KeyCustody
