import KeyCustody.Relay.Courier
import KeyCustody.Relay.Enclave
import KeyCustody.Settings.File
import KeyCustody.Store.Memory
import KeyCustody.Store.Vault

/-!
# The command line

What the command line tool does, as a function of its arguments and of the machine it runs on: a
drive, the path of the settings, and the random octets to come. A run answers with what it prints,
its exit code and the drive after it. Serving, which does not end, is left to the program; here
`openCourier` gives it the courier that polls.
-/

namespace KeyCustody.Console

/-- The machine that the tool runs on. -/
structure Machine where
  drive : Drive
  settingsPath : String
  nonces : Nat → Nonce
  mint : Nat → Bytes
  demoApplication : Uuid

/-- What a run leaves behind. -/
structure Outcome where
  exitCode : Nat
  output : String
  errors : String
  drive : Drive

/-- The variable of the environment that names the settings file. -/
def settingsVariable : String := "KTA_CONFIG"

/-- The settings file where the environment names none. -/
def standardSettingsPath : String := "kta-config.json"

/-- The description of the tool. -/
def usage : String :=
  "\nKTA v0.1 — Key Trust Agent\n\n" ++
  "Usage: kta <command> [options]\n\n" ++
  "Commands:\n" ++
  "  init    <kcm-pub> <kta-cert> <kta-key>   Bootstrap from key/certificate files\n" ++
  "  hash    <ta-image>...                    Register TA images as trusted\n" ++
  "  status                                   Show KTA state\n" ++
  "  serve   [interval-ms]                    Poll the KTA against an in-memory KCM\n" ++
  "  reset                                    Erase all persisted KTA state\n" ++
  "  demo                                     Run an in-memory end-to-end demo\n\n" ++
  "Configuration is read from $" ++ settingsVariable ++
  " (default " ++ standardSettingsPath ++ ").\n\n"

/-- The eight upper-case digits of a result code. -/
def codeText (code : Nat) : String :=
  let digits := (Nat.toDigits 16 code).map Char.toUpper
  String.ofList (List.replicate (8 - digits.length) '0' ++ digits)

/-- The line that tells a fault. -/
def faultLine (fault : Fault) : String :=
  "  Error: " ++ fault.message ++ " (0x" ++ codeText fault.code ++ ")\n"

/-- The outcome of a run that has printed `output` and ended with a result. -/
def Outcome.of (output : String) (result : Except Fault Unit) (drive : Drive) : Outcome :=
  match result with
  | .ok () => ⟨0, output, "", drive⟩
  | .error fault => ⟨1, output, faultLine fault, drive⟩

/-! ### The custodian of the machine -/

/-- A courier to the custodian in the sealed store of a machine. -/
abbrev VaultCourier := Courier (Enclave Vault) KeyOffice

/-- The custodian in the sealed store of a machine, with the drive after starting it. -/
def openEnclave (m : Machine) : Except Fault (Enclave Vault) × Drive :=
  match Settings.loadOrStandard m.drive.disk m.settingsPath with
  | .error fault => (.error (.badParameters (.settings fault)), m.drive)
  | .ok settings =>
    let folder := Route.ofText settings.storageFolder
    match Vault.mount m.drive folder settings.deviceSecret m.nonces with
    | (.error fault, drive) => (.error (.storage fault), drive)
    | (.ok vault, drive) => ((Agent.start settings vault).map Enclave.ofAgent, drive)

/-- The drive under a courier. -/
def driveOf (c : VaultCourier) : Drive := c.endpoint.agent.store.drive

/-- The courier with no steps in the log of its drive. -/
def settled (c : VaultCourier) : VaultCourier :=
  let agent := c.endpoint.agent
  let store := { agent.store with drive := Drive.ofDisk agent.store.drive.disk }
  { c with endpoint := { c.endpoint with agent := { agent with store := store } } }

/-- A courier between the custodian of a machine and a key service without keys. -/
def openCourier (m : Machine) (settings : CourierSettings) : Except Fault VaultCourier × Drive :=
  match openEnclave m with
  | (.error fault, drive) => (.error fault, drive)
  | (.ok enclave, drive) => (.ok ⟨settings, enclave, KeyOffice.empty m.mint⟩, drive)

/-- The contents of a file that an argument names. -/
def readFile (m : Machine) (path : String) : Except Fault Bytes :=
  let content : Except Refusal Bytes := match m.drive.disk.find? (Route.ofText path) with
    | some node => node.content?
    | none => .error .refused
  content.mapError fun _ => .badParameters (.unreadableFile path)

/-! ### Commands -/

/-- Sets the anchor from three files. -/
def init (m : Machine) (serviceKey certificate privateKey : String) : Outcome :=
  let inputs : Except Fault (Bytes × Bytes × Bytes) := do
    let serviceKey ← readFile m serviceKey
    let certificate ← readFile m certificate
    let privateKey ← readFile m privateKey
    .ok (serviceKey, certificate, privateKey)
  match inputs with
  | .error fault => .of "" (.error fault) m.drive
  | .ok (serviceKey, certificate, privateKey) =>
    match openCourier m CourierSettings.standard with
    | (.error fault, drive) => .of "" (.error fault) drive
    | (.ok courier, _) =>
      match courier.bootstrap serviceKey certificate privateKey with
      | (.error fault, courier) => .of "" (.error fault) (driveOf courier)
      | (.ok echoed, courier) =>
        let output := "\n  KTA initialized\n  Certificate:     " ++
          toString echoed.length ++ " bytes\n"
        .of output (.ok ()) (driveOf courier)

/-- Measures files one by one, printing a line for each, up to the first that cannot be read. -/
def measure (m : Machine) (output : String) (done : List Measurement) :
    List String → String × Except Fault (List Measurement)
  | [] => (output, .ok done.reverse)
  | path :: rest =>
    match readFile m path with
    | .error fault => (output, .error fault)
    | .ok image =>
      let measurement := Measurement.ofImage image
      measure m (output ++ "  " ++ measurement.text ++ "  " ++ path ++ "\n")
        (measurement :: done) rest

/-- Registers the measurements of files. -/
def hash (m : Machine) (paths : List String) : Outcome :=
  match measure m "" [] paths with
  | (output, .error fault) => .of output (.error fault) m.drive
  | (output, .ok measurements) =>
    match openCourier m CourierSettings.standard with
    | (.error fault, drive) => .of output (.error fault) drive
    | (.ok courier, _) =>
      match courier.register measurements with
      | (.error fault, courier) => .of output (.error fault) (driveOf courier)
      | (.ok (), courier) =>
        let output := output ++ "  Registered " ++ toString measurements.length ++
          " measurements\n"
        .of output (.ok ()) (driveOf courier)

/-- The counts of the custodian, as the tool shows them. -/
def statusText (s : Status) : String :=
  "\n  KTA Status\n  " ++ String.ofList (List.replicate 40 '=') ++ "\n" ++
  "  Initialized:     " ++ toString s.isInitialized ++ "\n" ++
  "  Cache:           " ++ toString s.ready ++ " ready, " ++ toString s.pending ++
  " pending, " ++ toString s.failed ++ " failed, " ++ toString s.deleted ++ " deleted\n" ++
  "  Queue:           " ++ toString s.depth ++ "/" ++ toString s.capacity ++ " (" ++
  toString s.queued ++ " not yet delivered)\n" ++
  "  Next sequence:   " ++ toString s.nextSequence ++ "\n" ++
  "  Trusted hashes:  " ++ toString s.trusted ++ "\n"

/-- Shows the counts of the custodian. -/
def status (m : Machine) : Outcome :=
  match openEnclave m with
  | (.error fault, drive) => .of "" (.error fault) drive
  | (.ok enclave, _) =>
    .of (statusText enclave.agent.status) (.ok ()) enclave.agent.store.drive

/-- Ends custody. -/
def reset (m : Machine) : Outcome :=
  match openCourier m CourierSettings.standard with
  | (.error fault, drive) => .of "" (.error fault) drive
  | (.ok courier, _) =>
    match courier.close with
    | (.error fault, courier) => .of "" (.error fault) (driveOf courier)
    | (.ok (), courier) => .of "  KTA state erased\n" (.ok ()) (driveOf courier)

/-- The settings of a courier that polls after the given number of milliseconds. -/
def serveSettings (arguments : List String) : CourierSettings :=
  match arguments with
  | interval :: _ =>
    if interval.toList.all Char.isDigit then
      match interval.toNat? with
      | some interval => { CourierSettings.standard with interval := interval }
      | none => CourierSettings.standard
    else CourierSettings.standard
  | [] => CourierSettings.standard

end KeyCustody.Console
