import KeyCustody.Console.Basic

/-!
# The demonstration

One exchange from end to end, in memory: an application asks for a key, the courier has it
generated, the application gets it and leaves. Each step prints a line.
-/

namespace KeyCustody.Console

/-- A courier to a custodian in memory. -/
abbrev MemoryCourier := Courier (Enclave MemoryStore) KeyOffice

/-- Steps that print, change the courier and may fail. -/
abbrev Demo := ExceptT Fault (StateM (String × MemoryCourier))

namespace Demo

/-- Prints a line. -/
def say (line : String) : Demo Unit :=
  modify fun (output, courier) => (output ++ line ++ "\n", courier)

/-- Runs a call of the courier. -/
def onCourier {α : Type} (call : MemoryCourier → Except Fault α × MemoryCourier) : Demo α := do
  let (output, courier) ← get
  let (result, courier) := call courier
  set (output, courier)
  liftM (n := Demo) result

/-- Runs a call of an application. -/
def onAgent {α : Type} (call : Agent MemoryStore → Except Fault α × Agent MemoryStore) : Demo α :=
  onCourier fun courier =>
    let (result, enclave) := courier.endpoint.withAgent call
    (result.bind id, { courier with endpoint := enclave })

/-- The words for the answer to a lookup. -/
def describe : Lookup → String
  | .ready material => "ready (" ++ toString material.length ++ " bytes)"
  | .pending sequence => "pending, retry later (seq " ++ toString sequence ++ ")"
  | .failed => "failed"

/-- The exchange. -/
def script (ta : Uuid) : Demo Unit := do
  say "\n  === KTA demo ===\n"
  say "  [1] Bootstrap"
  let certificate ← onCourier fun courier =>
    courier.bootstrap (Bytes.ofText "demo-kcm-public-key") (Bytes.ofText "demo-kta-certificate")
      (Bytes.ofText "demo-kta-key")
  let (_, courier) ← get
  say ("      KCM now holds " ++ toString courier.service.certificates.length ++
    " certificate(s), " ++ toString certificate.length ++ " bytes")
  say "  [2] Register and attest a TA"
  let measurement := Measurement.ofImage (Bytes.ofText "demo-ta-image")
  onCourier fun courier => courier.register [measurement]
  onAgent fun agent => agent.attest ta measurement
  say ("      TA " ++ ta.text ++ " verified (" ++ measurement.text ++ ")")
  say "  [3] TA looks up a key that is not cached"
  let key : KeyRef := ⟨ta, "storage-key"⟩
  let lookup ← onAgent fun agent => agent.search key
  say ("      -> " ++ describe lookup)
  say "  [4] KA polls and relays to KCM"
  let report ← onCourier fun courier => courier.pollOnce
  say ("      " ++ toString report.delivered ++ " commands delivered in " ++
    toString report.rounds ++ " rounds, " ++ toString report.accepted ++ " accepted")
  say "  [5] TA retries"
  let lookup ← onAgent fun agent => agent.search key
  say ("      -> " ++ describe lookup)
  say "  [6] TA exits, its keys are destroyed"
  let destroyed ← onAgent fun agent => agent.exit ta
  let _ ← onCourier fun courier => courier.pollOnce
  say ("      " ++ toString destroyed ++ " key(s) destroyed and revoked at KCM")
  let (_, courier) ← get
  let agent := courier.endpoint.agent
  let status := agent.status
  say ("\n  Final: " ++ toString status.ready ++ " cache entries ready, queue depth " ++
    toString status.depth ++ ", next sequence " ++ toString status.nextSequence)
  let stored := (agent.store.get? Custody.record).getD []
  say ("  Persisted snapshot: " ++ toString stored.length ++ " bytes")

end Demo

/-- Runs the demonstration. -/
def demo (m : Machine) : Outcome :=
  match Agent.start Settings.standard MemoryStore.empty with
  | .error fault => .of "" (.error fault) m.drive
  | .ok agent =>
    let courier : MemoryCourier :=
      ⟨CourierSettings.standard, Enclave.ofAgent agent, KeyOffice.empty m.mint⟩
    let (result, output, _) := (Demo.script m.demoApplication).run.run ("", courier)
    .of output result m.drive

end KeyCustody.Console
