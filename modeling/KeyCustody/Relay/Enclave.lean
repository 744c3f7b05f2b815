import KeyCustody.Relay.Session

/-!
# The enclave

An endpoint that serves its sessions with an agent of its own. An invocation needs an open session;
once a computation on the agent has been cut short, the agent cannot be reached any more. Sessions
are numbered in 32 bits, so that after many of them a number comes up again, even if the session
that has it is still open.
-/

namespace KeyCustody

/-- An agent with the sessions that are open, the number of the next one, and whether the agent has
become unreachable. -/
structure Enclave (σ : Type) where
  agent : Agent σ
  sessions : List Nat
  nextSession : Nat
  poisoned : Bool

namespace Enclave

variable {σ : Type}

/-- The number below which the numbers of sessions lie. -/
def sessionBound : Nat := 0x100000000

/-- The enclave of an agent, without sessions. -/
def ofAgent (agent : Agent σ) : Enclave σ := ⟨agent, [], 1, false⟩

/-- The enclave whose agent cannot be reached. -/
def poison (e : Enclave σ) : Enclave σ := { e with poisoned := true }

/-- Runs a computation on the agent. -/
def withAgent {α : Type} (e : Enclave σ) (body : Agent σ → α × Agent σ) :
    Except Fault α × Enclave σ :=
  if e.poisoned then (.error (.generic .poisoned), e)
  else
    let (answer, agent) := body e.agent
    (.ok answer, { e with agent := agent })

/-- Opens a session; after the largest number the next is zero. -/
def openSession (e : Enclave σ) : Nat × Enclave σ :=
  (e.nextSession,
    { e with
      sessions := e.sessions.insert e.nextSession
      nextSession := (e.nextSession + 1) % sessionBound })

/-- Closes a session. -/
def closeSession (e : Enclave σ) (session : Nat) : Enclave σ :=
  { e with sessions := e.sessions.filter (· ≠ session) }

/-- Carries out an invocation in an open session. -/
def invoke [Store σ] (e : Enclave σ) (session command : Nat) (block : Block) :
    Except Fault Unit × Block × Enclave σ :=
  if session ∉ e.sessions then (.error (.generic (.noSession session)), block, e)
  else if e.poisoned then (.error (.generic .poisoned), block, e)
  else
    let (result, block, agent) := e.agent.invoke command block
    (result, block, { e with agent := agent })

instance [Store σ] : Endpoint (Enclave σ) where
  openSession e := let (session, e) := e.openSession; (.ok session, e)
  invoke := invoke
  closeSession := closeSession

end Enclave

end KeyCustody
