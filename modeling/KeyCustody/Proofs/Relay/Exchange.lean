import KeyCustody.Proofs.Relay.Session
import KeyCustody.Relay.Courier

/-!
# Custodian, courier and key office together

An `Exchange` is a courier between the enclave of a custodian and a key office, with the requests
that it still has to put to the office and the reply that it still has to hand in. In one move a
call is made at the custodian, something happens to its store, or the courier goes on by one step:
it fetches a batch, puts the next request to the office, or hands in the reply. Calls fall between
any two steps of the courier, and nothing is assumed about the order of the moves.

A whole poll of the courier is a sequence of such steps (`Exchange.run_pollOnce`), and so are its
other calls (`Exchange.run_bootstrap`, `Exchange.run_register`, `Exchange.run_close`).
-/

namespace KeyCustody

/-- Whether a call is one of those that the courier makes in a poll. -/
def Call.isRelay : Call → Bool
  | .poll .. | .submit _ => true
  | _ => false

/-- A courier between an enclave and a key office, with the requests of its batch that it has not
put to the office, and the last request that it has, with the reply that it has not handed in. -/
structure Exchange (σ : Type) where
  courier : Courier (Enclave σ) KeyOffice
  requests : List Request
  answered : Option (Request × Reply)

namespace Exchange

variable {σ : Type}

/-- One move: a call at the custodian, a change of its store from outside, a key that the office is
provided with, a step of the courier, or a session that anybody opens or closes. -/
inductive Move (σ : Type) where
  | call (call : Call) (hcall : call.isRelay = false)
  | disturb (store : σ)
  | preload (key : KeyRef) (material : Bytes)
  | enrol (certificate : Bytes)
  | openSession
  | closeSession (session : Nat)
  | fetch (session : Nat)
  | consult
  | deliver (session : Nat)

/-- The exchange whose courier has nothing on its way. -/
def idle (c : Courier (Enclave σ) KeyOffice) : Exchange σ := ⟨c, [], none⟩

/-- The custodian. -/
def agent (x : Exchange σ) : Agent σ := x.courier.endpoint.agent

/-- What the custodian knows. -/
def custody (x : Exchange σ) : Custody := x.agent.custody

/-- The key office. -/
def office (x : Exchange σ) : KeyOffice := x.courier.service

/-- The exchange with another enclave. -/
def withEnclave (x : Exchange σ) (e : Enclave σ) : Exchange σ :=
  { x with courier := { x.courier with endpoint := e } }

/-- The exchange with another key office. -/
def withOffice (x : Exchange σ) (o : KeyOffice) : Exchange σ :=
  { x with courier := { x.courier with service := o } }

/-- The requests that the office has not seen, oldest first: those that the courier has, and those
that wait for the next poll. -/
def unhandled (x : Exchange σ) : List Request :=
  x.requests ++ x.custody.outbox.waiting.map Request.ofCommand

/-- The requests that the office has not seen, with the one whose reply is on its way before
them. -/
def underway (x : Exchange σ) : List Request := x.answered.toList.map (·.1) ++ x.unhandled

/-- The exchange after a poll with some outcome. -/
def fetched (x : Exchange σ) : Except Fault Batch × Enclave σ → Exchange σ
  | (.ok batch, e) => { x.withEnclave e with requests := batch.requests }
  | (.error _, e) => x.withEnclave e

variable [Store σ]

/-- Makes a call at the custodian. -/
def serve (x : Exchange σ) (call : Call) : Except Fault Answer × Exchange σ :=
  let (result, e) := x.courier.endpoint.directly (·.serve call)
  (result, x.withEnclave e)

/-- A call at the custodian is refused by the enclave, or is a call of the agent. -/
theorem serve_cases (x : Exchange σ) (call : Call) :
    (∃ fault, x.serve call = (.error fault, x)) ∨
      x.serve call = ((x.agent.serve call).1,
        x.withEnclave { x.courier.endpoint with agent := (x.agent.serve call).2 }) := by
  by_cases hpoisoned : x.courier.endpoint.poisoned = true
  · refine .inl ⟨.generic .poisoned, ?_⟩
    rw [serve, Enclave.directly, Enclave.withAgent, if_pos hpoisoned]
    rfl
  · refine .inr ?_
    rw [serve, Enclave.directly_of_not_poisoned (Bool.not_eq_true _ ▸ hpoisoned)]
    rfl

/-- Makes a move. A step of the courier for which it is not ready does nothing. -/
def move (x : Exchange σ) : Move σ → Exchange σ
  | .call call _ => (x.serve call).2
  | .disturb store =>
    x.withEnclave { x.courier.endpoint with agent := { x.agent with store := store } }
  | .preload key material => x.withOffice (x.office.preload key material)
  | .enrol certificate => x.withOffice (KeyService.enrol x.office certificate)
  | .openSession => x.withEnclave x.courier.endpoint.openSession.2
  | .closeSession session => x.withEnclave (Endpoint.closeSession x.courier.endpoint session)
  | .fetch session =>
    match x.requests, x.answered with
    | [], none => x.fetched (Session.requests x.courier.endpoint session)
    | _, _ => x
  | .consult =>
    match x.requests, x.answered with
    | request :: rest, none =>
      let (reply, o) := KeyService.handle x.office request
      { x.withOffice o with requests := rest, answered := some (request, reply) }
    | _, _ => x
  | .deliver session =>
    match x.answered with
    | some (_, reply) =>
      { x.withEnclave (Session.respond x.courier.endpoint session reply).2 with answered := none }
    | none => x

/-- Makes moves one after the other. -/
def run (x : Exchange σ) (moves : List (Move σ)) : Exchange σ := moves.foldl move x

theorem run_append (x : Exchange σ) (moves more : List (Move σ)) :
    x.run (moves ++ more) = (x.run moves).run more :=
  List.foldl_append

/-! ### The calls of the courier are moves -/

/-- Whether a move is one that the courier makes in a poll. -/
def Move.isPolling : Move σ → Bool
  | .openSession | .closeSession _ | .fetch _ | .consult | .deliver _ => true
  | _ => false

section Courier

variable (c : Courier (Enclave σ) KeyOffice)

/-- Having a batch answered is putting each request to the office and handing in its reply. -/
private theorem run_carryAll (session : Nat) (report : PollReport) (requests : List Request) :
    ∃ moves : List (Move σ), (∀ m ∈ moves, m.isPolling = true) ∧
      run ⟨c, requests, none⟩ moves = idle (c.carryAll session report requests).2 := by
  induction requests generalizing c report with
  | nil => exact ⟨[], nofun, rfl⟩
  | cons request rest ih =>
    obtain ⟨moves, hpolling, hmoves⟩ := ih (c.carry session report request).2
      (c.carry session report request).1
    exact ⟨.consult :: .deliver session :: moves, by simpa [Move.isPolling] using hpolling, hmoves⟩

private theorem run_rounds (session : Nat) (report : PollReport) (left : Nat) :
    ∃ moves : List (Move σ), (∀ m ∈ moves, m.isPolling = true) ∧
      run (idle c) moves = idle (c.rounds session report left).2 := by
  induction left generalizing c report with
  | zero => exact ⟨[], nofun, rfl⟩
  | succ left ih =>
    have hfetch : (idle c).move (.fetch session) =
        (idle c).fetched (Session.requests c.endpoint session) := rfl
    rw [Courier.rounds]
    generalize Session.requests c.endpoint session = outcome at hfetch
    obtain ⟨fault | batch, e⟩ := outcome <;> dsimp only [fetched] at hfetch ⊢
    · exact ⟨[.fetch session], by simp [Move.isPolling], hfetch⟩
    split_ifs with hempty
    · rw [List.isEmpty_iff.mp hempty.1] at hfetch
      exact ⟨[.fetch session], by simp [Move.isPolling], hfetch⟩
    · obtain ⟨carried, hcarrying, hcarried⟩ := run_carryAll { c with endpoint := e } session
        { report with
          rounds := report.rounds + 1
          delivered := report.delivered + batch.requests.length } batch.requests
      obtain ⟨others, hpolling, hothers⟩ := ih _ _
      refine ⟨.fetch session :: (carried ++ others), fun m hm => ?_, ?_⟩
      · rcases List.mem_cons.mp hm with rfl | hm
        · rfl
        · exact (List.mem_append.mp hm).elim (hcarrying m) (hpolling m)
      · have hrun : run (idle c) (.fetch session :: (carried ++ others)) =
            run ⟨{ c with endpoint := e }, batch.requests, none⟩ (carried ++ others) :=
          congrArg (run · (carried ++ others)) hfetch
        rw [hrun, run_append, hcarried, hothers]

/-- **A poll of the courier** is a run of its steps, whatever comes back and wherever it ends. -/
theorem run_pollOnce : ∃ moves : List (Move σ), (∀ m ∈ moves, m.isPolling = true) ∧
    run (idle c) moves = idle c.pollOnce.2 := by
  obtain ⟨moves, hpolling, hmoves⟩ :=
    run_rounds { c with endpoint := c.endpoint.openSession.2 } c.endpoint.nextSession ⟨0, 0, 0, 0⟩
      c.settings.maxRounds
  refine ⟨.openSession :: (moves ++ [.closeSession c.endpoint.nextSession]), fun m hm => ?_, ?_⟩
  · rcases List.mem_cons.mp hm with rfl | hm
    · rfl
    · rcases List.mem_append.mp hm with hm | hm
      · exact hpolling m hm
      · rw [List.mem_singleton.mp hm]
        rfl
  · rw [run, List.foldl_cons, ← run, run_append]
    exact congrArg (run · [.closeSession c.endpoint.nextSession]) hmoves

/-- A call of the courier that comes to a call of the custodian is this call, in a session of its
own. -/
private theorem run_call {α : Type} {call : Call} (hcall : call.isRelay = false)
    {body : Nat → Enclave σ → Except Fault α × Enclave σ}
    (hbody : ∀ {e : Enclave σ} {session : Nat}, session ∈ e.sessions →
      (body session e).2 = (e.directly (·.serve call)).2) :
    run (idle c) [.openSession, .call call hcall, .closeSession c.endpoint.nextSession] =
      idle (c.call body).2 := by
  have hopen : c.endpoint.nextSession ∈ c.endpoint.openSession.2.sessions :=
    List.mem_insert_self
  exact congrArg (fun e => idle { c with
    endpoint := Endpoint.closeSession e c.endpoint.nextSession }) (hbody hopen).symm

/-- Setting the anchor is a call of the custodian, after which the office hears of the certificate
that comes back. -/
theorem run_bootstrap (serviceKey certificate privateKey : Bytes) :
    ∃ told : List (Move σ), (∀ m ∈ told, ∃ echoed, m = .enrol echoed) ∧
      run (idle c) ([.openSession, .call (.provision serviceKey certificate privateKey) rfl,
        .closeSession c.endpoint.nextSession] ++ told) =
          idle (c.bootstrap serviceKey certificate privateKey).2 := by
  have hcall : run (idle c) [.openSession, .call (.provision serviceKey certificate privateKey) rfl,
      .closeSession c.endpoint.nextSession] = idle (c.call fun session e =>
        Session.provision e session serviceKey certificate privateKey).2 :=
    run_call c rfl fun {e session} hsession => by
      have hinvoke : Session.provision e session serviceKey certificate privateKey =
          e.directly _ :=
        Enclave.invoke_eq_directly hsession .provision
          ⟨.memoryIn (.input serviceKey), .memoryIn (.input certificate),
            .memoryIn (.input privateKey), .memoryOut (.output Session.certificateRoom)⟩
          (fun result block => result.map fun _ => Session.outputOf block.fourth) fun _ => rfl
      rw [hinvoke]
      exact Enclave.snd_directly_congr (Agent.relay_provision _ _ _ _).state
  simp only [run_append, hcall, Courier.bootstrap]
  rcases c.call fun session e => Session.provision e session serviceKey certificate privateKey with
    ⟨fault | echoed, d⟩
  · exact ⟨[], nofun, rfl⟩
  · exact ⟨[.enrol echoed], by simp, rfl⟩

/-- Registering measurements is a call of the custodian in a session of its own. -/
theorem run_register (measurements : List Measurement) :
    run (idle c) [.openSession, .call (.register measurements) rfl,
      .closeSession c.endpoint.nextSession] = idle (c.register measurements).2 :=
  run_call c rfl fun {e session} hsession => by
    have hinvoke : Session.register e session measurements = e.directly _ :=
      Enclave.invoke_eq_directly hsession .register
        ⟨.memoryIn (.input (measurements.flatMap Measurement.octets)),
          .valueIn (asValue measurements.length) 0, .empty, .empty⟩
        (fun result _ => result) fun _ => rfl
    rw [hinvoke]
    exact Enclave.snd_directly_congr (Agent.relay_register _ _).state

/-- Ending custody is a call of the custodian in a session of its own. -/
theorem run_close :
    run (idle c) [.openSession, .call .close rfl, .closeSession c.endpoint.nextSession] =
      idle c.close.2 :=
  run_call c rfl fun {e session} hsession => by
    have hinvoke : Session.close e session = e.directly _ :=
      Enclave.invoke_eq_directly hsession .close Block.empty (fun result _ => result) fun _ => rfl
    rw [hinvoke]
    exact Enclave.snd_directly_congr rfl

end Courier

end Exchange

end KeyCustody
