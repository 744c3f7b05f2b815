import KeyCustody.Proofs.Agent.Sealed
import KeyCustody.Proofs.Relay.Marshalling
import KeyCustody.Relay.Enclave

/-!
# Calls through a session

A call through an open session of an enclave and the call of the agent itself (`Enclave.directly`)
come to the same (`Session.agrees_with_agent`). An invocation in an open session is an invocation of
the agent (`Enclave.invoke_eq_directly`), so this follows from what is known about arguments and
results in slots.

No command is lost on the way: a poll through a session either changes nothing in custody, or
returns exactly the commands that it has marked as delivered.
-/

namespace KeyCustody

variable {σ : Type} {α : Type}

namespace Enclave

variable {e : Enclave σ} {session : Nat}

/-- A call of the agent that does not go through a session. -/
def directly (e : Enclave σ) (body : Agent σ → Except Fault α × Agent σ) :
    Except Fault α × Enclave σ :=
  match e.withAgent body with
  | (.ok result, e) => (result, e)
  | (.error fault, e) => (.error fault, e)

/-- Calls that are alike on the agent are alike on the enclave. -/
theorem directly_congr {f g : Agent σ → Except Fault α × Agent σ}
    (h : SameOutcome (f e.agent) (g e.agent)) : SameOutcome (e.directly f) (e.directly g) := by
  simp only [directly, withAgent]
  split_ifs with hpoisoned
  · exact .of_eq rfl
  · exact ⟨h.answer, congrArg (fun b => { e with agent := b }) h.state⟩

theorem directly_eq {f g : Agent σ → Except Fault α × Agent σ} (h : f e.agent = g e.agent) :
    e.directly f = e.directly g := by
  simp only [directly, withAgent, h]

/-- Calls that leave the same agent leave the same enclave, whatever they answer. -/
theorem snd_directly_congr {β : Type} {f : Agent σ → Except Fault α × Agent σ}
    {g : Agent σ → Except Fault β × Agent σ} (h : (f e.agent).2 = (g e.agent).2) :
    (e.directly f).2 = (e.directly g).2 := by
  simp only [directly, withAgent]
  split_ifs
  · rfl
  · exact congrArg (fun b => { e with agent := b }) h

/-- A call on an enclave whose agent can be reached is a call of the agent. -/
theorem directly_of_not_poisoned (h : e.poisoned = false)
    (body : Agent σ → Except Fault α × Agent σ) :
    e.directly body = ((body e.agent).1, { e with agent := (body e.agent).2 }) := by
  simp only [directly, withAgent, h, Bool.false_eq_true, if_false]

variable [Store σ]

/-- An invocation in an open session is an invocation of the agent. -/
theorem invoke_eq_directly (hsession : session ∈ e.sessions) (command : RelayCommand)
    (block : Block) (read : Except Fault Unit → Block → Except Fault α)
    (hread : ∀ fault, read (.error fault) block = .error fault) :
    (let (result, block, e) := Endpoint.invoke e session command.id block
     (read result block, e)) = e.directly fun a => a.relay command block read := by
  have hinvoke : Endpoint.invoke e session command.id block = e.invoke session command.id block :=
    rfl
  rw [hinvoke, invoke, if_neg (not_not.mpr hsession)]
  simp only [directly, withAgent]
  split_ifs with hpoisoned
  · exact Prod.ext (hread _) rfl
  · rfl

end Enclave

namespace Agent

variable [Store σ] {a : Agent σ}

/-- A poll of the agent fails before there is an anchor or in its commit, and then custody is as it
was; otherwise it returns the commands that count as just delivered. -/
theorem poll_cases (hsettings : a.settings.check = .ok ()) :
    (∃ fault b, a.poll a.settings.maxBatch (fun _ => .ok ()) = (.error fault, b) ∧
        b.custody = a.custody ∧ (fault = .notInitialized ∨ ∃ cause, fault = .storage cause)) ∨
      ∃ polled b, a.poll a.settings.maxBatch (fun _ => .ok ()) = (.ok polled, b) ∧
        (b.custody.outbox.commands.filter (·.status = .delivered)).map Request.ofCommand =
          polled.batch.requests := by
  obtain ⟨hpos, hle⟩ := Settings.maxBatch_bounds hsettings
  obtain ⟨polled, t, hpoll⟩ := a.custody.exists_poll hpos hle a.settings.replyTimeout
  by_cases hinit : a.isInitialized = true
  · simp only [poll, requireInitialized, hinit, if_true, transact, hpoll, bind, Except.bind]
    rcases Store.commit a.store [(Custody.record, t.encode)] with ⟨cause | ⟨⟩, store⟩
    · exact .inl ⟨_, _, rfl, rfl, .inr ⟨cause, rfl⟩⟩
    · exact .inr ⟨_, _, rfl, Custody.delivered_poll hpoll⟩
  · rw [Bool.not_eq_true] at hinit
    simp only [poll, requireInitialized, hinit, Bool.false_eq_true, if_false]
    exact .inl ⟨_, _, rfl, rfl, .inl rfl⟩

end Agent

namespace Session

variable [Store σ] {e : Enclave σ} {session : Nat}

/-- Polling through an open session is polling. -/
theorem requests_eq_directly (hsession : session ∈ e.sessions) (hs : e.agent.custody.Sound)
    (hnext : e.agent.custody.outbox.nextSequence < Outbox.sequenceBound)
    (hsettings : e.agent.settings.check = .ok ())
    (hdepth : e.agent.custody.outbox.depth ≤ Settings.queueDepthCeiling) :
    requests e session = e.directly fun a =>
      (a.poll a.settings.maxBatch fun _ => .ok ()).map (Except.map (·.batch)) id := by
  have hinvoke : requests e session = e.directly _ :=
    Enclave.invoke_eq_directly hsession .poll
      ⟨.memoryOut (.output maxRequestBuffer), .valueOut 0 0, .empty, .empty⟩
      (fun result block => result.bind fun _ => batchOf block) fun _ => rfl
  rw [hinvoke]
  exact Enclave.directly_eq (Agent.relay_poll hs hnext hsettings hdepth)

/-- Handing in a reply through an open session agrees with submitting it. -/
theorem respond_agrees (hsession : session ∈ e.sessions) (hs : e.agent.custody.Sound)
    (hnext : e.agent.custody.outbox.nextSequence < Outbox.sequenceBound)
    {reply : Reply} (hlength : reply.encode.length ≤ Anchor.maxCertificateSize) :
    SameOutcome (respond e session reply)
      (e.directly fun a => (a.submit reply).map (Except.map fun _ => true) id) := by
  have hinvoke : respond e session reply = e.directly _ :=
    Enclave.invoke_eq_directly hsession .reply
      ⟨.memoryIn (.input reply.encode), .valueOut 0 0, .empty, .empty⟩
      (fun result block => result.map fun _ =>
        decide ((block.second.valueOut?.map (·.1)) = some 1)) fun _ => rfl
  rw [hinvoke]
  exact Enclave.directly_congr (Agent.relay_submit hs hnext hlength)

/-- **Calls through a session agree with calls of the agent.** Over any store, an agent whose
settings and custody some run leads to does the same whether it is called through an open session
or directly: both ways succeed together and with the same value, and leave the same state and the
same store. A poll through a session fails only where the agent is out of reach, not initialized or
cannot commit, and then custody is as it was; otherwise it returns exactly the commands that are
now marked as delivered. -/
theorem agrees_with_agent {a : Agent MemoryStore} (h : a.Reachable) {store : σ}
    (hagent : e.agent = a.withStore store) (hsession : session ∈ e.sessions) :
    (∀ serviceKey certificate privateKey, SameOutcome
      (provision e session serviceKey certificate privateKey)
      (e.directly (·.provision serviceKey certificate privateKey))) ∧
    (∀ measurements, SameOutcome (register e session measurements)
      (e.directly fun a => (a.register measurements).map (Except.map fun _ => ()) id)) ∧
    requests e session = (e.directly fun a =>
      (a.poll a.settings.maxBatch fun _ => .ok ()).map (Except.map (·.batch)) id) ∧
    (∀ reply : Reply, reply.encode.length ≤ Anchor.maxCertificateSize → SameOutcome
      (respond e session reply)
      (e.directly fun a => (a.submit reply).map (Except.map fun _ => true) id)) ∧
    close e session = e.directly (·.close) ∧
    (∀ fault, (requests e session).1 = .error fault →
      (requests e session).2.agent.custody = e.agent.custody ∧
        (fault = .generic .poisoned ∨ fault = .notInitialized ∨ ∃ cause, fault = .storage cause)) ∧
    ∀ batch, (requests e session).1 = .ok batch →
      ((requests e session).2.agent.custody.outbox.commands.filter
        (·.status = .delivered)).map Request.ofCommand = batch.requests := by
  have hs : e.agent.custody.Sound := by
    rw [hagent]
    exact h.lawful.sound
  have hnext : e.agent.custody.outbox.nextSequence < Outbox.sequenceBound := by
    rw [hagent]
    exact h.lawful.nextSequence_lt
  have hsettings : e.agent.settings.check = .ok () := by
    rw [hagent]
    exact h.lawful.settings
  have hdepth : e.agent.custody.outbox.depth ≤ Settings.queueDepthCeiling := by
    rw [hagent]
    exact h.depth_le
  have hrequests := requests_eq_directly hsession hs hnext hsettings hdepth
  refine ⟨fun serviceKey certificate privateKey => ?_, fun measurements => ?_, hrequests,
    fun reply => respond_agrees hsession hs hnext, ?_, ?_⟩
  · have hinvoke : provision e session serviceKey certificate privateKey = e.directly _ :=
      Enclave.invoke_eq_directly hsession .provision
        ⟨.memoryIn (.input serviceKey), .memoryIn (.input certificate),
          .memoryIn (.input privateKey), .memoryOut (.output certificateRoom)⟩
        (fun result block => result.map fun _ => outputOf block.fourth) fun _ => rfl
    rw [hinvoke]
    exact Enclave.directly_congr (Agent.relay_provision _ _ _ _)
  · have hinvoke : register e session measurements = e.directly _ :=
      Enclave.invoke_eq_directly hsession .register
        ⟨.memoryIn (.input (measurements.flatMap Measurement.octets)),
          .valueIn (asValue measurements.length) 0, .empty, .empty⟩
        (fun result _ => result) fun _ => rfl
    rw [hinvoke]
    exact Enclave.directly_congr (Agent.relay_register _ _)
  · exact Enclave.invoke_eq_directly hsession .close Block.empty (fun result _ => result)
      fun _ => rfl
  · rw [hrequests]
    by_cases hpoisoned : e.poisoned = true
    · simp [Enclave.directly, Enclave.withAgent, hpoisoned]
    · rw [Enclave.directly_of_not_poisoned (Bool.not_eq_true _ ▸ hpoisoned)]
      rcases Agent.poll_cases hsettings with ⟨fault, b, hpoll, hkept, hfault⟩ |
        ⟨polled, b, hpoll, hdelivered⟩ <;> simp only [hpoll, Prod.map, Except.map, id]
      · refine ⟨fun _ heq => ?_, nofun⟩
        obtain rfl := Except.error.inj heq
        exact ⟨hkept, .inr hfault⟩
      · refine ⟨nofun, fun _ heq => ?_⟩
        obtain rfl := Except.ok.inj heq
        exact hdelivered

/-- An agent that has one command waiting. -/
def introduced : Agent MemoryStore := Agent.opened.serveAll (Agent.introduction Agent.sampleKey)

theorem reachable_introduced : introduced.Reachable :=
  ⟨_, Agent.run_opened.serveAll _ (by decide +kernel)⟩

/-- Its enclave with an open session. -/
def watched : Enclave MemoryStore := (Enclave.ofAgent introduced).openSession.2

/-- A poll through this session returns the command, and marks it as delivered. -/
theorem agrees_with_agent_watched :
    ∃ batch, (requests watched 1).1 = .ok batch ∧
      batch.requests = [⟨1, .search, Agent.sampleKey, ""⟩] ∧
      ((requests watched 1).2.agent.custody.outbox.commands.filter
        (·.status = .delivered)).map Request.ofCommand = batch.requests := by
  have hagent : watched.agent = introduced.withStore watched.agent.store := rfl
  have hsession : 1 ∈ watched.sessions := by decide +kernel
  obtain ⟨-, -, hrequests, -, -, -, hdelivered⟩ :=
    agrees_with_agent reachable_introduced hagent hsession
  have hpoll : (watched.directly fun a => (a.poll a.settings.maxBatch fun _ => .ok ()).map
      (Except.map (·.batch)) id).1.toOption =
        some ⟨1, [⟨1, .search, Agent.sampleKey, ""⟩], 0⟩ := by
    decide +kernel
  rw [← hrequests] at hpoll
  rcases hbatch : (requests watched 1).1 with fault | batch <;> rw [hbatch] at hpoll
  · cases hpoll
  · obtain rfl := Option.some.inj hpoll
    exact ⟨_, rfl, rfl, hdelivered _ hbatch⟩

end Session

end KeyCustody
