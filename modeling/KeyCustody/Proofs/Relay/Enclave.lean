import KeyCustody.Proofs.Agent.Sealed
import KeyCustody.Relay.Enclave

/-!
# Enclaves in use

The enclaves that a run leads to (`Enclave.Reachable`): around a reachable agent, sessions are
opened and closed and the agent takes steps, in any order. Invocations lead nowhere else
(`Enclave.Reachable.invoke`). The proviso is that the numbers of sessions, which have 32 bits, do
not begin anew (`Enclave.SessionsLast`). In all of them the agent can be reached and the number of
the next session is new (`Enclave.Reachable.lawful`).
-/

namespace KeyCustody

namespace Enclave

/-- The proviso on the number of sessions: one more can be opened before the numbers begin anew. -/
def SessionsLast {σ : Type} (e : Enclave σ) : Prop := e.nextSession + 1 < sessionBound

instance {σ : Type} (e : Enclave σ) : Decidable e.SessionsLast := Nat.decLt _ _

/-- The enclaves that are reached by opening sessions, as long as their numbers last, by closing
sessions and by steps of the agent. -/
inductive Reachable : Enclave MemoryStore → Prop
  | ofAgent {a : Agent MemoryStore} (h : a.Reachable) : Reachable (ofAgent a)
  | openSession {e : Enclave MemoryStore} (h : Reachable e) (hlast : e.SessionsLast) :
    Reachable e.openSession.2
  | closeSession {e : Enclave MemoryStore} (h : Reachable e) (session : Nat) :
    Reachable (e.closeSession session)
  | step {e : Enclave MemoryStore} {event : Event} {b : Agent MemoryStore} (h : Reachable e)
      (hstep : e.agent.Step event b) : Reachable { e with agent := b }

/-- The invariant of an enclave: its agent is reachable and can be reached, and no session has the
number of the next one. -/
structure Lawful (e : Enclave MemoryStore) : Prop where
  agent : e.agent.Reachable
  not_poisoned : e.poisoned = false
  session_lt : ∀ session ∈ e.sessions, session < e.nextSession

variable {e : Enclave MemoryStore}

/-- **Every reachable enclave is lawful.** -/
theorem Reachable.lawful (h : e.Reachable) : e.Lawful := by
  induction h with
  | ofAgent h => exact ⟨h, rfl, nofun⟩
  | @openSession e _ hlast ih =>
    have hnext : e.openSession.2.nextSession = e.nextSession + 1 := Nat.mod_eq_of_lt hlast
    refine ⟨ih.agent, ih.not_poisoned, fun session hsession => ?_⟩
    rw [hnext]
    rcases List.mem_insert_iff.mp hsession with rfl | hsession
    · exact Nat.lt_succ_self _
    · exact Nat.lt_succ_of_lt (ih.session_lt session hsession)
  | closeSession _ session ih =>
    exact ⟨ih.agent, ih.not_poisoned,
      fun other hother => ih.session_lt other (List.mem_filter.mp hother).1⟩
  | step _ hstep ih =>
    obtain ⟨past, hrun⟩ := ih.agent
    exact ⟨⟨_, hrun.step hstep⟩, ih.not_poisoned, ih.session_lt⟩

/-- What an invocation leaves is what a call of the agent leaves, unless it is refused. -/
theorem invoke_cases {σ : Type} [Store σ] (e : Enclave σ) (session command : Nat) (block : Block) :
    (e.invoke session command block).2.2 = e ∨
      ∃ call, (e.invoke session command block).2.2 =
        { e with agent := (e.agent.serve call).2 } := by
  have hinvocation := Agent.invocation_invoke e.agent command block
  rw [invoke]
  generalize e.agent.invoke command block = outcome at hinvocation ⊢
  obtain ⟨result, answered, b⟩ := outcome
  split_ifs with hsession hpoisoned
  · exact .inl rfl
  · cases hinvocation with
    | refused => exact .inl rfl
    | made call => exact .inr ⟨call, rfl⟩
  · exact .inl rfl

/-- An invocation leads nowhere that calls of the agent do not lead. -/
theorem Reachable.invoke (h : e.Reachable) (session command : Nat) (block : Block)
    (hnumbers : (e.invoke session command block).2.2.agent.custody.outbox.NumbersLast) :
    (e.invoke session command block).2.2.Reachable := by
  rcases e.invoke_cases session command block with heq | ⟨call, heq⟩ <;> rw [heq] at hnumbers ⊢
  · exact h
  · exact h.step (.call call hnumbers)

/-- The enclave over another store. -/
def withStore {σ τ : Type} (e : Enclave σ) (store : τ) : Enclave τ :=
  ⟨e.agent.withStore store, e.sessions, e.nextSession, e.poisoned⟩

end Enclave

end KeyCustody
