import KeyCustody.Proofs.Agent.Numbering

/-!
# What a new start finds

A new start over the store of a reachable agent, under the same settings, gives the same agent
without verdicts. While there is an anchor, the stored snapshot is always there and decodes to the
state that is held, again without verdicts and up to the bound of the outbox, which a start takes
from its settings (`Agent.restart_transparent`).

That the snapshot is there is an invariant of its own (`Agent.Recorded`): the state of an agent that
was just set up is that of an empty store, so what a start finds does not tell the two apart.
-/

namespace KeyCustody

namespace Agent

open Custody

/-- While there is an anchor, a snapshot is stored. -/
def Recorded (a : Agent MemoryStore) : Prop :=
  a.isInitialized = true → ∃ text, a.store.get? Custody.record = some text

variable {a b : Agent MemoryStore} {past : List Moment}

/-- A call keeps the snapshot that is stored, or stores another one with the anchor. -/
theorem Effect.recorded {call : Call} {result : Except Fault Answer} (h : a.Effect call result b)
    (ha : a.Recorded) : b.Recorded := by
  cases h with
  | refused | found | attested | revoked => exact ha
  | saved _ _ hcommit =>
    obtain ⟨-, rfl⟩ := MemoryStore.commit_eq_ok hcommit
    exact fun _ => ⟨_, (MemoryStore.get?_written_singleton ..).trans (if_pos rfl)⟩
  | provisioned _ _ hcommit =>
    obtain ⟨-, rfl⟩ := MemoryStore.commit_eq_ok hcommit
    exact fun _ => ⟨_, (MemoryStore.get?_written_concat ..).trans (if_pos rfl)⟩
  | unsaved _ _ hcommit | unprovisioned _ _ hcommit =>
    -- a commit that fails leaves the records as they were
    obtain ⟨-, rfl⟩ := MemoryStore.commit_eq_error hcommit
    exact ha
  | unerased herase => cases (Prod.mk.inj herase).1
  | closed | unclosed => exact fun hinit => nomatch hinit

theorem Step.recorded {event : Event} (h : a.Step event b) (hlawful : a.Lawful)
    (ha : a.Recorded) : b.Recorded := by
  cases h with
  | call call => exact (effect_serve a call).recorded ha
  | obstruct => exact ha
  | restart hstart =>
    obtain rfl :=
      Except.ok.inj (hstart.symm.trans (start_eq_ok hlawful (check_of_start hstart)))
    exact ha

theorem Run.recorded (h : Run past a) : a.Recorded := by
  induction h with
  | start hstart =>
    obtain ⟨-, rfl⟩ := start_empty_eq_ok hstart
    exact fun hinit => nomatch hinit
  | step hrun hstep ih => exact hstep.recorded hrun.lawful ih

/-- A start under the settings in use forgets the verdicts only. -/
theorem Lawful.start_self (h : a.Lawful) :
    Agent.start a.settings a.store =
      .ok { a with custody := a.custody.withoutVerdicts } := by
  rw [start_eq_ok h h.settings, ← h.capacity]
  rfl

/-- The snapshot that is stored with an anchor decodes to the state that is held. -/
theorem Lawful.decode (h : a.Lawful) (hinit : a.isInitialized = true) {text : Bytes}
    (hrecord : a.store.get? Custody.record = some text) :
    ∃ s, decode? text = some s ∧
      s.withCapacity a.settings.maxQueueDepth = a.custody.withoutVerdicts := by
  obtain ⟨s, hrestore, hcustody⟩ := h.stored_custody a.settings.maxQueueDepth
  obtain ⟨anchor, hanchor⟩ := Option.isSome_iff_exists.mp hinit
  rw [hrecord, hanchor] at hrestore
  rcases hdecode : decode? text with _ | saved
  · simp only [restore, hdecode] at hrestore
    cases hrestore
  · simp only [restore, hdecode] at hrestore
    obtain rfl := Except.ok.inj hrestore
    refine ⟨saved, rfl, hcustody.trans ?_⟩
    rw [← h.capacity]
    rfl

/-- **A restart is not seen, apart from verdicts**: a start over the store of a reachable agent,
under its settings, gives the same agent in which no application is verified. While there is an
anchor, the snapshot that is stored decodes to the state that is held, without verdicts and up to
the bound of the outbox, which is that of the settings. -/
theorem restart_transparent (h : a.Reachable) :
    start a.settings a.store = .ok { a with custody := a.custody.withoutVerdicts } ∧
    (∀ ta, a.custody.withoutVerdicts.gate.isVerified ta = false) ∧
    (a.isInitialized = true → ∃ text s, a.store.get? Custody.record = some text ∧
      decode? text = some s ∧
        s.withCapacity a.settings.maxQueueDepth = a.custody.withoutVerdicts) := by
  refine ⟨h.lawful.start_self, fun _ => rfl, fun hinit => ?_⟩
  obtain ⟨past, hrun⟩ := h
  obtain ⟨text, hrecord⟩ := hrun.recorded hinit
  obtain ⟨s, hdecode, hcustody⟩ := hrun.lawful.decode hinit hrecord
  exact ⟨text, s, hrecord, hdecode, hcustody⟩

/-- After the run with trouble an application is verified and a command waits; a new start loses the
verdict and nothing else. If custody is then ended and the commit fails, a new start finds just as
little as is held, and the number of the next command. -/
theorem restart_transparent_trouble :
    let a := cramped.serveAll secondTerm
    let b := { a with store := a.store.failing }.serveAll [.close]
    a.custody.gate.isVerified sampleKey.owner = true ∧ a.custody.outbox.depth = 1 ∧
      start a.settings a.store = .ok { a with custody := a.custody.withoutVerdicts } ∧
      (∃ text s, a.store.get? Custody.record = some text ∧ decode? text = some s ∧
        s.withCapacity a.settings.maxQueueDepth = a.custody.withoutVerdicts) ∧
      b.isInitialized = false ∧ b.custody.outbox.nextSequence = 4 ∧
      start b.settings b.store = .ok { b with custody := b.custody.withoutVerdicts } := by
  intro a b
  have ha : a.Reachable := ⟨_, run_trouble⟩
  have hb : b.Reachable := ⟨_, (run_trouble.step .obstruct).serveAll [.close] (by decide +kernel)⟩
  obtain ⟨hstart, -, hrecord⟩ := restart_transparent ha
  obtain ⟨hstart', -, -⟩ := restart_transparent hb
  exact ⟨by decide +kernel, by decide +kernel, hstart, hrecord (by decide +kernel),
    by decide +kernel, by decide +kernel, hstart'⟩

end Agent

end KeyCustody
