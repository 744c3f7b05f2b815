import KeyCustody.Proofs.Agent.Invocation
import KeyCustody.Proofs.Agent.Restart

/-!
# Runs of the custodian

A run starts over an empty store in memory. In each step a call is made, the next commit is made to
fail, or the custodian starts anew over its store under some settings (`Agent.Step`); a `Moment`
records one step with the agents before and after it, and `Agent.Run` the moments so far. Nothing is
assumed about the order of the steps. The one proviso is that sequence numbers last: the counter has
64 bits, and a run ends before it would overflow (`Agent.Run.numbersLast`).

Whatever the run, the agent is lawful (`Agent.Reachable.lawful`). In particular its entries and its
commands always belong together (`Agent.coherent_of_reachable`).
-/

namespace KeyCustody

/-- What happens in one step of a run. -/
inductive Event where
  | call (call : Call) (result : Except Fault Answer)
  | obstruct
  | restart (settings : Settings)

/-- One step of a run with the agents before and after it. -/
structure Moment where
  before : Agent MemoryStore
  event : Event
  after : Agent MemoryStore

namespace Agent

/-- One step: a call after which sequence numbers last, a commit that is made to fail, or a new
start over the same store. -/
inductive Step (a : Agent MemoryStore) : Event → Agent MemoryStore → Prop
  | call (call : Call) (hnumbers : (a.serve call).2.custody.outbox.NumbersLast) :
    Step a (.call call (a.serve call).1) (a.serve call).2
  | obstruct : Step a .obstruct { a with store := a.store.failing }
  | restart {settings : Settings} {b : Agent MemoryStore}
      (hstart : start settings a.store = .ok b) :
    Step a (.restart settings) b

/-- A run from a start over the empty store, with its moments in order. -/
inductive Run : List Moment → Agent MemoryStore → Prop
  | start {settings : Settings} {a : Agent MemoryStore}
      (hstart : Agent.start settings MemoryStore.empty = .ok a) : Run [] a
  | step {past : List Moment} {a b : Agent MemoryStore} {event : Event} (hrun : Run past a)
      (hstep : a.Step event b) : Run (past ++ [⟨a, event, b⟩]) b

/-- Some run leads to an agent. -/
def Reachable (a : Agent MemoryStore) : Prop := ∃ past, Run past a

variable {a b : Agent MemoryStore} {past : List Moment}

/-- A call in a run ends as it does by itself. -/
theorem Step.serve_eq {call : Call} {result : Except Fault Answer}
    (h : a.Step (.call call result) b) : a.serve call = (result, b) := by
  cases h
  rfl

/-- A call in a run has one of the effects that calls can have. -/
theorem Step.effect {call : Call} {result : Except Fault Answer}
    (h : a.Step (.call call result) b) : a.Effect call result b := by
  cases h
  exact effect_serve a call

/-! ### The moments of a run -/

variable {m : Moment}

/-- The moments of a list with one more are those of the list and the last. -/
theorem getElem?_concat {k : Nat} {m' : Moment} (h : (past ++ [m])[k]? = some m') :
    past[k]? = some m' ∨ (k = past.length ∧ m' = m) := by
  rcases Nat.lt_trichotomy k past.length with hlt | rfl | hgt
  · rw [List.getElem?_append_left hlt] at h
    exact .inl h
  · rw [List.getElem?_concat_length] at h
    exact .inr ⟨rfl, (Option.some.inj h).symm⟩
  · rw [List.getElem?_eq_none (by simp; omega)] at h
    cases h

theorem flatMap_concat {α : Type} (f : Moment → List α) (past : List Moment) (m : Moment) :
    (past ++ [m]).flatMap f = past.flatMap f ++ f m := by
  rw [List.flatMap_append, List.flatMap_singleton]

theorem getElem?_of_past {k : Nat} {m' : Moment} (h : past[k]? = some m') :
    (past ++ [m])[k]? = some m' := by
  have hlt := (List.getElem?_eq_some_iff.mp h).1
  rwa [List.getElem?_append_left hlt]

/-- Every moment of a run is a step that was taken after the moments before it. -/
theorem Run.of_getElem? (h : Run past a) {n : Nat} (hn : past[n]? = some m) :
    Run (past.take n) m.before ∧ m.before.Step m.event m.after := by
  induction h with
  | start => cases hn
  | @step past a b event hrun hstep ih =>
    have hle : n ≤ past.length := by
      have hlt := (List.getElem?_eq_some_iff.mp hn).1
      rw [List.length_append, List.length_singleton] at hlt
      omega
    -- the moment is one of those before the last step, or it is the last step
    rw [List.take_append_of_le_length hle]
    rcases getElem?_concat hn with hn | ⟨rfl, rfl⟩
    · exact ih hn
    · rw [List.take_length]
      exact ⟨hrun, hstep⟩

theorem Run.of_append {rest : List Moment} (h : Run (past ++ m :: rest) a) :
    Run past m.before ∧ m.before.Step m.event m.after := by
  have hmoment : (past ++ m :: rest)[past.length]? = some m := by simp
  simpa using h.of_getElem? hmoment

/-- The last moment of a run is a step to the agent that the run leads to. -/
theorem Run.of_concat (h : Run (past ++ [m]) a) :
    Run past m.before ∧ m.before.Step m.event m.after ∧ m.after = a := by
  generalize hmoments : past ++ [m] = moments at h
  cases h with
  | start => simp at hmoments
  | step hrun hstep =>
    obtain ⟨rfl, rfl⟩ := List.append_singleton_inj.mp hmoments
    exact ⟨hrun, hstep, rfl⟩

/-! ### The invariant of a run -/

/-- One step keeps an agent lawful. -/
theorem Step.lawful {event : Event} (h : a.Step event b) (ha : a.Lawful) : b.Lawful := by
  cases h with
  | call call hnumbers => exact (effect_serve a call).lawful hnumbers.nextSequence_lt ha
  | obstruct => exact ha.of_records rfl
  | restart hstart => exact ha.start hstart

theorem Run.lawful (h : Run past a) : a.Lawful := by
  induction h with
  | start hstart => exact lawful_of_start_empty hstart
  | step _ hstep ih => exact hstep.lawful ih

/-- **Every reachable agent is lawful.** -/
theorem Reachable.lawful (h : a.Reachable) : a.Lawful :=
  let ⟨_, hrun⟩ := h
  hrun.lawful

/-- **Sequence numbers last** after every step of a run. -/
theorem Step.numbersLast {event : Event} (h : a.Step event b) (ha : a.Lawful)
    (hbefore : a.custody.outbox.NumbersLast) : b.custody.outbox.NumbersLast := by
  cases h with
  | call _ hnumbers => exact hnumbers
  | obstruct => exact hbefore
  | restart hstart =>
    obtain rfl := Except.ok.inj (hstart.symm.trans (start_eq_ok ha (check_of_start hstart)))
    exact hbefore

theorem Run.numbersLast (h : Run past a) : a.custody.outbox.NumbersLast := by
  induction h with
  | start hstart =>
    obtain ⟨-, rfl⟩ := start_empty_eq_ok hstart
    exact Custody.numbersLast_fresh _
  | step hrun hstep ih => exact hstep.numbersLast hrun.lawful ih

theorem Reachable.numbersLast (h : a.Reachable) : a.custody.outbox.NumbersLast :=
  let ⟨_, hrun⟩ := h
  hrun.numbersLast

/-! ### Calls one after the other -/

theorem Reachable.serve (h : a.Reachable) (call : Call)
    (hnumbers : (a.serve call).2.custody.outbox.NumbersLast) : (a.serve call).2.Reachable :=
  let ⟨_, hrun⟩ := h
  ⟨_, hrun.step (.call call hnumbers)⟩

/-- An invocation leads nowhere that calls do not lead. -/
theorem Reachable.invoke (h : a.Reachable) (id : Nat) (block : Block)
    (hnumbers : (a.invoke id block).2.2.custody.outbox.NumbersLast) :
    (a.invoke id block).2.2.Reachable := by
  have hinvocation := invocation_invoke a id block
  generalize (a.invoke id block).1 = result at hinvocation
  generalize (a.invoke id block).2.2 = b at hinvocation hnumbers ⊢
  cases hinvocation with
  | refused => exact h
  | made call => exact h.serve call hnumbers

/-- The agent after calls. -/
def serveAll (a : Agent MemoryStore) : List Call → Agent MemoryStore
  | [] => a
  | call :: rest => (a.serve call).2.serveAll rest

/-- The moments of calls. -/
def moments (a : Agent MemoryStore) : List Call → List Moment
  | [] => []
  | call :: rest =>
    ⟨a, .call call (a.serve call).1, (a.serve call).2⟩ :: (a.serve call).2.moments rest

theorem nextSequence_le_serveAll (a : Agent MemoryStore) (calls : List Call) :
    a.custody.outbox.nextSequence ≤ (a.serveAll calls).custody.outbox.nextSequence := by
  induction calls generalizing a with
  | nil => exact Nat.le_refl _
  | cons call rest ih => exact (effect_serve a call).nextSequence_le.trans (ih _)

/-- A run goes on with any calls, if sequence numbers last after them. -/
theorem Run.serveAll (h : Run past a) (calls : List Call)
    (hnumbers : (a.serveAll calls).custody.outbox.NumbersLast) :
    Run (past ++ a.moments calls) (a.serveAll calls) := by
  induction calls generalizing past a with
  | nil =>
    rw [moments, List.append_nil]
    exact h
  | cons call rest ih =>
    -- numbers are never taken back, so they last after the first call if they do after all
    have hfirst := hnumbers.mono (nextSequence_le_serveAll (a.serve call).2 rest)
    have hrest := ih (h.step (.call call hfirst)) hnumbers
    rwa [List.append_assoc] at hrest

/-- The agent after a new start under some settings. -/
def restarted (a : Agent MemoryStore) (settings : Settings) : Agent MemoryStore :=
  { a with
    settings := settings
    custody := a.custody.withoutVerdicts.withCapacity settings.maxQueueDepth }

/-- A run goes on with a new start under any settings within their bounds. -/
theorem Run.restart (h : Run past a) {settings : Settings} (hsettings : settings.check = .ok ()) :
    Run (past ++ [⟨a, .restart settings, a.restarted settings⟩]) (a.restarted settings) :=
  h.step (.restart (start_eq_ok h.lawful hsettings))

/-! ### Entries and commands in every run -/

/-- **Entries and commands belong together** in every reachable agent: an entry that waits has its
command in the outbox, every command has an entry, and no tombstone is left without a command. -/
theorem coherent_of_reachable (h : a.Reachable) : a.custody.Coherent :=
  h.lawful.sound.coherent

/-- The agent under standard settings over the empty store. -/
def opened : Agent MemoryStore where
  settings := .standard
  store := MemoryStore.empty
  anchor := none
  custody := Custody.fresh Settings.standard.maxQueueDepth

theorem run_opened : Run [] opened :=
  have hstart : start .standard MemoryStore.empty = .ok opened := rfl
  .start hstart

/-- The calls that set the anchor, have the owner of a key verified, and ask for the key. -/
def introduction (key : KeyRef) : List Call :=
  let m : Measurement := ⟨List.replicate Measurement.size 0, by decide⟩
  [.provision [1] [2] [3], .register [m], .attest key.owner m, .search key]

/-- After the first search one entry waits, and it belongs to the only command. -/
theorem coherent_introduction :
    let key : KeyRef := ⟨⟨List.replicate 16 7, rfl⟩, "k"⟩
    let a := opened.serveAll (introduction key)
    a.Reachable ∧ a.custody.keyring.count .pending = 1 ∧ a.custody.outbox.depth = 1 ∧
      a.custody.Coherent := by
  intro key a
  have hreachable : a.Reachable := ⟨_, run_opened.serveAll (introduction key) (by decide +kernel)⟩
  exact ⟨hreachable, by decide +kernel, by decide +kernel,
    coherent_of_reachable hreachable⟩

end Agent

end KeyCustody
