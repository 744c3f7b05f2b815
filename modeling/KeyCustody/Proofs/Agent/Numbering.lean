import KeyCustody.Proofs.Agent.Traffic

/-!
# Numbers are never used twice

Over a whole run the commands that are queued have the numbers 1, 2, 3 and so on, in the order in
which they are queued (`Agent.Run.sequences_queued`). A call that is refused, a commit that fails, a
new start and the end of custody neither take a number nor give one back, so that numbers rise
whatever happens between two commands (`Agent.rising_sequences`).
-/

namespace KeyCustody.Agent

variable {past : List Moment} {a : Agent MemoryStore}

/-- The commands that a run has queued have the numbers from 1 on, without gaps, and the next
command gets the next number. -/
theorem Run.sequences_queued (h : Run past a) :
    (past.flatMap Moment.queued).map (·.sequence) =
        List.range' 1 (past.flatMap Moment.queued).length ∧
      a.custody.outbox.nextSequence = 1 + (past.flatMap Moment.queued).length := by
  induction h with
  | start hstart =>
    obtain ⟨-, rfl⟩ := start_empty_eq_ok hstart
    exact ⟨rfl, rfl⟩
  | @step past a b event hrun hstep ih =>
    obtain ⟨hsequences, hnext⟩ := ih
    have hqueued := Moment.queued_eq (m := ⟨a, event, b⟩) hstep hrun.lawful
    have hafter := Moment.nextSequence_eq (m := ⟨a, event, b⟩) hstep hrun.lawful
    have hlast : (Moment.queued ⟨a, event, b⟩).map (·.sequence) =
        List.range' a.custody.outbox.nextSequence (Moment.queued ⟨a, event, b⟩).length := by
      rw [hqueued, Order.map_sequence_numbered, Order.length_numbered]
    rw [flatMap_concat, List.length_append]
    constructor
    · rw [List.map_append, hsequences, hlast, hnext, List.range'_append_1]
    · dsimp only at hafter
      rw [hafter, hnext, Nat.add_assoc]

/-- In a run the commands that are queued rise in number. -/
theorem Run.rising_queued (h : Run past a) :
    (past.flatMap Moment.queued).Pairwise fun c d => c.sequence < d.sequence := by
  rw [← List.pairwise_map (f := Command.sequence) (R := (· < ·)), h.sequences_queued.1]
  exact List.pairwise_lt_range'

/-- **Numbers rise over the whole run**: the commands that are queued rise in number, from one
moment to the next and within a moment. Each moment queues what is ordered in it and takes one
number for each command, and a call that fails takes none. -/
theorem rising_sequences (h : Run past a) :
    ((past.flatMap Moment.queued).map (·.sequence)).Pairwise (· < ·) ∧
    ∀ m ∈ past,
      m.queued = Order.numbered m.before.custody.outbox.nextSequence m.orders ∧
      m.after.custody.outbox.nextSequence =
        m.before.custody.outbox.nextSequence + m.queued.length ∧
      ∀ call fault, m.event = .call call (.error fault) →
        m.after.custody.outbox.nextSequence = m.before.custody.outbox.nextSequence := by
  refine ⟨List.pairwise_map.mpr h.rising_queued, fun m hm => ?_⟩
  obtain ⟨n, hn⟩ := List.mem_iff_getElem?.mp hm
  obtain ⟨hrun, hstep⟩ := h.of_getElem? hn
  have hqueued := Moment.queued_eq hstep hrun.lawful
  have hnext := Moment.nextSequence_eq hstep hrun.lawful
  refine ⟨hqueued, hnext, fun call fault hevent => ?_⟩
  have horders : m.orders = [] := by rw [Moment.orders, hevent]
  rw [hnext, hqueued, horders]
  rfl

/-! ### A run with trouble -/

/-- The key of the run below. -/
def sampleKey : KeyRef := ⟨⟨List.replicate 16 7, rfl⟩, "k"⟩

/-- The measurement with which the owner of a key is introduced. -/
def sampleMeasurement : Measurement := ⟨List.replicate 32 0, rfl⟩

/-- The calls up to the first reply: a key is searched for in vain and is to be generated. -/
def vainSearch : List Call :=
  introduction sampleKey ++ [.poll 1 fun _ => .ok (), .submit (.notFound 1)]

/-- The agent after these calls, before a commit that will fail. -/
def blocked : Agent MemoryStore :=
  let a := opened.serveAll vainSearch
  { a with store := a.store.failing }

/-- The agent after the commit has failed and the custodian has started anew with room for one
command. -/
def cramped : Agent MemoryStore :=
  (blocked.serveAll [.delete sampleKey]).restarted { Settings.standard with maxQueueDepth := 1 }

/-- The calls from then on: a deletion for which there is no room, the end of custody, and a second
introduction. -/
def secondTerm : List Call :=
  [.attest sampleKey.owner sampleMeasurement, .delete sampleKey, .close] ++ introduction sampleKey

/-- The moments of the whole run. -/
def trouble : List Moment :=
  opened.moments vainSearch ++ [⟨opened.serveAll vainSearch, .obstruct, blocked⟩] ++
    blocked.moments [.delete sampleKey] ++
    [⟨blocked.serveAll [.delete sampleKey], .restart cramped.settings, cramped⟩] ++
    cramped.moments secondTerm

theorem run_trouble : Run trouble (cramped.serveAll secondTerm) :=
  have hblocked := (run_opened.serveAll vainSearch (by decide +kernel)).step .obstruct
  have hcramped := (hblocked.serveAll [.delete sampleKey] (by decide +kernel)).restart rfl
  hcramped.serveAll secondTerm (by decide +kernel)

/-- The run queues a search, the generation that follows it, and a search after the second
introduction. Of the two deletions the first is not committed and the second finds no room, and
neither takes a number. -/
theorem rising_sequences_trouble :
    (trouble.flatMap Moment.queued).map (·.sequence) = [1, 2, 3] ∧
    ((trouble.flatMap Moment.queued).map (·.sequence)).Pairwise (· < ·) ∧
    (∃ m, trouble[7]? = some m ∧
      m.event = .call (.delete sampleKey) (.error (.storage (.access .injected))) ∧
      m.after.custody.outbox.nextSequence = m.before.custody.outbox.nextSequence) ∧
    ∃ m, trouble[10]? = some m ∧
      m.event = .call (.delete sampleKey) (.error (.queueFull 1)) ∧
      m.after.custody.outbox.nextSequence = m.before.custody.outbox.nextSequence := by
  obtain ⟨hrising, hmoments⟩ := rising_sequences run_trouble
  have huncommitted : (blocked.serve (.delete sampleKey)).1 =
      .error (.storage (.access .injected)) := by decide +kernel
  have hroomless : ((cramped.serveAll (secondTerm.take 1)).serve (.delete sampleKey)).1 =
      .error (.queueFull 1) := by decide +kernel
  have hfirst := congrArg (Event.call (.delete sampleKey)) huncommitted
  have hsecond := congrArg (Event.call (.delete sampleKey)) hroomless
  obtain ⟨-, -, hnext⟩ := hmoments _ (List.mem_of_getElem? (i := 7) rfl)
  obtain ⟨-, -, hnext'⟩ := hmoments _ (List.mem_of_getElem? (i := 10) rfl)
  exact ⟨by decide +kernel, hrising, ⟨_, rfl, hfirst, hnext _ _ hfirst⟩,
    _, rfl, hsecond, hnext' _ _ hsecond⟩

end KeyCustody.Agent
