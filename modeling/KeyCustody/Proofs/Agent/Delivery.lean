import KeyCustody.Proofs.Agent.Numbering

/-!
# First in, first out

Polls hand out each command once, in the order in which commands were queued, and as it was queued
(`Agent.fifo_delivery`). Two laws are behind this. Over moments none of which ends custody, what
waited before and what was queued is what was handed out and what waits afterwards, in this order
(`Agent.Run.conserved`). Over a whole run, where the end of custody drops commands that wait, what
was handed out and what waits is part of what was queued (`Agent.Run.handed_sublist`).
-/

namespace KeyCustody

open Agent

/-- **First in, first out** in one moment that does not end custody. -/
theorem Moment.waiting_eq {m : Moment} (h : m.before.Step m.event m.after)
    (ha : m.before.Lawful) (hclose : ¬ m.Closes) :
    ∃ handed, m.delivered = handed.map Request.ofCommand ∧
      m.before.custody.outbox.waiting ++ m.queued = handed ++ m.after.custody.outbox.waiting := by
  obtain ⟨handed, hdelivered, hchange⟩ := Moment.change h ha hclose
  refine ⟨handed, hdelivered, ?_⟩
  rw [Moment.queued_eq h ha]
  exact hchange.waiting_eq ha.sound.outbox

namespace Agent

variable {past earlier later : List Moment} {a : Agent MemoryStore} {c : Command}

/-- **Nothing is lost**: over moments that do not end custody, what waited and what was queued is
what was handed out and what waits. -/
theorem Run.conserved (h : Run (earlier ++ later) a) (hclose : ∀ m ∈ later, ¬ m.Closes) :
    ∃ b handed, Run earlier b ∧ later.flatMap Moment.delivered = handed.map Request.ofCommand ∧
      b.custody.outbox.waiting ++ later.flatMap Moment.queued =
        handed ++ a.custody.outbox.waiting := by
  -- the induction is from the end, where the last step is
  induction later using List.reverseRecOn generalizing a with
  | nil =>
    rw [List.append_nil] at h
    exact ⟨a, [], h, rfl, List.append_nil _⟩
  | append_singleton later m ih =>
    rw [← List.append_assoc] at h
    obtain ⟨hrun, hstep, rfl⟩ := h.of_concat
    obtain ⟨b, handed, hb, hdelivered, hwaiting⟩ :=
      ih hrun fun m hm => hclose m (List.mem_append_left _ hm)
    obtain ⟨more, hmore, hlast⟩ :=
      Moment.waiting_eq hstep hrun.lawful (hclose m (List.mem_append_right _ (by simp)))
    refine ⟨b, handed ++ more, hb, ?_, ?_⟩
    · rw [flatMap_concat, hdelivered, hmore, List.map_append]
    · rw [flatMap_concat, ← List.append_assoc, hwaiting, List.append_assoc, hlast,
        List.append_assoc]

/-- Over a whole run, what was handed out and what waits is part of what was queued, in this
order. -/
theorem Run.handed_sublist (h : Run past a) :
    ∃ handed, past.flatMap Moment.delivered = handed.map Request.ofCommand ∧
      (handed ++ a.custody.outbox.waiting).Sublist (past.flatMap Moment.queued) := by
  induction h with
  | start hstart =>
    obtain ⟨-, rfl⟩ := start_empty_eq_ok hstart
    exact ⟨[], rfl, .slnil⟩
  | @step past a b event hrun hstep ih =>
    obtain ⟨handed, hdelivered, hsublist⟩ := ih
    rw [flatMap_concat, flatMap_concat, hdelivered]
    by_cases hclose : Moment.Closes ⟨a, event, b⟩
    · obtain ⟨-, hnone, -, hafter⟩ := Moment.of_closes hstep hclose
      dsimp only at hafter
      -- nothing waits any more, and what was handed out stays handed out
      have hwaiting : a.blank.outbox.waiting = [] := rfl
      refine ⟨handed, by rw [hnone, List.append_nil], ?_⟩
      rw [hafter, hwaiting, List.append_nil]
      exact ((List.sublist_append_left ..).trans hsublist).trans (List.sublist_append_left ..)
    · obtain ⟨more, hmore, hlast⟩ := Moment.waiting_eq hstep hrun.lawful hclose
      refine ⟨handed ++ more, by rw [hmore, List.map_append], ?_⟩
      dsimp only at hlast
      rw [List.append_assoc, ← hlast, ← List.append_assoc]
      exact hsublist.append_right _

/-- What polls hand out rises in number. -/
theorem Run.rising_delivered (h : Run past a) :
    ((past.flatMap Moment.delivered).map (·.sequence)).Pairwise (· < ·) := by
  obtain ⟨handed, hdelivered, hsublist⟩ := h.handed_sublist
  have hhanded := (List.sublist_append_left handed _).trans hsublist
  rw [hdelivered, List.map_map]
  exact List.pairwise_map.mpr (h.rising_queued.sublist hhanded)

/-- A command that waits has not been handed out. -/
theorem Run.not_delivered_of_waiting (h : Run past a) (hc : c ∈ a.custody.outbox.waiting) :
    c.sequence ∉ (past.flatMap Moment.delivered).map (·.sequence) := by
  obtain ⟨handed, hdelivered, hsublist⟩ := h.handed_sublist
  have hrising := h.rising_queued.sublist hsublist
  rw [hdelivered, List.map_map]
  intro hmem
  obtain ⟨d, hd, hsame⟩ := List.mem_map.mp hmem
  have hlt := (List.pairwise_append.mp hrising).2.2 d hd c hc
  exact absurd hsame (Nat.ne_of_lt hlt)

/-- **First in, first out**: over a whole run the requests that polls hand out rise in number, so
that none is handed out twice, and each carries what was ordered when its command was queued. As
long as custody is not ended, each command that was queued was either handed out or is still
queued. -/
theorem fifo_delivery (h : Run past a) :
    ((past.flatMap Moment.delivered).map (·.sequence)).Pairwise (· < ·) ∧
    ((past.flatMap Moment.delivered).map (·.sequence)).Nodup ∧
    (∀ r ∈ past.flatMap Moment.delivered, ∃ m ∈ past, ∃ c ∈ m.queued,
      c.order ∈ m.orders ∧ r = Request.ofCommand c) ∧
    ∀ n, (∀ m ∈ past.drop n, ¬ m.Closes) → ∀ c ∈ (past.drop n).flatMap Moment.queued,
      Xor (Request.ofCommand c ∈ past.flatMap Moment.delivered)
        (c ∈ a.custody.outbox.commands ∧ c.status = .queued) := by
  obtain ⟨handed, hdelivered, hsublist⟩ := h.handed_sublist
  refine ⟨h.rising_delivered, h.rising_delivered.imp Nat.ne_of_lt, fun r hr => ?_,
    fun n hclose c hc => ?_⟩
  · rw [hdelivered] at hr
    obtain ⟨c, hc, rfl⟩ := List.mem_map.mp hr
    obtain ⟨m, hm, hqueued⟩ :=
      List.mem_flatMap.mp (hsublist.subset (List.mem_append_left _ hc))
    obtain ⟨k, hk⟩ := List.mem_iff_getElem?.mp hm
    obtain ⟨hrun, hstep⟩ := h.of_getElem? hk
    have horder := List.mem_map_of_mem (f := Command.order) hqueued
    rw [Moment.queued_eq hstep hrun.lawful, Order.map_order_numbered] at horder
    exact ⟨m, hm, c, hqueued, horder, rfl⟩
  · have hsplit := h
    rw [← List.take_append_drop n past] at hsplit
    obtain ⟨b, since, -, hsince, hwaiting⟩ := hsplit.conserved hclose
    have hmem : c ∈ since ++ a.custody.outbox.waiting :=
      hwaiting ▸ List.mem_append_right _ hc
    rcases List.mem_append.mp hmem with hc | hc
    · have hdelivered : Request.ofCommand c ∈ (past.drop n).flatMap Moment.delivered :=
        hsince ▸ List.mem_map_of_mem hc
      obtain ⟨m, hm, hmem⟩ := List.mem_flatMap.mp hdelivered
      have hall := List.mem_flatMap.mpr ⟨m, List.mem_of_mem_drop hm, hmem⟩
      exact .inl ⟨hall, fun hwaits => h.not_delivered_of_waiting (Outbox.mem_waiting.mpr hwaits)
        (List.mem_map_of_mem hall)⟩
    · have hnot := h.not_delivered_of_waiting hc
      exact .inr ⟨Outbox.mem_waiting.mp hc, fun hmem => hnot (List.mem_map_of_mem hmem)⟩

/-! ### A run with several polls -/

/-- A second key of the same application. -/
def otherKey : KeyRef := ⟨sampleKey.owner, "l"⟩

/-- Two keys are asked for; the first poll is refused by the relay, the second hands out one command
and the third the other and the one that follows up the first; a deletion comes last. -/
def rounds : List Call :=
  introduction sampleKey ++
    [.generate otherKey [0xab], .poll 1 fun _ => .error (.badBufferData (.stated "")),
      .poll 1 fun _ => .ok (), .submit (.notFound 1), .poll 2 fun _ => .ok (), .delete sampleKey]

/-- Three commands are handed out in order, each with its payload, and the fourth still waits. -/
theorem fifo_delivery_rounds :
    let past := opened.moments rounds
    let a := opened.serveAll rounds
    let c : Command := ⟨4, .delete, sampleKey, [], .queued, 0⟩
    (past.flatMap Moment.delivered).map (fun r => (r.sequence, r.payload)) =
        [(1, ""), (2, "ab"), (3, "")] ∧
      ((past.flatMap Moment.delivered).map (·.sequence)).Pairwise (· < ·) ∧
      Xor (Request.ofCommand c ∈ past.flatMap Moment.delivered)
        (c ∈ a.custody.outbox.commands ∧ c.status = .queued) := by
  intro past a c
  have hrun : Run past a := run_opened.serveAll rounds (by decide +kernel)
  obtain ⟨hrising, -, -, hwhere⟩ := fifo_delivery hrun
  exact ⟨by decide +kernel, hrising, hwhere 0 (by decide +kernel) c (by decide +kernel)⟩

end Agent

end KeyCustody
