import KeyCustody.Proofs.Agent.Numbering
import Mathlib.Data.List.DropRight

/-!
# Finalized once, and only after delivery

A command is finalized when a reply to it is accepted or when a poll gives it up. Over a whole run
no number is finalized twice, and what is finalized was handed out since custody was last ended. A
reply that names anything else is refused and leaves no trace (`Agent.finalized_at_most_once`).

`Agent.Accounted` carries this through a run: it relates what was finalized and handed out so far to
the commands in the outbox.
-/

namespace KeyCustody

/-- The moments since custody was last ended. -/
def sinceClose (past : List Moment) : List Moment := past.rtakeWhile fun m => ¬ m.Closes

/-- A command is outstanding if it was handed out since custody was last ended and has not been
finalized. -/
def Outstanding (past : List Moment) (sequence : Nat) : Prop :=
  sequence ∈ ((sinceClose past).flatMap Moment.delivered).map (·.sequence) ∧
    sequence ∉ past.flatMap Moment.finalized

instance (past : List Moment) : DecidablePred (Outstanding past) := fun sequence =>
  inferInstanceAs (Decidable (sequence ∈ _ ∧ sequence ∉ _))

variable {past : List Moment} {m : Moment}

theorem sinceClose_of_not_closes (h : ¬ m.Closes) :
    sinceClose (past ++ [m]) = sinceClose past ++ [m] :=
  List.rtakeWhile_concat_pos _ _ _ (by simpa using h)

namespace Agent

variable {a : Agent MemoryStore}

/-- What a run has finalized and handed out agrees with the outbox: no number was finalized twice,
none that was belongs to a command in the outbox or to one to come, and a command that counts as
handed out was handed out since custody was last ended. -/
structure Accounted (past : List Moment) (q : Outbox) : Prop where
  nodup : (past.flatMap Moment.finalized).Nodup
  finalized_lt : ∀ n ∈ past.flatMap Moment.finalized, n < q.nextSequence
  not_finalized : ∀ c ∈ q.commands, c.sequence ∉ past.flatMap Moment.finalized
  delivered : ∀ c ∈ q.commands, c.status.isShipped = true →
    c.sequence ∈ ((sinceClose past).flatMap Moment.delivered).map (·.sequence)

namespace Accounted

/-- A command that counts as handed out is outstanding. -/
theorem outstanding {q : Outbox} (h : Accounted past q) {c : Command} (hc : c ∈ q.commands)
    (hshipped : c.status.isShipped = true) : Outstanding past c.sequence :=
  ⟨h.delivered c hc hshipped, h.not_finalized c hc⟩

/-- The end of custody leaves no command behind. -/
theorem close (h : Accounted past m.before.custody.outbox) (hstep : m.before.Step m.event m.after)
    (ha : m.before.Lawful) (hclose : m.Closes) :
    Accounted (past ++ [m]) m.after.custody.outbox := by
  obtain ⟨-, -, hfinalized, hafter⟩ := Moment.of_closes hstep hclose
  have hnone : ∀ c, c ∉ m.after.custody.outbox.commands := by
    rw [hafter]
    exact fun _ => List.not_mem_nil
  have hall : (past ++ [m]).flatMap Moment.finalized = past.flatMap Moment.finalized := by
    rw [flatMap_concat, hfinalized, List.append_nil]
  refine ⟨?_, fun n hn => ?_, fun c hc => absurd hc (hnone c), fun c hc => absurd hc (hnone c)⟩
  · rw [hall]
    exact h.nodup
  · rw [hall] at hn
    rw [Moment.nextSequence_eq hstep ha]
    exact Nat.lt_add_right _ (h.finalized_lt n hn)

/-- In a moment that does not end custody the account goes on. -/
theorem change (h : Accounted past m.before.custody.outbox)
    (hstep : m.before.Step m.event m.after) (ha : m.before.Lawful) (hclose : ¬ m.Closes) :
    Accounted (past ++ [m]) m.after.custody.outbox := by
  obtain ⟨handed, hdelivered, hchange⟩ := Moment.change hstep ha hclose
  have hq := ha.sound.outbox
  have hq' := (hstep.lawful ha).sound.outbox
  obtain ⟨hnodup, hcommand⟩ := hchange.finalized_shipped hq
  have hall := flatMap_concat Moment.finalized past m
  -- whatever was finalized by now lies below the numbers of the commands that are new
  have hlt : ∀ n ∈ past.flatMap Moment.finalized ++ m.finalized,
      n < m.before.custody.outbox.nextSequence := fun n hn => by
    rcases List.mem_append.mp hn with hn | hn
    · exact h.finalized_lt n hn
    · obtain ⟨c, hc, rfl, -⟩ := hcommand n hn
      exact hq.sequence_lt c hc
  constructor
  case nodup =>
    rw [hall]
    refine List.nodup_append.mpr ⟨h.nodup, hnodup, fun n hn k hk heq => ?_⟩
    obtain ⟨c, hc, rfl, -⟩ := hcommand k hk
    exact h.not_finalized c hc (heq ▸ hn)
  case finalized_lt =>
    rw [hall, Moment.nextSequence_eq hstep ha]
    exact fun n hn => Nat.lt_add_right _ (hlt n hn)
  case not_finalized =>
    rw [hall]
    intro c hc hmem
    rcases hchange.origin hq hc with ⟨d, hd, hkept, heq⟩ | hnew
    · rw [← (Command.fields_of_asQueued heq).1] at hmem
      rcases List.mem_append.mp hmem with hmem | hmem
      · exact h.not_finalized d hd hmem
      · exact hkept hmem
    · have hle := Order.le_sequence_of_mem_numbered hnew
      exact absurd (hlt _ hmem) (Nat.not_lt.mpr hle)
  case delivered =>
    intro c hc hshipped
    rw [sinceClose_of_not_closes hclose, flatMap_concat, List.map_append, List.mem_append]
    rcases hchange.shipped hq hq' hc hshipped with ⟨d, hd, heq, hbefore⟩ | hmem
    · exact .inl (heq ▸ h.delivered d hd hbefore)
    · refine .inr ?_
      rw [hdelivered, List.map_map]
      exact hmem

end Accounted

/-- Every run accounts for what it has finalized and handed out. -/
theorem Run.accounted (h : Run past a) : Accounted past a.custody.outbox := by
  induction h with
  | start hstart =>
    obtain ⟨-, rfl⟩ := start_empty_eq_ok hstart
    exact ⟨List.nodup_nil, nofun, nofun, nofun⟩
  | @step past a b event hrun hstep ih =>
    by_cases hclose : Moment.Closes ⟨a, event, b⟩
    · exact ih.close (m := ⟨a, event, b⟩) hstep hrun.lawful hclose
    · exact ih.change (m := ⟨a, event, b⟩) hstep hrun.lawful hclose

/-- What a moment finalizes was outstanding. -/
theorem Run.outstanding_of_finalized (h : Run past m.before)
    (hstep : m.before.Step m.event m.after) {sequence : Nat} (hmem : sequence ∈ m.finalized) :
    Outstanding past sequence := by
  by_cases hclose : m.Closes
  · obtain ⟨-, -, hnone, -⟩ := Moment.of_closes hstep hclose
    rw [hnone] at hmem
    cases hmem
  · obtain ⟨handed, -, hchange⟩ := Moment.change hstep h.lawful hclose
    obtain ⟨c, hc, rfl, hshipped⟩ :=
      (hchange.finalized_shipped h.lawful.sound.outbox).2 sequence hmem
    exact h.accounted.outstanding hc hshipped

/-- A poll tells how many commands it gave up. -/
theorem Step.expired_eq {count : Nat} {accept : Bytes → Except Fault Unit} {outcome : Polled}
    (h : m.before.Step m.event m.after)
    (hevent : m.event = .call (.poll count accept) (.ok (.polled outcome))) :
    outcome.expired = m.finalized.length := by
  obtain ⟨a, event, b⟩ := m
  obtain rfl : event = _ := hevent
  have heffect : a.Effect (.poll count accept) (.ok (.polled outcome)) b := h.effect
  cases heffect with
  | saved _ ht =>
    cases ht with
    | poll hpoll =>
      obtain ⟨draw, q, hdraw, rfl, -⟩ := Custody.poll_eq_ok hpoll
      simp only [Moment.finalized, Custody.finalized, hdraw, List.length_map]

/-- A reply to a command that no poll has handed out is refused, and the agent stays as it is. -/
theorem serve_submit_eq_error {σ : Type} [Store σ] {a : Agent σ} {reply : Reply}
    (hinit : a.isInitialized = true)
    (h : ∀ c ∈ a.custody.outbox.commands, c.sequence = reply.sequence →
      c.status.isShipped = false) :
    ∃ cause, a.serve (.submit reply) = (.error (.badBufferData cause), a) := by
  have hrequire : a.requireInitialized = .ok () := if_pos hinit
  rw [serve, submit, hrequire]
  rcases hmaterial : reply.material with fault | material
  · rw [Reply.material] at hmaterial
    rcases hdecode : Hex.decode reply.payload with why | octets <;> rw [hdecode] at hmaterial
    · obtain rfl := Except.error.inj hmaterial
      exact ⟨_, rfl⟩
    · cases hmaterial
  · obtain ⟨cause, hanswer⟩ := Custody.answer_eq_error material h
    refine ⟨cause, ?_⟩
    simp only [transact, hanswer]
    rfl

/-- **Finalized at most once, and only after delivery**: over a whole run no number is finalized
twice, by a reply or by a poll, and each was outstanding when it was. A reply that names a number
that is not outstanding is refused as bad data, with no change to the agent or its store. -/
theorem finalized_at_most_once (h : Run past a) :
    (past.flatMap Moment.finalized).Nodup ∧
    ∀ n m, past[n]? = some m →
      (∀ s ∈ m.finalized, Outstanding (past.take n) s) ∧
      (∀ count accept outcome, m.event = .call (.poll count accept) (.ok (.polled outcome)) →
        outcome.expired = m.finalized.length) ∧
      ∀ reply result, m.event = .call (.submit reply) result → m.before.isInitialized = true →
        ¬ Outstanding (past.take n) reply.sequence →
        (∃ cause, result = .error (.badBufferData cause)) ∧ m.after = m.before := by
  refine ⟨h.accounted.nodup, fun n m hn => ?_⟩
  obtain ⟨hrun, hstep⟩ := h.of_getElem? hn
  refine ⟨fun s => hrun.outstanding_of_finalized hstep, fun count accept outcome hevent => ?_,
    fun reply result hevent hinit hnot => ?_⟩
  · exact hstep.expired_eq hevent
  · rw [hevent] at hstep
    obtain ⟨cause, hrefused⟩ := serve_submit_eq_error hinit fun c hc heq =>
      Bool.eq_false_iff.mpr fun hshipped => hnot (heq ▸ hrun.accounted.outstanding hc hshipped)
    obtain ⟨rfl, hafter⟩ := Prod.mk.inj (hrefused.symm.trans hstep.serve_eq)
    exact ⟨⟨cause, rfl⟩, hafter.symm⟩

/-! ### A run with late replies -/

/-- The calls up to a second delivery, with a reply given twice and one given too early. -/
def hastyReplies : List Call :=
  vainSearch ++ [.submit (.notFound 1), .submit (.failure 2), .poll 1 fun _ => .ok ()]

/-- The agent after these calls and a new start under which commands are given up after one poll. -/
def impatient : Agent MemoryStore :=
  (opened.serveAll hastyReplies).restarted { Settings.standard with replyTimeout := some 1 }

/-- The calls from then on: two polls, of which the second gives up the command, and its reply; then
custody ends while a deletion is out, and the reply to it arrives after a second introduction. -/
def lateReplies : List Call :=
  [.poll 1 fun _ => .ok (), .poll 1 fun _ => .ok (), .submit (.success 2 [1]),
    .attest sampleKey.owner sampleMeasurement, .delete sampleKey, .poll 1 fun _ => .ok (),
    .close] ++ introduction sampleKey ++ [.submit (.failure 3)]

/-- The moments of the whole run. -/
def replays : List Moment :=
  opened.moments hastyReplies ++
    [⟨opened.serveAll hastyReplies, .restart impatient.settings, impatient⟩] ++
    impatient.moments lateReplies

theorem run_replays : Run replays (impatient.serveAll lateReplies) :=
  have himpatient := (run_opened.serveAll hastyReplies (by decide +kernel)).restart rfl
  himpatient.serveAll lateReplies (by decide +kernel)

/-- The first command is answered and the second is given up by a poll. Refused are a reply given
twice, one given before delivery, one given after the poll, and one to a command that was lost when
custody ended. -/
theorem finalized_at_most_once_replays :
    replays.flatMap Moment.finalized = [1, 2] ∧
    (replays.flatMap Moment.finalized).Nodup ∧
    ∀ p ∈ [(6, Reply.notFound 1), (7, .failure 2), (12, .success 2 [1]), (21, .failure 3)],
      ∃ m result, replays[p.1]? = some m ∧ m.event = .call (.submit p.2) result ∧
        (∃ cause, result = .error (.badBufferData cause)) ∧ m.after = m.before := by
  obtain ⟨hnodup, hall⟩ := finalized_at_most_once run_replays
  refine ⟨by decide +kernel, hnodup, fun p hp => ?_⟩
  simp only [List.mem_cons, List.not_mem_nil, or_false] at hp
  rcases hp with rfl | rfl | rfl | rfl
  · exact ⟨_, _, rfl, rfl, (hall 6 _ rfl).2.2 _ _ rfl (by decide +kernel) (by decide +kernel)⟩
  · exact ⟨_, _, rfl, rfl, (hall 7 _ rfl).2.2 _ _ rfl (by decide +kernel) (by decide +kernel)⟩
  · exact ⟨_, _, rfl, rfl, (hall 12 _ rfl).2.2 _ _ rfl (by decide +kernel) (by decide +kernel)⟩
  · exact ⟨_, _, rfl, rfl, (hall 21 _ rfl).2.2 _ _ rfl (by decide +kernel) (by decide +kernel)⟩

end Agent

end KeyCustody
