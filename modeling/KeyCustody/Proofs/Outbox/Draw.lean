import KeyCustody.Proofs.Outbox.Traffic

/-!
# What a poll makes of each command

A poll gives up the commands that have waited too long (`Command.IsOverdue`), lets those that were
handed out before wait for one poll more, and hands out the first queued ones. All three happen at
once: a command that is handed out in a poll is not older after it, and one that is given up makes
no room for another. So the commands of an outbox come apart at one place, before which all queued
commands are handed out and behind which none is (`Outbox.deliver_kept`), and what a poll makes of a
command depends on its status and on its side of this place alone (`Command.polled`).

`Outbox.draw_exact` says what a poll answers and what it leaves, for any outbox, well formed or not.
Polls are counted in 32 bits. As long as no count that grows is at its end (`Outbox.CountsLast`), a
poll adds one to it, so that a command that waits for its reply has counted at least one
(`Outbox.Change.one_le_polls`); otherwise the count is zero after the poll, and no limit finds it
too large.
-/

namespace KeyCustody

/-- Whether a command that was handed out has waited for its reply as long as a limit allows, so
that its count exceeds the limit with one more poll. -/
def Command.IsOverdue (limit : Option Nat) (c : Command) : Prop :=
  (c.status = .delivered ∨ c.status = .awaitingReply) ∧ ∃ n ∈ limit, n < Outbox.countPoll c.polls

/-- A command after a poll that does not give it up; `handed` says whether queued commands are
handed out. -/
def Command.polled (handed : Bool) (c : Command) : Command :=
  match c.status with
  | .queued => if handed then { c with status := .delivered } else c
  | .delivered | .awaitingReply =>
    { c with status := .awaitingReply, polls := Outbox.countPoll c.polls }
  | .completed | .failed => c

namespace Outbox

variable {limit : Option Nat} {c : Command}

theorem expires_iff : expires limit c = true ↔ c.IsOverdue limit := by
  rcases limit with _ | n
  · simp [expires, Command.IsOverdue]
  · simp [expires, Command.IsOverdue, CommandStatus.isShipped_iff]

instance (limit : Option Nat) : DecidablePred (Command.IsOverdue limit) := fun _ =>
  decidable_of_iff _ expires_iff

theorem expires_eq_decide (limit : Option Nat) : expires limit = (Command.IsOverdue limit ·) :=
  funext fun _ => Bool.eq_iff_iff.mpr (expires_iff.trans (decide_eq_true_iff).symm)

/-- Growing older is all that a poll does to a command that it does not hand out. -/
theorem age_eq_polled : age = Command.polled false := by
  funext c
  cases hstatus : c.status <;> simp [age, Command.polled, CommandStatus.isShipped, hstatus]

theorem polled_of_not_queued (h : c.status ≠ .queued) (handed : Bool) :
    c.polled handed = c.polled false := by
  cases hstatus : c.status <;> simp_all [Command.polled]

/-- **One place in the outbox**: before it a poll hands out all queued commands, as many as it may,
and behind it none. -/
theorem deliver_kept (limit : Option Nat) (count : Nat) (commands : List Command) :
    ∃ front back, commands = front ++ back ∧
      front.filter (·.status = .queued) = (commands.filter (·.status = .queued)).take count ∧
      deliver count ((commands.filter fun c => !expires limit c).map age) =
        (front.filter fun c => !expires limit c).map (Command.polled true) ++
          (back.filter fun c => !expires limit c).map (Command.polled false) := by
  induction commands generalizing count with
  | nil => exact ⟨[], [], rfl, by simp, by cases count <;> rfl⟩
  | cons c rest ih =>
    rcases count with _ | count
    · exact ⟨[], c :: rest, rfl, rfl, by rw [deliver, age_eq_polled]; rfl⟩
    by_cases hqueued : c.status = .queued
    · obtain ⟨front, back, hrest, hfront, hdeliver⟩ := ih count
      have hkept := expires_of_queued limit hqueued
      have hage : age c = c := by simp [age, CommandStatus.isShipped, hqueued]
      have hpolled : c.polled true = { c with status := .delivered } := by
        simp [Command.polled, hqueued]
      refine ⟨c :: front, back, by rw [hrest]; rfl, ?_, ?_⟩
      · simp [hqueued, hfront]
      · simp [hkept, hage, deliver, hqueued, hdeliver, hpolled]
    · obtain ⟨front, back, hrest, hfront, hdeliver⟩ := ih (count + 1)
      refine ⟨c :: front, back, by rw [hrest]; rfl, by simp [hqueued, hfront], ?_⟩
      -- it is given up, or it grows older and is passed by
      rcases hexpires : expires limit c
      · have hage : (age c).status ≠ .queued := fun h => hqueued ((status_age c).mp h)
        have hpolled : age c = c.polled true := by
          rw [age_eq_polled, polled_of_not_queued hqueued true]
        simp [hexpires, deliver, hage, hdeliver, hpolled.symm]
      · simpa [hexpires] using hdeliver

/-- A poll for an admissible number of commands is never refused. -/
theorem draw_of_le {q : Outbox} {count : Nat} (hpos : 1 ≤ count) (hle : count ≤ maxPerPoll) :
    ∃ draw, q.draw count limit = .ok (draw, q.drawn count limit) := by
  rw [draw, if_neg (by omega)]
  exact ⟨_, rfl⟩

/-- The commands that a poll hands out stay, in their order, until they are answered. -/
theorem handed_sublist (count : Nat) (commands : List Command) :
    (((commands.filter (·.status = .queued)).take count).map fun c =>
      { c with status := .delivered }).Sublist (deliver count commands) := by
  fun_induction deliver count commands with
  | case1 => simp
  | case2 => simp
  | case3 count c rest hc ih => simpa [hc] using ih
  | case4 count c rest hc ih => simpa [hc] using ih.cons c

/-- A command that was handed out before, and is not given up, is there after a poll, older by one
poll. -/
theorem age_mem_drawn {q : Outbox} (count : Nat) (hc : c ∈ q.commands)
    (hshipped : c.status.isShipped = true) (hkept : expires limit c = false) :
    age c ∈ (q.drawn count limit).commands := by
  have hqueued : c.status ≠ .queued := fun h => by
    rw [h] at hshipped
    cases hshipped
  obtain ⟨front, back, hcommands, -, hdeliver⟩ := deliver_kept limit count q.commands
  rw [drawn, kept, hdeliver, List.mem_append, age_eq_polled]
  rw [hcommands] at hc
  refine (List.mem_append.mp hc).imp (fun hfront => ?_) fun hback => ?_
  · rw [← polled_of_not_queued hqueued true]
    exact List.mem_map_of_mem (List.mem_filter.mpr ⟨hfront, by simp [hkept]⟩)
  · exact List.mem_map_of_mem (List.mem_filter.mpr ⟨hback, by simp [hkept]⟩)

/-- What a step hands out has not waited for any poll after it. -/
theorem Change.handed_mem {q q' : Outbox} {orders : List Order} {handed : List Command}
    {finalized : List Nat} (h : q.Change orders handed finalized q') (hq' : q'.WellFormed)
    (hc : c ∈ handed) :
    ∃ d ∈ q'.commands, d.sequence = c.sequence ∧ d.status = .delivered ∧ d.polls = 0 := by
  cases h with
  | extended | answered | resized => cases hc
  | @drawn count limit draw _ h =>
    obtain ⟨d, hd, rfl⟩ := List.mem_map.mp hc
    obtain ⟨-, -, rfl, hcommands, -⟩ := draw_eq_ok h
    rw [hcommands] at hd
    have hmem : d ∈ (q.drawn count limit).commands :=
      (handed_sublist count (q.kept limit)).subset hd
    obtain ⟨e, -, rfl⟩ := List.mem_map.mp hd
    exact ⟨_, hmem, rfl, rfl, (hq'.command _ hmem).polls_eq_zero nofun⟩

/-- Whether the counts of all commands that were handed out have room for one more poll. -/
def CountsLast (q : Outbox) : Prop :=
  ∀ c ∈ q.commands, c.status.isShipped = true → c.polls < maxPolls

instance (q : Outbox) : Decidable q.CountsLast :=
  inferInstanceAs (Decidable (∀ c ∈ q.commands, c.status.isShipped = true → c.polls < maxPolls))

/-- As long as the counts last, a command is overdue if one more poll exceeds the limit, and else it
has waited for one poll more. -/
theorem CountsLast.polled {q : Outbox} (h : q.CountsLast) (hc : c ∈ q.commands)
    (hshipped : c.status = .delivered ∨ c.status = .awaitingReply) :
    (c.IsOverdue limit ↔ ∃ n ∈ limit, n < c.polls + 1) ∧
      ∀ handed, c.polled handed = { c with status := .awaitingReply, polls := c.polls + 1 } := by
  have hcount := countPoll_of_lt (h c hc (CommandStatus.isShipped_iff.mpr hshipped))
  rw [Command.IsOverdue, hcount]
  refine ⟨and_iff_right hshipped, fun handed => ?_⟩
  rcases hshipped with hstatus | hstatus <;> simp only [Command.polled, hstatus, hcount]

/-- Every command that waits for its reply has counted a poll, as long as the counts last. -/
theorem Change.one_le_polls {q q' : Outbox} {orders : List Order} {handed : List Command}
    {finalized : List Nat} (h : q.Change orders handed finalized q') (hcounts : q.CountsLast)
    (hq : ∀ c ∈ q.commands, c.status = .awaitingReply → 1 ≤ c.polls) :
    ∀ c ∈ q'.commands, c.status = .awaitingReply → 1 ≤ c.polls := by
  -- a command that is queued does not wait yet
  have hnew : ∀ c ∈ Order.numbered q.nextSequence orders, c.status = .awaitingReply → 1 ≤ c.polls :=
    fun c hc hstatus => nomatch hstatus.symm.trans (Order.status_of_mem_numbered hc)
  cases h with
  | extended => exact fun c hc => (List.mem_append.mp hc).elim (hq c) (hnew c)
  | answered =>
    exact fun c hc => (List.mem_append.mp hc).elim (fun hc => hq c (List.mem_of_mem_eraseP hc))
      (hnew c)
  | resized => exact hq
  | drawn hdraw =>
    obtain ⟨-, -, rfl, -⟩ := draw_eq_ok hdraw
    intro c hc hstatus
    rcases mem_deliver hc with hc | ⟨d, -, -, rfl⟩
    · -- it has grown older in this poll
      obtain ⟨d, hd, rfl⟩ := List.mem_map.mp hc
      have hshipped : d.status.isShipped = true := by
        by_contra hnot
        rw [age, if_neg hnot] at hstatus
        exact hnot (CommandStatus.isShipped_iff.mpr (.inr hstatus))
      rw [age, if_pos hshipped, countPoll_of_lt (hcounts d (List.mem_filter.mp hd).1 hshipped)]
      exact Nat.le_add_left _ _
    · cases hstatus

/-- No step adds more than one poll to a count. -/
theorem Change.polls_le {q q' : Outbox} {orders : List Order} {handed : List Command}
    {finalized : List Nat} {n : Nat} (h : q.Change orders handed finalized q')
    (hq : ∀ c ∈ q.commands, c.polls ≤ n) : ∀ c ∈ q'.commands, c.polls ≤ n + 1 := by
  have hold : ∀ c ∈ q.commands, c.polls ≤ n + 1 := fun c hc => Nat.le_succ_of_le (hq c hc)
  have hnew : ∀ c ∈ Order.numbered q.nextSequence orders, c.polls ≤ n + 1 := fun c hc => by
    rw [Order.polls_of_mem_numbered hc]
    exact Nat.zero_le _
  cases h with
  | extended => exact fun c hc => (List.mem_append.mp hc).elim (hold c) (hnew c)
  | answered =>
    exact fun c hc => (List.mem_append.mp hc).elim (fun hc => hold c (List.mem_of_mem_eraseP hc))
      (hnew c)
  | resized => exact hold
  | @drawn _ limit _ _ hdraw =>
    obtain ⟨-, -, rfl, -⟩ := draw_eq_ok hdraw
    have hkept : ∀ c ∈ q.kept limit, c.polls ≤ n + 1 := fun c hc => by
      obtain ⟨d, hd, rfl⟩ := List.mem_map.mp hc
      have hd := (List.mem_filter.mp hd).1
      rw [age]
      split
      · exact Nat.le_trans (countPoll_le_succ _) (Nat.succ_le_succ (hq d hd))
      · exact hold d hd
    intro c hc
    rcases mem_deliver hc with hc | ⟨d, hd, -, rfl⟩
    · exact hkept c hc
    · exact hkept d hd

/-- **What a poll does**, command by command. Given up are the commands that are overdue, and handed
out the first queued ones, both in the order of the outbox. What stays is in its old order as well:
a command that was handed out before has waited for one poll more, and a queued one is as it was
unless it is handed out now. Nothing is lost and nothing is there twice. As long as the counts of
polls last, overdue are the commands whose count with this poll exceeds the limit, and the count of
every other command that was handed out before is larger by one. A poll for a number of commands
that is not admissible is refused. -/
theorem draw_exact (q : Outbox) (count : Nat) (limit : Option Nat) :
    (1 ≤ count → count ≤ 32 → ∃ draw q', q.draw count limit = .ok (draw, q') ∧
      draw.expired = (q.commands.filter (Command.IsOverdue limit ·)).map (fun c =>
        { c with status := .failed, polls := countPoll c.polls }) ∧
      draw.commands = ((q.commands.filter (·.status = .queued)).take count).map (fun c =>
        { c with status := .delivered }) ∧
      draw.remaining = q'.commands.countP (·.status = .queued) ∧
      draw.remaining = q.commands.countP (·.status = .queued) - count ∧
      (∃ front back, q.commands = front ++ back ∧
        front.filter (·.status = .queued) = (q.commands.filter (·.status = .queued)).take count ∧
        q'.commands =
          (front.filter fun c => ¬ c.IsOverdue limit).map (Command.polled true) ++
            (back.filter fun c => ¬ c.IsOverdue limit).map (Command.polled false)) ∧
      q'.nextSequence = q.nextSequence ∧ q'.capacity = q.capacity ∧
      draw.commands.Sublist q'.commands ∧
      q'.commands.map Command.asQueued =
        (q.commands.filter fun c => ¬ c.IsOverdue limit).map Command.asQueued ∧
      ((q'.commands ++ draw.expired).map Command.asQueued).Perm
        (q.commands.map Command.asQueued) ∧
      (q.CountsLast →
        draw.expired = (q.commands.filter (Command.IsOverdue limit ·)).map (fun c =>
          { c with status := .failed, polls := c.polls + 1 }) ∧
        ∀ c ∈ q.commands, c.status = .delivered ∨ c.status = .awaitingReply →
          (c.IsOverdue limit ↔ ∃ n ∈ limit, n < c.polls + 1) ∧
          ∀ handed, c.polled handed =
            { c with status := .awaitingReply, polls := c.polls + 1 })) ∧
    (¬ (1 ≤ count ∧ count ≤ 32) →
      q.draw count limit = .error (.badParameters (.pollCount 32 count))) := by
  have hkept : (fun c => !expires limit c) = fun c => decide ¬ c.IsOverdue limit := by
    funext c
    rw [expires_eq_decide, decide_not]
  refine ⟨fun hpos hle => ?_, fun hcount => if_pos (by rw [maxPerPoll]; omega)⟩
  obtain ⟨draw, hdraw⟩ : ∃ draw, q.draw count limit = .ok (draw, q.drawn count limit) :=
    draw_of_le hpos hle
  obtain ⟨-, -, -, hcommands, hremaining, hexpired⟩ := draw_eq_ok hdraw
  have hstay := map_asQueued_drawn q count limit
  have hgiven : draw.expired = (q.commands.filter (Command.IsOverdue limit ·)).map (fun c =>
      { c with status := .failed, polls := countPoll c.polls }) := by
    rw [hexpired, expires_eq_decide]
    refine List.map_congr_left fun c hc => ?_
    have hoverdue := (List.mem_filter.mp hc).2
    have hshipped := isShipped_of_expires (expires_iff.mpr (of_decide_eq_true hoverdue))
    rw [age, if_pos hshipped]
  refine ⟨draw, _, hdraw, hgiven, ?_, hremaining, ?_, ?_, rfl, rfl, ?_, ?_, ?_, fun hcounts => ?_⟩
  · rw [hcommands, filter_kept, waiting]
  · rw [hremaining, queuedCount, List.countP_eq_length_filter, List.countP_eq_length_filter]
    change (q.drawn count limit).waiting.length = _
    rw [waiting_drawn, List.length_drop, waiting]
  · rw [← hkept]
    exact deliver_kept limit count q.commands
  · rw [hcommands]
    exact handed_sublist count _
  · rw [hstay, hkept]
  · -- what is overdue and what is not make up the outbox
    have hexpired : draw.expired.map Command.asQueued =
        (q.commands.filter (expires limit)).map Command.asQueued := by
      rw [hexpired, List.map_map]
      exact List.map_congr_left fun c _ => asQueued_age c
    rw [List.map_append, hstay, hexpired, ← List.map_append]
    exact ((List.perm_append_comm).trans (List.filter_append_perm _ _)).map _
  · refine ⟨hgiven.trans (List.map_congr_left fun c hc => ?_), fun c hc => hcounts.polled hc⟩
    obtain ⟨hc, hoverdue⟩ := List.mem_filter.mp hc
    have hshipped := CommandStatus.isShipped_iff.mpr (of_decide_eq_true hoverdue).1
    rw [countPoll_of_lt (hcounts c hc hshipped)]

/-- An outbox with commands of all kinds of status between each other. -/
def mixed (key : KeyRef) : Outbox :=
  ⟨[⟨1, .search, key, [], .awaitingReply, 1⟩, ⟨2, .delete, key, [], .queued, 0⟩,
    ⟨3, .destroy, key, [], .delivered, 0⟩, ⟨4, .generate, key, [1], .queued, 0⟩,
    ⟨5, .search, key, [], .delivered, 4⟩, ⟨6, .delete, key, [], .queued, 0⟩], 7, 2⟩

/-- A poll for two commands under which one poll without a reply is too many: two commands are given
up, two are handed out, one has waited for one poll more and one stays queued. -/
theorem draw_exact_mixed :
    let q := mixed ⟨⟨List.replicate 16 7, rfl⟩, "k"⟩
    (1 ≤ 2 ∧ 2 ≤ 32 ∧ q.CountsLast) ∧ ∃ draw q', q.draw 2 (some 1) = .ok (draw, q') ∧
      draw.expired.map (fun c => (c.sequence, c.status, c.polls)) =
        [(1, .failed, 2), (5, .failed, 5)] ∧
      draw.commands.map (·.sequence) = [2, 4] ∧ draw.remaining = 1 ∧
      q'.commands.map (fun c => (c.sequence, c.status, c.polls)) =
        [(2, .delivered, 0), (3, .awaitingReply, 1), (4, .delivered, 0), (6, .queued, 0)] ∧
      ((q'.commands ++ draw.expired).map Command.asQueued).Perm
        (q.commands.map Command.asQueued) := by
  intro q
  have hcounts : q.CountsLast := by decide
  obtain ⟨draw, q', hdraw, -, hcommands, -, hremaining, -, -, -, -, -, hperm, hplain⟩ :=
    (draw_exact q 2 (some 1)).1 (by decide) (by decide)
  obtain ⟨hexpired, -⟩ := hplain hcounts
  obtain ⟨-, -, rfl, -⟩ := draw_eq_ok hdraw
  refine ⟨by decide, draw, _, hdraw, ?_, ?_, hremaining, by decide, hperm⟩
  · rw [hexpired]
    decide
  · rw [hcommands]
    decide

end Outbox

end KeyCustody
