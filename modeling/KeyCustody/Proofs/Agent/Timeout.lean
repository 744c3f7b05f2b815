import KeyCustody.Proofs.Agent.Finalization
import KeyCustody.Proofs.Agent.Submission
import KeyCustody.Proofs.Custody.Expiry
import KeyCustody.Proofs.Custody.Isolation

/-!
# How long a command waits for its reply

Each command counts the polls since the one that handed it out, and with a limit `n` the poll after
the `n`-th gives it up. Only polls that succeed count. Whatever else happens in a run leaves the
command as it is (`Moment.mem_of_mem`): calls of applications, replies to other commands, calls that
fail, among them polls that the relay refuses or that cannot be committed, and new starts, which
read the count back from the store.

`Agent.timeout_exact` says this for every run, and what becomes of the entries when a poll gives
commands up. The count has 32 bits, and it must not overflow before it exceeds the limit
(`Agent.CountSuffices`): the largest count is a limit too, but none that a count exceeds.
-/

namespace KeyCustody

open Outbox (maxPolls)

/-- Whether an event is a poll that succeeds. -/
def Event.polls : Event → Bool
  | .call (.poll _ _) (.ok _) => true
  | _ => false

/-- Whether an event is a reply to the command of a number that is accepted. -/
def Event.answers (sequence : Nat) : Event → Bool
  | .call (.submit reply) (.ok _) => reply.sequence = sequence
  | _ => false

theorem Event.exists_of_polls {event : Event} (h : event.polls = true) :
    ∃ count accept answer, event = .call (.poll count accept) (.ok answer) := by
  unfold Event.polls at h
  split at h
  · exact ⟨_, _, _, rfl⟩
  · cases h

/-- A command that was handed out has waited for so many polls; its count is that of all of them in
32 bits. -/
def Outbox.HasWaited (q : Outbox) (sequence polls : Nat) : Prop :=
  ∃ c ∈ q.commands, c.sequence = sequence ∧ c.status.isShipped = true ∧
    c.polls = polls % (maxPolls + 1)

/-- A transition that is neither a poll nor the reply to a command leaves the command as it is. -/
theorem Custody.Transition.mem_of_mem {limit : Option Nat} {s t : Custody} {call : Call}
    {answer : Answer} {c : Command} (h : s.Transition limit call answer t) (hs : s.Sound)
    (hpolls : (Event.call call (.ok answer)).polls ≠ true)
    (hanswers : (Event.call call (.ok answer)).answers c.sequence ≠ true)
    (hc : c ∈ s.outbox.commands) : c ∈ t.outbox.commands := by
  cases h with
  | register => exact hc
  | search _ _ _ h =>
    rcases search_eq_ok h with ⟨e, -, -, -, rfl⟩ | ⟨-, -, rfl⟩
    · rwa [outbox_retire]
    · exact List.mem_append_left _ hc
  | generate _ _ _ _ h =>
    obtain ⟨-, -, rfl⟩ := request_eq_ok h
    exact List.mem_append_left _ hc
  | delete _ _ h =>
    obtain ⟨-, -, rfl⟩ := strike_eq_ok h
    exact List.mem_append_left _ hc
  | destroy _ _ h =>
    rw [outbox_destroy h]
    exact List.mem_append_left _ hc
  | exit _ h =>
    obtain ⟨u, hu, -, rfl⟩ := exit_eq_ok h
    change c ∈ u.outbox.commands
    rw [outbox_destroyAll hu]
    exact List.mem_append_left _ hc
  | poll => exact absurd rfl hpolls
  | submit _ h =>
    obtain ⟨d, next, u, -, -, -, hsettled, -, rfl⟩ := answer_eq_ok h
    have hne : c.sequence ≠ _ := fun heq => hanswers (decide_eq_true heq.symm)
    have hstays := hs.outbox.mem_without.mpr ⟨hc, hne⟩
    rw [outbox_collect]
    cases hsettled with
    | ready | kept | failed => exact hstays
    | followUp => exact List.mem_append_left _ hstays

namespace Moment

/-- A moment in which a poll succeeds. -/
def Polls (m : Moment) : Prop := m.event.polls = true

/-- A moment in which a reply to the command of a number is accepted. -/
def Answers (m : Moment) (sequence : Nat) : Prop := m.event.answers sequence = true

instance : DecidablePred Polls := fun m => inferInstanceAs (Decidable (m.event.polls = true))

instance (m : Moment) : DecidablePred m.Answers := fun sequence =>
  inferInstanceAs (Decidable (m.event.answers sequence = true))

variable {m : Moment} {c : Command}

open Agent

/-- **Nothing but polls moves the count**: in any other moment that neither ends custody nor accepts
its reply, a command stays as it is. -/
theorem mem_of_mem (h : m.before.Step m.event m.after) (ha : m.before.Lawful)
    (hclose : ¬ m.Closes) (hpolls : ¬ m.Polls) (hanswers : ¬ m.Answers c.sequence)
    (hc : c ∈ m.before.custody.outbox.commands) : c ∈ m.after.custody.outbox.commands := by
  obtain ⟨a, event, b⟩ := m
  dsimp only at h ha hc ⊢
  cases h with
  | obstruct => exact hc
  | restart hstart =>
    obtain rfl := Except.ok.inj (hstart.symm.trans (start_eq_ok ha (check_of_start hstart)))
    exact hc
  | call call =>
    have heffect := effect_serve a call
    generalize (a.serve call).1 = result at heffect hclose hpolls hanswers
    generalize (a.serve call).2 = b at heffect hclose hpolls hanswers ⊢
    cases heffect with
    | refused | found | unsaved | unprovisioned | attested | revoked => exact hc
    | saved _ ht => exact ht.mem_of_mem ha.sound hpolls hanswers hc
    | provisioned hinit =>
      -- without an anchor there was no command
      rw [ha.eq_blank hinit] at hc
      cases hc
    | unerased | closed | unclosed => exact absurd rfl hclose

/-- A poll that succeeds is a poll of the state, under the limit in force, and it finalizes the
numbers of the commands that expire. -/
theorem exists_poll (h : m.before.Step m.event m.after) (hpolls : m.Polls) :
    ∃ count polled,
      m.before.custody.poll count m.before.settings.replyTimeout = .ok (polled, m.after.custody) ∧
      m.finalized = (m.before.custody.outbox.commands.filter
        (Outbox.expires m.before.settings.replyTimeout)).map (·.sequence) := by
  obtain ⟨a, event, b⟩ := m
  obtain ⟨count, accept, answer, rfl⟩ := Event.exists_of_polls hpolls
  have heffect : a.Effect (.poll count accept) (.ok answer) b := h.effect
  cases heffect with
  | found _ _ hlooks => cases hlooks
  | saved _ ht =>
    cases ht with
    | poll hpoll =>
      obtain ⟨draw, q, hdraw, -⟩ := Custody.poll_eq_ok hpoll
      refine ⟨count, _, hpoll, ?_⟩
      simp only [finalized, Custody.finalized, hdraw]
      exact Outbox.sequences_expired hdraw

/-! ### One command through one moment -/

variable {sequence polls : Nat}

/-- What a moment hands out is in the outbox from then on, and has not waited for any poll. -/
theorem hasWaited_of_mem_delivered (h : m.before.Step m.event m.after) (ha : m.before.Lawful)
    (hmem : sequence ∈ m.delivered.map (·.sequence)) :
    m.after.custody.outbox.HasWaited sequence 0 := by
  by_cases hclose : m.Closes
  · obtain ⟨-, hnone, -⟩ := of_closes h hclose
    rw [hnone] at hmem
    cases hmem
  · obtain ⟨handed, hdelivered, hchange⟩ := change h ha hclose
    rw [hdelivered, List.map_map] at hmem
    obtain ⟨d, hd, rfl⟩ := List.mem_map.mp hmem
    obtain ⟨c, hc, hseq, hstatus, hzero⟩ :=
      hchange.handed_mem (h.lawful ha).sound.outbox hd
    exact ⟨c, hc, hseq, by rw [hstatus]; rfl, hzero⟩

/-- A poll within the limit makes a command older by one poll. -/
theorem hasWaited_of_polls (h : m.before.Step m.event m.after) (hpolls : m.Polls)
    (hlimit : ∀ n ∈ m.before.settings.replyTimeout, polls + 1 ≤ n)
    (hwaited : m.before.custody.outbox.HasWaited sequence polls) :
    m.after.custody.outbox.HasWaited sequence (polls + 1) := by
  obtain ⟨c, hc, hseq, hshipped, hcount⟩ := hwaited
  have hnext : Outbox.countPoll c.polls = (polls + 1) % (maxPolls + 1) := by
    rw [hcount, Outbox.countPoll_mod]
  have hkept : Outbox.expires m.before.settings.replyTimeout c = false := by
    refine Bool.eq_false_iff.mpr fun hexpires => ?_
    obtain ⟨-, n, hn, hlt⟩ := Outbox.expires_iff.mp hexpires
    rw [hnext] at hlt
    exact absurd ((Nat.mod_le _ _).trans (hlimit n hn)) (Nat.not_le.mpr hlt)
  obtain ⟨count, polled, hpoll, -⟩ := exists_poll h hpolls
  obtain ⟨draw, q, hdraw, -, hafter⟩ := Custody.poll_eq_ok hpoll
  obtain ⟨-, -, rfl, -⟩ := Outbox.draw_eq_ok hdraw
  rw [hafter, Custody.outbox_foldl_expire]
  refine ⟨Outbox.age c, Outbox.age_mem_drawn count hc hshipped hkept,
    (Command.fields_of_asQueued (Outbox.asQueued_age c)).1.trans hseq, ?_⟩
  rw [Outbox.age, if_pos hshipped]
  exact ⟨rfl, hnext⟩

/-- The poll after as many as the limit allows gives the command up, if the count exceeds the limit
with this poll. -/
theorem mem_finalized_of_polls (h : m.before.Step m.event m.after) (hpolls : m.Polls) {n : Nat}
    (hn : n ∈ m.before.settings.replyTimeout) (hmax : n < maxPolls)
    (hwaited : m.before.custody.outbox.HasWaited sequence n) : sequence ∈ m.finalized := by
  obtain ⟨c, hc, rfl, hshipped, hcount⟩ := hwaited
  have hnext : Outbox.countPoll c.polls = n + 1 := by
    rw [hcount, Outbox.countPoll_mod, Nat.mod_eq_of_lt (Nat.succ_lt_succ hmax)]
  have hexpires : Outbox.expires m.before.settings.replyTimeout c = true :=
    Outbox.expires_iff.mpr
      ⟨CommandStatus.isShipped_iff.mp hshipped, n, hn, hnext ▸ Nat.lt_succ_self n⟩
  obtain ⟨-, -, -, hfinalized⟩ := exists_poll h hpolls
  rw [hfinalized]
  exact List.mem_map_of_mem (List.mem_filter.mpr ⟨hc, hexpires⟩)

/-! ### All commands that one poll gives up -/

/-- What a poll makes of the commands that it gives up and of their entries. -/
structure GivesUp (m : Moment) : Prop where
  overdue : ∀ sequence ∈ m.finalized, ∃ c ∈ m.before.custody.outbox.commands,
    c.sequence = sequence ∧ c.IsOverdue m.before.settings.replyTimeout
  gone : ∀ sequence ∈ m.finalized, ∀ d ∈ m.after.custody.outbox.commands, d.sequence ≠ sequence
  entry : ∀ c ∈ m.before.custody.outbox.commands, c.sequence ∈ m.finalized →
    ∃ e, m.before.custody.keyring.get? c.key = some e ∧
      m.after.custody.keyring.get? c.key = e.afterExpiry m.finalized
        (decide (∃ d ∈ m.after.custody.outbox.commands, d.key = c.key))
  others : ∀ key, (∀ c ∈ m.before.custody.outbox.commands, c.key = key →
      c.sequence ∉ m.finalized) →
    m.after.custody.keyring.get? key = m.before.custody.keyring.get? key

/-- **What becomes of the entries** when a poll gives commands up. -/
theorem givesUp (h : m.before.Step m.event m.after) (ha : m.before.Lawful) (hpolls : m.Polls) :
    m.GivesUp := by
  obtain ⟨count, polled, hpoll, hfinalized⟩ := exists_poll h hpolls
  have hmem {n : Nat} (hn : n ∈ m.finalized) : ∃ c ∈ m.before.custody.outbox.commands,
      c.sequence = n ∧ Outbox.expires m.before.settings.replyTimeout c = true := by
    rw [hfinalized] at hn
    obtain ⟨c, hc, rfl⟩ := List.mem_map.mp hn
    exact ⟨c, (List.mem_filter.mp hc).1, rfl, (List.mem_filter.mp hc).2⟩
  constructor
  case overdue =>
    intro n hn
    obtain ⟨c, hc, hseq, hexpires⟩ := hmem hn
    exact ⟨c, hc, hseq, Outbox.expires_iff.mp hexpires⟩
  case gone =>
    intro n hn d hd
    obtain ⟨c, hc, rfl, hexpires⟩ := hmem hn
    obtain ⟨draw, q, hdraw, -, hafter⟩ := Custody.poll_eq_ok hpoll
    obtain ⟨-, -, rfl, -⟩ := Outbox.draw_eq_ok hdraw
    rw [hafter, Custody.outbox_foldl_expire] at hd
    exact ha.sound.outbox.sequence_ne_of_expires hc hexpires hd
  case entry =>
    intro c hc hexpires
    obtain ⟨e, he⟩ := ha.sound.coherentUpTo.addressed c hc
    have hkept : m.after.custody.outbox.references c.key =
        decide (∃ d ∈ m.after.custody.outbox.commands, d.key = c.key) := by
      rw [Bool.eq_iff_iff, Custody.references_iff, decide_eq_true_iff]
    refine ⟨e, he, ?_⟩
    rw [Custody.get?_poll ha.sound hpoll, he, Option.bind_some, hfinalized, hkept]
  case others =>
    intro key hkey
    by_contra hchange
    obtain ⟨c, hc, hckey, hexpires, -⟩ :=
      Custody.exists_expired_of_poll ha.sound.outbox hpoll hchange
    refine hkey c hc hckey ?_
    rw [hfinalized]
    exact List.mem_map_of_mem (List.mem_filter.mpr ⟨hc, hexpires⟩)

end Moment

namespace Agent

variable {past before early : List Moment} {m : Moment} {a : Agent MemoryStore} {c : Command}
  {sequence : Nat} {limit : Option Nat}

/-- A command waits for its reply: it was handed out, and whatever reply to it is well formed and
leaves room for the generation that may follow is accepted, as long as commits succeed. -/
structure Awaits (a : Agent MemoryStore) (c : Command) : Prop where
  command : c ∈ a.custody.outbox.commands
  shipped : c.status = .delivered ∨ c.status = .awaitingReply
  answerable : ∀ reply octets, reply.sequence = c.sequence →
    Hex.decode reply.payload = .ok octets →
    (c.kind = .search ∨ c.kind = .generate → reply.result = .success →
      1 ≤ octets.length ∧ octets.length ≤ 2048) →
    (a.custody.FollowsUp c reply.result →
      a.custody.outbox.depth ≤ a.custody.outbox.capacity) →
    a.store.failNext = false → ∃ receipt, (a.submit reply).1 = .ok receipt

/-- A command that was handed out and is still in the outbox waits for its reply. -/
theorem Run.awaits (h : Run past a) (hc : c ∈ a.custody.outbox.commands)
    (hshipped : c.status.isShipped = true) : a.Awaits c := by
  have hstatus := CommandStatus.isShipped_iff.mp hshipped
  refine ⟨hc, hstatus, fun reply octets hseq hdecoded hsize hroom hstore => ?_⟩
  have hinit : a.isInitialized = true := by
    by_contra hinit
    rw [h.chronicle.commands_eq_nil (by simpa using hinit)] at hc
    cases hc
  have hpos : 0 < a.custody.outbox.depth := List.length_pos_of_mem hc
  have hadmits : a.custody.Admits reply c octets :=
    ⟨hc, hseq.symm, hstatus, hdecoded, hsize, fun hfollows =>
      Nat.lt_of_lt_of_le (Nat.sub_one_lt_of_lt hpos) (hroom hfollows)⟩
  have hcommit := MemoryStore.commit_of_not_failNext hstore
    [(Custody.record, (a.custody.replied c reply.result octets).encode)]
  exact ⟨_, congrArg Prod.fst ((submit_eq_ok_iff h.lawful.sound).mpr
    ⟨hinit, c, octets, _, hadmits, hcommit, rfl, rfl⟩)⟩

/-- Whether a count of 32 bits suffices for a limit on the polls since a command was handed out: it
can exceed the limit, or no more polls have succeeded than it can count. -/
def CountSuffices (limit : Option Nat) (early : List Moment) : Prop :=
  (∀ n ∈ limit, n < 0xffffffff) ∨ early.countP (·.Polls) ≤ 0xffffffff

/-- If a count suffices, a limit that was passed is one that it exceeds. -/
theorem CountSuffices.lt_maxPolls (h : CountSuffices limit early) {n : Nat} (hn : n ∈ limit)
    (hlt : n < early.countP (·.Polls)) : n < maxPolls :=
  h.elim (fun hlimit => hlimit n hn) fun hcount => Nat.lt_of_lt_of_le hlt hcount

/-- It suffices for fewer moments as well. -/
theorem CountSuffices.of_append {later : List Moment} (h : CountSuffices limit (early ++ later)) :
    CountSuffices limit early :=
  h.imp_right (Nat.le_trans ((List.sublist_append_left _ _).countP_le))

/-- **The count is exact**: a command that was handed out waits through as many polls as the limit
allows, and no longer. -/
theorem Run.count_exact (h : Run (before ++ m :: early) a)
    (hdelivered : sequence ∈ m.delivered.map (·.sequence)) (hsuffices : CountSuffices limit early)
    (hearly : ∀ x ∈ early, ¬ x.Closes ∧ ¬ x.Answers sequence ∧
      x.before.settings.replyTimeout = limit) :
    ((∀ n ∈ limit, early.countP (·.Polls) ≤ n) →
      a.custody.outbox.HasWaited sequence (early.countP (·.Polls))) ∧
    ∀ n ∈ limit, n < early.countP (·.Polls) →
      sequence ∈ (before ++ m :: early).flatMap Moment.finalized := by
  -- the induction is from the end, where the last step is
  induction early using List.reverseRecOn generalizing a with
  | nil =>
    obtain ⟨hrun, hstep, rfl⟩ := h.of_concat
    exact ⟨fun _ => Moment.hasWaited_of_mem_delivered hstep hrun.lawful hdelivered, nofun⟩
  | append_singleton early x ih =>
    rw [← List.cons_append, ← List.append_assoc] at h ⊢
    obtain ⟨hrun, hstep, rfl⟩ := h.of_concat
    obtain ⟨hwaited, hgone⟩ := ih hrun hsuffices.of_append fun y hy =>
      hearly y (List.mem_append_left _ hy)
    obtain ⟨hclose, hanswers, rfl⟩ := hearly x (List.mem_append_right _ List.mem_cons_self)
    by_cases hx : x.Polls
    · have hcount : (early ++ [x]).countP (·.Polls) = early.countP (·.Polls) + 1 := by simp [hx]
      have hmax {n : Nat} := hsuffices.lt_maxPolls (n := n)
      rw [hcount] at hmax ⊢
      rw [flatMap_concat]
      refine ⟨fun hle => ?_, fun n hn hlt => List.mem_append.mpr ?_⟩
      · have hle' : ∀ n ∈ x.before.settings.replyTimeout, early.countP (·.Polls) ≤ n :=
          fun n hn => Nat.le_of_succ_le (hle n hn)
        exact Moment.hasWaited_of_polls hstep hx hle (hwaited hle')
      · refine (Nat.lt_succ_iff_lt_or_eq.mp hlt).imp (hgone n hn) ?_
        rintro rfl
        have hle : ∀ n ∈ x.before.settings.replyTimeout, early.countP (·.Polls) ≤ n :=
          fun n hn' => Nat.le_of_eq (Option.mem_unique hn hn')
        exact Moment.mem_finalized_of_polls hstep hx hn (hmax hn hlt) (hwaited hle)
    · have hcount : (early ++ [x]).countP (·.Polls) = early.countP (·.Polls) := by simp [hx]
      rw [hcount, flatMap_concat]
      refine ⟨fun hle => ?_, fun n hn hlt => List.mem_append_left _ (hgone n hn hlt)⟩
      obtain ⟨c, hc, rfl, hwaits⟩ := hwaited hle
      exact ⟨c, Moment.mem_of_mem hstep hrun.lawful hclose hx hanswers hc, rfl, hwaits⟩

/-- A command that was handed out keeps to a limit over the moments since then: it waits as long as
no more polls have succeeded than the limit allows, the poll after these gives it up and no other
does, and from then on it is gone. -/
structure KeepsLimit (limit : Option Nat) (early : List Moment) (a : Agent MemoryStore)
    (sequence : Nat) : Prop where
  waits : (∀ n ∈ limit, early.countP (·.Polls) ≤ n) → ∃ c, c.sequence = sequence ∧
    c.polls = early.countP (·.Polls) % (maxPolls + 1) ∧ a.Awaits c
  expires : ∀ n ∈ limit, ∀ front x back, early = front ++ x :: back → x.Polls →
    (sequence ∈ x.finalized ↔ front.countP (·.Polls) = n)
  gone : ∀ n ∈ limit, n < early.countP (·.Polls) →
    ∀ d ∈ a.custody.outbox.commands, d.sequence ≠ sequence

theorem Run.keepsLimit (h : Run (before ++ m :: early) a)
    (hdelivered : sequence ∈ m.delivered.map (·.sequence)) (hsuffices : CountSuffices limit early)
    (hearly : ∀ x ∈ early, ¬ x.Closes ∧ ¬ x.Answers sequence ∧
      x.before.settings.replyTimeout = limit) :
    KeepsLimit limit early a sequence := by
  obtain ⟨hwaited, hgone⟩ := h.count_exact hdelivered hsuffices hearly
  constructor
  case waits =>
    intro hle
    obtain ⟨c, hc, hseq, hshipped, hpolls⟩ := hwaited hle
    exact ⟨c, hseq, hpolls, h.awaits hc hshipped⟩
  case gone =>
    intro n hn hlt d hd hseq
    exact h.accounted.not_finalized d hd (hseq ▸ hgone n hn hlt)
  case expires =>
    rintro n hn front x back rfl hx
    rw [← List.cons_append, ← List.append_assoc] at h
    obtain ⟨hrun, hstep⟩ := h.of_append
    have hfront : ∀ y ∈ front, ¬ y.Closes ∧ ¬ y.Answers sequence ∧
        y.before.settings.replyTimeout = limit := fun y hy =>
      hearly y (List.mem_append_left _ hy)
    have hlast := hearly x (List.mem_append_right _ List.mem_cons_self)
    obtain ⟨hwaited, hgone⟩ := hrun.count_exact hdelivered hsuffices.of_append hfront
    have hthrough : CountSuffices limit (front ++ [x]) := by
      rw [List.append_cons] at hsuffices
      exact hsuffices.of_append
    have hcount : (front ++ [x]).countP (·.Polls) = front.countP (·.Polls) + 1 := by simp [hx]
    constructor
    · intro hmem
      rcases Nat.lt_trichotomy (front.countP (·.Polls)) n with hlt | heq | hgt
      · -- it would wait after the poll as well
        have hafter : Run (before ++ m :: (front ++ [x])) x.after := by
          rw [← List.cons_append, ← List.append_assoc]
          exact hrun.step hstep
        obtain ⟨c, hc, rfl, -⟩ := (hafter.count_exact hdelivered hthrough fun y hy =>
          (List.mem_append.mp hy).elim (hfront y) fun hy => List.mem_singleton.mp hy ▸ hlast).1
          fun k hk => by rw [hcount, Option.mem_unique hk hn]; omega
        refine absurd ?_ (hafter.accounted.not_finalized c hc)
        rw [← List.cons_append, ← List.append_assoc, flatMap_concat]
        exact List.mem_append_right _ hmem
      · exact heq
      · -- it was given up before
        exact absurd (hgone n hn hgt) (hrun.outstanding_of_finalized hstep hmem).2
    · rintro rfl
      have hmax := hthrough.lt_maxPolls hn (hcount ▸ Nat.lt_succ_self _)
      obtain ⟨-, -, rfl⟩ := hlast
      exact Moment.mem_finalized_of_polls hstep hx hn hmax
        (hwaited fun k hk => Nat.le_of_eq (Option.mem_unique hn hk))

/-- **The limit on the wait for a reply is exact**, over every run. Let a command have been handed
out, and let neither its reply have been accepted since nor custody have been ended, with one limit
in force. Then the command is in the outbox and can be answered as long as no more polls have
succeeded than the limit allows; the next poll that succeeds gives it up, and no other does. Polls
that fail do not count, and new starts make no difference. This is so as long as the count of polls
does not overflow before it exceeds the limit. In every poll an entry that waits for a command that
is given up has failed, a tombstone goes with the last command for its key, and nothing else
changes. Without a limit, or with the largest count as the limit, no command is given up. -/
theorem timeout_exact (h : Run past a) :
    (∀ before m early sequence limit, past = before ++ m :: early →
      sequence ∈ m.delivered.map (·.sequence) → CountSuffices limit early →
      (∀ x ∈ early, ¬ x.Closes ∧ ¬ x.Answers sequence ∧ x.before.settings.replyTimeout = limit) →
      KeepsLimit limit early a sequence) ∧
    (∀ m ∈ past, m.Polls → m.GivesUp) ∧
    ∀ m ∈ past, m.Polls → m.before.settings.replyTimeout = none ∨
      m.before.settings.replyTimeout = some 0xffffffff → m.finalized = [] := by
  refine ⟨?_, fun m hm hpolls => ?_, fun m hm hpolls hlimit => ?_⟩
  · rintro before m early sequence limit rfl hdelivered hsuffices hearly
    exact h.keepsLimit hdelivered hsuffices hearly
  · obtain ⟨before, later, rfl⟩ := List.append_of_mem hm
    obtain ⟨hrun, hstep⟩ := h.of_append
    exact Moment.givesUp hstep hrun.lawful hpolls
  · obtain ⟨before, later, rfl⟩ := List.append_of_mem hm
    obtain ⟨-, -, -, hfinalized⟩ := Moment.exists_poll h.of_append.2 hpolls
    rw [hfinalized]
    refine congrArg _ (List.filter_eq_nil_iff.mpr fun c _ hexpires => ?_)
    -- a limit is exceeded by a count, which is at most the largest
    obtain ⟨-, n, hn, hlt⟩ := Outbox.expires_iff.mp hexpires
    rcases hlimit with hnone | hlargest
    · rw [hnone] at hn
      cases hn
    · rw [hlargest] at hn
      obtain rfl := Option.some.inj hn
      exact absurd (Outbox.countPoll_le c.polls) (Nat.not_le.mpr hlt)

/-! ### A run with polls that fail -/

/-- A poll that the relay takes, and one that it refuses. -/
def taken : Call := .poll 2 fun _ => .ok ()

def declined : Call := .poll 2 fun _ => .error (.badBufferData (.stated ""))

/-- The calls that queue a search and the deletion of another key. -/
def twoOrders : List Call := introduction sampleKey ++ [.delete ⟨sampleKey.owner, "l"⟩]

/-- The agent after these calls and a new start under which commands wait for one poll only. -/
def pressed : Agent MemoryStore :=
  (opened.serveAll twoOrders).restarted { Settings.standard with replyTimeout := some 1 }

/-- The agent after both commands were handed out, one poll was refused and one has succeeded; the
next commit will fail. -/
def polledOnce : Agent MemoryStore :=
  let a := pressed.serveAll [taken, declined, taken]
  { a with store := a.store.failing }

/-- The agent after a poll that is not committed and a new start. -/
def polledInVain : Agent MemoryStore := (polledOnce.serveAll [taken]).restarted pressed.settings

/-- The moment in which both commands are handed out. -/
def handingOut : Moment := ⟨pressed, .call taken (pressed.serve taken).1, (pressed.serve taken).2⟩

/-- The moments since then, the last of which is one poll too many. -/
def sinceHandedOut : List Moment :=
  let a := pressed.serveAll [taken]
  let b := a.serveAll [declined, taken]
  let c := polledOnce.serveAll [taken]
  a.moments [declined, taken] ++ [⟨b, .obstruct, polledOnce⟩] ++ polledOnce.moments [taken] ++
    [⟨c, .restart pressed.settings, polledInVain⟩] ++ polledInVain.moments [taken]

/-- The moments of the whole run. -/
def tooLate : List Moment :=
  opened.moments twoOrders ++
    [⟨opened.serveAll twoOrders, .restart pressed.settings, pressed⟩] ++
      handingOut :: sinceHandedOut

theorem run_tooLate : Run tooLate (polledInVain.serveAll [taken]) := by
  have hcheck : pressed.settings.check = .ok () := rfl
  have hpressed := (run_opened.serveAll twoOrders (by decide +kernel)).restart hcheck
  have hhanded := hpressed.serveAll [taken] (by decide +kernel)
  have honce := (hhanded.serveAll [declined, taken] (by decide +kernel)).step .obstruct
  have hvain := (honce.serveAll [taken] (by decide +kernel)).restart hcheck
  have hlate := hvain.serveAll [taken] (by decide +kernel)
  simp only [List.append_assoc] at hlate
  simp only [tooLate, sinceHandedOut, List.append_assoc]
  exact hlate

/-- Two of the four polls since have succeeded, so both commands are given up, at once: the entry
that waited for the search has failed, and the tombstone of the other key is gone. -/
theorem timeout_exact_tooLate :
    let b := polledInVain.serveAll [taken]
    sinceHandedOut.countP (·.Polls) = 2 ∧ KeepsLimit (some 1) sinceHandedOut b 1 ∧
      (tooLate.map Moment.finalized).getLast? = some [1, 2] ∧ (∀ m ∈ tooLate, m.Polls → m.GivesUp) ∧
      b.custody.keyring.get? sampleKey = some ⟨sampleKey, none, .failed, 1⟩ ∧
      b.custody.keyring.get? ⟨sampleKey.owner, "l"⟩ = none := by
  intro b
  obtain ⟨hkeeps, hgives, -⟩ := timeout_exact run_tooLate
  have hlimit := hkeeps _ handingOut sinceHandedOut 1 (some 1) rfl (by decide +kernel)
    (.inl (by decide)) (by decide +kernel)
  exact ⟨by decide +kernel, hlimit, by decide +kernel, hgives, by decide +kernel, by decide +kernel⟩

end Agent

end KeyCustody
