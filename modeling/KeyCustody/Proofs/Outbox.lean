import KeyCustody.Anchor
import KeyCustody.Outbox
import Mathlib.Tactic.Common

/-!
# What the outbox does

Each operation of the outbox has one outcome when it succeeds: `enqueue` puts a command at the end
(`Outbox.push`), `draw` ages the commands, drops those that expire and marks others as delivered
(`Outbox.drawn`), and `finalize` takes one command out (`Outbox.without`).

What a command asks for never changes while it waits. `Command.asQueued` forgets how far a command
has come, and up to it a poll leaves every command that does not expire as it was
(`map_asQueued_drawn`).

`Outbox.WellFormed` is the representation invariant: numbers rise from front to back, commands that
were handed out stand before those that are queued, and each command is in itself as it should be
(`Command.WellFormed`). It says nothing of how large a number may be: no operation of the outbox
looks at that.
-/

namespace KeyCustody

/-- A command as it was when it was queued. -/
def Command.asQueued (c : Command) : Command := { c with status := .queued, polls := 0 }

/-- Commands that were queued alike have the same number, kind and key. -/
theorem Command.fields_of_asQueued {c d : Command} (h : c.asQueued = d.asQueued) :
    c.sequence = d.sequence ∧ c.kind = d.kind ∧ c.key = d.key := by
  simp only [asQueued, mk.injEq] at h
  exact ⟨h.1, h.2.1, h.2.2.1⟩

theorem CommandStatus.isShipped_iff {status : CommandStatus} :
    status.isShipped = true ↔ status = .delivered ∨ status = .awaitingReply := by
  cases status <;> simp [isShipped]

/-- The representation invariant of a command in the outbox. -/
structure Command.WellFormed (c : Command) : Prop where
  isValidId : KeyRef.isValidId c.key.id = true
  length_payload : c.payload.length ≤ Anchor.maxKeySize
  status : c.status = .queued ∨ c.status.isShipped = true
  polls_eq_zero : c.status ≠ .awaitingReply → c.polls = 0
  polls_le : c.polls ≤ Outbox.maxPolls

namespace Outbox

/-! ### Counting polls -/

theorem countPoll_le (polls : Nat) : countPoll polls ≤ maxPolls :=
  Nat.le_of_lt_succ (Nat.mod_lt _ (Nat.succ_pos _))

theorem countPoll_of_lt {polls : Nat} (h : polls < maxPolls) : countPoll polls = polls + 1 :=
  Nat.mod_eq_of_lt (Nat.succ_lt_succ h)

theorem countPoll_le_succ (polls : Nat) : countPoll polls ≤ polls + 1 := Nat.mod_le _ _

/-- A count that wrapped around goes on as the count of all polls does. -/
theorem countPoll_mod (polls : Nat) :
    countPoll (polls % (maxPolls + 1)) = (polls + 1) % (maxPolls + 1) :=
  Nat.mod_add_mod _ _ _

example : countPoll maxPolls = 0 := by decide

/-! ### The outcomes of the operations -/

/-- The outbox with one more command at its end. -/
def push (q : Outbox) (kind : CommandKind) (key : KeyRef) (payload : Bytes) : Outbox :=
  { q with
    commands := q.commands ++ [⟨q.nextSequence, kind, key, payload, .queued, 0⟩]
    nextSequence := q.nextSequence + 1 }

/-- The outbox without the command of a number. -/
def without (q : Outbox) (sequence : Nat) : Outbox :=
  { q with commands := q.commands.eraseP (·.sequence = sequence) }

/-- The commands that stay after one more poll, before any is handed out. -/
def kept (q : Outbox) (limit : Option Nat) : List Command :=
  (q.commands.filter fun c => !expires limit c).map age

/-- The outbox after a poll for up to `count` commands. -/
def drawn (q : Outbox) (count : Nat) (limit : Option Nat) : Outbox :=
  { q with commands := deliver count (q.kept limit) }

variable {q q' : Outbox}

/-- What is found under a number is a command in the outbox that has this number. -/
theorem of_get?_eq_some {sequence : Nat} {c : Command} (h : q.get? sequence = some c) :
    c ∈ q.commands ∧ c.sequence = sequence :=
  ⟨List.mem_of_find?_eq_some h, by simpa using List.find?_some h⟩

theorem enqueue_eq_ok {kind : CommandKind} {key : KeyRef} {payload : Bytes} {n : Nat}
    (h : q.enqueue kind key payload = .ok (n, q')) :
    q.depth < q.capacity ∧ n = q.nextSequence ∧ q' = q.push kind key payload := by
  rw [enqueue] at h
  split_ifs at h with hroom
  obtain ⟨rfl, rfl⟩ := Prod.mk.inj (Except.ok.inj h)
  exact ⟨Nat.lt_of_not_le hroom, rfl, rfl⟩

theorem finalize_eq_ok {sequence : Nat} {success : Bool} {c : Command}
    (h : q.finalize sequence success = .ok (c, q')) :
    ∃ d, q.get? sequence = some d ∧ d.status.isShipped = true ∧
      c = { d with status := if success then .completed else .failed } ∧
        q' = q.without sequence := by
  rw [finalize] at h
  rcases hd : q.get? sequence with _ | d
  · rw [hd] at h
    simp only at h
    split_ifs at h
  · rw [hd] at h
    simp only at h
    split_ifs at h with hshipped <;> obtain ⟨rfl, rfl⟩ := Prod.mk.inj (Except.ok.inj h) <;>
      exact ⟨d, rfl, hshipped, by simp_all, rfl⟩

/-- A reply to a command that no poll has handed out is refused. -/
theorem finalize_eq_error {sequence : Nat}
    (h : ∀ c ∈ q.commands, c.sequence = sequence → c.status.isShipped = false) :
    ∃ cause, ∀ success, q.finalize sequence success = .error (.badBufferData cause) := by
  simp only [finalize]
  rcases hc : q.get? sequence with _ | c
  · dsimp only
    split_ifs
    · exact ⟨_, fun _ => rfl⟩
    · exact ⟨_, fun _ => rfl⟩
  · obtain ⟨hmem, hseq⟩ := of_get?_eq_some hc
    have hshipped := h c hmem hseq
    exact ⟨_, fun _ => if_neg (by rw [hshipped]; exact Bool.false_ne_true)⟩

theorem draw_eq_ok {count : Nat} {limit : Option Nat} {d : Draw}
    (h : q.draw count limit = .ok (d, q')) :
    0 < count ∧ count ≤ maxPerPoll ∧ q' = q.drawn count limit ∧
      d.commands = (((q.kept limit).filter (·.status = .queued)).take count).map
        (fun c => { c with status := .delivered }) ∧
      d.remaining = (q.drawn count limit).queuedCount ∧
      d.expired = (q.commands.filter (expires limit)).map
        (fun c => { age c with status := .failed }) := by
  rw [draw] at h
  split_ifs at h with hcount
  obtain ⟨rfl, rfl⟩ := Prod.mk.inj (Except.ok.inj h)
  rw [not_or] at hcount
  exact ⟨Nat.pos_of_ne_zero hcount.1, Nat.le_of_not_lt hcount.2, rfl, rfl, rfl, rfl⟩

@[simp]
theorem depth_push (q : Outbox) (kind : CommandKind) (key : KeyRef) (payload : Bytes) :
    (q.push kind key payload).depth = q.depth + 1 :=
  List.length_append

/-- Taking a command out makes the outbox shorter by one. -/
theorem depth_without {sequence : Nat} {c : Command} (hc : q.get? sequence = some c) :
    (q.without sequence).depth + 1 = q.depth := by
  obtain ⟨hmem, hseq⟩ := of_get?_eq_some hc
  have hlength : (q.without sequence).depth = q.depth - 1 :=
    List.length_eraseP_of_mem hmem (decide_eq_true hseq)
  have hpos : 0 < q.depth := List.length_pos_of_mem hmem
  omega

/-- Taking a command out leaves the others in place, whatever is asked of them. -/
theorem filter_without {sequence : Nat} {c : Command} {p : Command → Bool}
    (hc : q.get? sequence = some c) (hp : p c = false) :
    (q.without sequence).commands.filter p = q.commands.filter p := by
  obtain ⟨hseq, front, back, hsplit, hfront⟩ := List.find?_eq_some_iff_append.mp hc
  have hrest : (c :: back).eraseP (·.sequence = sequence) = back := List.eraseP_cons_of_pos hseq
  have herase : (q.without sequence).commands = front ++ back := by
    rw [without, hsplit, List.eraseP_append_right _ fun d hd => by simpa using hfront d hd, hrest]
  rw [herase, hsplit, List.filter_append, List.filter_append,
    List.filter_cons_of_neg (by rw [hp]; exact Bool.false_ne_true)]

/-- Two commands may be taken out in either order. -/
theorem without_comm (q : Outbox) {sequence other : Nat} (hne : sequence ≠ other) :
    (q.without sequence).without other = (q.without other).without sequence := by
  have hcommands : (q.commands.eraseP (·.sequence = sequence)).eraseP (·.sequence = other) =
      (q.commands.eraseP (·.sequence = other)).eraseP (·.sequence = sequence) :=
    List.eraseP_comm fun c _ => by
      rw [decide_eq_true_iff, decide_eq_true_iff, ← not_and_or]
      exact fun ⟨h, h'⟩ => hne (h.symm.trans h')
  simp only [without, hcommands]

/-- The other commands are found as before. -/
theorem get?_without {sequence other : Nat} {c : Command} (hc : q.get? sequence = some c)
    (hne : other ≠ sequence) : (q.without sequence).get? other = q.get? other := by
  have hother : decide (c.sequence = other) = false :=
    decide_eq_false fun h => hne (h.symm.trans (of_get?_eq_some hc).2)
  have hfilter := filter_without (p := (·.sequence = other)) hc hother
  rw [get?, get?, ← List.head?_filter, ← List.head?_filter, hfilter]

/-- The other keys are referred to as before. -/
theorem references_without {sequence : Nat} {c : Command} {key : KeyRef}
    (hc : q.get? sequence = some c) (hkey : c.key ≠ key) :
    (q.without sequence).references key = q.references key := by
  have hfilter (q : Outbox) : q.references key =
      (q.commands.filter (·.key = key)).any (·.key = key) := by
    simp [references, List.any_filter]
  rw [hfilter, hfilter, filter_without hc (decide_eq_false hkey)]

/-! ### Polls leave the commands as they were queued -/

theorem asQueued_age (c : Command) : (age c).asQueued = c.asQueued := by
  rw [age]
  split_ifs <;> rfl

theorem map_asQueued_deliver (count : Nat) (commands : List Command) :
    (deliver count commands).map Command.asQueued = commands.map Command.asQueued := by
  fun_induction deliver count commands with
  | case1 => rfl
  | case2 => rfl
  | case3 count c rest _ ih => simpa [Command.asQueued] using ih
  | case4 count c rest _ ih => simpa using ih

theorem map_asQueued_drawn (q : Outbox) (count : Nat) (limit : Option Nat) :
    (q.drawn count limit).commands.map Command.asQueued =
      (q.commands.filter fun c => !expires limit c).map Command.asQueued := by
  rw [drawn, map_asQueued_deliver, kept, List.map_map]
  exact List.map_congr_left fun c _ => asQueued_age c

/-- A command after a poll is one from before that did not expire. -/
theorem exists_of_mem_drawn {count : Nat} {limit : Option Nat} {c : Command}
    (h : c ∈ (q.drawn count limit).commands) :
    ∃ d ∈ q.commands, expires limit d = false ∧ d.asQueued = c.asQueued := by
  have hc := List.mem_map_of_mem (f := Command.asQueued) h
  rw [map_asQueued_drawn] at hc
  obtain ⟨d, hd, heq⟩ := List.mem_map.mp hc
  obtain ⟨hd, hkept⟩ := List.mem_filter.mp hd
  exact ⟨d, hd, by simpa using hkept, heq⟩

/-- A command that does not expire is there after a poll. -/
theorem exists_mem_drawn (count : Nat) {limit : Option Nat} {d : Command} (hd : d ∈ q.commands)
    (hkept : expires limit d = false) :
    ∃ c ∈ (q.drawn count limit).commands, c.asQueued = d.asQueued := by
  have hc : d.asQueued ∈ (q.drawn count limit).commands.map Command.asQueued := by
    rw [map_asQueued_drawn]
    exact List.mem_map_of_mem (List.mem_filter.mpr ⟨hd, by simp [hkept]⟩)
  exact List.mem_map.mp hc

/-! ### How an outbox goes on -/

/-- An outbox goes on from an earlier one: its bound is the same, numbers do not go back, and a
command was there before or has a number that was not used before. -/
structure Follows (q q' : Outbox) : Prop where
  capacity_eq : q'.capacity = q.capacity
  nextSequence_le : q.nextSequence ≤ q'.nextSequence
  origin : ∀ c ∈ q'.commands,
    (∃ d ∈ q.commands, d.asQueued = c.asQueued) ∨ q.nextSequence ≤ c.sequence

namespace Follows

theorem refl (q : Outbox) : q.Follows q := ⟨rfl, Nat.le_refl _, fun c hc => .inl ⟨c, hc, rfl⟩⟩

theorem trans {q'' : Outbox} (h : q.Follows q') (h' : q'.Follows q'') : q.Follows q'' where
  capacity_eq := h'.capacity_eq.trans h.capacity_eq
  nextSequence_le := Nat.le_trans h.nextSequence_le h'.nextSequence_le
  origin c hc := by
    rcases h'.origin c hc with ⟨d, hd, hdc⟩ | hnew
    · rcases h.origin d hd with ⟨d', hd', hd'd⟩ | hnew
      · exact .inl ⟨d', hd', hd'd.trans hdc⟩
      · exact .inr ((Command.fields_of_asQueued hdc).1 ▸ hnew)
    · exact .inr (Nat.le_trans h.nextSequence_le hnew)

theorem push (q : Outbox) (kind : CommandKind) (key : KeyRef) (payload : Bytes) :
    q.Follows (q.push kind key payload) where
  capacity_eq := rfl
  nextSequence_le := Nat.le_succ _
  origin c hc := by
    rcases List.mem_append.mp hc with hc | hc
    · exact .inl ⟨c, hc, rfl⟩
    · rw [List.mem_singleton.mp hc]
      exact .inr (Nat.le_refl _)

theorem without (q : Outbox) (sequence : Nat) : q.Follows (q.without sequence) where
  capacity_eq := rfl
  nextSequence_le := Nat.le_refl _
  origin c hc := .inl ⟨c, List.mem_of_mem_eraseP hc, rfl⟩

theorem drawn (q : Outbox) (count : Nat) (limit : Option Nat) :
    q.Follows (q.drawn count limit) where
  capacity_eq := rfl
  nextSequence_le := Nat.le_refl _
  origin c hc := by
    obtain ⟨d, hd, -, hdc⟩ := exists_of_mem_drawn hc
    exact .inl ⟨d, hd, hdc⟩

end Follows

/-! ### The representation invariant -/

/-- The representation invariant of an outbox. -/
structure WellFormed (q : Outbox) : Prop where
  rising : q.commands.Pairwise fun c d => c.sequence < d.sequence
  shipped_first : q.commands.Pairwise fun c d => c.status = .queued → d.status = .queued
  command : ∀ c ∈ q.commands, c.WellFormed
  sequence_pos : ∀ c ∈ q.commands, 0 < c.sequence
  sequence_lt : ∀ c ∈ q.commands, c.sequence < q.nextSequence
  nextSequence_pos : 0 < q.nextSequence

/-- In a list with rising numbers, a number is taken out by filtering. -/
private theorem eraseP_eq_filter {commands : List Command} (sequence : Nat)
    (h : commands.Pairwise fun c d => c.sequence < d.sequence) :
    commands.eraseP (·.sequence = sequence) = commands.filter (·.sequence ≠ sequence) := by
  induction commands with
  | nil => rfl
  | cons c rest ih =>
    obtain ⟨hc, hrest⟩ := List.pairwise_cons.mp h
    by_cases hseq : c.sequence = sequence
    · -- the numbers after this one are larger, so nothing else is filtered out
      have hall : ∀ d ∈ rest, decide (d.sequence ≠ sequence) = true := fun d hd => by
        have := hc d hd
        rw [decide_eq_true_iff]
        omega
      rw [List.eraseP_cons_of_pos (by simpa using hseq), List.filter_cons_of_neg (by simpa),
        List.filter_eq_self.mpr hall]
    · simp [hseq, ih hrest]

/-- A command that is handed out was queued; all others stay as they are. -/
theorem mem_deliver {count : Nat} {commands : List Command} {c : Command}
    (h : c ∈ deliver count commands) :
    c ∈ commands ∨ ∃ d ∈ commands, d.status = .queued ∧ c = { d with status := .delivered } := by
  fun_induction deliver count commands with
  | case1 => exact .inl h
  | case2 => exact .inl h
  | case3 count d rest hd ih =>
    rcases List.mem_cons.mp h with rfl | h
    · exact .inr ⟨d, by simp, hd, rfl⟩
    · rcases ih h with h | ⟨e, he, hstatus, rfl⟩
      · exact .inl (by simp [h])
      · exact .inr ⟨e, by simp [he], hstatus, rfl⟩
  | case4 count d rest hd ih =>
    rcases List.mem_cons.mp h with rfl | h
    · exact .inl (by simp)
    · rcases ih h with h | ⟨e, he, hstatus, rfl⟩
      · exact .inl (by simp [h])
      · exact .inr ⟨e, by simp [he], hstatus, rfl⟩

/-- Handing out the first queued commands leaves those handed out before the queued ones. -/
private theorem shipped_first_deliver (count : Nat) {commands : List Command}
    (h : commands.Pairwise fun c d => c.status = .queued → d.status = .queued) :
    (deliver count commands).Pairwise fun c d => c.status = .queued → d.status = .queued := by
  fun_induction deliver count commands with
  | case1 => exact h
  | case2 => exact h
  | case3 count c rest hc ih =>
    exact List.pairwise_cons.mpr ⟨by simp, ih h.of_cons⟩
  | case4 count c rest hc ih =>
    exact List.pairwise_cons.mpr ⟨fun _ _ hq => absurd hq hc, ih h.of_cons⟩

theorem status_age (c : Command) :
    (age c).status = .queued ↔ c.status = .queued := by
  rw [age]
  cases hc : c.status <;> simp [CommandStatus.isShipped, hc]

private theorem wellFormed_age {c : Command} (h : c.WellFormed) : (age c).WellFormed := by
  rw [age]
  split_ifs with hshipped
  · exact ⟨h.isValidId, h.length_payload, .inr rfl, fun hne => absurd rfl hne, countPoll_le _⟩
  · exact h

namespace WellFormed

/-- The command of a number is the only one with this number. -/
theorem get?_eq_some_iff (h : q.WellFormed) {sequence : Nat} {c : Command} :
    q.get? sequence = some c ↔ c ∈ q.commands ∧ c.sequence = sequence := by
  refine ⟨of_get?_eq_some, fun ⟨hc, hseq⟩ => ?_⟩
  -- the numbers before the command are smaller, so the search does not end before it
  obtain ⟨front, back, hsplit⟩ := List.append_of_mem hc
  have hrising := h.rising
  rw [hsplit, List.pairwise_append] at hrising
  refine List.find?_eq_some_iff_append.mpr ⟨by simpa using hseq, front, back, hsplit, ?_⟩
  intro d hd
  have := hrising.2.2 d hd c (List.mem_cons_self ..)
  rw [Bool.not_eq_true', decide_eq_false_iff_not]
  omega

theorem eq_of_sequence_eq (h : q.WellFormed) {c d : Command} (hc : c ∈ q.commands)
    (hd : d ∈ q.commands) (heq : c.sequence = d.sequence) : c = d := by
  have hc := h.get?_eq_some_iff.mpr ⟨hc, heq⟩
  rw [h.get?_eq_some_iff.mpr ⟨hd, rfl⟩] at hc
  exact (Option.some.inj hc).symm

/-- A command that expires leaves its number to no other. -/
theorem sequence_ne_of_expires (h : q.WellFormed) {count : Nat} {limit : Option Nat}
    {c d : Command} (hc : c ∈ q.commands) (hexpires : expires limit c = true)
    (hd : d ∈ (q.drawn count limit).commands) : d.sequence ≠ c.sequence := by
  intro hseq
  obtain ⟨e, he, hkept, hed⟩ := exists_of_mem_drawn hd
  obtain rfl := h.eq_of_sequence_eq he hc ((Command.fields_of_asQueued hed).1.trans hseq)
  rw [hexpires] at hkept
  cases hkept

theorem commands_without (h : q.WellFormed) (sequence : Nat) :
    (q.without sequence).commands = q.commands.filter (·.sequence ≠ sequence) :=
  eraseP_eq_filter sequence h.rising

theorem mem_without (h : q.WellFormed) {sequence : Nat} {c : Command} :
    c ∈ (q.without sequence).commands ↔ c ∈ q.commands ∧ c.sequence ≠ sequence := by
  rw [h.commands_without]
  simp

theorem push (h : q.WellFormed) {kind : CommandKind} {key : KeyRef} {payload : Bytes}
    (hid : KeyRef.isValidId key.id = true) (hpayload : payload.length ≤ Anchor.maxKeySize) :
    (q.push kind key payload).WellFormed where
  rising := by
    refine List.pairwise_append.mpr ⟨h.rising, List.pairwise_singleton _ _, fun c hc d hd => ?_⟩
    rw [List.mem_singleton.mp hd]
    exact h.sequence_lt c hc
  shipped_first := by
    refine List.pairwise_append.mpr
      ⟨h.shipped_first, List.pairwise_singleton _ _, fun c _ d hd _ => ?_⟩
    rw [List.mem_singleton.mp hd]
  command := by
    intro c hc
    rcases List.mem_append.mp hc with hc | hc
    · exact h.command c hc
    · rw [List.mem_singleton.mp hc]
      exact ⟨hid, hpayload, .inl rfl, fun _ => rfl, Nat.zero_le _⟩
  sequence_pos := by
    intro c hc
    rcases List.mem_append.mp hc with hc | hc
    · exact h.sequence_pos c hc
    · rw [List.mem_singleton.mp hc]
      exact h.nextSequence_pos
  sequence_lt := by
    intro c hc
    rcases List.mem_append.mp hc with hc | hc
    · exact Nat.lt_succ_of_lt (h.sequence_lt c hc)
    · rw [List.mem_singleton.mp hc]
      exact Nat.lt_succ_self _
  nextSequence_pos := Nat.succ_pos _

theorem without (h : q.WellFormed) (sequence : Nat) : (q.without sequence).WellFormed := by
  have hmem : ∀ c ∈ (q.without sequence).commands, c ∈ q.commands := fun c hc =>
    (h.mem_without.mp hc).1
  exact
    { rising := h.rising.sublist List.eraseP_sublist
      shipped_first := h.shipped_first.sublist List.eraseP_sublist
      command := fun c hc => h.command c (hmem c hc)
      sequence_pos := fun c hc => h.sequence_pos c (hmem c hc)
      sequence_lt := fun c hc => h.sequence_lt c (hmem c hc)
      nextSequence_pos := h.nextSequence_pos }

theorem drawn (h : q.WellFormed) (count : Nat) (limit : Option Nat) :
    (q.drawn count limit).WellFormed where
  rising := by
    -- a poll leaves the numbers as they were queued, so it is enough to look at those that stay
    have hrising : ((q.commands.filter fun c => !expires limit c).map
        Command.asQueued).Pairwise fun c d => c.sequence < d.sequence :=
      List.pairwise_map.mpr (h.rising.filter _)
    rw [← map_asQueued_drawn q count limit, List.pairwise_map] at hrising
    exact hrising
  shipped_first := by
    refine shipped_first_deliver count (List.pairwise_map.mpr ?_)
    refine (h.shipped_first.filter _).imp fun hcd hc => ?_
    rw [status_age] at hc ⊢
    exact hcd hc
  command := by
    have hkept : ∀ c ∈ q.kept limit, c.WellFormed := fun c hc => by
      obtain ⟨d, hd, rfl⟩ := List.mem_map.mp hc
      exact wellFormed_age (h.command d (List.mem_filter.mp hd).1)
    intro c hc
    rcases mem_deliver hc with hc | ⟨d, hd, hqueued, rfl⟩
    · exact hkept c hc
    · obtain ⟨hid, hlength, -, hzero, hle⟩ := hkept d hd
      exact ⟨hid, hlength, .inr rfl, fun _ => hzero (by simp [hqueued]), hle⟩
  sequence_pos c hc := by
    obtain ⟨d, hd, -, heq⟩ := exists_of_mem_drawn hc
    rw [← (Command.fields_of_asQueued heq).1]
    exact h.sequence_pos d hd
  sequence_lt c hc := by
    obtain ⟨d, hd, -, heq⟩ := exists_of_mem_drawn hc
    rw [← (Command.fields_of_asQueued heq).1]
    exact h.sequence_lt d hd
  nextSequence_pos := h.nextSequence_pos

theorem withCapacity (h : q.WellFormed) (capacity : Nat) : (q.withCapacity capacity).WellFormed :=
  { h with }

/-- The empty outbox that goes on with given numbers. -/
theorem resumeFrom_empty (capacity n : Nat) : ((empty capacity).resumeFrom n).WellFormed where
  rising := List.Pairwise.nil
  shipped_first := List.Pairwise.nil
  command := by simp [resumeFrom, empty]
  sequence_pos := by simp [resumeFrom, empty]
  sequence_lt := by simp [resumeFrom, empty]
  nextSequence_pos := Nat.lt_of_lt_of_le Nat.one_pos (Nat.le_max_left _ _)

end WellFormed

end Outbox

end KeyCustody
