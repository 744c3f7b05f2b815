import KeyCustody.Proofs.Outbox

/-!
# What passes through the outbox

In one step of the custodian commands are queued at the end of the outbox, handed out, or finalized
by a reply or because they waited too long. `Outbox.Change` lists the steps, each with the orders
that it queues commands for, the commands that it hands out (as they were queued) and the numbers
that it finalizes.

The laws of a step are read off this list:

* the commands that are new stand at the end, and there is one for each order, with the next numbers
  (`Outbox.Change.drop_commands`, `Outbox.Change.nextSequence_eq`);
* commands that wait to be handed out are handed out first in, first out, and none is lost
  (`Outbox.Change.waiting_eq`);
* only a command that was handed out is finalized, and then it is gone
  (`Outbox.Change.finalized_shipped`, `Outbox.Change.origin`);
* a command counts as handed out only if it was handed out before or in the step
  (`Outbox.Change.shipped`).
-/

namespace KeyCustody

/-- What a command asks for, apart from its number and from how far it has come. -/
structure Order where
  kind : CommandKind
  key : KeyRef
  payload : Bytes
  deriving DecidableEq

/-- What a command asks for. -/
def Command.order (c : Command) : Order := ⟨c.kind, c.key, c.payload⟩

namespace Order

/-- The commands for orders, as they are queued, with numbers from `first` on. -/
def numbered (first : Nat) : List Order → List Command
  | [] => []
  | order :: rest =>
    ⟨first, order.kind, order.key, order.payload, .queued, 0⟩ :: numbered (first + 1) rest

variable {first : Nat} {orders more : List Order} {c : Command}

theorem numbered_append (first : Nat) (orders more : List Order) :
    numbered first (orders ++ more) =
      numbered first orders ++ numbered (first + orders.length) more := by
  induction orders generalizing first with
  | nil => rfl
  | cons order rest ih =>
    rw [List.cons_append, numbered, numbered, ih, List.length_cons, List.cons_append,
      Nat.add_right_comm, Nat.add_assoc]

@[simp]
theorem map_order_numbered (first : Nat) (orders : List Order) :
    (numbered first orders).map Command.order = orders := by
  induction orders generalizing first with
  | nil => rfl
  | cons order rest ih => rw [numbered, List.map_cons, ih, Command.order]

@[simp]
theorem length_numbered (first : Nat) (orders : List Order) :
    (numbered first orders).length = orders.length := by
  rw [← List.length_map Command.order, map_order_numbered]

@[simp]
theorem map_sequence_numbered (first : Nat) (orders : List Order) :
    (numbered first orders).map (·.sequence) = List.range' first orders.length := by
  induction orders generalizing first with
  | nil => rfl
  | cons order rest ih => rw [numbered, List.map_cons, ih, List.length_cons, List.range'_succ]

/-- Each new command has a new number. -/
theorem le_sequence_of_mem_numbered (h : c ∈ numbered first orders) : first ≤ c.sequence := by
  have hmem := List.mem_map_of_mem (f := (·.sequence)) h
  rw [map_sequence_numbered, List.mem_range'_1] at hmem
  exact hmem.1

/-- New commands are as they are queued. -/
theorem asQueued_of_mem_numbered (h : c ∈ numbered first orders) : c.asQueued = c := by
  induction orders generalizing first with
  | nil => cases h
  | cons order rest ih =>
    rcases List.mem_cons.mp h with rfl | h
    · rfl
    · exact ih h

theorem status_of_mem_numbered (h : c ∈ numbered first orders) : c.status = .queued :=
  (congrArg Command.status (asQueued_of_mem_numbered h)).symm

theorem polls_of_mem_numbered (h : c ∈ numbered first orders) : c.polls = 0 :=
  (congrArg Command.polls (asQueued_of_mem_numbered h)).symm

@[simp]
theorem map_asQueued_numbered (first : Nat) (orders : List Order) :
    (numbered first orders).map Command.asQueued = numbered first orders :=
  (List.map_congr_left fun _ hc => asQueued_of_mem_numbered hc).trans (List.map_id _)

end Order

namespace Outbox

/-! ### Commands for several orders -/

/-- The outbox with commands for more orders at its end. -/
def extend (q : Outbox) (orders : List Order) : Outbox :=
  { q with
    commands := q.commands ++ Order.numbered q.nextSequence orders
    nextSequence := q.nextSequence + orders.length }

@[simp]
theorem extend_nil (q : Outbox) : q.extend [] = q := by
  simp [extend, Order.numbered]

theorem extend_extend (q : Outbox) (orders more : List Order) :
    (q.extend orders).extend more = q.extend (orders ++ more) := by
  simp [extend, Order.numbered_append, Nat.add_assoc]

/-! ### Commands that wait to be handed out -/

/-- The commands that no poll has handed out, oldest first. -/
def waiting (q : Outbox) : List Command := q.commands.filter (·.status = .queued)

variable {q q' : Outbox} {orders : List Order} {handed : List Command} {finalized : List Nat}
  {limit : Option Nat} {count : Nat} {c d : Command}

theorem mem_waiting : c ∈ q.waiting ↔ c ∈ q.commands ∧ c.status = .queued := by
  simp [waiting]

theorem waiting_extend (q : Outbox) (orders : List Order) :
    (q.extend orders).waiting = q.waiting ++ Order.numbered q.nextSequence orders := by
  rw [waiting, extend, List.filter_append, waiting]
  congr 1
  exact List.filter_eq_self.mpr fun c hc => by simp [Order.status_of_mem_numbered hc]

/-- A command that waits is as it was queued. -/
theorem WellFormed.asQueued_of_mem_waiting (h : q.WellFormed) (hc : c ∈ q.waiting) :
    c.asQueued = c := by
  obtain ⟨hc, hstatus⟩ := mem_waiting.mp hc
  have hpolls := (h.command c hc).polls_eq_zero (by rw [hstatus]; nofun)
  rw [Command.asQueued, ← hstatus, ← hpolls]

/-- Finalizing a command that was handed out changes nothing for those that wait. -/
theorem WellFormed.waiting_without (h : q.WellFormed) {sequence : Nat}
    (hd : q.get? sequence = some d) (hshipped : d.status.isShipped = true) :
    (q.without sequence).waiting = q.waiting := by
  rw [waiting, waiting, h.commands_without, List.filter_filter]
  refine List.filter_congr fun c hc => ?_
  by_cases hseq : c.sequence = sequence
  · obtain rfl := Option.some.inj ((h.get?_eq_some_iff.mpr ⟨hc, hseq⟩).symm.trans hd)
    have hstatus : c.status ≠ .queued := fun heq => by
      rw [heq] at hshipped
      cases hshipped
    simp [hstatus]
  · simp [hseq]

theorem isShipped_of_expires (h : expires limit c = true) : c.status.isShipped = true := by
  cases limit with
  | none => cases h
  | some limit => exact (Bool.and_eq_true_iff.mp h).1

theorem expires_of_queued (limit : Option Nat) (h : c.status = .queued) :
    expires limit c = false := by
  by_contra hexpires
  have hshipped := isShipped_of_expires (Bool.not_eq_false _ ▸ hexpires)
  rw [h] at hshipped
  cases hshipped

/-- A poll does not touch those that wait before it hands them out. -/
theorem filter_kept (q : Outbox) (limit : Option Nat) :
    (q.kept limit).filter (·.status = .queued) = q.waiting := by
  have hsame : ∀ c ∈ q.waiting, age c = c := fun c hc => by
    simp [age, (mem_waiting.mp hc).2, CommandStatus.isShipped]
  calc (q.kept limit).filter (·.status = .queued)
      = ((q.commands.filter fun c => !expires limit c).filter
          fun c => (age c).status = .queued).map age := List.filter_map
    _ = q.waiting.map age := by
      rw [List.filter_filter, waiting]
      refine congrArg (List.map age) (List.filter_congr fun c _ => ?_)
      by_cases hstatus : c.status = .queued <;>
        simp [status_age, hstatus, expires_of_queued]
    _ = q.waiting := (List.map_congr_left hsame).trans (List.map_id _)

/-- Handing out commands takes the first ones from those that wait. -/
theorem filter_deliver (count : Nat) (commands : List Command) :
    (deliver count commands).filter (·.status = .queued) =
      (commands.filter (·.status = .queued)).drop count := by
  fun_induction deliver count commands with
  | case1 => rfl
  | case2 => rfl
  | case3 count c rest hc ih => simpa [hc] using ih
  | case4 count c rest hc ih => simpa [hc] using ih

theorem waiting_drawn (q : Outbox) (count : Nat) (limit : Option Nat) :
    (q.drawn count limit).waiting = q.waiting.drop count := by
  rw [waiting, drawn, filter_deliver, filter_kept]

theorem length_drawn (q : Outbox) (count : Nat) (limit : Option Nat) :
    (q.drawn count limit).commands.length =
      q.depth - (q.commands.filter (expires limit)).length := by
  have hlength := congrArg List.length (map_asQueued_drawn q count limit)
  have hparts := List.length_eq_countP_add_countP (expires limit) (l := q.commands)
  simp only [List.length_map, List.countP_eq_length_filter, Bool.not_eq_true,
    Bool.decide_eq_false] at hlength hparts
  rw [depth]
  omega

theorem sequences_expired {draw : Draw} (h : q.draw count limit = .ok (draw, q')) :
    draw.expired.map (·.sequence) =
      (q.commands.filter (expires limit)).map (·.sequence) := by
  obtain ⟨-, -, -, -, -, hexpired⟩ := draw_eq_ok h
  rw [hexpired, List.map_map]
  exact List.map_congr_left fun c _ => (Command.fields_of_asQueued (asQueued_age c)).1

/-- A poll hands out the first of those that wait. -/
theorem handed_of_draw {draw : Draw} (hq : q.WellFormed)
    (h : q.draw count limit = .ok (draw, q')) :
    draw.commands.map Command.asQueued = q.waiting.take count := by
  obtain ⟨-, -, -, hcommands, -⟩ := draw_eq_ok h
  rw [hcommands, filter_kept, List.map_map]
  refine (List.map_congr_left fun c hc => ?_).trans (List.map_id _)
  exact hq.asQueued_of_mem_waiting (List.mem_of_mem_take hc)

/-! ### The steps -/

/-- What one step can do to an outbox, with the orders that it queues commands for, the commands
that it hands out, as they were queued, and the numbers that it finalizes. -/
inductive Change (q : Outbox) : List Order → List Command → List Nat → Outbox → Prop
  | extended (orders : List Order) : Change q orders [] [] (q.extend orders)
  | drawn {count : Nat} {limit : Option Nat} {draw : Draw} {q' : Outbox}
      (h : q.draw count limit = .ok (draw, q')) :
    Change q [] (draw.commands.map Command.asQueued) (draw.expired.map (·.sequence)) q'
  | answered {sequence : Nat} {c : Command} (hc : q.get? sequence = some c)
      (hshipped : c.status.isShipped = true) (orders : List Order) :
    Change q orders [] [sequence] ((q.without sequence).extend orders)
  | resized (capacity : Nat) : Change q [] [] [] (q.withCapacity capacity)

namespace Change

theorem refl (q : Outbox) : q.Change [] [] [] q := by
  have h : q.Change [] [] [] (q.extend []) := .extended []
  rwa [extend_nil] at h

/-- The numbers go on by one for each order. -/
theorem nextSequence_eq (h : q.Change orders handed finalized q') :
    q'.nextSequence = q.nextSequence + orders.length := by
  cases h with
  | extended | answered | resized => rfl
  | drawn h =>
    obtain ⟨-, -, rfl, -⟩ := draw_eq_ok h
    rfl

/-- What stands behind the commands that were there before and were not finalized was queued in the
step, one command for each order. -/
theorem drop_commands (h : q.Change orders handed finalized q') :
    q'.commands.drop (q.depth - finalized.length) = Order.numbered q.nextSequence orders := by
  cases h with
  | extended => simp [extend, depth]
  | drawn h =>
    rw [sequences_expired h, List.length_map]
    obtain ⟨-, -, rfl, -⟩ := draw_eq_ok h
    exact List.drop_eq_nil_of_le (Nat.le_of_eq (length_drawn ..))
  | @answered sequence c hc =>
    have hlength : (q.without sequence).commands.length = q.depth - 1 :=
      Nat.eq_sub_of_add_eq (depth_without hc)
    exact List.drop_left' hlength
  | resized => simp [withCapacity, depth, Order.numbered]

/-- **First in, first out**: what waits before a step and what it queues is what it hands out and
what waits after it, in this order. -/
theorem waiting_eq (h : q.Change orders handed finalized q') (hq : q.WellFormed) :
    q.waiting ++ Order.numbered q.nextSequence orders = handed ++ q'.waiting := by
  cases h with
  | extended => rw [waiting_extend, List.nil_append]
  | @drawn count limit _ _ h =>
    rw [handed_of_draw hq h]
    obtain ⟨-, -, rfl, -⟩ := draw_eq_ok h
    rw [waiting_drawn, List.take_append_drop, Order.numbered, List.append_nil]
  | answered hc hshipped =>
    rw [waiting_extend, hq.waiting_without hc hshipped, List.nil_append]
    rfl
  | resized => simp [withCapacity, waiting, Order.numbered]

/-- What a step finalizes was handed out before, and is finalized once. -/
theorem finalized_shipped (h : q.Change orders handed finalized q') (hq : q.WellFormed) :
    finalized.Nodup ∧
      ∀ n ∈ finalized, ∃ c ∈ q.commands, c.sequence = n ∧ c.status.isShipped = true := by
  cases h with
  | extended | resized => exact ⟨List.nodup_nil, nofun⟩
  | drawn h =>
    rw [sequences_expired h]
    refine ⟨List.pairwise_map.mpr ((hq.rising.filter _).imp Nat.ne_of_lt), fun n hn => ?_⟩
    obtain ⟨c, hc, rfl⟩ := List.mem_map.mp hn
    obtain ⟨hc, hexpires⟩ := List.mem_filter.mp hc
    exact ⟨c, hc, rfl, isShipped_of_expires hexpires⟩
  | answered hc hshipped =>
    obtain ⟨hmem, hseq⟩ := hq.get?_eq_some_iff.mp hc
    refine ⟨List.pairwise_singleton _ _, fun n hn => ?_⟩
    rw [List.mem_singleton.mp hn]
    exact ⟨_, hmem, hseq, hshipped⟩

/-- **What stays and what is new**: after a step the commands are those from before that it does
not finalize, and behind them those that it queues. -/
theorem map_asQueued (h : q.Change orders handed finalized q') (hq : q.WellFormed) :
    q'.commands.map Command.asQueued =
      (q.commands.filter (·.sequence ∉ finalized)).map Command.asQueued ++
        Order.numbered q.nextSequence orders := by
  have hall : q.commands.filter (·.sequence ∉ []) = q.commands :=
    List.filter_eq_self.mpr fun _ _ => by simp
  cases h with
  | extended => rw [hall, extend, List.map_append, Order.map_asQueued_numbered]
  | @drawn count limit _ _ h =>
    rw [sequences_expired h]
    obtain ⟨-, -, rfl, -⟩ := draw_eq_ok h
    rw [map_asQueued_drawn, Order.numbered, List.append_nil]
    refine congrArg _ (List.filter_congr fun c hc => ?_)
    -- numbers are not used twice, so a command shares its number with no other that expires
    have hmem : c.sequence ∈ (q.commands.filter (expires limit)).map (·.sequence) ↔
        expires limit c = true := by
      constructor
      · intro hmem
        obtain ⟨d, hd, heq⟩ := List.mem_map.mp hmem
        obtain ⟨hd, hexpires⟩ := List.mem_filter.mp hd
        rwa [hq.eq_of_sequence_eq hc hd heq.symm]
      · intro hexpires
        exact List.mem_map_of_mem (List.mem_filter.mpr ⟨hc, hexpires⟩)
    simp [hmem]
  | answered =>
    rw [extend, List.map_append, hq.commands_without, Order.map_asQueued_numbered]
    simp [without]
  | resized => rw [hall, withCapacity, Order.numbered, List.append_nil]

/-- A command that is there after a step was there before and is not finalized, or is new. -/
theorem origin (h : q.Change orders handed finalized q') (hq : q.WellFormed)
    (hc : c ∈ q'.commands) :
    (∃ d ∈ q.commands, d.sequence ∉ finalized ∧ d.asQueued = c.asQueued) ∨
      c.asQueued ∈ Order.numbered q.nextSequence orders := by
  have hmem := List.mem_map_of_mem (f := Command.asQueued) hc
  rw [h.map_asQueued hq] at hmem
  refine (List.mem_append.mp hmem).imp_left fun hold => ?_
  obtain ⟨d, hd, heq⟩ := List.mem_map.mp hold
  obtain ⟨hd, hkept⟩ := List.mem_filter.mp hd
  exact ⟨d, hd, of_decide_eq_true hkept, heq⟩

/-- A command that counts as handed out after a step did so before, or is handed out in the step. -/
theorem shipped (h : q.Change orders handed finalized q') (hq : q.WellFormed)
    (hq' : q'.WellFormed) (hc : c ∈ q'.commands) (hshipped : c.status.isShipped = true) :
    (∃ d ∈ q.commands, d.sequence = c.sequence ∧ d.status.isShipped = true) ∨
      c.sequence ∈ handed.map (·.sequence) := by
  -- one that waited or was queued in the step does not wait any more, so it was handed out
  have hleft : ∀ d ∈ q.waiting ++ Order.numbered q.nextSequence orders,
      d.sequence = c.sequence → c.sequence ∈ handed.map (·.sequence) := fun d hd heq => by
    rw [h.waiting_eq hq] at hd
    rcases List.mem_append.mp hd with hd | hd
    · exact heq ▸ List.mem_map_of_mem hd
    · obtain ⟨hd, hstatus⟩ := mem_waiting.mp hd
      rw [← hq'.eq_of_sequence_eq hd hc heq, hstatus] at hshipped
      cases hshipped
  rcases h.origin hq hc with ⟨d, hd, -, heq⟩ | hnew
  · have hsequence := (Command.fields_of_asQueued heq).1
    rcases (hq.command d hd).status with hstatus | hstatus
    · exact .inr (hleft d (List.mem_append_left _ (mem_waiting.mpr ⟨hd, hstatus⟩)) hsequence)
    · exact .inl ⟨d, hd, hsequence, hstatus⟩
  · exact .inr (hleft _ (List.mem_append_right _ hnew) rfl)

end Change

end Outbox

end KeyCustody
