import KeyCustody.Proofs.Relay.Marshalling

/-!
# How much work is left

A reply takes its command out of the outbox, but where it says that the key of a search was not
found, a generation takes the place of the search. So a search may take two replies and every other
command takes one, and `Outbox.work` counts the replies that the outbox takes at most. A poll leaves
it as it is, and every accepted reply makes it smaller (`Custody.Workable.answer`).

In a workable state the outbox is within its bound, so a generation has room in the place of a
search. Every command that was handed out can then be answered, and the state after the answer is
workable again. The generations that may follow use at most one number for each search that there
is, which is why the searches are counted with the numbers that were given out.
-/

namespace KeyCustody

namespace Outbox

/-- The number of searches in the outbox. -/
def searches (q : Outbox) : Nat := q.commands.countP (·.kind = .search)

/-- The largest number of replies that it takes until nothing is left. -/
def work (q : Outbox) : Nat := q.depth + q.searches

/-- The requests that carry the commands handed out, in order. -/
def shipped (q : Outbox) : List Request :=
  (q.commands.filter (·.status.isShipped)).map Request.ofCommand

variable {q : Outbox} {sequence count : Nat} {limit : Option Nat} {c : Command}

theorem searches_le (q : Outbox) : q.searches ≤ q.depth := List.countP_le_length

theorem work_le (q : Outbox) : q.work ≤ 2 * q.depth := by
  have hsearches := q.searches_le
  rw [work]
  omega

/-- Everything is queued exactly if nothing is handed out. -/
theorem WellFormed.shipped_eq_nil_iff (h : q.WellFormed) :
    q.shipped = [] ↔ ∀ c ∈ q.commands, c.status = .queued := by
  rw [shipped, List.map_eq_nil_iff, List.filter_eq_nil_iff]
  refine forall₂_congr fun c hc => ⟨fun hshipped => ?_, fun hqueued => ?_⟩
  · exact (h.command c hc).status.resolve_right hshipped
  · rw [hqueued]
    nofun

/-! ### Replies -/

private theorem countP_eraseP_add {p f : Command → Bool} {commands : List Command}
    (h : commands.find? p = some c) :
    (commands.eraseP p).countP f + (if f c then 1 else 0) = commands.countP f := by
  induction commands with
  | nil => cases h
  | cons d rest ih =>
    by_cases hd : p d = true
    · rw [List.find?_cons_of_pos hd] at h
      obtain rfl := Option.some.inj h
      rw [List.eraseP_cons_of_pos hd, List.countP_cons]
    · rw [List.find?_cons_of_neg hd] at h
      rw [List.eraseP_cons_of_neg hd, List.countP_cons, List.countP_cons, ← ih h]
      omega

theorem searches_without (hc : q.get? sequence = some c) :
    (q.without sequence).searches + (if c.kind = .search then 1 else 0) = q.searches := by
  have hcount : (q.without sequence).searches + (if decide (c.kind = .search) then 1 else 0) =
      q.searches := countP_eraseP_add hc
  simpa using hcount

/-- The first of the commands handed out can be answered, and without it the others are left. -/
theorem WellFormed.shipped_without (h : q.WellFormed) {request : Request} {rest : List Request}
    (hshipped : q.shipped = request :: rest) :
    ∃ c, q.get? request.sequence = some c ∧ c.status.isShipped = true ∧
      Request.ofCommand c = request ∧ (q.without request.sequence).shipped = rest := by
  obtain ⟨c, commands, hfilter, rfl, rfl⟩ := List.map_eq_cons_iff.mp hshipped
  have hmem : c ∈ q.commands.filter (·.status.isShipped) := hfilter ▸ List.mem_cons_self ..
  obtain ⟨hc, hstatus⟩ := List.mem_filter.mp hmem
  refine ⟨c, h.get?_eq_some_iff.mpr ⟨hc, rfl⟩, hstatus, rfl, ?_⟩
  -- the numbers of the others are larger, so taking this one out leaves them
  have hrising := h.rising.filter (·.status.isShipped)
  rw [hfilter] at hrising
  have hothers : ∀ d ∈ commands, decide (d.sequence ≠ c.sequence) = true := fun d hd => by
    have hlt := (List.pairwise_cons.mp hrising).1 d hd
    rw [decide_eq_true_iff]
    omega
  have hsequence : (Request.ofCommand c).sequence = c.sequence := rfl
  rw [shipped, hsequence, h.commands_without, List.filter_filter]
  simp only [Bool.and_comm]
  rw [← List.filter_filter, hfilter, List.filter_cons_of_neg (by simp),
    List.filter_eq_self.mpr hothers]

/-! ### Polls where everything is queued -/

private theorem deliver_of_queued (count : Nat) {commands : List Command}
    (h : ∀ c ∈ commands, c.status = .queued) :
    deliver count commands =
      (commands.take count).map (fun c => { c with status := .delivered }) ++
        commands.drop count := by
  fun_induction deliver count commands with
  | case1 => rfl
  | case2 => rfl
  | case3 count c rest hc ih => simp [ih fun d hd => h d (List.mem_cons_of_mem _ hd)]
  | case4 count c rest hc ih => exact absurd (h c (List.mem_cons_self ..)) hc

/-- A poll marks the first commands as delivered if everything is queued. -/
theorem commands_drawn (hqueued : ∀ c ∈ q.commands, c.status = .queued) (count : Nat)
    (limit : Option Nat) :
    (q.drawn count limit).commands =
      (q.commands.take count).map (fun c => { c with status := .delivered }) ++
        q.commands.drop count := by
  have hkept : q.kept limit = q.commands := by
    have hall : q.commands.filter (fun c => !expires limit c) = q.commands :=
      List.filter_eq_self.mpr fun c hc => by simp [expires_of_queued limit (hqueued c hc)]
    rw [kept, hall]
    refine (List.map_congr_left fun c hc => ?_).trans (List.map_id _)
    simp [age, hqueued c hc, CommandStatus.isShipped]
  rw [drawn, hkept]
  exact deliver_of_queued count hqueued

theorem searches_drawn (hqueued : ∀ c ∈ q.commands, c.status = .queued) (count : Nat)
    (limit : Option Nat) : (q.drawn count limit).searches = q.searches := by
  rw [searches, commands_drawn hqueued, List.countP_append, List.countP_map, searches]
  conv_rhs => rw [← List.take_append_drop count q.commands, List.countP_append]
  rfl

theorem depth_drawn (hqueued : ∀ c ∈ q.commands, c.status = .queued) (count : Nat)
    (limit : Option Nat) : (q.drawn count limit).depth = q.depth := by
  rw [depth, commands_drawn hqueued, List.length_append, List.length_map, ← List.length_append,
    List.take_append_drop, depth]

theorem shipped_drawn (hqueued : ∀ c ∈ q.commands, c.status = .queued) (count : Nat)
    (limit : Option Nat) :
    (q.drawn count limit).shipped = (q.commands.take count).map Request.ofCommand := by
  have hhanded : ((q.commands.take count).map fun c => { c with status := .delivered }).filter
      (·.status.isShipped) = (q.commands.take count).map fun c => { c with status := .delivered } :=
    List.filter_eq_self.mpr fun c hc => by
      obtain ⟨d, -, rfl⟩ := List.mem_map.mp hc
      rfl
  have hothers : (q.commands.drop count).filter (·.status.isShipped) = [] :=
    List.filter_eq_nil_iff.mpr fun c hc => by
      rw [hqueued c (List.mem_of_mem_drop hc)]
      nofun
  rw [shipped, commands_drawn hqueued, List.filter_append, hhanded, hothers, List.append_nil,
    List.map_map]
  rfl

end Outbox

namespace Custody

open Outbox (sequenceBound)

variable {s t : Custody} {reply : Reply} {material : Bytes} {receipt : Receipt} {polled : Polled}
  {count : Nat} {limit : Option Nat}

/-- A state in which every command that was handed out can be answered, and in which the numbers
last for the answers. -/
structure Workable (s : Custody) : Prop where
  sound : s.Sound
  room : s.outbox.depth ≤ s.outbox.capacity
  numbers : s.outbox.nextSequence + s.outbox.searches < sequenceBound

/-- A reply takes its command out, and a generation may take the place of a search. -/
theorem outbox_answer (h : s.answer reply material = .ok (receipt, t)) :
    ∃ c, s.outbox.get? reply.sequence = some c ∧
      (t.outbox = s.outbox.without reply.sequence ∨
        c.kind = .search ∧
          t.outbox = (s.outbox.without reply.sequence).push .generate c.key []) := by
  obtain ⟨c, next, u, hc, -, -, hsettled, -, rfl⟩ := answer_eq_ok h
  rw [outbox_collect]
  refine ⟨c, hc, ?_⟩
  cases hsettled with
  | ready | kept | failed => exact .inl rfl
  | followUp hkind => exact .inr ⟨hkind, rfl⟩

/-- What a reply changes in the outbox makes the work less, and takes up no more room and no more
numbers than there were for it. -/
private theorem work_answer (h : s.answer reply material = .ok (receipt, t)) :
    t.outbox.capacity = s.outbox.capacity ∧ t.outbox.depth ≤ s.outbox.depth ∧
      t.outbox.nextSequence + t.outbox.searches ≤ s.outbox.nextSequence + s.outbox.searches ∧
      t.outbox.shipped = (s.outbox.without reply.sequence).shipped ∧
      t.outbox.work < s.outbox.work := by
  obtain ⟨c, hc, houtbox⟩ := outbox_answer h
  have hdepth := Outbox.depth_without hc
  have hsearches := Outbox.searches_without hc
  have hnext : (s.outbox.without reply.sequence).nextSequence = s.outbox.nextSequence := rfl
  have hcapacity : (s.outbox.without reply.sequence).capacity = s.outbox.capacity := rfl
  generalize s.outbox.without reply.sequence = q at *
  rcases houtbox with houtbox | ⟨hkind, houtbox⟩ <;> rw [houtbox]
  · refine ⟨hcapacity, by omega, by omega, rfl, ?_⟩
    simp only [Outbox.work]
    omega
  · -- the generation takes the place of the search, but takes one reply only
    have hpushed : (q.push .generate c.key []).searches = q.searches := by
      simp [Outbox.searches, Outbox.push]
    have hshipped : (q.push .generate c.key []).shipped = q.shipped := by
      simp [Outbox.shipped, Outbox.push, CommandStatus.isShipped]
    have hnumber : (q.push .generate c.key []).nextSequence = q.nextSequence + 1 := rfl
    rw [if_pos hkind] at hsearches
    refine ⟨hcapacity, ?_, ?_, hshipped, ?_⟩ <;>
      simp only [Outbox.work, Outbox.depth_push, hpushed, hnumber] <;> omega

namespace Workable

theorem nextSequence_lt (h : s.Workable) : s.outbox.nextSequence < sequenceBound :=
  Nat.lt_of_le_of_lt (Nat.le_add_right _ _) h.numbers

/-- **The first command that was handed out can be answered**, whatever the result: the state after
the reply is workable, the other commands are left, and there is less work. -/
theorem answer (h : s.Workable) {request : Request} {rest : List Request}
    (hshipped : s.outbox.shipped = request :: rest) (hsequence : reply.sequence = request.sequence)
    (hmaterial : request.kind.yieldsKey = true → reply.result = .success →
      0 < material.length ∧ material.length ≤ Anchor.maxKeySize) :
    ∃ receipt t, s.answer reply material = .ok (receipt, t) ∧ t.Workable ∧
      t.outbox.capacity = s.outbox.capacity ∧ t.outbox.shipped = rest ∧
      t.outbox.work < s.outbox.work := by
  obtain ⟨c, hc, hstatus, rfl, hrest⟩ := h.sound.outbox.shipped_without hshipped
  rw [← hsequence] at hc hrest
  obtain ⟨receipt, t, hanswer⟩ := exists_answer hc hstatus hmaterial h.room
  obtain ⟨hcapacity, hdepth, hnumbers, hleft, hwork⟩ := work_answer hanswer
  refine ⟨receipt, t, hanswer, ⟨h.sound.answer hanswer, ?_, ?_⟩, hcapacity, hleft.trans hrest,
    hwork⟩
  · rw [hcapacity]
    exact hdepth.trans h.room
  · exact Nat.lt_of_le_of_lt hnumbers h.numbers

/-- **Where everything is queued**, a poll hands out the first commands and leaves as much work. -/
theorem poll (h : s.Workable) (hqueued : ∀ c ∈ s.outbox.commands, c.status = .queued)
    (hpoll : s.poll count limit = .ok (polled, t)) :
    t.Workable ∧ t.outbox.capacity = s.outbox.capacity ∧
      polled.batch =
        Batch.ofCommands (s.outbox.commands.take count) (s.outbox.drawn count limit).queuedCount ∧
      t.outbox = s.outbox.drawn count limit ∧ t.outbox.shipped = polled.batch.requests ∧
      t.outbox.work = s.outbox.work := by
  have hsound := h.sound.poll hpoll
  have hbatch := batch_of_poll h.sound hpoll
  have hwaiting : s.outbox.waiting = s.outbox.commands :=
    List.filter_eq_self.mpr fun c hc => by simpa using hqueued c hc
  have houtbox : t.outbox = s.outbox.drawn count limit := by
    obtain ⟨draw, q, hdraw, -, rfl⟩ := poll_eq_ok hpoll
    obtain ⟨-, -, rfl, -⟩ := Outbox.draw_eq_ok hdraw
    rw [outbox_foldl_expire]
  rw [houtbox, hwaiting] at hbatch
  have hdepth := Outbox.depth_drawn hqueued count limit
  have hsearches := Outbox.searches_drawn hqueued count limit
  have hcapacity : (s.outbox.drawn count limit).capacity = s.outbox.capacity := rfl
  have hnext : (s.outbox.drawn count limit).nextSequence = s.outbox.nextSequence := rfl
  refine ⟨⟨hsound, ?_, ?_⟩, ?_, hbatch, houtbox, ?_, ?_⟩
  · rw [houtbox, hdepth, hcapacity]
    exact h.room
  · rw [houtbox, hnext, hsearches]
    exact h.numbers
  · rw [houtbox, hcapacity]
  · rw [houtbox, hbatch]
    exact Outbox.shipped_drawn hqueued count limit
  · rw [houtbox, Outbox.work, hdepth, hsearches, Outbox.work]

end Workable

end Custody

end KeyCustody
