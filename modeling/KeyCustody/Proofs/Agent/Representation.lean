import KeyCustody.Proofs.Agent.Backpressure
import KeyCustody.Proofs.Outbox.Draw

/-!
# What the outbox and the keyring look like

The representation invariants of the outbox and of the keyring, as they hold in every run over any
store (`Agent.outbox_represented`, `Agent.keyring_represented`). That transitions keep them is part
of `Custody.Transition.sound`, and that runs do of `Agent.Chronicle.grounded`; here they are put in
terms of the lists: the outbox is a list of commands that were handed out, followed by one of
commands that were not (`Outbox.WellFormed.exists_split`), and the keyring lists one entry for each
key (`Keyring.WellFormed.nodup_keys`).

What a run adds is how full the outbox gets, and that the polls of a command that waits for its
reply have been counted. The one depends on the steps before, and a new start may leave the outbox
beyond its bound; the other holds as long as no count of polls overflows (`Outbox.CountsLast`),
which none does before a run has become very long (`Agent.Run.countsLast`).
-/

namespace KeyCustody

/-- Whether the identifier of a key takes up from one octet to the largest number of octets, and
holds no control character. -/
def KeyRef.IsAdmissible (key : KeyRef) : Prop :=
  1 ≤ key.id.utf8ByteSize ∧ key.id.utf8ByteSize ≤ maxIdSize ∧
    ∀ c ∈ key.id.toList, isControl c = false

theorem KeyRef.isAdmissible_iff {key : KeyRef} : key.IsAdmissible ↔ isValidId key.id = true := by
  have hempty : key.id.isEmpty = false ↔ 1 ≤ key.id.utf8ByteSize := by
    rw [String.isEmpty, beq_eq_false_iff_ne, Nat.one_le_iff_ne_zero]
  simp only [IsAdmissible, isValidId, Bool.and_eq_true, Bool.not_eq_true', decide_eq_true_eq,
    hempty, List.any_eq_false, Bool.not_eq_true, and_assoc]

namespace Outbox

/-- The commands that were handed out stand before those that were not. -/
theorem WellFormed.exists_split {q : Outbox} (h : q.WellFormed) :
    ∃ shipped queued, q.commands = shipped ++ queued ∧
      (∀ c ∈ shipped, c.status.isShipped = true) ∧ ∀ c ∈ queued, c.status = .queued := by
  have hstatus : ∀ c ∈ q.commands, c.status = .queued ∨ c.status.isShipped = true :=
    fun c hc => (h.command c hc).status
  have hfirst := h.shipped_first
  generalize q.commands = commands at hstatus hfirst ⊢
  induction commands with
  | nil => exact ⟨[], [], rfl, nofun, nofun⟩
  | cons c rest ih =>
    obtain ⟨hc, hrest⟩ := List.pairwise_cons.mp hfirst
    obtain hqueued | hshipped := hstatus c List.mem_cons_self
    · refine ⟨[], c :: rest, rfl, nofun, fun d hd => ?_⟩
      rcases List.mem_cons.mp hd with rfl | hd
      · exact hqueued
      · exact hc d hd hqueued
    · obtain ⟨shipped, queued, rfl, hfront, hback⟩ :=
        ih (fun d hd => hstatus d (List.mem_cons_of_mem _ hd)) hrest
      exact ⟨c :: shipped, queued, rfl, List.forall_mem_cons.mpr ⟨hshipped, hfront⟩, hback⟩

end Outbox

namespace Agent

variable {σ : Type} [Store σ] [ReliableStore σ] {past : List (Occasion σ)} {a : Agent σ}

/-- Transitions keep it so that a command that waits for its reply has counted a poll, in states in
which the counts last. -/
theorem kept_one_le_polls : Custody.Kept (fun s _ => s.outbox.CountsLast)
    fun _ commands => ∀ c ∈ commands, c.status = .awaitingReply → 1 ≤ c.polls where
  empty := nofun
  transition _ _ ht hcounts h := by
    obtain ⟨handed, -, hchange⟩ := ht.change
    exact hchange.one_le_polls hcounts h

/-- No command of a run has counted more polls than there were steps. -/
theorem Run.polls_le {past : List Moment} {a : Agent MemoryStore} (h : Run past a) :
    ∀ c ∈ a.custody.outbox.commands, c.polls ≤ past.length := by
  induction h with
  | start hstart =>
    obtain ⟨-, rfl⟩ := start_empty_eq_ok hstart
    exact nofun
  | @step past a b event hrun hstep ih =>
    rw [List.length_append, List.length_singleton]
    by_cases hclose : Moment.Closes ⟨a, event, b⟩
    · obtain ⟨-, -, -, hafter⟩ := Moment.of_closes hstep hclose
      intro c hc
      rw [hafter] at hc
      cases hc
    · obtain ⟨handed, -, hchange⟩ := Moment.change hstep hrun.lawful hclose
      exact hchange.polls_le ih

/-- **Counts last** for very long: none overflows before a run has had `2 ^ 32 - 1` steps. -/
theorem Run.countsLast {past : List Moment} {a : Agent MemoryStore} (h : Run past a)
    (hlength : past.length < 2 ^ 32 - 1) : a.custody.outbox.CountsLast := fun c hc _ =>
  Nat.lt_of_le_of_lt (h.polls_le c hc) hlength

/-- **The outbox in every run.** Numbers rise from front to back, from one up to below the number of
the next command. The commands that were handed out stand before the queued ones; the polls are
counted of those that wait for a reply, and of no others. The count of a command that waits for a
reply is at least one, unless a count has overflowed in the run. Each command is for a key with an
admissible identifier and carries no more octets than it may.

No call and no new start makes the outbox longer than it was or than its bound, whichever is larger.
So it is never longer than the largest bound that it has had, and while it is beyond its bound it
does not grow. -/
theorem outbox_represented [ExactStore σ] (h : Chronicle past a) :
    (a.custody.outbox.commands.Pairwise fun c d => c.sequence < d.sequence) ∧
    (∃ shipped queued, a.custody.outbox.commands = shipped ++ queued ∧
      (∀ c ∈ shipped, c.status = .delivered ∨ c.status = .awaitingReply) ∧
      ∀ c ∈ queued, c.status = .queued) ∧
    (∀ c ∈ a.custody.outbox.commands,
      (1 ≤ c.sequence ∧ c.sequence < a.custody.outbox.nextSequence) ∧
      (c.status = .queued ∨ c.status = .delivered → c.polls = 0) ∧
      ((∀ o ∈ past, o.agent.custody.outbox.CountsLast) → c.status = .awaitingReply →
        1 ≤ c.polls) ∧
      c.key.IsAdmissible ∧ c.payload.length ≤ Anchor.maxKeySize) ∧
    (∀ call, (a.serve call).2.custody.outbox.depth ≤
      max a.custody.outbox.depth a.custody.outbox.capacity) ∧
    (∀ {store : σ} {settings : Settings} {b : Agent σ}, ReliableStore.Sound store →
      SameRecords a.store store → Agent.start settings store = .ok b →
        b.custody.outbox.depth ≤ a.custody.outbox.depth) ∧
    (∃ x ∈ past.map Occasion.agent ++ [a],
      a.custody.outbox.depth ≤ x.custody.outbox.capacity) ∧
    ∀ {before : List (Occasion σ)} {o : Occasion σ} {later : List (Occasion σ)},
      past = before ++ o :: later →
      (∀ x ∈ o :: later, x.agent.custody.outbox.capacity < x.agent.custody.outbox.depth) →
        a.custody.outbox.depth ≤ o.agent.custody.outbox.depth := by
  have hq : a.custody.outbox.WellFormed := h.grounded.custody.outbox
  refine ⟨hq.rising, ?_, fun c hc => ?_, fun call => ?_, h.depth_le_of_restart,
    h.exists_depth_le_capacity, fun hpast => ?_⟩
  · obtain ⟨shipped, queued, hcommands, hshipped, hqueued⟩ := hq.exists_split
    exact ⟨shipped, queued, hcommands,
      fun c hc => CommandStatus.isShipped_iff.mp (hshipped c hc), hqueued⟩
  · have hwell := hq.command c hc
    refine ⟨⟨hq.sequence_pos c hc, hq.sequence_lt c hc⟩, fun hstatus => ?_, fun hcounts => ?_,
      KeyRef.isAdmissible_iff.mpr hwell.isValidId, hwell.length_payload⟩
    · refine hwell.polls_eq_zero ?_
      intro hawaiting
      simp [hawaiting] at hstatus
    · exact (h.keeps kept_one_le_polls fun o ho _ _ _ => hcounts o ho).1 c hc
  · exact h.depth_le_of_serve call
  · exact (hpast ▸ h).depth_le_of_crowded

/-- The calls after which the outbox holds commands of each status that it may hold, and the keyring
entries of each status. -/
def stages : List Call :=
  let slashed : KeyRef := ⟨sampleKey.owner, "k/l"⟩
  let struck : KeyRef := ⟨sampleKey.owner, "m"⟩
  introduction sampleKey ++ [.search slashed, .generate struck [1], .poll 3 fun _ => .ok (),
    .submit (.success 1 [7]), .submit (.failure 2), .delete struck,
    .search ⟨sampleKey.owner, "n"⟩, .poll 1 fun _ => .ok ()]

/-- An agent after these calls. -/
def laden : Agent MemoryStore := opened.serveAll stages

theorem run_laden : Run (opened.moments stages) laden :=
  run_opened.serveAll stages (by decide +kernel)

/-- The agent started anew, with room for one command. -/
def overladen : Agent MemoryStore := laden.restarted narrow

/-- It has three commands, for which there was room before the new start, and no call makes them
more. The counts have lasted, and the one that waits for its reply has counted a poll. -/
theorem outbox_represented_overladen :
    (∃ past, Chronicle past overladen ∧ (∀ o ∈ past, o.agent.custody.outbox.CountsLast) ∧
      ∃ x ∈ past.map Occasion.agent ++ [overladen], 3 ≤ x.custody.outbox.capacity) ∧
      overladen.custody.outbox.capacity = 1 ∧
      overladen.custody.outbox.commands.map (fun c => (c.sequence, c.status, c.polls)) =
        [(3, .awaitingReply, 1), (4, .delivered, 0), (5, .queued, 0)] ∧
      (∀ c ∈ overladen.custody.outbox.commands, c.status = .awaitingReply → 1 ≤ c.polls) ∧
      ∀ call, (overladen.serve call).2.custody.outbox.depth ≤ 3 := by
  let last : Moment := ⟨laden, .restart narrow, overladen⟩
  have hrun : Run (opened.moments stages ++ [last]) overladen := run_laden.restart check_narrow
  have hstart := hrun.chronicle
  have hcounts : ∀ o ∈ (opened.moments stages ++ [last]).map Moment.occasion,
      o.agent.custody.outbox.CountsLast := by decide +kernel
  have hcapacity : overladen.custody.outbox.capacity = 1 := rfl
  have hcommands :
      overladen.custody.outbox.commands.map (fun c => (c.sequence, c.status, c.polls)) =
        [(3, .awaitingReply, 1), (4, .delivered, 0), (5, .queued, 0)] := by decide +kernel
  have hdepth : overladen.custody.outbox.depth = 3 := by
    rw [Outbox.depth, ← List.length_map, hcommands]
    rfl
  obtain ⟨-, -, hcommand, -, -, hbound, -⟩ := outbox_represented hstart
  rw [hdepth] at hbound
  refine ⟨⟨_, hstart, hcounts, hbound⟩, hcapacity, hcommands, fun c hc => ?_, fun call => ?_⟩
  · obtain ⟨-, -, hpolls, -⟩ := hcommand c hc
    exact hpolls hcounts
  have hnumbers := hrun.numbersLast_serve (by decide +kernel) call
  obtain ⟨-, -, -, -, -, -, hcrowded⟩ := outbox_represented (hstart.call call hnumbers)
  have hle := hcrowded rfl (List.forall_mem_singleton.mpr (by dsimp only; omega))
  exact hle.trans hdepth.le

/-- **The keyring in every run.** Every entry is filed under the text of its own key, so there is at
most one entry for each key, and the entry that is found for a key is that of the key. Its key has
an admissible identifier, and its latest command a number that has been used. It holds material
exactly if it is ready, neither none nor more than it may; so a lookup never finds an empty key. -/
theorem keyring_represented (h : Chronicle past a) :
    (∀ slot e, a.custody.keyring.entries.get? slot = some e →
      slot = e.key.owner.text ++ "/" ++ e.key.id) ∧
    (a.custody.keyring.toList.map Entry.key).Nodup ∧
    (∀ key e, a.custody.keyring.get? key = some e ↔
      e ∈ a.custody.keyring.toList ∧ e.key = key) ∧
    (∀ e ∈ a.custody.keyring.toList,
      e.key.IsAdmissible ∧
      (1 ≤ e.lastSequence ∧ e.lastSequence < a.custody.outbox.nextSequence) ∧
      (e.material.isSome = true ↔ e.status = .ready) ∧
      ∀ material, e.material = some material →
        1 ≤ material.length ∧ material.length ≤ Anchor.maxKeySize) ∧
    ∀ {call : Call} {key : KeyRef} {material : Bytes}, call.LooksUp key →
      (a.serve call).1 = .ok (.lookup (.ready material)) →
        1 ≤ material.length ∧ material.length ≤ Anchor.maxKeySize := by
  have hk : a.custody.keyring.WellFormed a.custody.outbox.nextSequence := h.grounded.custody.keyring
  refine ⟨fun slot e he => hk.slot_eq he, hk.nodup_keys, fun key e => ?_, fun e he => ?_,
    fun {call key material} hcall hready => ?_⟩
  · rw [hk.mem_toList]
    constructor
    · intro he
      obtain rfl := hk.key_eq he
      exact ⟨he, rfl⟩
    · rintro ⟨he, rfl⟩
      exact he
  · have hwell := hk.get (hk.mem_toList.mp he)
    exact ⟨KeyRef.isAdmissible_iff.mpr hwell.isValidId,
      ⟨hwell.lastSequence_pos, hwell.lastSequence_lt⟩, hwell.isSome_material,
      fun material hmaterial => hwell.material_bounds material hmaterial⟩
  · have heffect := effect_serve a call
    rw [hready] at heffect
    obtain ⟨e, he, hstatus, rfl⟩ := heffect.ready_of_lookup hcall
    have hwell := hk.get he
    obtain ⟨material, hmaterial⟩ := Option.isSome_iff_exists.mp (hwell.isSome_material.mpr hstatus)
    rw [hmaterial]
    exact hwell.material_bounds material hmaterial

/-- There is one entry of each status, and the one that is ready holds the material that a lookup
finds. -/
theorem keyring_represented_laden :
    (∃ past, Chronicle past laden) ∧
      laden.custody.keyring.toList.map (fun e => (e.key.id, e.status)) =
        [("k", .ready), ("k/l", .failed), ("m", .deleted), ("n", .pending)] ∧
      (∀ e ∈ laden.custody.keyring.toList, e.status ≠ .ready → e.material = none) ∧
      ∃ material, (laden.serve (.search sampleKey)).1 = .ok (.lookup (.ready material)) ∧
        1 ≤ material.length ∧ material.length ≤ Anchor.maxKeySize := by
  have hready : (laden.serve (.search sampleKey)).1 = .ok (.lookup (.ready [7])) := by
    decide +kernel
  obtain ⟨-, -, -, hentry, hlookup⟩ := keyring_represented run_laden.chronicle
  refine ⟨⟨_, run_laden.chronicle⟩, by decide +kernel, fun e he hstatus => ?_, [7], hready,
    hlookup .search hready⟩
  obtain ⟨-, -, hsome, -⟩ := hentry e he
  exact Option.not_isSome_iff_eq_none.mp (mt hsome.mp hstatus)

end Agent

end KeyCustody
