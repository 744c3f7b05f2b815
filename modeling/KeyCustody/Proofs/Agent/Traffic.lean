import KeyCustody.Proofs.Agent.Run
import KeyCustody.Proofs.Outbox.Traffic

/-!
# What a moment does to the outbox

Each moment of a run queues commands, hands out requests and finalizes numbers. What it queues is
found in the outbox (`Moment.queued`), what it hands out is what the poll answers
(`Moment.delivered`), and what it finalizes is the number that an accepted reply names or the
numbers that expire in a poll (`Moment.finalized`). What it should queue is said by the call alone
(`Moment.orders`).

Unless it ends custody, a moment is a change of the outbox with exactly these
(`Moment.change`); the end of custody empties the outbox and keeps the number of the next command
(`Moment.of_closes`).
-/

namespace KeyCustody

open Outbox

/-! ### Orders of a call -/

/-- The orders that destroy a key: its deletion, then its revocation. -/
def Order.destruction (key : KeyRef) : List Order := [⟨.delete, key, []⟩, ⟨.destroy, key, []⟩]

/-- The requests that an answer hands out. -/
def Answer.delivered : Answer → List Request
  | .polled outcome => outcome.batch.requests
  | _ => []

namespace Custody

/-- What a call that succeeds orders from the key service: the key that a lookup misses, the end of
a key, and the generation of a key that was searched for in vain. -/
def orders (s : Custody) : Call → Answer → List Order
  | .search key, .lookup (.pending _) =>
    if (s.cached? key).isSome then [] else [⟨.search, key, []⟩]
  | .generate key attributes, .lookup (.pending _) =>
    if (s.cached? key).isSome then [] else [⟨.generate, key, attributes⟩]
  | .delete key, _ => [⟨.delete, key, []⟩]
  | .destroy key, _ => Order.destruction key
  | .exit ta, _ => (s.liveIds ta).flatMap fun id => Order.destruction ⟨ta, id⟩
  | .submit reply, .receipt receipt =>
    match receipt.followUp, s.outbox.get? reply.sequence with
    | some _, some c => [⟨.generate, c.key, []⟩]
    | _, _ => []
  | _, _ => []

/-- The numbers that a call finalizes if it succeeds: the one that a reply names, and those that
expire in a poll. -/
def finalized (s : Custody) (limit : Option Nat) : Call → List Nat
  | .submit reply => [reply.sequence]
  | .poll count _ =>
    match s.outbox.draw count limit with
    | .ok (draw, _) => draw.expired.map (·.sequence)
    | .error _ => []
  | _ => []

variable {limit : Option Nat} {s t : Custody} {call : Call} {answer : Answer} {key : KeyRef}

/-- A lookup that finds its answer orders nothing. -/
theorem orders_of_cached? {outcome : Lookup} (hcall : call.LooksUp key)
    (h : s.cached? key = some outcome) : s.orders call (.lookup outcome) = [] := by
  cases hcall <;> cases outcome <;> simp [orders, h]

theorem finalized_of_looksUp (hcall : call.LooksUp key) : s.finalized limit call = [] := by
  cases hcall <;> rfl

/-- Only a call that is to end a key orders the end of it. -/
theorem strikes_of_mem_orders {order : Order} (h : order ∈ s.orders call answer)
    (hends : order.kind.yieldsKey = false) : call.Strikes order.key := by
  unfold orders at h
  split at h
  · split_ifs at h
    · cases h
    · rw [List.mem_singleton.mp h] at hends
      cases hends
  · split_ifs at h
    · cases h
    · rw [List.mem_singleton.mp h] at hends
      cases hends
  · rw [List.mem_singleton.mp h]
    exact .delete
  · rcases List.mem_pair.mp h with rfl | rfl <;> exact .destroy
  · obtain ⟨id, -, h⟩ := List.mem_flatMap.mp h
    rcases List.mem_pair.mp h with rfl | rfl <;> exact .exit
  · split at h
    · rw [List.mem_singleton.mp h] at hends
      cases hends
    · cases h
  · cases h

theorem outbox_destroy {n : Nat} (h : s.destroy key = .ok (n, t)) :
    t.outbox = s.outbox.extend (Order.destruction key) := by
  obtain ⟨-, -, rfl⟩ := destroy_eq_ok h
  exact extend_extend s.outbox [⟨.delete, key, []⟩] [⟨.destroy, key, []⟩]

theorem outbox_destroyAll {ta : Uuid} {ids : List String} (h : s.destroyAll ta ids = .ok t) :
    t.outbox = s.outbox.extend (ids.flatMap fun id => Order.destruction ⟨ta, id⟩) := by
  induction ids generalizing s with
  | nil =>
    obtain rfl := Except.ok.inj h
    exact (extend_nil _).symm
  | cons id rest ih =>
    obtain ⟨n, u, hu, h⟩ := destroyAll_cons_eq_ok h
    rw [ih h, outbox_destroy hu, extend_extend, List.flatMap_cons]

/-- **What a transition does to the outbox**: it queues what the call orders, hands out what the
answer says, and finalizes what the call finalizes. -/
theorem Transition.change (h : s.Transition limit call answer t) :
    ∃ handed, answer.delivered = handed.map Request.ofCommand ∧
      s.outbox.Change (s.orders call answer) handed (s.finalized limit call) t.outbox := by
  cases h with
  | register => exact ⟨[], rfl, .refl _⟩
  | search _ _ hmiss h =>
    refine ⟨[], rfl, ?_⟩
    rcases search_eq_ok h with ⟨e, -, -, rfl, rfl⟩ | ⟨-, rfl, rfl⟩
    · rw [outbox_retire]
      exact .refl _
    · rw [orders, hmiss]
      exact .extended _
  | generate _ _ _ hmiss h =>
    obtain ⟨-, rfl, rfl⟩ := request_eq_ok h
    rw [orders, hmiss]
    exact ⟨[], rfl, .extended _⟩
  | delete _ _ h =>
    obtain ⟨-, -, rfl⟩ := strike_eq_ok h
    exact ⟨[], rfl, .extended _⟩
  | destroy _ _ h =>
    rw [outbox_destroy h]
    exact ⟨[], rfl, .extended _⟩
  | exit _ h =>
    obtain ⟨u, hu, -, rfl⟩ := exit_eq_ok h
    dsimp only
    rw [outbox_destroyAll hu]
    exact ⟨[], rfl, .extended _⟩
  | poll h _ =>
    obtain ⟨draw, q, hdraw, rfl, rfl⟩ := poll_eq_ok h
    rw [outbox_foldl_expire, finalized, hdraw]
    refine ⟨draw.commands.map Command.asQueued, ?_, .drawn hdraw⟩
    rw [List.map_map]
    rfl
  | submit _ h =>
    obtain ⟨c, next, u, hc, hshipped, -, hsettled, rfl, rfl⟩ := answer_eq_ok h
    rw [outbox_collect, orders, hc]
    refine ⟨[], rfl, ?_⟩
    have hchange (orders : List Order) : s.outbox.Change orders [] _ _ :=
      .answered hc hshipped orders
    cases hsettled with
    | ready | kept | failed =>
      have h := hchange []
      rwa [extend_nil] at h
    | followUp => exact hchange [⟨.generate, c.key, []⟩]

end Custody

/-- Whether an event is the call that ends custody. -/
def Event.closes : Event → Bool
  | .call .close _ => true
  | _ => false

theorem Event.exists_of_closes {event : Event} (h : event.closes = true) :
    ∃ result, event = .call .close result := by
  unfold Event.closes at h
  split at h
  · exact ⟨_, rfl⟩
  · cases h

namespace Moment

/-- What a moment orders from the key service. -/
def orders (m : Moment) : List Order :=
  match m.event with
  | .call call (.ok answer) => m.before.custody.orders call answer
  | _ => []

/-- The requests that a moment hands out. -/
def delivered (m : Moment) : List Request :=
  match m.event with
  | .call _ (.ok answer) => answer.delivered
  | _ => []

/-- The numbers that a moment finalizes. -/
def finalized (m : Moment) : List Nat :=
  match m.event with
  | .call call (.ok _) => m.before.custody.finalized m.before.settings.replyTimeout call
  | _ => []

/-- The commands that a moment queues: those that stand in the outbox behind what was there before
and was not finalized. -/
def queued (m : Moment) : List Command :=
  m.after.custody.outbox.commands.drop (m.before.custody.outbox.depth - m.finalized.length)

/-- A moment in which the end of custody is called for, with success or without. -/
def Closes (m : Moment) : Prop := m.event.closes = true

instance : DecidablePred Closes := fun m => inferInstanceAs (Decidable (m.event.closes = true))

variable {m : Moment}

open Agent

/-- **What a moment does to the outbox**, unless it ends custody: it queues what was ordered, and
hands out and finalizes what it says. -/
theorem change (h : m.before.Step m.event m.after) (ha : m.before.Lawful) (hclose : ¬ m.Closes) :
    ∃ handed, m.delivered = handed.map Request.ofCommand ∧
      m.before.custody.outbox.Change m.orders handed m.finalized m.after.custody.outbox := by
  obtain ⟨a, event, b⟩ := m
  dsimp only at h ha ⊢
  cases h with
  | obstruct => exact ⟨[], rfl, .refl _⟩
  | restart hstart =>
    obtain rfl := Except.ok.inj (hstart.symm.trans (start_eq_ok ha (check_of_start hstart)))
    exact ⟨[], rfl, .resized _⟩
  | call call =>
    have heffect := effect_serve a call
    generalize (a.serve call).1 = result at heffect hclose ⊢
    generalize (a.serve call).2 = b at heffect hclose ⊢
    cases heffect with
    | refused | unsaved | unprovisioned => exact ⟨[], rfl, .refl _⟩
    | found _ _ hcall hfound =>
      refine ⟨[], rfl, ?_⟩
      rw [orders, finalized]
      dsimp only
      rw [Custody.orders_of_cached? hcall hfound, Custody.finalized_of_looksUp hcall]
      exact .refl _
    | saved _ ht => exact ht.change
    | provisioned hinit =>
      -- without an anchor the outbox was empty already
      have houtbox : a.custody.outbox = a.blank.outbox := congrArg (·.outbox) (ha.eq_blank hinit)
      refine ⟨[], rfl, ?_⟩
      dsimp only
      rw [← houtbox]
      exact .refl _
    | attested | revoked => exact ⟨[], rfl, .refl _⟩
    | unerased | closed | unclosed => exact absurd rfl hclose

/-- The end of custody empties the outbox; it orders, hands out and finalizes nothing. -/
theorem of_closes (h : m.before.Step m.event m.after) (hclose : m.Closes) :
    m.orders = [] ∧ m.delivered = [] ∧ m.finalized = [] ∧
      m.after.custody.outbox = m.before.blank.outbox := by
  obtain ⟨a, event, b⟩ := m
  obtain ⟨result, rfl⟩ := Event.exists_of_closes hclose
  generalize hcall : Call.close = call at h ⊢
  have heffect : a.Effect call result b := h.effect
  cases heffect with
  | closed | unclosed => exact ⟨rfl, rfl, rfl, rfl⟩
  | unerased herase => cases (Prod.mk.inj herase).1
  | refused _ hne => exact absurd hcall.symm hne
  | saved _ ht | unsaved _ ht =>
    subst hcall
    cases ht
  | found _ _ hlooks =>
    subst hcall
    cases hlooks
  | provisioned | unprovisioned | attested | revoked => cases hcall

/-- What a moment queues is what it orders, with the next numbers. -/
theorem queued_eq (h : m.before.Step m.event m.after) (ha : m.before.Lawful) :
    m.queued = Order.numbered m.before.custody.outbox.nextSequence m.orders := by
  by_cases hclose : m.Closes
  · obtain ⟨horders, -, -, hafter⟩ := of_closes h hclose
    rw [queued, hafter, horders]
    exact List.drop_nil
  · obtain ⟨handed, -, hchange⟩ := change h ha hclose
    exact hchange.drop_commands

/-- The number of the next command goes up by one for each command that is queued. -/
theorem nextSequence_eq (h : m.before.Step m.event m.after) (ha : m.before.Lawful) :
    m.after.custody.outbox.nextSequence =
      m.before.custody.outbox.nextSequence + m.queued.length := by
  rw [queued_eq h ha, Order.length_numbered]
  by_cases hclose : m.Closes
  · obtain ⟨horders, -, -, hafter⟩ := of_closes h hclose
    rw [hafter, horders]
    exact Custody.nextSequence_freshAfter ha.sound _
  · obtain ⟨handed, -, hchange⟩ := change h ha hclose
    exact hchange.nextSequence_eq

end Moment

end KeyCustody
