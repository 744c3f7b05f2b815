import KeyCustody.Proofs.Agent.Chronicle
import KeyCustody.Proofs.Agent.Numbering
import KeyCustody.Proofs.Custody.Commutation

/-!
# Replies in any order

The relay may bring replies in any order. Replies to different commands, none of which is followed
by a generation, are all accepted in every order in which the commits succeed, each with the same
receipt, and the state after them is the same (`Agent.replies_commute`), also where several of the
commands are for one key.
-/

namespace KeyCustody.Agent

open Custody

section Submission

variable {σ : Type} [Store σ] {a : Agent σ} {reply : Reply} {c : Command} {octets : Bytes}

/-- Submits replies one after the other; what each is answered, and the agent after them. -/
def submitAll (a : Agent σ) : List Reply → List (Except Fault Receipt) × Agent σ
  | [] => ([], a)
  | reply :: rest =>
    ((a.submit reply).1 :: ((a.submit reply).2.submitAll rest).1,
      ((a.submit reply).2.submitAll rest).2)

/-- Whether no commit fails while replies are submitted. -/
def Commits (a : Agent σ) (replies : List Reply) : Prop :=
  ∀ fault, .error (.storage fault) ∉ (a.submitAll replies).1

/-- A reply that concludes a command is accepted if its commit succeeds. -/
theorem submit_of_concludes (hinit : a.isInitialized = true)
    (h : a.custody.Concludes reply c octets)
    (hcommit : ∀ fault, (a.submit reply).1 ≠ .error (.storage fault)) :
    ∃ store, a.submit reply = (.ok (receipt c reply.result),
      { a with store := store, custody := a.custody.conclude reply }) := by
  have hrequire : a.requireInitialized = .ok () := if_pos hinit
  obtain ⟨result, store, hstore⟩ : ∃ result store, Store.commit a.store
      [(Custody.record, (a.custody.conclude reply).encode)] = (result, store) := ⟨_, _, rfl⟩
  have hsubmit : a.submit reply =
      a.transact fun s => s.answer reply octets := by
    rw [submit, hrequire, h.decoded]
  rw [hsubmit, transact, answer_of_concludes h] at hcommit ⊢
  dsimp only at hcommit ⊢
  rw [hstore] at hcommit ⊢
  rcases result with fault | ⟨⟩
  · exact absurd rfl (hcommit fault)
  · exact ⟨store, rfl⟩

/-- Replies that conclude different commands are accepted one after the other. -/
theorem submitAll_of_concludes {replies : List Reply} {command : Reply → Command}
    {material : Reply → Bytes} (hinit : a.isInitialized = true)
    (hreplies : ∀ r ∈ replies, a.custody.Concludes r (command r) (material r))
    (hdistinct : (replies.map Reply.sequence).Nodup) (hcommits : a.Commits replies) :
    ∃ store, a.submitAll replies =
      (replies.map fun r => .ok (receipt (command r) r.result),
        { a with store := store, custody := replies.foldl conclude a.custody }) := by
  induction replies generalizing a with
  | nil => exact ⟨a.store, rfl⟩
  | cons reply rest ih =>
    obtain ⟨hreply, hrest⟩ := List.forall_mem_cons.mp hreplies
    rw [List.map_cons, List.nodup_cons] at hdistinct
    obtain ⟨hnew, hdistinct⟩ := hdistinct
    obtain ⟨store, hsubmit⟩ := submit_of_concludes hinit hreply fun fault hfault =>
      hcommits fault (hfault ▸ List.mem_cons_self)
    rw [Commits, submitAll, hsubmit] at hcommits
    -- the other replies still conclude their commands after the first
    obtain ⟨store', hothers⟩ := ih (a := { a with
        store := store
        custody := a.custody.conclude reply }) hinit
      (fun r hr => (hrest r hr).after fun heq => hnew (heq ▸ List.mem_map_of_mem hr)) hdistinct
      fun fault hfault => hcommits fault (List.mem_cons_of_mem _ hfault)
    refine ⟨store', ?_⟩
    rw [submitAll, hsubmit, hothers]
    rfl

end Submission

variable {σ : Type} [Store σ] [ReliableStore σ] {past : List (Occasion σ)} {a : Agent σ}

/-- **Replies commute**: in whatever order replies to different commands are submitted, none of
which is followed by a generation, each is accepted with the receipt of its command, and they lead
to one state, provided that no commit fails. -/
theorem replies_commute (h : Chronicle past a) {replies : List Reply} {command : Reply → Command}
    {material : Reply → Bytes}
    (hreplies : ∀ r ∈ replies, a.custody.Concludes r (command r) (material r))
    (hdistinct : (replies.map Reply.sequence).Nodup) :
    ∃ t : Custody, ∀ order, order.Perm replies → a.Commits order →
      (a.submitAll order).1 = order.map (fun r => .ok (receipt (command r) r.result)) ∧
        ∃ store, (a.submitAll order).2 = { a with store := store, custody := t } := by
  refine ⟨replies.foldl conclude a.custody, fun order horder hcommits => ?_⟩
  rcases replies with _ | ⟨reply, rest⟩
  · obtain rfl := horder.eq_nil
    exact ⟨rfl, a.store, rfl⟩
  have hinit : a.isInitialized = true := by
    by_contra hnot
    have hfound := (hreplies reply List.mem_cons_self).command
    rw [Outbox.get?, h.commands_eq_nil (by simpa using hnot)] at hfound
    cases hfound
  have hperm := horder.map Reply.sequence
  obtain ⟨store, hsubmit⟩ := submitAll_of_concludes hinit
    (fun r hr => hreplies r (horder.mem_iff.mp hr)) (hperm.nodup_iff.mpr hdistinct) hcommits
  rw [hsubmit]
  refine ⟨rfl, store, ?_⟩
  rw [foldl_conclude_perm a.custody horder (hperm.nodup_iff.mpr hdistinct)]

/-- The calls after which five commands have been handed out: a search for a key, its deletion, a
second search for it, and the two commands that destroy another key. -/
def fiveCommands : List Call :=
  introduction sampleKey ++ [.delete sampleKey, .search sampleKey,
    .destroy ⟨sampleKey.owner, "l"⟩, .poll 5 fun _ => .ok ()]

/-- A reply to each of these commands. The entry of the key no longer waits for the first search. -/
def fiveReplies : List Reply :=
  [.notFound 1, .success 2 [], .success 3 [7], .failure 4, .success 5 []]

/-- In the order of the commands and in reverse the replies give the one key its material and drop
the tombstone of the other. -/
theorem replies_commute_reversed :
    let a := opened.serveAll fiveCommands
    let forth := a.submitAll fiveReplies
    let back := a.submitAll fiveReplies.reverse
    back.1 = forth.1.reverse ∧ back.2.custody = forth.2.custody ∧
      forth.2.custody.keyring.get? sampleKey = some ⟨sampleKey, some [7], .ready, 3⟩ ∧
        forth.2.custody.keyring.get? ⟨sampleKey.owner, "l"⟩ = none := by
  intro a forth back
  have hreplies : ∀ r ∈ fiveReplies, a.custody.Concludes r
      ((a.custody.outbox.get? r.sequence).getD ⟨0, .search, sampleKey, [], .queued, 0⟩)
      (if r.sequence = 3 then [7] else []) := by
    decide +kernel
  have hdistinct : (fiveReplies.map Reply.sequence).Nodup := by decide
  have hcommits (order : List Reply)
      (haccepted : ∀ result ∈ (a.submitAll order).1, result.toOption.isSome = true) :
      a.Commits order := fun fault hfault => by
    cases haccepted _ hfault
  have hrun := run_opened.serveAll fiveCommands (by decide +kernel)
  obtain ⟨t, ht⟩ := replies_commute hrun.chronicle hreplies hdistinct
  obtain ⟨hforth, store, hagent⟩ := ht fiveReplies (.refl _) (hcommits _ (by decide +kernel))
  obtain ⟨hback, store', hagent'⟩ := ht fiveReplies.reverse (List.reverse_perm _)
    (hcommits _ (by decide +kernel))
  refine ⟨?_, ?_, by decide +kernel, by decide +kernel⟩
  · rw [hforth, hback, List.map_reverse]
  · rw [hagent, hagent']

end KeyCustody.Agent
