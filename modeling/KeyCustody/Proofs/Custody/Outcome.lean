import KeyCustody.Custody.Basic
import KeyCustody.Proofs.Outbox

/-!
# What the transitions do

Each transition has one outcome when it succeeds. A lookup that misses, a deletion and each half of
a destruction queue one command, for which there was room, and file the entry of its key anew
(`Custody.issue`); a poll draws from the outbox and fails the entries of the commands that expired,
one after the other (`Custody.expire`); a reply takes its command out of the outbox and settles the
entry that waits for it in one of four ways (`Custody.Settled`).
-/

namespace KeyCustody

/-- A computation in steps succeeds exactly if its first step does and the others do from there. -/
theorem bind_eq_ok {ε α β : Type} {x : Except ε α} {f : α → Except ε β} {b : β}
    (h : x >>= f = .ok b) : ∃ a, x = .ok a ∧ f a = .ok b := by
  rcases x with fault | a
  · cases h
  · exact ⟨a, rfl, h⟩

theorem eq_ok_of_mapError {ε ε' α : Type} {x : Except ε α} {f : ε → ε'} {a : α}
    (h : x.mapError f = .ok a) : x = .ok a := by
  rcases x with fault | b
  · cases h
  · exact congrArg Except.ok (Except.ok.inj h)

namespace Custody

/-- The state after a command was queued and the entry of its key filed anew, without material. -/
def issue (s : Custody) (kind : CommandKind) (key : KeyRef) (payload : Bytes)
    (status : KeyStatus) : Custody :=
  { s with
    keyring := s.keyring.reset key status s.outbox.nextSequence
    outbox := s.outbox.push kind key payload }

/-- The state in which the entry that waits for a search waits for the generation of the key. -/
def followUp (s : Custody) (c : Command) : Custody :=
  { s with
    keyring := s.keyring.repoint c.key c.sequence s.outbox.nextSequence
    outbox := s.outbox.push .generate c.key [] }

/-- The state after a command was given up that the outbox no longer holds. -/
def expire (s : Custody) (c : Command) : Custody := (s.failEntry c).collect c.key

/-- The ways in which a reply settles the entry that waits for its command: the entry gets the
material, goes on to wait for a generation, stays as it is, or fails. -/
inductive Settled (s : Custody) (c : Command) (result : ReplyResult) (material : Bytes) :
    Option Nat → Custody → Prop
  | ready (hkind : c.kind.yieldsKey = true) (hresult : result = .success) :
    Settled s c result material none
      { s with keyring := s.keyring.markReady c.key c.sequence material }
  | followUp (hkind : c.kind = .search) (hresult : result = .notFound)
      (hpending : s.keyring.isPendingOn c.key c.sequence = true)
      (hroom : s.outbox.depth < s.outbox.capacity) :
    Settled s c result material (some s.outbox.nextSequence) (s.followUp c)
  | kept (hpending : c.kind.yieldsKey = true → s.keyring.isPendingOn c.key c.sequence = false) :
    Settled s c result material none s
  | failed (hkind : c.kind.yieldsKey = true) (hresult : result ≠ .success) :
    Settled s c result material none (s.failEntry c)

variable {s t : Custody} {kind : CommandKind} {key : KeyRef} {payload : Bytes}

/-! ### Commands that are queued -/

@[simp]
theorem depth_issue (s : Custody) (kind : CommandKind) (key : KeyRef) (payload : Bytes)
    (status : KeyStatus) :
    (s.issue kind key payload status).outbox.depth = s.outbox.depth + 1 :=
  Outbox.depth_push ..

@[simp]
theorem nextSequence_issue (s : Custody) (kind : CommandKind) (key : KeyRef) (payload : Bytes)
    (status : KeyStatus) :
    (s.issue kind key payload status).outbox.nextSequence = s.outbox.nextSequence + 1 :=
  rfl

@[simp]
theorem capacity_issue (s : Custody) (kind : CommandKind) (key : KeyRef) (payload : Bytes)
    (status : KeyStatus) :
    (s.issue kind key payload status).outbox.capacity = s.outbox.capacity :=
  rfl

theorem enqueue_eq_ok {n : Nat} (h : s.enqueue kind key payload = .ok (n, t)) :
    s.outbox.depth < s.outbox.capacity ∧ n = s.outbox.nextSequence ∧
      t = { s with outbox := s.outbox.push kind key payload } := by
  obtain ⟨⟨m, q⟩, hq, h⟩ := bind_eq_ok h
  obtain ⟨hroom, rfl, rfl⟩ := Outbox.enqueue_eq_ok hq
  obtain ⟨rfl, rfl⟩ := Prod.mk.inj (Except.ok.inj h)
  exact ⟨hroom, rfl, rfl⟩

theorem request_eq_ok {answer : Lookup} (h : s.request kind key payload = .ok (answer, t)) :
    s.outbox.depth < s.outbox.capacity ∧ answer = .pending s.outbox.nextSequence ∧
      t = s.issue kind key payload .pending := by
  obtain ⟨⟨n, u⟩, hu, h⟩ := bind_eq_ok h
  obtain ⟨hroom, rfl, rfl⟩ := enqueue_eq_ok hu
  obtain ⟨rfl, rfl⟩ := Prod.mk.inj (Except.ok.inj h)
  exact ⟨hroom, rfl, rfl⟩

theorem strike_eq_ok {n : Nat} (h : s.strike kind key = .ok (n, t)) :
    s.outbox.depth < s.outbox.capacity ∧ n = s.outbox.nextSequence ∧
      t = s.issue kind key [] .deleted := by
  obtain ⟨⟨m, u⟩, hu, h⟩ := bind_eq_ok h
  obtain ⟨hroom, rfl, rfl⟩ := enqueue_eq_ok hu
  obtain ⟨rfl, rfl⟩ := Prod.mk.inj (Except.ok.inj h)
  exact ⟨hroom, rfl, rfl⟩

/-- A lookup at the key service either tells of a failure and drops the entry, or queues a
search. -/
theorem search_eq_ok {answer : Lookup} (h : s.search key = .ok (answer, t)) :
    (∃ e, s.keyring.get? key = some e ∧ e.status = .failed ∧ answer = .failed ∧
      t = s.retire key e.lastSequence) ∨
    (s.outbox.depth < s.outbox.capacity ∧
      answer = .pending s.outbox.nextSequence ∧ t = s.issue .search key [] .pending) := by
  rw [search] at h
  rcases he : s.keyring.get? key with _ | e
  · rw [he] at h
    exact .inr (request_eq_ok h)
  · rw [he] at h
    simp only at h
    split_ifs at h with hfailed
    · obtain ⟨rfl, rfl⟩ := Prod.mk.inj (Except.ok.inj h)
      exact .inl ⟨e, rfl, hfailed, rfl, rfl⟩
    · exact .inr (request_eq_ok h)

/-- A destruction is a deletion followed by a revocation. -/
theorem destroy_eq_ok {n : Nat} (h : s.destroy key = .ok (n, t)) :
    s.outbox.depth + 1 < s.outbox.capacity ∧ n = s.outbox.nextSequence + 1 ∧
      t = (s.issue .delete key [] .deleted).issue .destroy key [] .deleted := by
  obtain ⟨⟨m, u⟩, hu, h⟩ := bind_eq_ok h
  obtain ⟨-, -, rfl⟩ := strike_eq_ok hu
  obtain ⟨hroom, rfl, rfl⟩ := strike_eq_ok h
  exact ⟨depth_issue s .delete key [] .deleted ▸ hroom, rfl, rfl⟩

/-- Destroying the keys of a list destroys the first and then the others. -/
theorem destroyAll_cons_eq_ok {ta : Uuid} {id : String} {rest : List String}
    (h : s.destroyAll ta (id :: rest) = .ok t) :
    ∃ n u, s.destroy ⟨ta, id⟩ = .ok (n, u) ∧ u.destroyAll ta rest = .ok t := by
  obtain ⟨⟨n, u⟩, hu, h⟩ := bind_eq_ok h
  exact ⟨n, u, hu, h⟩

theorem exit_eq_ok {ta : Uuid} {n : Nat} (h : s.exit ta = .ok (n, t)) :
    ∃ u, s.destroyAll ta (s.liveIds ta) = .ok u ∧ n = (s.liveIds ta).length ∧
      t = { u with gate := u.gate.revoke ta } := by
  obtain ⟨u, hu, h⟩ := bind_eq_ok h
  obtain ⟨rfl, rfl⟩ := Prod.mk.inj (Except.ok.inj h)
  exact ⟨u, hu, rfl, rfl⟩

/-! ### Polls and replies -/

/-- A poll gives up the commands that expired, one after the other. -/
theorem poll_eq_ok {count : Nat} {limit : Option Nat} {polled : Polled}
    (h : s.poll count limit = .ok (polled, t)) :
    ∃ draw q, s.outbox.draw count limit = .ok (draw, q) ∧
      polled = ⟨Batch.ofCommands draw.commands draw.remaining, draw.expired.length⟩ ∧
        t = draw.expired.foldl expire { s with outbox := q } := by
  obtain ⟨⟨draw, q⟩, hdraw, h⟩ := bind_eq_ok h
  obtain ⟨rfl, rfl⟩ := Prod.mk.inj (Except.ok.inj h)
  exact ⟨draw, q, hdraw, rfl, rfl⟩

theorem settled_of_settle {c : Command} {result : ReplyResult} {material : Bytes}
    {next : Option Nat} (h : s.settle c result material = .ok (next, t)) :
    Settled s c result material next t := by
  unfold settle at h
  by_cases hkind : c.kind.yieldsKey = true
  · rw [if_pos hkind] at h
    cases result with
    | success =>
      obtain ⟨rfl, rfl⟩ := Prod.mk.inj (Except.ok.inj h)
      exact .ready hkind rfl
    | notFound =>
      simp only at h
      split_ifs at h with hsearch hpending
      · obtain ⟨⟨n, u⟩, hu, h⟩ := bind_eq_ok h
        obtain ⟨hroom, rfl, rfl⟩ := enqueue_eq_ok hu
        obtain ⟨rfl, rfl⟩ := Prod.mk.inj (Except.ok.inj h)
        exact .followUp hsearch rfl hpending hroom
      · obtain ⟨rfl, rfl⟩ := Prod.mk.inj (Except.ok.inj h)
        exact .kept fun _ => by simpa using hpending
      · obtain ⟨rfl, rfl⟩ := Prod.mk.inj (Except.ok.inj h)
        exact .failed hkind nofun
    | failure =>
      obtain ⟨rfl, rfl⟩ := Prod.mk.inj (Except.ok.inj h)
      exact .failed hkind nofun
  · rw [if_neg hkind] at h
    obtain ⟨rfl, rfl⟩ := Prod.mk.inj (Except.ok.inj h)
    exact .kept fun hyields => absurd hyields hkind

/-- An accepted reply takes its command out of the outbox, settles the entry that waits for it, and
drops the tombstone that only this command kept. -/
theorem answer_eq_ok {reply : Reply} {material : Bytes} {receipt : Receipt}
    (h : s.answer reply material = .ok (receipt, t)) :
    ∃ c next u, s.outbox.get? reply.sequence = some c ∧ c.status.isShipped = true ∧
      (c.kind.yieldsKey = true → reply.result = .success →
        0 < material.length ∧ material.length ≤ Anchor.maxKeySize) ∧
      Settled { s with outbox := s.outbox.without reply.sequence } c reply.result material next u ∧
      receipt = ⟨c.sequence, c.kind,
        if completes c.kind reply.result then .completed else .failed, next⟩ ∧
      t = u.collect c.key := by
  obtain ⟨⟨⟩, hcheck, h⟩ := bind_eq_ok h
  obtain ⟨⟨c, q⟩, hfinal, h⟩ := bind_eq_ok h
  obtain ⟨⟨next, u⟩, hsettle, h⟩ := bind_eq_ok h
  obtain ⟨rfl, rfl⟩ := Prod.mk.inj (Except.ok.inj h)
  obtain ⟨d, hd, hshipped, rfl, rfl⟩ := Outbox.finalize_eq_ok hfinal
  refine ⟨d, next, u, hd, hshipped, fun hyields hsuccess => ?_, ?_, by rw [hd], rfl⟩
  · rw [checkMaterial, hd] at hcheck
    simp only [hyields, hsuccess, true_and] at hcheck
    split_ifs at hcheck with hsize
    rw [not_or, List.isEmpty_iff_length_eq_zero] at hsize
    omega
  · -- the command is settled with its last status, which plays no part in settling its entry
    cases settled_of_settle hsettle with
    | ready hkind hresult => exact .ready hkind hresult
    | followUp hkind hresult hpending hroom => exact .followUp hkind hresult hpending hroom
    | kept hpending => exact .kept hpending
    | failed hkind hresult => exact .failed hkind hresult

/-- A reply to a command that no poll has handed out is refused, whatever it says. -/
theorem answer_eq_error {reply : Reply} (material : Bytes)
    (h : ∀ c ∈ s.outbox.commands, c.sequence = reply.sequence → c.status.isShipped = false) :
    ∃ cause, s.answer reply material = .error (.badBufferData cause) := by
  rw [answer]
  rcases hcheck : s.checkMaterial reply material with fault | ⟨⟩
  · rw [checkMaterial] at hcheck
    split at hcheck
    · split_ifs at hcheck
      obtain rfl := Except.error.inj hcheck
      exact ⟨_, rfl⟩
    · cases hcheck
  · obtain ⟨cause, hfinal⟩ := Outbox.finalize_eq_error h
    simp only [bind, Except.bind, hfinal]
    exact ⟨cause, rfl⟩

end Custody

end KeyCustody
