import KeyCustody.Proofs.Custody.Commutation
import KeyCustody.Proofs.Custody.Soundness

/-!
# What a reply does

A reply is accepted exactly if it is admissible (`Custody.Admits`): its command was handed out, its
payload can be read, material has an admissible size, and there is room for the generation where one
follows. The state after it is `Custody.replied`: the command leaves the outbox, and the entry of
its key becomes what `Entry.afterReply` says, from its state, the kind of the command, the result
and whether another command is for the key.

`Custody.answer_of_admits` and `Custody.admits_of_answer` are the two directions.
-/

namespace KeyCustody

/-- What an accepted reply makes of the entry for the key of its command: only an entry that waits
for a key from this very command changes, and a tombstone goes with the last command for the key.
Here `next` is the number of the generation that follows a search, and `kept` says whether another
command is for the key. -/
def Entry.afterReply (e : Entry) (c : Command) (result : ReplyResult) (octets : Bytes) (next : Nat)
    (kept : Bool) : Option Entry :=
  if (c.kind = .search ∨ c.kind = .generate) ∧
      e.status = .pending ∧ e.lastSequence = c.sequence then
    match result with
    | .success => some { e with material := some octets, status := .ready }
    | .notFound =>
      if c.kind = .search then some { e with lastSequence := next }
      else some { e with status := .failed }
    | .failure => some { e with status := .failed }
  else if e.status = .deleted ∧ kept = false then none
  else some e

namespace Custody

/-- A reply is followed by the generation of the key: a search found nothing, and the entry still
waits for this search. -/
def FollowsUp (s : Custody) (c : Command) (result : ReplyResult) : Prop :=
  c.kind = .search ∧ result = .notFound ∧
    ∃ e, s.keyring.get? c.key = some e ∧ e.status = .pending ∧ e.lastSequence = c.sequence

/-- A reply is admissible as the answer to a command, with a payload that writes `octets`. Where a
generation follows, it takes the place of the command. -/
structure Admits (s : Custody) (reply : Reply) (c : Command) (octets : Bytes) : Prop where
  command : c ∈ s.outbox.commands
  sequence : c.sequence = reply.sequence
  shipped : c.status = .delivered ∨ c.status = .awaitingReply
  decoded : Hex.decode reply.payload = .ok octets
  size : c.kind = .search ∨ c.kind = .generate → reply.result = .success →
    1 ≤ octets.length ∧ octets.length ≤ 2048
  room : s.FollowsUp c reply.result → s.outbox.depth - 1 < s.outbox.capacity

theorem followsUp_iff {s : Custody} {c : Command} {result : ReplyResult} :
    s.FollowsUp c result ↔
      c.kind = .search ∧ result = .notFound ∧ s.keyring.isPendingOn c.key c.sequence = true := by
  rw [FollowsUp]
  rcases he : s.keyring.get? c.key with _ | e <;> simp [Keyring.isPendingOn, he]

instance (s : Custody) (c : Command) (result : ReplyResult) : Decidable (s.FollowsUp c result) :=
  decidable_of_iff _ followsUp_iff.symm

/-- The state after the reply to a command. -/
def replied (s : Custody) (c : Command) (result : ReplyResult) (octets : Bytes) : Custody :=
  let outbox := s.outbox.without c.sequence
  { s with
    keyring := s.keyring.adjust c.key fun entry => entry.bind fun e =>
      e.afterReply c result octets s.outbox.nextSequence (outbox.references c.key)
    outbox := if s.FollowsUp c result then outbox.push .generate c.key [] else outbox }

/-- What is told about a command when it is answered. -/
def acknowledge (s : Custody) (c : Command) (result : ReplyResult) : Receipt :=
  { receipt c result with
    followUp := if s.FollowsUp c result then some s.outbox.nextSequence else none }

variable {s t : Custody} {reply : Reply} {c : Command} {result : ReplyResult} {octets : Bytes}

/-! ### The two ways to settle an entry -/

theorem Admits.isShipped (h : s.Admits reply c octets) : c.status.isShipped = true :=
  CommandStatus.isShipped_iff.mpr h.shipped

theorem Admits.bounds (h : s.Admits reply c octets) (hyields : c.kind.yieldsKey = true) :
    reply.result = .success → 0 < octets.length ∧ octets.length ≤ Anchor.maxKeySize :=
  h.size ((yieldsKey_iff _).mp hyields)

/-- Without a generation to follow, a reply concludes its command. -/
theorem Admits.concludes (hs : s.Sound) (h : s.Admits reply c octets)
    (hfinal : ¬ s.FollowsUp c reply.result) : s.Concludes reply c octets where
  command := hs.outbox.get?_eq_some_iff.mpr ⟨h.command, h.sequence⟩
  isShipped := h.isShipped
  decoded := by
    rw [Reply.material, h.decoded]
    rfl
  bounds := h.bounds
  final := fun hfollows => hfinal (followsUp_iff.mpr hfollows)

/-- The entry is concluded and, if it is a tombstone that nothing keeps, dropped. -/
theorem adjust_leaves (hfinal : ¬ s.FollowsUp c result) (octets : Bytes) (next : Nat)
    (kept : Bool) : s.keyring.adjust c.key (c.leaves result octets kept) =
      s.keyring.adjust c.key fun entry => entry.bind fun e =>
        e.afterReply c result octets next kept := by
  refine s.keyring.adjust_congr ?_
  rcases he : s.keyring.get? c.key with _ | e
  · rfl
  have hkept : (some e).filter (fun e => e.status ≠ .deleted || kept) =
      if e.status = .deleted ∧ kept = false then none else some e := by
    split_ifs with hdropped
    · exact Option.filter_some_neg (by simp [hdropped])
    · exact Option.filter_some_pos (by simpa [or_iff_not_imp_left] using hdropped)
  simp only [Command.leaves, Option.map_some, Option.bind_some, Entry.concluded, Command.change,
    Entry.afterReply, ← yieldsKey_iff]
  by_cases hyields : c.kind.yieldsKey = true
  · by_cases hwaits : e.status = .pending ∧ e.lastSequence = c.sequence
    · rw [if_pos hwaits, if_pos hyields, if_pos (And.intro hyields hwaits)]
      cases result with
      | success | failure => rfl
      | notFound =>
        have hkind : c.kind ≠ .search := fun hkind => hfinal ⟨hkind, rfl, e, he, hwaits⟩
        dsimp only
        rw [if_neg hkind, if_neg hkind]
        rfl
    · rw [if_neg hwaits, if_neg fun h => hwaits h.2, hkept]
  · have hnot : ¬ (c.kind.yieldsKey = true ∧ e.status = .pending ∧ e.lastSequence = c.sequence) :=
      fun h => hyields h.1
    simp only [if_neg hyields, if_neg hnot, id_eq, ite_self, hkept]

/-- Where a generation follows, the entry waits for it from then on. -/
theorem repoint_eq_adjust (h : s.FollowsUp c result) (octets : Bytes) (next : Nat) (kept : Bool) :
    s.keyring.repoint c.key c.sequence next =
      s.keyring.adjust c.key fun entry => entry.bind fun e =>
        e.afterReply c result octets next kept := by
  obtain ⟨hkind, rfl, e, he, hwaits⟩ := h
  rw [Keyring.repoint, Keyring.settle_eq_adjust]
  refine s.keyring.adjust_congr ?_
  simp only [he, Option.map_some, Option.bind_some, Entry.afterReply, if_pos hwaits,
    if_pos (And.intro (Or.inl hkind) hwaits), if_pos hkind]

/-- A search that found nothing lets its entry wait for the generation of the key, if that can be
queued. -/
theorem settle_of_followsUp (h : s.FollowsUp c result) (octets : Bytes) :
    s.settle c result octets = (do
      let (next, t) ← s.enqueue .generate c.key []
      .ok (some next, { t with keyring := t.keyring.repoint c.key c.sequence next })) := by
  obtain ⟨hkind, rfl, hpending⟩ := followsUp_iff.mp h
  simp only [settle, hkind, CommandKind.yieldsKey, hpending, if_true]

/-- The tombstone of a key is kept by any command for the key. -/
theorem collect_of_references {key : KeyRef} (h : s.outbox.references key = true) :
    s.collect key = s := by
  rcases collect_cases s key with ⟨heq, -⟩ | ⟨-, hunreferenced, -⟩
  · exact heq
  · cases h.symm.trans hunreferenced

/-! ### Acceptance and effect -/

/-- **An admissible reply is accepted**, and this is what it does. -/
theorem answer_of_admits (hs : s.Sound) (h : s.Admits reply c octets) :
    s.answer reply octets =
      .ok (s.acknowledge c reply.result, s.replied c reply.result octets) := by
  have hget := hs.outbox.get?_eq_some_iff.mpr ⟨h.command, h.sequence⟩
  rw [acknowledge, replied, h.sequence]
  by_cases hfollows : s.FollowsUp c reply.result
  · have hroom := h.room hfollows
    have hcheck := checkMaterial_of_bounds hget h.bounds
    let t : Custody := { s with outbox := s.outbox.without reply.sequence }
    have hdepth : t.outbox.depth + 1 = s.outbox.depth := Outbox.depth_without hget
    have hplace : t.outbox.depth < s.outbox.capacity := by omega
    -- the generation takes the place of the search, and keeps the entry
    have hsettle : t.settle (answered c reply.result) reply.result octets =
        .ok (some s.outbox.nextSequence, t.followUp c) := by
      have hfollows : t.FollowsUp (answered c reply.result) reply.result := hfollows
      rw [settle_of_followsUp hfollows, enqueue_of_room hplace]
      rfl
    have hreferenced : (t.followUp c).outbox.references c.key = true := by
      simp [followUp, Outbox.references, Outbox.push]
    rw [answer_of_shipped hget h.isShipped hcheck, hsettle, if_pos hfollows, if_pos hfollows,
      ← repoint_eq_adjust hfollows]
    simp only [bind, Except.bind, collect_of_references hreferenced]
    rfl
  · have hconcludes := h.concludes hs hfollows
    rw [answer_of_concludes hconcludes, conclude_eq hget hconcludes.decoded, if_neg hfollows,
      if_neg hfollows, adjust_leaves hfollows _ s.outbox.nextSequence]
    rfl

/-- **Only admissible replies are accepted**. -/
theorem admits_of_answer (hs : s.Sound) (hdecoded : Hex.decode reply.payload = .ok octets)
    {receipt : Receipt} (h : s.answer reply octets = .ok (receipt, t)) :
    ∃ c, s.Admits reply c octets := by
  obtain ⟨c, -, -, hget, hshipped, hbounds, -⟩ := answer_eq_ok h
  obtain ⟨hc, hseq⟩ := hs.outbox.get?_eq_some_iff.mp hget
  refine ⟨c, hc, hseq, CommandStatus.isShipped_iff.mp hshipped, hdecoded,
    fun hkind => hbounds ((yieldsKey_iff _).mpr hkind), fun hfollows => ?_⟩
  rw [answer_of_shipped hget hshipped (checkMaterial_of_bounds hget hbounds)] at h
  obtain ⟨⟨next, u⟩, hsettle, -⟩ := bind_eq_ok h
  have hfollows : FollowsUp { s with outbox := s.outbox.without reply.sequence }
    (answered c reply.result) reply.result := hfollows
  -- the generation was queued, so there was room for it
  rw [settle_of_followsUp hfollows] at hsettle
  obtain ⟨⟨n, v⟩, henqueue, -⟩ := bind_eq_ok hsettle
  obtain ⟨⟨m, q⟩, henqueue, -⟩ := bind_eq_ok henqueue
  obtain ⟨hroom, -, -⟩ := Outbox.enqueue_eq_ok henqueue
  have hdepth := Outbox.depth_without hget
  change (s.outbox.without reply.sequence).depth < s.outbox.capacity at hroom
  omega

/-! ### The state after a reply -/

/-- The answered command leaves the outbox, and a generation that follows it is the last there. -/
theorem commands_replied (hs : s.Sound) (c : Command) (result : ReplyResult) (octets : Bytes) :
    (s.replied c result octets).outbox.commands =
      s.outbox.commands.filter (·.sequence ≠ c.sequence) ++
        if s.FollowsUp c result then
          [⟨s.outbox.nextSequence, .generate, c.key, [], .queued, 0⟩] else [] := by
  rw [replied, ← hs.outbox.commands_without]
  split_ifs
  · rfl
  · exact (List.append_nil _).symm

/-- The entry of the key of the answered command changes, and no other. -/
theorem get?_replied (s : Custody) (c : Command) (result : ReplyResult) (octets : Bytes)
    (key : KeyRef) : (s.replied c result octets).keyring.get? key =
      if key = c.key then (s.keyring.get? c.key).bind fun e =>
        e.afterReply c result octets s.outbox.nextSequence
          ((s.outbox.without c.sequence).references c.key)
      else s.keyring.get? key :=
  Keyring.get?_adjust ..

end Custody

end KeyCustody
