import KeyCustody.Proofs.Agent.Transition
import KeyCustody.Proofs.Outbox.Traffic

/-!
# Room in the outbox

A computation lacks room (`LacksRoom`) if it is refused because the outbox holds as many commands as
its bound allows. For each transition that queues commands this says when exactly it happens: a
destruction needs room for two commands and the end of an application for two of each live key
(`Custody.lacksRoom_destroy`, `Custody.lacksRoom_exit`), and a reply needs room only where a search
that found nothing is followed by a generation, which takes the place of the search
(`Custody.lacksRoom_answer`).

Where there is room, the transition succeeds. No transition takes the outbox beyond its bound
(`Custody.Transition.depth_le`).
-/

namespace KeyCustody

/-- Whether a computation is refused for want of room in the outbox. -/
def LacksRoom {α : Type} (x : Except Fault α) : Prop := ∃ depth, x = .error (.queueFull depth)

@[simp]
theorem not_lacksRoom_ok {α : Type} (a : α) : ¬ LacksRoom (.ok a) := by
  simp [LacksRoom]

@[simp]
theorem lacksRoom_error {α : Type} {fault : Fault} :
    LacksRoom (.error fault : Except Fault α) ↔ ∃ depth, fault = .queueFull depth := by
  simp [LacksRoom]

theorem not_lacksRoom_of_eq_ok {α : Type} {x : Except Fault α} {a : α} (h : x = .ok a) :
    ¬ LacksRoom x :=
  h ▸ not_lacksRoom_ok a

/-- A computation in steps lacks room if its first step does, or the others do after it. -/
theorem lacksRoom_bind {α β : Type} {x : Except Fault α} {f : α → Except Fault β} :
    LacksRoom (x >>= f) ↔ LacksRoom x ∨ ∃ a, x = .ok a ∧ LacksRoom (f a) := by
  rcases x with fault | a
  · have hbind : (Except.error fault >>= f) = .error fault := rfl
    simp [hbind, LacksRoom]
  · have hbind : (Except.ok a >>= f) = f a := rfl
    simp [hbind]

/-- Steps that never lack room play no part in whether a computation does. -/
theorem lacksRoom_bind_ok {α β : Type} {x : Except Fault α} {f : α → β} :
    LacksRoom (x >>= fun a => .ok (f a)) ↔ LacksRoom x := by
  simp [lacksRoom_bind]

namespace Outbox

variable {q : Outbox} {kind : CommandKind} {key : KeyRef} {payload : Bytes}

theorem lacksRoom_enqueue : LacksRoom (q.enqueue kind key payload) ↔ q.capacity ≤ q.depth := by
  rw [enqueue]
  split_ifs with hfull
  · exact iff_of_true ⟨_, rfl⟩ hfull
  · exact iff_of_false (not_lacksRoom_ok _) hfull

theorem enqueue_of_room (hroom : q.depth < q.capacity) :
    q.enqueue kind key payload = .ok (q.nextSequence, q.push kind key payload) :=
  if_neg (Nat.not_le.mpr hroom)

end Outbox

namespace Custody

variable {s t : Custody} {kind : CommandKind} {key : KeyRef} {payload : Bytes} {c : Command}
  {result : ReplyResult} {reply : Reply} {material : Bytes}

/-! ### One command -/

theorem lacksRoom_enqueue :
    LacksRoom (s.enqueue kind key payload) ↔ s.outbox.capacity ≤ s.outbox.depth :=
  lacksRoom_bind_ok.trans Outbox.lacksRoom_enqueue

theorem enqueue_of_room (hroom : s.outbox.depth < s.outbox.capacity) :
    s.enqueue kind key payload =
      .ok (s.outbox.nextSequence, { s with outbox := s.outbox.push kind key payload }) := by
  rw [enqueue, Outbox.enqueue_of_room hroom]
  rfl

theorem lacksRoom_request :
    LacksRoom (s.request kind key payload) ↔ s.outbox.capacity ≤ s.outbox.depth :=
  lacksRoom_bind_ok.trans lacksRoom_enqueue

theorem lacksRoom_strike : LacksRoom (s.strike kind key) ↔ s.outbox.capacity ≤ s.outbox.depth :=
  lacksRoom_bind_ok.trans lacksRoom_enqueue

theorem strike_of_room (hroom : s.outbox.depth < s.outbox.capacity) :
    s.strike kind key = .ok (s.outbox.nextSequence, s.issue kind key [] .deleted) := by
  rw [strike, enqueue_of_room hroom]
  rfl

/-- A lookup tells of a failure, for which it needs no room, or queues a search. -/
theorem search_cases (s : Custody) (key : KeyRef) :
    (∃ e : Entry, s.search key = .ok (.failed, s.retire key e.lastSequence)) ∨
      s.search key = s.request .search key [] := by
  rw [search]
  split
  · split_ifs
    · exact .inl ⟨_, rfl⟩
    · exact .inr rfl
  · exact .inr rfl

theorem room_of_lacksRoom_search (h : LacksRoom (s.search key)) :
    s.outbox.capacity ≤ s.outbox.depth := by
  rcases search_cases s key with ⟨e, heq⟩ | heq
  · exact absurd h (not_lacksRoom_of_eq_ok heq)
  · exact lacksRoom_request.mp (heq ▸ h)

/-! ### Destructions -/

theorem destroy_of_room (hroom : s.outbox.depth + 1 < s.outbox.capacity) :
    s.destroy key = .ok (s.outbox.nextSequence + 1,
      (s.issue .delete key [] .deleted).issue .destroy key [] .deleted) := by
  have hfirst : s.strike .delete key = _ := strike_of_room (Nat.lt_of_succ_lt hroom)
  have hsecond := depth_issue s .delete key [] .deleted
  rw [destroy, hfirst]
  exact strike_of_room (hsecond ▸ hroom)

/-- A destruction lacks room if there is none for two commands. -/
theorem lacksRoom_destroy : LacksRoom (s.destroy key) ↔ s.outbox.capacity < s.outbox.depth + 2 := by
  rw [destroy, lacksRoom_bind, lacksRoom_strike]
  rcases Nat.lt_or_ge s.outbox.depth s.outbox.capacity with hfirst | hfull
  · -- the first command goes in, and the second finds one place less
    simp only [strike_of_room hfirst, Except.ok.injEq, exists_eq_left', lacksRoom_strike,
      depth_issue, capacity_issue]
    omega
  · exact iff_of_true (.inl hfull) (by omega)

/-- The destruction of several keys lacks room if there is none for two commands of each. -/
theorem lacksRoom_destroyAll {ta : Uuid} {ids : List String}
    (hroom : s.outbox.depth ≤ s.outbox.capacity) :
    LacksRoom (s.destroyAll ta ids) ↔ s.outbox.capacity < s.outbox.depth + 2 * ids.length := by
  induction ids generalizing s with
  | nil => exact iff_of_false (not_lacksRoom_ok _) (Nat.not_lt.mpr hroom)
  | cons id rest ih =>
    rw [destroyAll, lacksRoom_bind, lacksRoom_destroy, List.length_cons]
    by_cases hdestroy : s.outbox.depth + 1 < s.outbox.capacity
    · -- the first key is destroyed, and the others find two places less
      have hfirst : s.destroy ⟨ta, id⟩ = _ := destroy_of_room hdestroy
      simp only [hfirst, Except.ok.injEq, exists_eq_left']
      rw [ih (by simpa only [depth_issue, capacity_issue, Nat.add_one_le_iff] using hdestroy)]
      simp only [depth_issue, capacity_issue]
      omega
    · have hnone : ∀ a, s.destroy ⟨ta, id⟩ ≠ .ok a := fun a ha =>
        hdestroy (destroy_eq_ok (t := a.2) (n := a.1) ha).1
      simp only [hnone, false_and, exists_false, or_false]
      omega

theorem lacksRoom_exit {ta : Uuid} :
    LacksRoom (s.exit ta) ↔ LacksRoom (s.destroyAll ta (s.liveIds ta)) :=
  lacksRoom_bind_ok

/-! ### Replies -/

/-- Settling the entry of a command lacks room only where a generation is to follow a search. -/
theorem lacksRoom_settle : LacksRoom (s.settle c result material) ↔
    (c.kind = .search ∧ result = .notFound ∧ s.keyring.isPendingOn c.key c.sequence = true) ∧
      s.outbox.capacity ≤ s.outbox.depth := by
  cases hkind : c.kind <;> cases result <;>
    simp only [settle, hkind, CommandKind.yieldsKey, Bool.false_eq_true, if_true,
      reduceCtorEq, not_lacksRoom_ok, false_and, true_and, and_false, if_neg, not_false_eq_true]
  split_ifs with hpending
  · simp only [lacksRoom_bind_ok, lacksRoom_enqueue, hpending, true_and]
  · simp [hpending]

/-- Settling the entry of a command succeeds if a generation that is to follow a search has room. -/
theorem exists_settle (h : c.kind = .search → result = .notFound →
    s.outbox.depth < s.outbox.capacity) :
    ∃ next t, s.settle c result material = .ok (next, t) := by
  unfold settle
  by_cases hyields : c.kind.yieldsKey = true
  · rw [if_pos hyields]
    cases result with
    | success | failure => exact ⟨_, _, rfl⟩
    | notFound =>
      dsimp only
      by_cases hsearch : c.kind = .search
      · rw [if_pos hsearch, enqueue_of_room (h hsearch rfl)]
        split_ifs <;> exact ⟨_, _, rfl⟩
      · rw [if_neg hsearch]
        exact ⟨_, _, rfl⟩
  · rw [if_neg hyields]
    exact ⟨_, _, rfl⟩

/-- The material of a reply is checked only if the reply reports success. -/
theorem checkMaterial_of_ne_success (h : reply.result ≠ .success) :
    s.checkMaterial reply material = .ok () := by
  rw [checkMaterial]
  split
  · rw [if_neg (by simp [h])]
  · rfl

theorem checkMaterial_of_bounds (hc : s.outbox.get? reply.sequence = some c)
    (h : c.kind.yieldsKey = true → reply.result = .success →
      0 < material.length ∧ material.length ≤ Anchor.maxKeySize) :
    s.checkMaterial reply material = .ok () := by
  rw [checkMaterial, hc]
  refine if_neg ?_
  rintro ⟨hyields, hsuccess, hsize⟩
  have hbounds := h hyields hsuccess
  rw [List.isEmpty_iff_length_eq_zero] at hsize
  omega

/-- The command that a reply answers, with its last status. -/
def answered (c : Command) (result : ReplyResult) : Command :=
  { c with status := if completes c.kind result then .completed else .failed }

/-- A reply to a command that was handed out takes it out of the outbox and settles its entry. -/
theorem answer_of_shipped (hc : s.outbox.get? reply.sequence = some c)
    (hshipped : c.status.isShipped = true) (hcheck : s.checkMaterial reply material = .ok ()) :
    s.answer reply material = (do
      let (next, t) ← settle { s with outbox := s.outbox.without reply.sequence }
        (answered c reply.result) reply.result material
      .ok (⟨c.sequence, c.kind, (answered c reply.result).status, next⟩, t.collect c.key)) := by
  have hfinal : s.outbox.finalize reply.sequence (completes c.kind reply.result) =
      .ok (answered c reply.result, s.outbox.without reply.sequence) := by
    simp only [Outbox.finalize, hc]
    exact if_pos hshipped
  rw [answer, hcheck, hc]
  simp only [bind, Except.bind, hfinal]
  rfl

/-- **When a reply lacks room**: it says that the key of a search was not found, the entry waits for
this search, and the outbox holds more commands than its bound allows. -/
theorem lacksRoom_answer (hc : s.outbox.get? reply.sequence = some c)
    (hshipped : c.status.isShipped = true) : LacksRoom (s.answer reply material) ↔
    (c.kind = .search ∧ reply.result = .notFound ∧
      s.keyring.isPendingOn c.key c.sequence = true) ∧ s.outbox.capacity < s.outbox.depth := by
  rcases hcheck : s.checkMaterial reply material with fault | ⟨⟩
  · -- only a reply of success is refused for its material, and then for its size
    have hsuccess : reply.result = .success := by
      by_contra hne
      rw [checkMaterial_of_ne_success hne] at hcheck
      cases hcheck
    have hsize : ∃ cause, fault = .badBufferData cause := by
      rw [checkMaterial, hc] at hcheck
      dsimp only at hcheck
      split_ifs at hcheck
      exact ⟨_, (Except.error.inj hcheck).symm⟩
    obtain ⟨cause, rfl⟩ := hsize
    refine iff_of_false ?_ (by simp [hsuccess])
    rw [answer, hcheck]
    exact fun h => by simpa using lacksRoom_error.mp h
  · have hdepth := Outbox.depth_without hc
    rw [answer_of_shipped hc hshipped hcheck, lacksRoom_bind_ok, lacksRoom_settle]
    refine and_congr Iff.rfl ?_
    change s.outbox.capacity ≤ (s.outbox.without reply.sequence).depth ↔ _
    omega

/-- A reply to a command that was handed out is accepted if its material has an admissible size and
the outbox is within its bound. -/
theorem exists_answer (hc : s.outbox.get? reply.sequence = some c)
    (hshipped : c.status.isShipped = true)
    (hmaterial : c.kind.yieldsKey = true → reply.result = .success →
      0 < material.length ∧ material.length ≤ Anchor.maxKeySize)
    (hroom : s.outbox.depth ≤ s.outbox.capacity) :
    ∃ receipt t, s.answer reply material = .ok (receipt, t) := by
  have hdepth := Outbox.depth_without hc
  have hplace : (s.outbox.without reply.sequence).depth < s.outbox.capacity := by omega
  obtain ⟨next, u, hsettle⟩ :
      ∃ next u, settle { s with outbox := s.outbox.without reply.sequence }
        (answered c reply.result) reply.result material = .ok (next, u) :=
    exists_settle fun _ _ => hplace
  rw [answer_of_shipped hc hshipped (checkMaterial_of_bounds hc hmaterial), hsettle]
  exact ⟨_, _, rfl⟩

/-! ### How full the outbox gets -/

private theorem depth_destroyAll_le {ta : Uuid} {ids : List String}
    (h : s.destroyAll ta ids = .ok t) :
    t.outbox.depth ≤ max s.outbox.depth s.outbox.capacity := by
  induction ids generalizing s with
  | nil =>
    obtain rfl := Except.ok.inj h
    exact Nat.le_max_left _ _
  | cons id rest ih =>
    obtain ⟨n, u, hu, h⟩ := destroyAll_cons_eq_ok h
    obtain ⟨hroom, -, rfl⟩ := destroy_eq_ok hu
    refine (ih h).trans ?_
    simp only [depth_issue, capacity_issue]
    omega

private theorem depth_issue_le (hroom : s.outbox.depth < s.outbox.capacity) (kind : CommandKind)
    (key : KeyRef) (payload : Bytes) (status : KeyStatus) :
    (s.issue kind key payload status).outbox.depth ≤ max s.outbox.depth s.outbox.capacity := by
  rw [depth_issue]
  omega

/-- No transition takes the outbox beyond its bound, or further beyond it. -/
theorem Transition.depth_le {limit : Option Nat} {call : Call} {answer : Answer}
    (h : s.Transition limit call answer t) :
    t.outbox.depth ≤ max s.outbox.depth s.outbox.capacity := by
  cases h with
  | register => exact Nat.le_max_left _ _
  | search _ _ _ h =>
    rcases search_eq_ok h with ⟨e, -, -, -, rfl⟩ | ⟨hroom, -, rfl⟩
    · rw [outbox_retire]
      exact Nat.le_max_left _ _
    · exact depth_issue_le hroom _ _ _ _
  | generate _ _ _ _ h =>
    obtain ⟨hroom, -, rfl⟩ := request_eq_ok h
    exact depth_issue_le hroom _ _ _ _
  | delete _ _ h =>
    obtain ⟨hroom, -, rfl⟩ := strike_eq_ok h
    exact depth_issue_le hroom _ _ _ _
  | destroy _ _ h =>
    obtain ⟨hroom, -, rfl⟩ := destroy_eq_ok h
    rw [depth_issue, depth_issue]
    omega
  | exit _ h =>
    obtain ⟨u, hu, -, rfl⟩ := exit_eq_ok h
    exact (depth_destroyAll_le hu :)
  | @poll count _ _ _ h _ =>
    obtain ⟨draw, q, hdraw, -, rfl⟩ := poll_eq_ok h
    obtain ⟨-, -, rfl, -⟩ := Outbox.draw_eq_ok hdraw
    have hlength : (s.outbox.drawn count limit).depth = _ :=
      Outbox.length_drawn s.outbox count limit
    rw [outbox_foldl_expire]
    dsimp only
    omega
  | submit _ h =>
    -- a generation that is queued takes the place of the search that was answered
    obtain ⟨c, next, u, hc, -, -, hsettled, -, rfl⟩ := answer_eq_ok h
    have hdepth := Outbox.depth_without hc
    rw [outbox_collect]
    cases hsettled with
    | ready | kept | failed =>
      simp only [failEntry]
      omega
    | followUp =>
      simp only [followUp, Outbox.depth_push]
      omega

end Custody

end KeyCustody
