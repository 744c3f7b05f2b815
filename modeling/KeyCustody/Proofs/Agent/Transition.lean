import KeyCustody.Proofs.Agent.Call
import KeyCustody.Proofs.Custody.Soundness

/-!
# The transitions that calls commit

`Custody.Transition` lists the transitions that a call can commit, with the conditions under which
it does. Whatever is true of all of them is proved by going through the list once: they keep the
state sound (`Custody.Transition.sound`), the outbox goes on (`Custody.Transition.follows`), and an
entry that waits or is ready afterwards was so before, waits for a new command, or has just got its
material (`Custody.Transition.origin`).

Sequence numbers have 64 bits in a snapshot. That a run stays away from their end is its one proviso
(`Outbox.NumbersLast`). No call uses more numbers than its outbox has places
(`Custody.Transition.nextSequence_le`), so as long as numbers last they do not run out in a call.
-/

namespace KeyCustody

/-- The transitions that calls commit, where `limit` is the limit on the age of commands. -/
inductive Custody.Transition (limit : Option Nat) (s : Custody) : Call → Answer → Custody → Prop
  | register {measurements : List Measurement} (hne : measurements ≠ [])
      (hlength : measurements.length ≤ Measurement.maxPerRegistration) :
    Transition limit s (.register measurements) (.count (s.register measurements).1)
      (s.register measurements).2
  | search {key : KeyRef} {outcome : Lookup} {t : Custody}
      (hid : KeyRef.isValidId key.id = true) (hverified : s.gate.isVerified key.owner = true)
      (hmiss : s.cached? key = none) (hs : s.search key = .ok (outcome, t)) :
    Transition limit s (.search key) (.lookup outcome) t
  | generate {key : KeyRef} {attributes : Bytes} {outcome : Lookup} {t : Custody}
      (hid : KeyRef.isValidId key.id = true) (hverified : s.gate.isVerified key.owner = true)
      (hattributes : attributes.length ≤ Anchor.maxKeySize)
      (hmiss : s.cached? key = none) (hs : s.generate key attributes = .ok (outcome, t)) :
    Transition limit s (.generate key attributes) (.lookup outcome) t
  | delete {key : KeyRef} {n : Nat} {t : Custody}
      (hid : KeyRef.isValidId key.id = true) (hverified : s.gate.isVerified key.owner = true)
      (hs : s.delete key = .ok (n, t)) :
    Transition limit s (.delete key) (.sequence n) t
  | destroy {key : KeyRef} {n : Nat} {t : Custody}
      (hid : KeyRef.isValidId key.id = true) (hverified : s.gate.isVerified key.owner = true)
      (hs : s.destroy key = .ok (n, t)) :
    Transition limit s (.destroy key) (.sequence n) t
  | exit {ta : Uuid} {n : Nat} {t : Custody} (hverified : s.gate.isVerified ta = true)
      (hs : s.exit ta = .ok (n, t)) :
    Transition limit s (.exit ta) (.count n) t
  | poll {count : Nat} {accept : Bytes → Except Fault Unit} {outcome : Polled} {t : Custody}
      (hs : s.poll count limit = .ok (outcome, t))
      (haccept : accept outcome.batch.encode = .ok ()) :
    Transition limit s (.poll count accept) (.polled outcome) t
  | submit {reply : Reply} {material : Bytes} {outcome : Receipt} {t : Custody}
      (hmaterial : reply.material = .ok material)
      (hs : s.answer reply material = .ok (outcome, t)) :
    Transition limit s (.submit reply) (.receipt outcome) t

/-- Whether a call is to end a key: its deletion, its destruction or the end of its application. -/
inductive Call.Strikes (key : KeyRef) : Call → Prop
  | delete : Strikes key (.delete key)
  | destroy : Strikes key (.destroy key)
  | exit : Strikes key (.exit key.owner)

/-- The proviso of every run, that sequence numbers do not come to an end: there are enough of them
for one more call, whatever call it is. -/
def Outbox.NumbersLast (q : Outbox) : Prop :=
  q.nextSequence + Settings.queueDepthCeiling < sequenceBound

namespace Outbox

instance (q : Outbox) : Decidable q.NumbersLast := Nat.decLt _ _

theorem NumbersLast.mono {q q' : Outbox} (h : q'.NumbersLast)
    (hle : q.nextSequence ≤ q'.nextSequence) : q.NumbersLast :=
  Nat.lt_of_le_of_lt (Nat.add_le_add_right hle _) h

theorem NumbersLast.nextSequence_lt {q : Outbox} (h : q.NumbersLast) :
    q.nextSequence < sequenceBound :=
  Nat.lt_of_le_of_lt (Nat.le_add_right _ _) h

end Outbox

namespace Custody

variable {limit : Option Nat} {s t : Custody} {call : Call} {answer : Answer}

/-! ### What all transitions keep -/

/-- **Soundness is kept** by every transition. -/
theorem Transition.sound (h : s.Transition limit call answer t) (hs : s.Sound) : t.Sound := by
  cases h with
  | register => exact hs.withGate _
  | search hid _ _ h => exact hs.search hid h
  | generate hid _ hattributes _ h => exact hs.generate hid hattributes h
  | delete hid _ h => exact hs.delete hid h
  | destroy hid _ h => exact hs.destroy hid h
  | exit _ h => exact hs.exit h
  | poll h _ => exact hs.poll h
  | submit _ h => exact hs.answer h

@[simp]
theorem outbox_retire (s : Custody) (key : KeyRef) (sequence : Nat) :
    (s.retire key sequence).outbox = s.outbox := by
  rw [retire]
  split_ifs <;> rfl

private theorem follows_issue (s : Custody) (kind : CommandKind) (key : KeyRef) (payload : Bytes)
    (status : KeyStatus) : s.outbox.Follows (s.issue kind key payload status).outbox :=
  .push s.outbox kind key payload

private theorem follows_destroyAll {ta : Uuid} {ids : List String}
    (h : s.destroyAll ta ids = .ok t) : s.outbox.Follows t.outbox := by
  induction ids generalizing s with
  | nil =>
    obtain rfl := Except.ok.inj h
    exact .refl _
  | cons id rest ih =>
    obtain ⟨n, u, hu, h⟩ := destroyAll_cons_eq_ok h
    obtain ⟨-, -, rfl⟩ := destroy_eq_ok hu
    exact ((follows_issue _ _ _ _ _).trans (follows_issue _ _ _ _ _)).trans (ih h)

/-- After every transition the outbox goes on from what it was. -/
theorem Transition.follows (h : s.Transition limit call answer t) :
    s.outbox.Follows t.outbox := by
  cases h with
  | register => exact .refl _
  | search _ _ _ h =>
    rcases search_eq_ok h with ⟨e, -, -, -, rfl⟩ | ⟨-, -, rfl⟩
    · rw [outbox_retire]
      exact .refl _
    · exact follows_issue _ _ _ _ _
  | generate _ _ _ _ h =>
    obtain ⟨-, -, rfl⟩ := request_eq_ok h
    exact follows_issue _ _ _ _ _
  | delete _ _ h =>
    obtain ⟨-, -, rfl⟩ := strike_eq_ok h
    exact follows_issue _ _ _ _ _
  | destroy _ _ h =>
    obtain ⟨-, -, rfl⟩ := destroy_eq_ok h
    exact (follows_issue _ _ _ _ _).trans (follows_issue _ _ _ _ _)
  | exit _ h =>
    obtain ⟨u, hu, -, rfl⟩ := exit_eq_ok h
    exact (follows_destroyAll hu :)
  | poll h _ =>
    obtain ⟨draw, q, hdraw, -, rfl⟩ := poll_eq_ok h
    obtain ⟨-, -, rfl, -⟩ := Outbox.draw_eq_ok hdraw
    rw [outbox_foldl_expire]
    exact .drawn _ _ _
  | submit _ h =>
    obtain ⟨c, next, u, -, -, -, hsettled, -, rfl⟩ := answer_eq_ok h
    rw [outbox_collect]
    cases hsettled with
    | ready | kept | failed => exact .without _ _
    | followUp => exact (Outbox.Follows.without _ _).trans (.push _ _ _ _)

/-! ### The numbers that a transition uses -/

theorem numbersLast_fresh (capacity : Nat) : (fresh capacity).outbox.NumbersLast :=
  (by decide : 1 + Settings.queueDepthCeiling < Outbox.sequenceBound)

theorem numbersLast_freshAfter (hs : s.Sound) (h : s.outbox.NumbersLast) (capacity : Nat) :
    (freshAfter capacity s).outbox.NumbersLast :=
  h.mono (Nat.le_of_eq (nextSequence_freshAfter hs capacity))

/-- The keys of a list are destroyed only if there is a place for each command. -/
private theorem nextSequence_destroyAll_le {ta : Uuid} {ids : List String}
    (h : s.destroyAll ta ids = .ok t) : t.outbox.nextSequence + s.outbox.depth ≤
      s.outbox.nextSequence + max s.outbox.depth s.outbox.capacity := by
  induction ids generalizing s with
  | nil =>
    obtain rfl := Except.ok.inj h
    omega
  | cons id rest ih =>
    obtain ⟨n, u, hu, h⟩ := destroyAll_cons_eq_ok h
    obtain ⟨hroom, -, rfl⟩ := destroy_eq_ok hu
    have hrest := ih h
    simp only [depth_issue, nextSequence_issue, capacity_issue] at hrest
    omega

/-- No transition uses more numbers than the outbox has places. -/
theorem Transition.nextSequence_le (h : s.Transition limit call answer t) :
    t.outbox.nextSequence ≤ s.outbox.nextSequence + s.outbox.capacity := by
  cases h with
  | register => exact Nat.le_add_right _ _
  | search _ _ _ h =>
    rcases search_eq_ok h with ⟨e, -, -, -, rfl⟩ | ⟨hroom, -, rfl⟩
    · rw [outbox_retire]
      exact Nat.le_add_right _ _
    · rw [nextSequence_issue]
      omega
  | generate _ _ _ _ h =>
    obtain ⟨hroom, -, rfl⟩ := request_eq_ok h
    rw [nextSequence_issue]
    omega
  | delete _ _ h =>
    obtain ⟨hroom, -, rfl⟩ := strike_eq_ok h
    rw [nextSequence_issue]
    omega
  | destroy _ _ h =>
    obtain ⟨hroom, -, rfl⟩ := destroy_eq_ok h
    rw [nextSequence_issue, nextSequence_issue]
    omega
  | exit _ h =>
    obtain ⟨u, hu, -, rfl⟩ := exit_eq_ok h
    have hnumbers := nextSequence_destroyAll_le hu
    dsimp only
    omega
  | poll h _ =>
    obtain ⟨draw, q, hdraw, -, rfl⟩ := poll_eq_ok h
    obtain ⟨-, -, rfl, -⟩ := Outbox.draw_eq_ok hdraw
    rw [outbox_foldl_expire]
    exact Nat.le_add_right _ _
  | submit _ h =>
    obtain ⟨c, next, u, -, -, -, hsettled, -, rfl⟩ := answer_eq_ok h
    rw [outbox_collect]
    cases hsettled with
    | ready | kept | failed => exact Nat.le_add_right _ _
    | followUp _ _ _ hroom =>
      have hcapacity : 0 < s.outbox.capacity := Nat.zero_lt_of_lt hroom
      exact Nat.add_le_add_left hcapacity s.outbox.nextSequence

/-! ### Where entries come from -/

/-- Where an entry that waits or is ready comes from: it was there before, it waits for a command
with a new number, or the reply to the command it waited for has brought its material. -/
inductive Origin (s : Custody) (call : Call) (key : KeyRef) (e : Entry) : Prop
  | kept (hbefore : s.keyring.get? key = some e) (hcall : ¬ call.Strikes key)
  | issued (hstatus : e.status = .pending) (hnew : s.outbox.nextSequence ≤ e.lastSequence)
      (hcall : ¬ call.Strikes key)
  | granted {reply : Reply} {material : Bytes} {c : Command} {before : Entry}
      (hstatus : e.status = .ready) (hcall : call = .submit reply)
      (hresult : reply.result = .success) (hdecode : reply.material = .ok material)
      (hmaterial : e.material = some material) (hc : s.outbox.get? reply.sequence = some c)
      (hbefore : s.keyring.get? key = some before) (hwaits : before.status = .pending)
      (hlast : before.lastSequence = c.sequence)

variable {key other : KeyRef} {e : Entry} {next : Nat}

theorem get?_issue (h : s.keyring.WellFormed next) (kind : CommandKind) (payload : Bytes)
    (status : KeyStatus) :
    (s.issue kind key payload status).keyring.get? other =
      if other = key then some ⟨key, none, status, s.outbox.nextSequence⟩
      else s.keyring.get? other := by
  rw [issue, h.reset_eq, Keyring.get?_file]

private theorem get?_retire (h : s.keyring.WellFormed next) {sequence : Nat}
    (he : (s.retire key sequence).keyring.get? other = some e) :
    e.status = .deleted ∨ s.keyring.get? other = some e := by
  rw [retire] at he
  split_ifs at he
  · rw [Keyring.markDeleted, h.reset_eq, Keyring.get?_file] at he
    split_ifs at he
    · exact .inl (by rw [← Option.some.inj he])
    · exact .inr he
  · rw [Keyring.get?_remove] at he
    split_ifs at he
    exact .inr he

/-- Settling changes the entry that waits for a command, and no other. -/
theorem get?_settle {sequence : Nat} {change : Entry → Entry}
    (he : (s.keyring.settle key sequence change).get? other = some e) :
    s.keyring.get? other = some e ∨
      ∃ before, other = key ∧ s.keyring.get? key = some before ∧ before.status = .pending ∧
        before.lastSequence = sequence ∧ e = change before := by
  rcases hp : s.keyring.isPendingOn key sequence
  · rw [Keyring.settle_of_not_isPendingOn hp] at he
    exact .inl he
  · obtain ⟨before, hbefore, hstatus, hlast, heq⟩ := Keyring.settle_of_isPendingOn hp change
    rw [heq, Keyring.get?_file] at he
    split_ifs at he with hother
    · exact .inr ⟨before, hother, hbefore, hstatus, hlast, (Option.some.inj he).symm⟩
    · exact .inl he

/-- Giving commands up lets entries fail and drops tombstones. -/
theorem get?_foldl_expire {due : List Command}
    (he : (due.foldl expire s).keyring.get? other = some e) :
    e.status = .failed ∨ s.keyring.get? other = some e := by
  induction due generalizing s with
  | nil => exact .inr he
  | cons c due ih =>
    rcases ih he with hfailed | he
    · exact .inl hfailed
    rcases get?_settle (get?_of_get?_collect he) with he | ⟨before, -, -, -, -, rfl⟩
    · exact .inr he
    · exact .inl rfl

/-- The live keys of an application are those whose entries are not tombstones. -/
theorem mem_liveIds (h : s.keyring.WellFormed next) {ta : Uuid} {id : String} :
    id ∈ s.liveIds ta ↔ ∃ e, s.keyring.get? ⟨ta, id⟩ = some e ∧ e.status ≠ .deleted := by
  rw [liveIds, List.mem_filter]
  constructor
  · rintro ⟨-, hlive⟩
    rcases he : s.keyring.get? ⟨ta, id⟩ with _ | e
    · simp [he] at hlive
    · exact ⟨e, rfl, by simpa [he] using hlive⟩
  · rintro ⟨e, he, hstatus⟩
    have hkey := h.key_eq he
    refine ⟨List.mem_map.mpr ⟨e, List.mem_filter.mpr ⟨?_, ?_⟩, by rw [hkey]⟩, by simp [he, hstatus]⟩
    · exact h.mem_toList.mpr (by rwa [hkey])
    · simp [hkey]

/-- After the destruction of a key an entry is a tombstone, or it is another and as before. -/
private theorem get?_destroy {n : Nat} (hs : s.Sound) (hid : KeyRef.isValidId key.id = true)
    (h : s.destroy key = .ok (n, t)) (he : t.keyring.get? other = some e) :
    e.status = .deleted ∨ (s.keyring.get? other = some e ∧ other ≠ key) := by
  obtain ⟨-, -, rfl⟩ := destroy_eq_ok h
  have hburied := hs.bury .delete hid
  rw [get?_issue hburied.keyring] at he
  split_ifs at he with hother
  · exact .inl (by rw [← Option.some.inj he])
  · rw [get?_issue hs.keyring, if_neg hother] at he
    exact .inr ⟨he, hother⟩

/-- After the destruction of the keys of a list an entry is a tombstone, or its key is not on the
list and it is as before. -/
theorem get?_destroyAll {ta : Uuid} {ids : List String} (hs : s.Sound)
    (hids : ∀ id ∈ ids, KeyRef.isValidId id = true) (h : s.destroyAll ta ids = .ok t)
    (he : t.keyring.get? other = some e) :
    e.status = .deleted ∨
      (s.keyring.get? other = some e ∧ ¬ (other.owner = ta ∧ other.id ∈ ids)) := by
  induction ids generalizing s with
  | nil =>
    obtain rfl := Except.ok.inj h
    exact .inr ⟨he, by simp⟩
  | cons id rest ih =>
    obtain ⟨n, u, hu, h⟩ := destroyAll_cons_eq_ok h
    have hid : KeyRef.isValidId (KeyRef.mk ta id).id = true := hids id (List.mem_cons_self ..)
    have hsound := hs.destroy hid hu
    rcases ih hsound (fun id hid => hids id (List.mem_cons_of_mem _ hid)) h with
      hdeleted | ⟨hrest, hnot⟩
    · exact .inl hdeleted
    rcases get?_destroy hs hid hu hrest with hdeleted | ⟨he, hne⟩
    · exact .inl hdeleted
    refine .inr ⟨he, fun ⟨howner, hmem⟩ => ?_⟩
    rcases List.mem_cons.mp hmem with hfirst | hmem
    · exact hne (by rw [← howner, ← hfirst])
    · exact hnot ⟨howner, hmem⟩

/-- The end of an application leaves none of its entries waiting or ready. -/
private theorem get?_exit {ta : Uuid} {n : Nat} (hs : s.Sound) (h : s.exit ta = .ok (n, t))
    (he : t.keyring.get? other = some e) :
    e.status = .deleted ∨ (s.keyring.get? other = some e ∧ other.owner ≠ ta) := by
  obtain ⟨u, hu, -, rfl⟩ := exit_eq_ok h
  rcases get?_destroyAll hs (fun _ hid => hs.isValidId_of_mem_liveIds hid) hu he with
    hdeleted | ⟨hbefore, hnot⟩
  · exact .inl hdeleted
  by_cases hstatus : e.status = .deleted
  · exact .inl hstatus
  -- a live key of the application is on the list of those that are destroyed
  refine .inr ⟨hbefore, fun howner => hnot ⟨howner, (mem_liveIds hs.keyring).mpr ⟨e, ?_, hstatus⟩⟩⟩
  rwa [← howner]

/-- **Where entries come from**: an entry that waits or is ready after a transition was there before
and its key was not struck, waits for a new command, or has just got its material. -/
theorem Transition.origin (h : s.Transition limit call answer t) (hs : s.Sound)
    (he : t.keyring.get? key = some e) (hlive : e.status = .pending ∨ e.status = .ready) :
    s.Origin call key e := by
  -- tombstones and failed entries, which most transitions may leave, are out of question
  have hnotDeleted : e.status ≠ .deleted := by rcases hlive with h | h <;> rw [h] <;> nofun
  have hnotFailed : e.status ≠ .failed := by rcases hlive with h | h <;> rw [h] <;> nofun
  cases h with
  | register => exact .kept he nofun
  | search _ _ _ h =>
    rcases search_eq_ok h with ⟨f, -, -, -, rfl⟩ | ⟨-, -, rfl⟩
    · rcases get?_retire hs.keyring he with hdeleted | hbefore
      · exact absurd hdeleted hnotDeleted
      · exact .kept hbefore nofun
    · rw [get?_issue hs.keyring] at he
      split_ifs at he
      · obtain rfl := Option.some.inj he
        exact .issued rfl (Nat.le_refl _) nofun
      · exact .kept he nofun
  | generate _ _ _ _ h =>
    obtain ⟨-, -, rfl⟩ := request_eq_ok h
    rw [get?_issue hs.keyring] at he
    split_ifs at he
    · obtain rfl := Option.some.inj he
      exact .issued rfl (Nat.le_refl _) nofun
    · exact .kept he nofun
  | delete _ _ h =>
    obtain ⟨-, -, rfl⟩ := strike_eq_ok h
    rw [get?_issue hs.keyring] at he
    split_ifs at he with hkey
    · exact absurd (by rw [← Option.some.inj he]) hnotDeleted
    · exact .kept he fun hstrikes => by
        cases hstrikes
        exact hkey rfl
  | destroy hid _ h =>
    rcases get?_destroy hs hid h he with hdeleted | ⟨hbefore, hkey⟩
    · exact absurd hdeleted hnotDeleted
    · exact .kept hbefore fun hstrikes => by
        cases hstrikes
        exact hkey rfl
  | exit _ h =>
    rcases get?_exit hs h he with hdeleted | ⟨hbefore, howner⟩
    · exact absurd hdeleted hnotDeleted
    · exact .kept hbefore fun hstrikes => by
        cases hstrikes
        exact howner rfl
  | poll h _ =>
    obtain ⟨draw, q, -, -, rfl⟩ := poll_eq_ok h
    rcases get?_foldl_expire he with hfailed | hbefore
    · exact absurd hfailed hnotFailed
    · exact .kept hbefore nofun
  | submit hdecode h =>
    -- dropping a tombstone gives no entry, so only the settling matters
    obtain ⟨c, next, u, hc, -, -, hsettled, -, rfl⟩ := answer_eq_ok h
    have he := get?_of_get?_collect he
    cases hsettled with
    | ready _ hresult =>
      rcases get?_settle he with hbefore | ⟨before, rfl, hbefore, hwaits, hlast, rfl⟩
      · exact .kept hbefore nofun
      · exact .granted rfl rfl hresult hdecode rfl hc hbefore hwaits hlast
    | followUp =>
      rcases get?_settle he with hbefore | ⟨before, rfl, -, hwaits, -, rfl⟩
      · exact .kept hbefore nofun
      · exact .issued hwaits (Nat.le_refl _) nofun
    | kept => exact .kept he nofun
    | failed =>
      rcases get?_settle he with hbefore | ⟨before, -, -, -, -, rfl⟩
      · exact .kept hbefore nofun
      · exact absurd rfl hnotFailed

end Custody

end KeyCustody
