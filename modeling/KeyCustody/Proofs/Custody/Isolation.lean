import KeyCustody.Proofs.Agent.Transition

/-!
# What belongs to other keys

Two states are the same for keys of a kind (`Custody.SameFor`) if the entries of these keys are, and
the commands for them, in their order. Queuing a command, settling or dropping an entry and taking a
command out change what belongs to one key, and what is put together from such changes leaves all
other keys alone: a reply (`Custody.SameFor.answer`) and the calls of applications. The end of an
application leaves the keys of the others alone (`Custody.SameFor.exit`), and a poll the entries of
the keys for which no command expires (`Custody.exists_expired_of_poll`).
-/

namespace KeyCustody

/-- Whether a call is about one key: a call of an application for it, or the reply to a command for
it. -/
inductive Call.Concerns (s : Custody) (key : KeyRef) : Call → Prop
  | search : Concerns s key (.search key)
  | generate (attributes : Bytes) : Concerns s key (.generate key attributes)
  | delete : Concerns s key (.delete key)
  | destroy : Concerns s key (.destroy key)
  | submit {reply : Reply} {c : Command} (hc : s.outbox.get? reply.sequence = some c)
      (hkey : c.key = key) : Concerns s key (.submit reply)

namespace Custody

/-- Two states are the same for the keys of a kind: in the entries of these keys, and in the
commands for them and their order. -/
structure SameFor (p : KeyRef → Prop) [DecidablePred p] (s t : Custody) : Prop where
  entries : ∀ key, p key → t.keyring.get? key = s.keyring.get? key
  commands : t.outbox.commands.filter (fun c => p c.key) =
    s.outbox.commands.filter fun c => p c.key

namespace SameFor

variable {p : KeyRef → Prop} [DecidablePred p] {s t u : Custody} {key : KeyRef}

theorem refl (s : Custody) : s.SameFor p s := ⟨fun _ _ => rfl, rfl⟩

theorem trans (h : s.SameFor p t) (h' : t.SameFor p u) : s.SameFor p u where
  entries key hkey := (h'.entries key hkey).trans (h.entries key hkey)
  commands := h'.commands.trans h.commands

/-! ### Single changes -/

theorem adjust (s : Custody) (hkey : ¬ p key) (change : Option Entry → Option Entry) :
    s.SameFor p { s with keyring := s.keyring.adjust key change } where
  entries other hother := by
    have hne : other ≠ key := fun heq => hkey (heq ▸ hother)
    rw [Keyring.get?_adjust, if_neg hne]
  commands := rfl

theorem settle (s : Custody) (hkey : ¬ p key) (sequence : Nat) (change : Entry → Entry) :
    s.SameFor p { s with keyring := s.keyring.settle key sequence change } := by
  rw [Keyring.settle_eq_adjust]
  exact adjust s hkey _

theorem collect (s : Custody) (hkey : ¬ p key) : s.SameFor p (s.collect key) := by
  rw [collect_eq_adjust]
  exact adjust s hkey _

theorem push (s : Custody) (hkey : ¬ p key) (kind : CommandKind) (payload : Bytes) :
    s.SameFor p { s with outbox := s.outbox.push kind key payload } where
  entries _ _ := rfl
  commands := by
    have hnot : decide (p key) = false := decide_eq_false hkey
    simp [Outbox.push, hnot]

theorem without {sequence : Nat} {c : Command} (hc : s.outbox.get? sequence = some c)
    (hkey : ¬ p c.key) : s.SameFor p { s with outbox := s.outbox.without sequence } where
  entries _ _ := rfl
  commands := Outbox.filter_without hc (decide_eq_false hkey)

/-! ### Calls of applications -/

theorem issue (s : Custody) (hkey : ¬ p key) (kind : CommandKind) (payload : Bytes)
    (status : KeyStatus) : s.SameFor p (s.issue kind key payload status) :=
  (adjust s hkey fun _ => some _).trans (push _ hkey kind payload)

theorem retire (s : Custody) (hkey : ¬ p key) (sequence : Nat) :
    s.SameFor p (s.retire key sequence) := by
  rw [Custody.retire]
  split_ifs
  · exact adjust s hkey fun _ => some _
  · exact adjust s hkey fun _ => none

theorem destroy {n : Nat} (hkey : ¬ p key) (h : s.destroy key = .ok (n, t)) : s.SameFor p t := by
  obtain ⟨-, -, rfl⟩ := destroy_eq_ok h
  exact (issue s hkey _ _ _).trans (issue _ hkey _ _ _)

theorem destroyAll {ta : Uuid} {ids : List String} (hkeys : ∀ id ∈ ids, ¬ p ⟨ta, id⟩)
    (h : s.destroyAll ta ids = .ok t) : s.SameFor p t := by
  induction ids generalizing s with
  | nil =>
    obtain rfl := Except.ok.inj h
    exact refl s
  | cons id rest ih =>
    obtain ⟨hfirst, hrest⟩ := List.forall_mem_cons.mp hkeys
    obtain ⟨n, u, hu, h⟩ := destroyAll_cons_eq_ok h
    exact (destroy hfirst hu).trans (ih hrest h)

/-- The end of an application leaves the keys of the others alone. -/
theorem exit {ta : Uuid} {n : Nat} (h : s.exit ta = .ok (n, t)) :
    s.SameFor (·.owner ≠ ta) t := by
  obtain ⟨u, hu, -, rfl⟩ := exit_eq_ok h
  have hsame := destroyAll (p := (·.owner ≠ ta)) (fun _ _ howner => howner rfl) hu
  exact ⟨hsame.entries, hsame.commands⟩

/-! ### Replies -/

/-- A reply leaves all keys alone but that of its command. -/
theorem answer {reply : Reply} {material : Bytes} {receipt : Receipt} {c : Command}
    (hc : s.outbox.get? reply.sequence = some c) (hkey : ¬ p c.key)
    (h : s.answer reply material = .ok (receipt, t)) : s.SameFor p t := by
  obtain ⟨c', next, u, hc', -, -, hsettled, -, rfl⟩ := answer_eq_ok h
  obtain rfl := Option.some.inj (hc.symm.trans hc')
  refine ((without hc hkey).trans ?_).trans (collect u hkey)
  cases hsettled with
  | ready | failed => exact settle _ hkey _ _
  | followUp => exact (settle _ hkey _ _).trans (push _ hkey _ _)
  | kept => exact refl _

/-! ### Polls -/

/-- Giving commands up leaves all keys alone but those of the commands. -/
theorem foldl_expire {due : List Command} (h : ∀ c ∈ due, ¬ p c.key) :
    s.SameFor p (due.foldl Custody.expire s) := by
  induction due generalizing s with
  | nil => exact refl s
  | cons c due ih =>
    obtain ⟨hfirst, hrest⟩ := List.forall_mem_cons.mp h
    exact ((settle s hfirst _ _).trans (collect _ hfirst)).trans (ih hrest)

end SameFor

variable {limit : Option Nat} {s t : Custody} {call : Call} {answer : Answer} {key : KeyRef}

/-- A poll that changes the entry of a key gives up a command for this key. -/
theorem exists_expired_of_poll {count : Nat} {polled : Polled} (hs : s.outbox.WellFormed)
    (h : s.poll count limit = .ok (polled, t))
    (hchange : t.keyring.get? key ≠ s.keyring.get? key) :
    ∃ c ∈ s.outbox.commands, c.key = key ∧ Outbox.expires limit c = true ∧
      ∀ d ∈ t.outbox.commands, d.sequence ≠ c.sequence := by
  obtain ⟨draw, q, hdraw, -, rfl⟩ := poll_eq_ok h
  obtain ⟨-, -, rfl, -, -, hexpired⟩ := Outbox.draw_eq_ok hdraw
  by_cases hdue : ∀ d ∈ draw.expired, d.key ≠ key
  · exact absurd ((SameFor.foldl_expire (p := (· = key)) hdue).entries key rfl) hchange
  push Not at hdue
  obtain ⟨d, hd, hkey⟩ := hdue
  rw [hexpired] at hd
  obtain ⟨c, hc, rfl⟩ := List.mem_map.mp hd
  obtain ⟨hc, hexpires⟩ := List.mem_filter.mp hc
  have hage := (Command.fields_of_asQueued (Outbox.asQueued_age c)).2.2
  refine ⟨c, hc, hage.symm.trans hkey, hexpires, fun d' hd' => ?_⟩
  rw [outbox_foldl_expire] at hd'
  exact hs.sequence_ne_of_expires hc hexpires hd'

/-! ### Transitions -/

/-- A call about one key leaves the others alone. -/
theorem Transition.sameFor {p : KeyRef → Prop} [DecidablePred p]
    (h : s.Transition limit call answer t) (hcall : call.Concerns s key) (hkey : ¬ p key) :
    s.SameFor p t := by
  cases hcall with
  | search =>
    cases h with
    | search _ _ _ h =>
      obtain ⟨e, -, -, -, rfl⟩ | ⟨-, -, rfl⟩ := search_eq_ok h
      · exact .retire s hkey _
      · exact .issue s hkey _ _ _
  | generate =>
    cases h with
    | generate _ _ _ _ h =>
      obtain ⟨-, -, rfl⟩ := request_eq_ok h
      exact .issue s hkey _ _ _
  | delete =>
    cases h with
    | delete _ _ h =>
      obtain ⟨-, -, rfl⟩ := strike_eq_ok h
      exact .issue s hkey _ _ _
  | destroy =>
    cases h with
    | destroy _ _ h => exact .destroy hkey h
  | submit hc hckey =>
    cases h with
    | submit _ h => exact .answer hc (hckey ▸ hkey) h

end Custody

end KeyCustody
