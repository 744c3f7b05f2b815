import KeyCustody.Proofs.Custody.Expiry
import KeyCustody.Proofs.Custody.Isolation

/-!
# One request at a time

While a key is not struck, every command for it in the outbox is a request for its material, and the
entry of the key waits for just this command (`Custody.Awaits`). As an entry waits for one command,
there is at most one (`Custody.length_requests_le_one`), and there is one exactly while the entry
waits (`Custody.requests_ne_nil_iff`, `Custody.exists_requests_eq`).

A transition that strikes other keys only, or none, keeps this (`Custody.Transition.awaits`). A new
request is queued by a lookup that finds nothing, so that no command for the key is in the outbox
then, or by a reply, in the place of the search that it answers; and an expired command leaves the
outbox before its entry fails.
-/

namespace KeyCustody

/-- An entry waits for a command if it waits and this is its latest command. -/
theorem Keyring.isPendingOn_iff {k : Keyring} {key : KeyRef} {sequence : Nat} :
    k.isPendingOn key sequence = true ↔
      ∃ e, k.get? key = some e ∧ e.status = .pending ∧ e.lastSequence = sequence := by
  rw [isPendingOn]
  rcases k.get? key with _ | e <;> simp

namespace Custody

variable {limit : Option Nat} {s t : Custody} {key : KeyRef} {kind : CommandKind} {c : Command}

/-- Whether every command for a key is a request that the entry of the key waits for. -/
def Awaits (key : KeyRef) (keyring : Keyring) (commands : List Command) : Prop :=
  ∀ c ∈ commands, c.key = key →
    c.kind.yieldsKey = true ∧ keyring.isPendingOn key c.sequence = true

/-- The commands in the outbox that ask for the material of a key. -/
def requests (s : Custody) (key : KeyRef) : List Command :=
  s.outbox.commands.filter fun c => c.key = key ∧ c.kind.yieldsKey = true

theorem mem_requests :
    c ∈ s.requests key ↔ c ∈ s.outbox.commands ∧ c.key = key ∧ c.kind.yieldsKey = true := by
  simp [requests]

/-! ### What waiting for each command says -/

/-- Commands that one entry waits for have one number. -/
theorem Awaits.sequence_eq {d : Command} (h : Awaits key s.keyring s.outbox.commands)
    (hc : c ∈ s.outbox.commands) (hckey : c.key = key) (hd : d ∈ s.outbox.commands)
    (hdkey : d.key = key) : c.sequence = d.sequence := by
  obtain ⟨e, he, -, hclast⟩ := Keyring.isPendingOn_iff.mp (h c hc hckey).2
  obtain ⟨f, hf, -, hdlast⟩ := Keyring.isPendingOn_iff.mp (h d hd hdkey).2
  obtain rfl := Option.some.inj (he.symm.trans hf)
  exact hclast.symm.trans hdlast

/-- An entry that waits for each command waits for at most one. -/
theorem length_requests_le_one (hs : s.Sound)
    (h : Awaits key s.keyring s.outbox.commands) : (s.requests key).length ≤ 1 := by
  have hrising : (s.requests key).Pairwise fun c d => c.sequence < d.sequence :=
    hs.outbox.rising.filter _
  rcases hrequests : s.requests key with _ | ⟨c, _ | ⟨d, rest⟩⟩
  · exact Nat.zero_le _
  · exact Nat.le_refl _
  · rw [hrequests, List.pairwise_cons] at hrising
    have hlt := hrising.1 d List.mem_cons_self
    obtain ⟨hc, hckey, -⟩ := mem_requests.mp (hrequests ▸ List.mem_cons_self)
    obtain ⟨hd, hdkey, -⟩ :=
      mem_requests.mp (hrequests ▸ List.mem_cons_of_mem c List.mem_cons_self)
    exact absurd (h.sequence_eq hc hckey hd hdkey) (Nat.ne_of_lt hlt)

/-- There is a request exactly while the entry waits. -/
theorem requests_ne_nil_iff (hs : s.Sound) (h : Awaits key s.keyring s.outbox.commands) :
    s.requests key ≠ [] ↔ ∃ e, s.keyring.get? key = some e ∧ e.status = .pending := by
  constructor
  · intro hne
    obtain ⟨c, hc⟩ := List.exists_mem_of_ne_nil _ hne
    obtain ⟨hc, hkey, -⟩ := mem_requests.mp hc
    obtain ⟨e, he, hstatus, -⟩ := Keyring.isPendingOn_iff.mp (h c hc hkey).2
    exact ⟨e, he, hstatus⟩
  · rintro ⟨e, he, hstatus⟩
    obtain ⟨c, hc, -, hyields, hkey⟩ := hs.coherentUpTo.pending he hstatus
    rw [List.append_nil] at hc
    exact List.ne_nil_of_mem (mem_requests.mpr ⟨hc, hkey, hyields⟩)

/-- While the entry waits, its command is the only request. -/
theorem exists_requests_eq (hs : s.Sound) (h : Awaits key s.keyring s.outbox.commands) {e : Entry}
    (he : s.keyring.get? key = some e) (hstatus : e.status = .pending) :
    ∃ c, s.requests key = [c] ∧ c.sequence = e.lastSequence := by
  have hlength := length_requests_le_one hs h
  have hne := (requests_ne_nil_iff hs h).mpr ⟨e, he, hstatus⟩
  obtain ⟨c, hrequests⟩ := List.length_eq_one_iff.mp
    (Nat.le_antisymm hlength (List.length_pos_iff.mpr hne))
  obtain ⟨hc, hkey, -⟩ := mem_requests.mp (hrequests ▸ List.mem_singleton_self c)
  obtain ⟨f, hf, -, hlast⟩ := Keyring.isPendingOn_iff.mp (h c hc hkey).2
  obtain rfl := Option.some.inj (he.symm.trans hf)
  exact ⟨c, hrequests, hlast.symm⟩

/-! ### Single changes -/

/-- Where no command is for the key, none has to be waited for. -/
theorem Awaits.of_unreferenced {keyring : Keyring} {commands : List Command}
    (h : ∀ c ∈ commands, c.key ≠ key) : Awaits key keyring commands :=
  fun c hc hkey => absurd hkey (h c hc)

/-- Only what belongs to the key plays a part. -/
theorem Awaits.congr {p : KeyRef → Prop} [DecidablePred p]
    (h : Awaits key s.keyring s.outbox.commands) (hsame : s.SameFor p t) (hkey : p key) :
    Awaits key t.keyring t.outbox.commands := by
  intro c hc hckey
  have hmem : c ∈ t.outbox.commands.filter fun c => p c.key :=
    List.mem_filter.mpr ⟨hc, by simpa [hckey] using hkey⟩
  rw [hsame.commands] at hmem
  obtain ⟨hyields, hpending⟩ := h c (List.mem_of_mem_filter hmem) hckey
  rw [Keyring.isPendingOn, hsame.entries key hkey]
  exact ⟨hyields, hpending⟩

/-- A lookup that finds nothing finds no command for the key either. -/
theorem Awaits.unreferenced_of_miss (h : Awaits key s.keyring s.outbox.commands)
    (hmiss : s.cached? key = none) : ∀ c ∈ s.outbox.commands, c.key ≠ key := by
  intro c hc hkey
  obtain ⟨e, he, hstatus, -⟩ := Keyring.isPendingOn_iff.mp (h c hc hkey).2
  simp [cached?, he, hstatus] at hmiss

/-- Asking for a key for which there is no command queues the only one, and the entry waits for
it. -/
theorem Awaits.issue (hs : s.Sound) (h : ∀ c ∈ s.outbox.commands, c.key ≠ key)
    (hkind : kind.yieldsKey = true) (payload : Bytes) :
    Awaits key (s.issue kind key payload .pending).keyring
      (s.issue kind key payload .pending).outbox.commands := by
  intro c hc hkey
  rcases List.mem_append.mp hc with hc | hc
  · exact absurd hkey (h c hc)
  · rw [List.mem_singleton.mp hc]
    have hentry : (s.issue kind key payload .pending).keyring.get? key = _ :=
      get?_issue hs.keyring kind payload .pending
    rw [if_pos rfl] at hentry
    exact ⟨hkind, Keyring.isPendingOn_iff.mpr ⟨_, hentry, rfl, rfl⟩⟩

/-! ### Polls and replies -/

/-- The command that an entry waits for after a poll was there before, and did not expire. -/
theorem Awaits.poll {count : Nat} {polled : Polled} (hs : s.Sound)
    (h : Awaits key s.keyring s.outbox.commands) (hpoll : s.poll count limit = .ok (polled, t)) :
    Awaits key t.keyring t.outbox.commands := by
  intro c hc hkey
  have hentry := get?_poll hs hpoll key
  obtain ⟨draw, q, hdraw, -, rfl⟩ := poll_eq_ok hpoll
  obtain ⟨-, -, rfl, -⟩ := Outbox.draw_eq_ok hdraw
  rw [outbox_foldl_expire] at hc
  obtain ⟨d, hd, -, hdc⟩ := Outbox.exists_of_mem_drawn hc
  obtain ⟨hsequence, hkind, hdkey⟩ := Command.fields_of_asQueued hdc
  obtain ⟨hyields, hpending⟩ := h d hd (hdkey.trans hkey)
  obtain ⟨e, he, hstatus, hlast⟩ := Keyring.isPendingOn_iff.mp hpending
  have hstays : e.lastSequence ∉
      (s.outbox.commands.filter (Outbox.expires limit)).map (·.sequence) := by
    intro hmem
    obtain ⟨x, hx, hxlast⟩ := List.mem_map.mp hmem
    obtain ⟨hx, hexpires⟩ := List.mem_filter.mp hx
    exact hs.outbox.sequence_ne_of_expires hx hexpires hc
      (hsequence.symm.trans (hlast.symm.trans hxlast.symm))
  refine ⟨hkind ▸ hyields,
    Keyring.isPendingOn_iff.mpr ⟨e, ?_, hstatus, hlast.trans hsequence⟩⟩
  rw [hentry, he]
  simp [Entry.afterExpiry, hstatus, hstays]

/-- An entry that waits is not dropped as a tombstone. -/
theorem isPendingOn_collect {sequence : Nat} (h : s.keyring.isPendingOn key sequence = true) :
    (s.collect key).keyring.isPendingOn key sequence = true := by
  rcases collect_cases s key with ⟨heq, -⟩ | ⟨-, -, e, he, hdeleted⟩
  · rwa [heq]
  · obtain ⟨f, hf, hpending, -⟩ := Keyring.isPendingOn_iff.mp h
    obtain rfl := Option.some.inj (he.symm.trans hf)
    cases hdeleted.symm.trans hpending

/-- Where a search is followed by a generation, the entry goes on to wait for the generation. -/
theorem isPendingOn_followUp (h : s.keyring.isPendingOn c.key c.sequence = true) :
    (s.followUp c).keyring.isPendingOn c.key s.outbox.nextSequence = true := by
  obtain ⟨e, -, hstatus, -, hsettle⟩ := Keyring.settle_of_isPendingOn h
    fun e => { e with lastSequence := s.outbox.nextSequence }
  have hentry : (s.followUp c).keyring.get? c.key =
      some { e with lastSequence := s.outbox.nextSequence } := by
    have hfile : (s.followUp c).keyring = s.keyring.file c.key _ := hsettle
    rw [hfile, Keyring.get?_file, if_pos rfl]
  exact Keyring.isPendingOn_iff.mpr ⟨_, hentry, hstatus, rfl⟩

/-- A reply takes the only command for its key out of the outbox. At most it is followed by another
one, which the entry then waits for. -/
theorem Awaits.answer {reply : Reply} {material : Bytes} {receipt : Receipt} (hs : s.Sound)
    (h : Awaits key s.keyring s.outbox.commands)
    (hanswer : s.answer reply material = .ok (receipt, t)) :
    Awaits key t.keyring t.outbox.commands := by
  obtain ⟨c, next, u, hc, -, -, hsettled, -, rfl⟩ := answer_eq_ok hanswer
  by_cases hkey : c.key = key
  · subst hkey
    obtain ⟨hmem, hsequence⟩ := Outbox.of_get?_eq_some hc
    -- the command was the only one for its key
    have hnone : ∀ d ∈ (s.outbox.without reply.sequence).commands, d.key ≠ c.key := by
      intro d hd hdkey
      obtain ⟨hd, hne⟩ := hs.outbox.mem_without.mp hd
      exact hne ((h.sequence_eq hd hdkey hmem rfl).trans hsequence)
    rw [outbox_collect]
    cases hsettled with
    | ready | kept | failed => exact .of_unreferenced hnone
    | followUp _ _ hpending _ =>
      intro d hd hdkey
      rcases List.mem_append.mp hd with hd | hd
      · exact absurd hdkey (hnone d hd)
      · rw [List.mem_singleton.mp hd]
        exact ⟨rfl, isPendingOn_collect (isPendingOn_followUp hpending)⟩
  · exact h.congr (p := (· = key)) (.answer hc hkey hanswer) rfl

/-! ### Transitions -/

/-- **A key is asked for once**: as long as nothing strikes the key, its entry waits for each
command that is in the outbox for it. -/
theorem Transition.awaits {call : Call} {answer : Answer}
    (ht : s.Transition limit call answer t) (hs : s.Sound) (hcall : ¬ call.Strikes key)
    (h : Awaits key s.keyring s.outbox.commands) :
    Awaits key t.keyring t.outbox.commands := by
  have hothers : ∀ other, call.Concerns s other → other ≠ key →
      Awaits key t.keyring t.outbox.commands := fun other hconcerns hne =>
    have hsame : s.SameFor (· = key) t := ht.sameFor hconcerns hne
    h.congr hsame rfl
  cases ht with
  | register => exact h
  | @search other outcome _ hid hverified hmiss hsearch =>
    by_cases hkey : other = key
    · subst hkey
      have hnone := h.unreferenced_of_miss hmiss
      obtain ⟨e, -, -, -, rfl⟩ | ⟨-, -, rfl⟩ := search_eq_ok hsearch
      · rw [outbox_retire]
        exact .of_unreferenced hnone
      · exact .issue hs hnone rfl _
    · exact hothers other .search hkey
  | @generate other attributes outcome _ hid hverified hattributes hmiss hgenerate =>
    by_cases hkey : other = key
    · subst hkey
      obtain ⟨-, -, rfl⟩ := request_eq_ok hgenerate
      exact .issue hs (h.unreferenced_of_miss hmiss) rfl _
    · exact hothers other (.generate attributes) hkey
  | @delete other => exact hothers other .delete fun hkey => hcall (hkey ▸ .delete)
  | @destroy other => exact hothers other .destroy fun hkey => hcall (hkey ▸ .destroy)
  | @exit ta _ _ _ hexit =>
    have howner : key.owner ≠ ta := fun howner => hcall (howner ▸ .exit)
    exact h.congr (.exit hexit) howner
  | poll hpoll _ => exact h.poll hs hpoll
  | submit _ hanswer => exact h.answer hs hanswer

end Custody

end KeyCustody
