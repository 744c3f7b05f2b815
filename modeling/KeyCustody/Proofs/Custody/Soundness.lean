import KeyCustody.Proofs.Custody.Coherence
import KeyCustody.Proofs.Custody.Outcome
import KeyCustody.Proofs.Custody.Snapshot

/-!
# Transitions keep the state sound

A state is sound (`Custody.Sound`) if its keyring and its outbox are as they should be and belong
together. Every transition leads from sound states to sound states, and a sound state can be read
back from its snapshot as long as its numbers fit into the fields (`Custody.Sound.inRange`).
-/

namespace KeyCustody

namespace Custody

/-- The invariant of the state: that of the keyring, that of the outbox, and their coherence. -/
structure Sound (s : Custody) : Prop where
  keyring : s.keyring.WellFormed s.outbox.nextSequence
  outbox : s.outbox.WellFormed
  coherent : s.Coherent

/-- The state with another bound on the outbox. -/
def withCapacity (s : Custody) (capacity : Nat) : Custody :=
  { s with outbox := s.outbox.withCapacity capacity }

variable {s t : Custody} {key : KeyRef} {c : Command} {next : Nat}

/-! ### Giving commands up -/

@[simp]
theorem outbox_expire (s : Custody) (c : Command) : (s.expire c).outbox = s.outbox :=
  outbox_collect _ _

theorem outbox_foldl_expire (s : Custody) (due : List Command) :
    (due.foldl expire s).outbox = s.outbox := by
  induction due generalizing s with
  | nil => rfl
  | cons c due ih => rw [List.foldl_cons, ih, outbox_expire]

theorem wellFormed_failEntry (h : s.keyring.WellFormed next) (c : Command) :
    (s.failEntry c).keyring.WellFormed next := by
  refine h.settle (fun _ => rfl) fun e he hpending => ?_
  obtain ⟨hid, hpos, hlt, hsome, hbounds⟩ := he
  refine ⟨hid, hpos, hlt, ?_, hbounds⟩
  simpa [hpending] using hsome

theorem wellFormed_foldl_expire (h : s.keyring.WellFormed next) (due : List Command) :
    (due.foldl expire s).keyring.WellFormed next := by
  induction due generalizing s with
  | nil => exact h
  | cons c due ih => exact ih (wellFormed_collect (wellFormed_failEntry h c) c.key)

theorem CoherentUpTo.expire {due : List Command} (h : s.CoherentUpTo (c :: due)) :
    (s.expire c).CoherentUpTo due :=
  (h.settle c.key c.sequence (by simp) (by simp)).collect fun _ =>
    Keyring.isPendingOn_settle_eq_false _ _ (by simp)

/-- Once all commands that are due were given up, the state is coherent. -/
theorem CoherentUpTo.foldl_expire {due : List Command} (h : s.CoherentUpTo due) :
    (due.foldl Custody.expire s).CoherentUpTo [] := by
  induction due generalizing s with
  | nil => exact h
  | cons c due ih => exact ih h.expire

/-! ### Waiting for a generation instead of a search -/

theorem CoherentUpTo.followUp {due : List Command} (h : s.CoherentUpTo due)
    (hpending : s.keyring.isPendingOn c.key c.sequence = true) :
    (s.followUp c).CoherentUpTo due := by
  obtain ⟨e, -, -, -, heq⟩ := Keyring.settle_of_isPendingOn hpending fun e =>
    { e with lastSequence := s.outbox.nextSequence }
  rw [Custody.followUp, Keyring.repoint, heq]
  exact h.file fun _ => ⟨rfl, rfl⟩

theorem wellFormed_followUp (h : s.keyring.WellFormed s.outbox.nextSequence)
    (hpos : 0 < s.outbox.nextSequence) (c : Command) :
    (s.followUp c).keyring.WellFormed (s.outbox.nextSequence + 1) :=
  (h.mono (Nat.le_succ _)).settle (fun _ => rfl) fun _ he _ =>
    ⟨he.isValidId, hpos, Nat.lt_succ_self _, he.isSome_material, he.material_bounds⟩

/-- What is left when nothing is held goes on with the numbers. -/
theorem nextSequence_freshAfter (h : s.Sound) (capacity : Nat) :
    (freshAfter capacity s).outbox.nextSequence = s.outbox.nextSequence :=
  Nat.max_eq_right h.outbox.nextSequence_pos

namespace Sound

theorem coherentUpTo (h : s.Sound) : s.CoherentUpTo [] :=
  (coherentUpTo_nil h.keyring).mpr h.coherent

/-! ### States that hold nothing, and changes beside keyring and commands -/

theorem fresh (capacity : Nat) : (fresh capacity).Sound where
  keyring := Keyring.WellFormed.empty
  outbox := Outbox.WellFormed.resumeFrom_empty capacity 0
  coherent := ⟨nofun, nofun, nofun⟩

theorem freshAfter (capacity : Nat) (s : Custody) : (freshAfter capacity s).Sound where
  keyring := Keyring.WellFormed.empty
  outbox := Outbox.WellFormed.resumeFrom_empty capacity s.outbox.nextSequence
  coherent := ⟨nofun, nofun, nofun⟩

theorem withGate (h : s.Sound) (gate : Gate) : ({ s with gate := gate }).Sound where
  keyring := h.keyring
  outbox := h.outbox
  coherent := ⟨h.coherent.pending, h.coherent.addressed, h.coherent.deleted⟩

theorem withCapacity (h : s.Sound) (capacity : Nat) : (s.withCapacity capacity).Sound where
  keyring := h.keyring
  outbox := h.outbox.withCapacity capacity
  coherent := ⟨h.coherent.pending, h.coherent.addressed, h.coherent.deleted⟩

/-- The numbers of a sound state fit into the fields of a snapshot if the next number does. -/
theorem inRange (h : s.Sound) (hnext : s.outbox.nextSequence < Outbox.sequenceBound)
    (hcapacity : s.outbox.capacity < Outbox.sequenceBound) : s.InRange where
  outbox :=
    { commands := fun c hc =>
        ⟨Nat.lt_trans (h.outbox.sequence_lt c hc) hnext, (h.outbox.command c hc).polls_le⟩
      nextSequence_lt := hnext
      capacity_lt := hcapacity }
  entries _ he :=
    Nat.lt_trans (h.keyring.get (h.keyring.mem_toList.mp he)).lastSequence_lt hnext

/-! ### Calls of applications -/

/-- Queuing a command keeps a state sound, provided that an entry is left waiting only for a command
that yields a key. -/
theorem issue (h : s.Sound) {kind : CommandKind} {payload : Bytes} {status : KeyStatus}
    (hid : KeyRef.isValidId key.id = true) (hpayload : payload.length ≤ Anchor.maxKeySize)
    (hready : status ≠ .ready) (hpending : status = .pending → kind.yieldsKey = true) :
    (s.issue kind key payload status).Sound := by
  have hkeyring : (s.issue kind key payload status).keyring.WellFormed
      (s.outbox.nextSequence + 1) :=
    (h.keyring.mono (Nat.le_succ _)).reset hid h.outbox.nextSequence_pos (Nat.lt_succ_self _)
      hready
  -- resetting the entry and queuing the command is one change for the coherence
  refine ⟨hkeyring, h.outbox.push hid hpayload, (coherentUpTo_nil hkeyring).mp ?_⟩
  rw [Custody.issue, h.keyring.reset_eq]
  exact h.coherentUpTo.file fun hstatus => ⟨hpending hstatus, rfl⟩

/-- Dropping an entry whose failure was told keeps a state sound: either nothing refers to its key,
or a tombstone stays. -/
theorem retire (h : s.Sound) {e : Entry} (he : s.keyring.get? key = some e) :
    (s.retire key e.lastSequence).Sound := by
  have hkey := h.keyring.key_eq he
  obtain ⟨hid, hpos, hlt, -, -⟩ := h.keyring.get he
  rw [hkey] at hid
  rw [Custody.retire]
  split_ifs with hreferenced
  · have hkeyring : (s.keyring.markDeleted key e.lastSequence).WellFormed s.outbox.nextSequence :=
      h.keyring.reset hid hpos hlt nofun
    refine ⟨hkeyring, h.outbox, (coherentUpTo_nil hkeyring).mp ?_⟩
    rw [Keyring.markDeleted, h.keyring.reset_eq]
    refine h.coherentUpTo.replace nofun fun _ => ?_
    rw [List.append_nil]
    exact (references_iff _ _).mp hreferenced
  · have hkeyring := h.keyring.remove key
    refine ⟨hkeyring, h.outbox, (coherentUpTo_nil hkeyring).mp ?_⟩
    exact h.coherentUpTo.remove fun c hc hckey =>
      hreferenced ((references_iff _ _).mpr ⟨c, hc, hckey⟩)

/-- Queuing a command without payload beside a tombstone keeps a state sound. -/
theorem bury (h : s.Sound) (kind : CommandKind) (hid : KeyRef.isValidId key.id = true) :
    (s.issue kind key [] .deleted).Sound :=
  h.issue hid (Nat.zero_le _) nofun nofun

theorem search (h : s.Sound) (hid : KeyRef.isValidId key.id = true) {answer : Lookup}
    (hs : s.search key = .ok (answer, t)) : t.Sound := by
  rcases search_eq_ok hs with ⟨e, he, -, -, rfl⟩ | ⟨-, -, rfl⟩
  · exact h.retire he
  · exact h.issue hid (Nat.zero_le _) nofun fun _ => rfl

theorem generate (h : s.Sound) (hid : KeyRef.isValidId key.id = true) {attributes : Bytes}
    (hattributes : attributes.length ≤ Anchor.maxKeySize) {answer : Lookup}
    (hs : s.generate key attributes = .ok (answer, t)) : t.Sound := by
  obtain ⟨-, -, rfl⟩ := request_eq_ok hs
  exact h.issue hid hattributes nofun fun _ => rfl

theorem delete (h : s.Sound) (hid : KeyRef.isValidId key.id = true) {n : Nat}
    (hs : s.delete key = .ok (n, t)) : t.Sound := by
  obtain ⟨-, -, rfl⟩ := strike_eq_ok hs
  exact h.bury _ hid

theorem destroy (h : s.Sound) (hid : KeyRef.isValidId key.id = true) {n : Nat}
    (hs : s.destroy key = .ok (n, t)) : t.Sound := by
  obtain ⟨-, -, rfl⟩ := destroy_eq_ok hs
  exact (h.bury _ hid).bury _ hid

theorem destroyAll {ta : Uuid} {ids : List String} (h : s.Sound)
    (hids : ∀ id ∈ ids, KeyRef.isValidId id = true) (hs : s.destroyAll ta ids = .ok t) :
    t.Sound := by
  induction ids generalizing s with
  | nil =>
    obtain rfl := Except.ok.inj hs
    exact h
  | cons id rest ih =>
    obtain ⟨n, u, hu, hs⟩ := destroyAll_cons_eq_ok hs
    have hid : KeyRef.isValidId (KeyRef.mk ta id).id = true := hids id (List.mem_cons_self ..)
    have hsound := h.destroy hid hu
    exact ih hsound (fun id hid => hids id (List.mem_cons_of_mem _ hid)) hs

/-- The identifiers of live keys are admissible, since each stands in an entry. -/
theorem isValidId_of_mem_liveIds (h : s.Sound) {ta : Uuid} {id : String}
    (hid : id ∈ s.liveIds ta) : KeyRef.isValidId id = true := by
  obtain ⟨e, he, rfl⟩ := List.mem_map.mp (List.mem_filter.mp hid).1
  have he := h.keyring.mem_toList.mp (List.mem_filter.mp he).1
  exact (h.keyring.get he).isValidId

theorem exit (h : s.Sound) {ta : Uuid} {n : Nat} (hs : s.exit ta = .ok (n, t)) : t.Sound := by
  obtain ⟨u, hu, -, rfl⟩ := exit_eq_ok hs
  exact (h.destroyAll (fun _ hid => h.isValidId_of_mem_liveIds hid) hu).withGate _

/-! ### Calls of the relay -/

/-- A poll keeps a state sound: each command stays or is given up. -/
theorem poll (h : s.Sound) {count : Nat} {limit : Option Nat} {polled : Polled}
    (hs : s.poll count limit = .ok (polled, t)) : t.Sound := by
  obtain ⟨draw, q, hdraw, -, rfl⟩ := poll_eq_ok hs
  obtain ⟨-, -, rfl, -, -, hexpired⟩ := Outbox.draw_eq_ok hdraw
  -- each command from before is still in the outbox, or is due for being given up
  have hcover : ∀ d ∈ s.outbox.commands,
      ∃ c ∈ (s.outbox.drawn count limit).commands ++ draw.expired, c.asQueued = d.asQueued := by
    intro d hd
    rcases hexpires : Outbox.expires limit d
    · obtain ⟨c, hc, hcd⟩ := Outbox.exists_mem_drawn count hd hexpires
      exact ⟨c, List.mem_append_left _ hc, hcd⟩
    · rw [hexpired]
      have hmem := List.mem_map_of_mem (f := fun c => { Outbox.age c with status := .failed })
        (List.mem_filter.mpr ⟨hd, hexpires⟩)
      exact ⟨_, List.mem_append_right _ hmem, Outbox.asQueued_age d⟩
  have hfrom : ∀ c ∈ (s.outbox.drawn count limit).commands,
      ∃ d ∈ s.outbox.commands, d.asQueued = c.asQueued := by
    intro c hc
    obtain ⟨d, hd, -, hdc⟩ := Outbox.exists_of_mem_drawn hc
    exact ⟨d, hd, hdc⟩
  have hcoherent := (h.coherentUpTo.of_outbox hcover hfrom).foldl_expire
  have hkeyring := wellFormed_foldl_expire
    (s := { s with outbox := s.outbox.drawn count limit }) h.keyring draw.expired
  have houtbox := outbox_foldl_expire { s with outbox := s.outbox.drawn count limit } draw.expired
  refine ⟨?_, ?_, (coherentUpTo_nil hkeyring).mp hcoherent⟩
  · rw [houtbox]
    exact hkeyring
  · rw [houtbox]
    exact h.outbox.drawn count limit

/-- Once the entry of the last command that is due no longer waits for it, the state is sound. -/
private theorem of_collect {u : Custody} (hkeyring : u.keyring.WellFormed u.outbox.nextSequence)
    (houtbox : u.outbox.WellFormed) (hcoherent : u.CoherentUpTo [c])
    (hc : c.kind.yieldsKey = true → u.keyring.isPendingOn c.key c.sequence = false) :
    (u.collect c.key).Sound := by
  have hcollect := wellFormed_collect hkeyring c.key
  refine ⟨?_, ?_, (coherentUpTo_nil hcollect).mp (hcoherent.collect hc)⟩
  · rw [outbox_collect]
    exact hcollect
  · rw [outbox_collect]
    exact houtbox

/-- A reply keeps a state sound, however it settles the entry of its command. -/
theorem answer (h : s.Sound) {reply : Reply} {material : Bytes} {receipt : Receipt}
    (hs : s.answer reply material = .ok (receipt, t)) : t.Sound := by
  obtain ⟨c, next, u, hc, -, hmaterial, hsettled, -, rfl⟩ := answer_eq_ok hs
  obtain ⟨hmem, hseq⟩ := h.outbox.get?_eq_some_iff.mp hc
  have houtbox := h.outbox.without reply.sequence
  -- between taking the command out and settling its entry, this one command is due
  have hcoherent :
      ({ s with outbox := s.outbox.without reply.sequence }).CoherentUpTo [c] := by
    refine h.coherentUpTo.of_outbox (fun d hd => ?_) fun d hd => ?_
    · by_cases hdc : d.sequence = reply.sequence
      · obtain rfl := h.outbox.eq_of_sequence_eq hd hmem (hdc.trans hseq.symm)
        exact ⟨d, by simp, rfl⟩
      · exact ⟨d, List.mem_append_left _ (h.outbox.mem_without.mpr ⟨hd, hdc⟩), rfl⟩
    · exact ⟨d, (h.outbox.mem_without.mp hd).1, rfl⟩
  cases hsettled with
  | ready hkind hresult =>
    have hbounds := hmaterial hkind hresult
    refine of_collect (h.keyring.settle (fun _ => rfl) fun e he _ => ?_) houtbox
      (hcoherent.settle _ _ (by simp) (by simp)) fun _ =>
        Keyring.isPendingOn_settle_eq_false _ _ (by simp)
    exact ⟨he.isValidId, he.lastSequence_pos, he.lastSequence_lt, by simp, by simpa using hbounds⟩
  | followUp hkind _ hpending =>
    have hid := (h.outbox.command c hmem).isValidId
    have hlt := h.outbox.sequence_lt c hmem
    -- the entry waits on, but for the new command, whose number is larger
    exact of_collect (wellFormed_followUp h.keyring h.outbox.nextSequence_pos c)
      (houtbox.push hid (Nat.zero_le _)) (hcoherent.followUp hpending) fun _ =>
        Keyring.isPendingOn_settle_eq_false _ _ fun _ => .inr (Nat.ne_of_gt hlt)
  | kept hpending => exact of_collect h.keyring houtbox hcoherent hpending
  | failed _ _ =>
    exact of_collect (wellFormed_failEntry h.keyring c) houtbox
      (hcoherent.settle _ _ (by simp) (by simp)) fun _ =>
        Keyring.isPendingOn_settle_eq_false _ _ (by simp)

end Sound

end Custody

end KeyCustody
