import KeyCustody.Custody.Basic
import KeyCustody.Proofs.Keyring
import KeyCustody.Proofs.Outbox

/-!
# Entries and commands belong together

`Custody.Coherent` says how the keyring and the outbox refer to each other: an entry that waits has
its command in the outbox, every command has an entry, and every tombstone has a command that keeps
it. `Custody.Sound` adds the representation invariants of the two parts.

Between taking commands out of the outbox and settling their entries a state is coherent only up to
the commands taken out, and `Custody.CoherentUpTo` is the invariant that each single change keeps:
`CoherentUpTo.of_outbox` takes commands out, `CoherentUpTo.settle` and `CoherentUpTo.collect` settle
one of them, and `CoherentUpTo.file` lets an entry refer to a new command. An entry alone is changed
by `CoherentUpTo.replace` and `CoherentUpTo.remove`.
-/

namespace KeyCustody

namespace Custody

/-- Every entry that waits has its command in the outbox, every command has an entry for its key,
and every tombstone is kept by some command for its key. -/
structure Coherent (s : Custody) : Prop where
  pending : ∀ e ∈ s.keyring.toList, e.status = .pending → ∃ c ∈ s.outbox.commands,
    c.sequence = e.lastSequence ∧ (c.kind = .search ∨ c.kind = .generate) ∧ c.key = e.key
  addressed : ∀ c ∈ s.outbox.commands, ∃ e ∈ s.keyring.toList, e.key = c.key
  deleted : ∀ e ∈ s.keyring.toList, e.status = .deleted → ∃ c ∈ s.outbox.commands, c.key = e.key

/-- A state is coherent up to commands `due` that were taken out of the outbox, but whose entries
are not settled yet. -/
structure CoherentUpTo (s : Custody) (due : List Command) : Prop where
  pending : ∀ {key e}, s.keyring.get? key = some e → e.status = .pending →
    ∃ c ∈ s.outbox.commands ++ due,
      c.sequence = e.lastSequence ∧ c.kind.yieldsKey = true ∧ c.key = key
  addressed : ∀ c ∈ s.outbox.commands, ∃ e, s.keyring.get? c.key = some e
  deleted : ∀ {key e}, s.keyring.get? key = some e → e.status = .deleted →
    ∃ c ∈ s.outbox.commands ++ due, c.key = key

variable {s s' : Custody} {key : KeyRef} {due : List Command} {c : Command} {next : Nat}

theorem yieldsKey_iff (kind : CommandKind) :
    kind.yieldsKey = true ↔ kind = .search ∨ kind = .generate := by
  cases kind <;> simp [CommandKind.yieldsKey]

/-- With no command due, coherence is coherence up to nothing. -/
theorem coherentUpTo_nil (h : s.keyring.WellFormed next) : s.CoherentUpTo [] ↔ s.Coherent := by
  constructor
  · rintro ⟨hpending, haddressed, hdeleted⟩
    refine ⟨fun e he hstatus => ?_, fun c hc => ?_, fun e he hstatus => ?_⟩
    · obtain ⟨c, hc, hseq, hkind, hkey⟩ := hpending (h.mem_toList.mp he) hstatus
      rw [List.append_nil] at hc
      exact ⟨c, hc, hseq, (yieldsKey_iff _).mp hkind, hkey⟩
    · obtain ⟨e, he⟩ := haddressed c hc
      have hkey := h.key_eq he
      exact ⟨e, h.mem_toList.mpr (by rwa [hkey]), hkey⟩
    · obtain ⟨c, hc, hkey⟩ := hdeleted (h.mem_toList.mp he) hstatus
      rw [List.append_nil] at hc
      exact ⟨c, hc, hkey⟩
  · rintro ⟨hpending, haddressed, hdeleted⟩
    have hmem : ∀ {key e}, s.keyring.get? key = some e → e.key = key ∧ e ∈ s.keyring.toList :=
      fun {key e} he => ⟨h.key_eq he, h.mem_toList.mpr (by rwa [h.key_eq he])⟩
    refine ⟨fun he hstatus => ?_, fun c hc => ?_, fun he hstatus => ?_⟩
    · obtain ⟨hkey, he⟩ := hmem he
      obtain ⟨c, hc, hseq, hkind, hkey'⟩ := hpending _ he hstatus
      exact ⟨c, by simpa using hc, hseq, (yieldsKey_iff _).mpr hkind, hkey'.trans hkey⟩
    · obtain ⟨e, he, hkey⟩ := haddressed c hc
      exact ⟨e, by rw [← hkey]; exact h.mem_toList.mp he⟩
    · obtain ⟨hkey, he⟩ := hmem he
      obtain ⟨c, hc, hkey'⟩ := hdeleted _ he hstatus
      exact ⟨c, by simpa using hc, hkey'.trans hkey⟩

/-! ### Dropping tombstones -/

@[simp]
theorem outbox_collect (s : Custody) (key : KeyRef) : (s.collect key).outbox = s.outbox := by
  rw [collect]
  split
  · split_ifs <;> rfl
  · rfl

theorem references_iff (q : Outbox) (key : KeyRef) :
    q.references key = true ↔ ∃ c ∈ q.commands, c.key = key := by
  simp [Outbox.references]

/-- Either a tombstone that no command keeps is dropped, or there is none and nothing changes. -/
theorem collect_cases (s : Custody) (key : KeyRef) :
    (s.collect key = s ∧
      ∀ e, s.keyring.get? key = some e → e.status = .deleted → s.outbox.references key = true) ∨
    (s.collect key = { s with keyring := s.keyring.remove key } ∧
      s.outbox.references key = false ∧
        ∃ e, s.keyring.get? key = some e ∧ e.status = .deleted) := by
  rw [collect]
  rcases he : s.keyring.get? key with _ | e
  · exact .inl ⟨rfl, nofun⟩
  · simp only
    split_ifs with hdrop
    · exact .inr ⟨rfl, by simpa using hdrop.2, e, rfl, hdrop.1⟩
    · refine .inl ⟨rfl, fun f hf hstatus => ?_⟩
      obtain rfl := Option.some.inj hf
      simpa [hstatus] using hdrop

/-- Dropping a tombstone adjusts one entry. -/
theorem collect_eq_adjust (s : Custody) (key : KeyRef) :
    s.collect key = { s with
      keyring := s.keyring.adjust key
        (Option.filter fun e => e.status ≠ .deleted || s.outbox.references key) } := by
  rcases collect_cases s key with ⟨heq, hkept⟩ | ⟨heq, hunreferenced, e, he, hstatus⟩
  · have hsame : (s.keyring.get? key).filter
        (fun e => e.status ≠ .deleted || s.outbox.references key) = s.keyring.get? key := by
      rcases he : s.keyring.get? key with _ | e
      · rfl
      · refine Option.filter_some_pos ?_
        simpa [or_iff_not_imp_left] using hkept e he
    rw [heq, Keyring.adjust_of_eq hsame]
  · have hnone : (s.keyring.get? key).filter
        (fun e => e.status ≠ .deleted || s.outbox.references key) = none := by
      simp [he, hstatus, hunreferenced]
    rw [heq, Keyring.adjust, hnone]

/-- What dropping a tombstone leaves was there before. -/
theorem get?_of_get?_collect {other : KeyRef} {e : Entry}
    (h : (s.collect key).keyring.get? other = some e) : s.keyring.get? other = some e := by
  rcases collect_cases s key with ⟨heq, -⟩ | ⟨heq, -, -⟩
  · rwa [heq] at h
  · rw [heq, Keyring.get?_remove] at h
    split_ifs at h
    exact h

theorem wellFormed_collect (h : s.keyring.WellFormed next) (key : KeyRef) :
    (s.collect key).keyring.WellFormed next := by
  rcases collect_cases s key with ⟨heq, -⟩ | ⟨heq, -, -⟩ <;> rw [heq]
  · exact h
  · exact h.remove key

/-! ### Single changes -/

namespace CoherentUpTo

/-- Commands may be taken out of the outbox if they are due from then on. -/
theorem of_outbox (h : s.CoherentUpTo []) {q : Outbox}
    (hcover : ∀ d ∈ s.outbox.commands, ∃ c ∈ q.commands ++ due, c.asQueued = d.asQueued)
    (hfrom : ∀ c ∈ q.commands, ∃ d ∈ s.outbox.commands, d.asQueued = c.asQueued) :
    ({ s with outbox := q }).CoherentUpTo due where
  pending {key e} he hstatus := by
    obtain ⟨d, hd, hseq, hkind, hkey⟩ := h.pending he hstatus
    rw [List.append_nil] at hd
    obtain ⟨c, hc, hcd⟩ := hcover d hd
    obtain ⟨hseq', hkind', hkey'⟩ := Command.fields_of_asQueued hcd
    exact ⟨c, hc, hseq'.trans hseq, by rw [hkind', hkind], hkey'.trans hkey⟩
  addressed c hc := by
    obtain ⟨d, hd, hdc⟩ := hfrom c hc
    obtain ⟨-, -, hkey⟩ := Command.fields_of_asQueued hdc
    rw [← hkey]
    exact h.addressed d hd
  deleted {key e} he hstatus := by
    obtain ⟨d, hd, hkey⟩ := h.deleted he hstatus
    rw [List.append_nil] at hd
    obtain ⟨c, hc, hcd⟩ := hcover d hd
    obtain ⟨-, -, hkey'⟩ := Command.fields_of_asQueued hcd
    exact ⟨c, hc, hkey'.trans hkey⟩

/-- The entry of a key may be replaced by one that does not wait, and by a tombstone if a command
keeps it. -/
theorem replace (h : s.CoherentUpTo due) {e : Entry} (hpending : e.status ≠ .pending)
    (hdeleted : e.status = .deleted → ∃ c ∈ s.outbox.commands ++ due, c.key = key) :
    ({ s with keyring := s.keyring.file key e }).CoherentUpTo due := by
  refine ⟨fun {other f} hf hstatus => ?_, fun c hc => ?_, fun {other f} hf hstatus => ?_⟩
  · rw [Keyring.get?_file] at hf
    split_ifs at hf
    · obtain rfl := Option.some.inj hf
      exact absurd hstatus hpending
    · exact h.pending hf hstatus
  · obtain ⟨f, hf⟩ := h.addressed c hc
    rw [Keyring.get?_file]
    split_ifs
    · exact ⟨_, rfl⟩
    · exact ⟨f, hf⟩
  · rw [Keyring.get?_file] at hf
    split_ifs at hf with hother
    · obtain rfl := Option.some.inj hf
      rw [hother]
      exact hdeleted hstatus
    · exact h.deleted hf hstatus

/-- The entry of a key may be removed if no command in the outbox is for this key. -/
theorem remove (h : s.CoherentUpTo due) (hkey : ∀ c ∈ s.outbox.commands, c.key ≠ key) :
    ({ s with keyring := s.keyring.remove key }).CoherentUpTo due := by
  refine ⟨fun {other f} hf hstatus => ?_, fun c hc => ?_, fun {other f} hf hstatus => ?_⟩
  · rw [Keyring.get?_remove] at hf
    split_ifs at hf
    exact h.pending hf hstatus
  · rw [Keyring.get?_remove, if_neg (hkey c hc)]
    exact h.addressed c hc
  · rw [Keyring.get?_remove] at hf
    split_ifs at hf
    exact h.deleted hf hstatus

/-- A command is no longer due if no entry waits for it, and a tombstone for its key is kept by
another command. -/
theorem drop (h : s.CoherentUpTo (c :: due))
    (hpending : c.kind.yieldsKey = true → s.keyring.isPendingOn c.key c.sequence = false)
    (hdeleted : ∀ e, s.keyring.get? c.key = some e → e.status = .deleted →
      s.outbox.references c.key = true) : s.CoherentUpTo due where
  pending {key e} he hstatus := by
    obtain ⟨d, hd, hseq, hkind, rfl⟩ := h.pending he hstatus
    rcases List.mem_append.mp hd with hd | hd
    · exact ⟨d, List.mem_append_left _ hd, hseq, hkind, rfl⟩
    rcases List.mem_cons.mp hd with rfl | hd
    · have hnot := hpending hkind
      simp [Keyring.isPendingOn, he, hstatus, hseq] at hnot
    · exact ⟨d, List.mem_append_right _ hd, hseq, hkind, rfl⟩
  addressed := h.addressed
  deleted {key e} he hstatus := by
    obtain ⟨d, hd, rfl⟩ := h.deleted he hstatus
    rcases List.mem_append.mp hd with hd | hd
    · exact ⟨d, List.mem_append_left _ hd, rfl⟩
    rcases List.mem_cons.mp hd with rfl | hd
    · obtain ⟨d', hd', hkey⟩ := (references_iff _ _).mp (hdeleted e he hstatus)
      exact ⟨d', List.mem_append_left _ hd', hkey⟩
    · exact ⟨d, List.mem_append_right _ hd, rfl⟩

/-- An entry may be settled at any time, unless it goes on to wait or becomes a tombstone. -/
theorem settle (h : s.CoherentUpTo due) (key : KeyRef) (sequence : Nat) {change : Entry → Entry}
    (hpending : ∀ e, (change e).status ≠ .pending) (hdeleted : ∀ e, (change e).status ≠ .deleted) :
    ({ s with keyring := s.keyring.settle key sequence change }).CoherentUpTo due := by
  rcases hp : s.keyring.isPendingOn key sequence
  · rw [Keyring.settle_of_not_isPendingOn hp]
    exact h
  · obtain ⟨e, -, -, -, heq⟩ := Keyring.settle_of_isPendingOn hp change
    rw [heq]
    exact h.replace (hpending e) fun hstatus => absurd hstatus (hdeleted e)

/-- A command is no longer due once no entry waits for it and the tombstone that only it kept is
dropped. -/
theorem collect (h : s.CoherentUpTo (c :: due))
    (hc : c.kind.yieldsKey = true → s.keyring.isPendingOn c.key c.sequence = false) :
    (s.collect c.key).CoherentUpTo due := by
  rcases collect_cases s c.key with ⟨heq, hkept⟩ | ⟨heq, hunreferenced, -⟩
  · rw [heq]
    exact h.drop hc hkept
  · have hne : ∀ d ∈ s.outbox.commands, d.key ≠ c.key := fun d hd hkey => by
      rw [(references_iff _ _).mpr ⟨d, hd, hkey⟩] at hunreferenced
      cases hunreferenced
    have hnone : (s.keyring.remove c.key).get? c.key = none := by
      rw [Keyring.get?_remove, if_pos rfl]
    rw [heq]
    -- nothing is filed under the key any more, so the two conditions hold trivially
    refine (h.remove hne).drop (fun _ => ?_) fun e he => ?_
    · simp [Keyring.isPendingOn, hnone]
    · rw [hnone] at he
      cases he

/-- A new command may be queued if an entry for its key is filed with it. -/
theorem file (h : s.CoherentUpTo due) {kind : CommandKind} {payload : Bytes} {e : Entry}
    (he : e.status = .pending →
      kind.yieldsKey = true ∧ e.lastSequence = s.outbox.nextSequence) :
    ({ s with
        keyring := s.keyring.file key e
        outbox := s.outbox.push kind key payload }).CoherentUpTo due := by
  -- what was in the outbox or due still is, and the new command stands at the end of the outbox
  have hmem : ∀ {d}, d ∈ s.outbox.commands ++ due →
      d ∈ (s.outbox.push kind key payload).commands ++ due := fun {d} hd => by
    simp only [Outbox.push, List.mem_append] at hd ⊢
    tauto
  have hnew : ∃ d ∈ (s.outbox.push kind key payload).commands ++ due,
      d.sequence = s.outbox.nextSequence ∧ d.kind = kind ∧ d.key = key :=
    ⟨_, by simp [Outbox.push]; exact .inr (.inl rfl), rfl, rfl, rfl⟩
  refine ⟨fun {other f} hf hstatus => ?_, fun d hd => ?_, fun {other f} hf hstatus => ?_⟩
  · rw [Keyring.get?_file] at hf
    split_ifs at hf with hother
    · obtain rfl := Option.some.inj hf
      obtain ⟨d, hd, hseq, hkind, hkey⟩ := hnew
      obtain ⟨hyields, hlast⟩ := he hstatus
      exact ⟨d, hd, hseq.trans hlast.symm, by rw [hkind, hyields], hkey.trans hother.symm⟩
    · obtain ⟨d, hd, hrest⟩ := h.pending hf hstatus
      exact ⟨d, hmem hd, hrest⟩
  · rw [Keyring.get?_file]
    split_ifs with hkey
    · exact ⟨e, rfl⟩
    · rcases List.mem_append.mp hd with hd | hd
      · exact h.addressed d hd
      · exact absurd (by rw [List.mem_singleton.mp hd]) hkey
  · rw [Keyring.get?_file] at hf
    split_ifs at hf with hother
    · obtain ⟨d, hd, -, -, hkey⟩ := hnew
      exact ⟨d, hd, hkey.trans hother.symm⟩
    · obtain ⟨d, hd, hkey⟩ := h.deleted hf hstatus
      exact ⟨d, hmem hd, hkey⟩

end CoherentUpTo

end Custody

end KeyCustody
