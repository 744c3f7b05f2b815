import KeyCustody.Proofs.Agent.Gate
import KeyCustody.Proofs.Store.Reliable

/-!
# Runs over any store

An `Agent.Chronicle` is a run over any store on which the custodian can rely (`ReliableStore`), with
calls that fail for whatever reason, and with numbers that last. What is said of such a run is said
in terms of what has happened in it and has not been undone since (`Since`).

The measurements that are trusted were registered since the anchor was last set
(`Agent.Chronicle.grounded`). The list of these measurements is stored, so the invariant has to say
the same of what a new start may find (`Agent.Stored`). Verdicts are not stored.
-/

namespace KeyCustody

/-! ### What has happened since -/

section Since

variable {α : Type} {happens : List α → α → Prop} {undoes : α → Prop} {past rest : List α} {x : α}

/-- Whether something has happened, after what was before it, and has not been undone since. -/
def Since (happens : List α → α → Prop) (undoes : α → Prop) (past : List α) : Prop :=
  ∃ before x after, past = before ++ x :: after ∧ happens before x ∧ ∀ y ∈ after, ¬ undoes y

@[simp]
theorem not_since_nil : ¬ Since happens undoes [] := by
  rintro ⟨before, x, after, hpast, -⟩
  simp at hpast

/-- What has happened has happened last, or before and is not undone by what happened last. -/
theorem since_concat : Since happens undoes (past ++ [x]) ↔
    happens past x ∨ (Since happens undoes past ∧ ¬ undoes x) := by
  constructor
  · rintro ⟨before, y, after, hpast, hhappens, hafter⟩
    obtain rfl | ⟨after, z, rfl⟩ := after.eq_nil_or_concat
    · obtain ⟨rfl, rfl⟩ := List.append_singleton_inj.mp hpast
      exact .inl hhappens
    · rw [List.concat_eq_append, ← List.cons_append, ← List.append_assoc] at hpast
      obtain ⟨rfl, rfl⟩ := List.append_singleton_inj.mp hpast
      rw [List.concat_eq_append] at hafter
      refine .inr ⟨⟨before, y, after, rfl, hhappens, fun u hu => ?_⟩, ?_⟩
      · exact hafter u (List.mem_append_left _ hu)
      · exact hafter x (List.mem_append_right _ List.mem_cons_self)
  · rintro (hhappens | ⟨⟨before, y, after, rfl, hhappens, hafter⟩, hx⟩)
    · exact ⟨past, x, [], rfl, hhappens, nofun⟩
    · refine ⟨before, y, after ++ [x], by simp, hhappens, fun u hu => ?_⟩
      obtain hu | hu := List.mem_append.mp hu
      · exact hafter u hu
      · exact List.mem_singleton.mp hu ▸ hx

/-- It stays so as long as nothing undoes it. -/
theorem Since.append (h : Since happens undoes past) (hrest : ∀ y ∈ rest, ¬ undoes y) :
    Since happens undoes (past ++ rest) := by
  obtain ⟨before, x, after, rfl, hhappens, hafter⟩ := h
  refine ⟨before, x, after ++ rest, by simp, hhappens, fun y hy => ?_⟩
  exact (List.mem_append.mp hy).elim (hafter y) (hrest y)

end Since

/-- The occasion of a moment. -/
def Moment.occasion (m : Moment) : Occasion MemoryStore := ⟨m.before, m.event⟩

namespace Agent

open Custody

variable {σ : Type} [Store σ]

/-- Whether a measurement was registered since the anchor was last set. -/
def Registered (past : List (Occasion σ)) (m : Measurement) : Prop :=
  Since (fun _ o => o.Registers m) Occasion.Provisions past

/-- A run over a store on which the custodian can rely, with its occasions in order: calls after
which sequence numbers last, changes of what is beside the records, so that calls fail that did not
or the other way round, and new starts. It begins over a store without records. -/
inductive Chronicle [ReliableStore σ] : List (Occasion σ) → Agent σ → Prop
  | start {settings : Settings} {store : σ} {a : Agent σ} (hsound : ReliableStore.Sound store)
      (hempty : ∀ name ∈ recordNames, Store.load store name = .ok none)
      (hstart : Agent.start settings store = .ok a) :
    Chronicle [] a
  | call {past : List (Occasion σ)} {a : Agent σ} (call : Call) (h : Chronicle past a)
      (hnumbers : (a.serve call).2.custody.outbox.NumbersLast) :
    Chronicle (past ++ [⟨a, .call call (a.serve call).1⟩]) (a.serve call).2
  | obstruct {past : List (Occasion σ)} {a : Agent σ} {store : σ} (h : Chronicle past a)
      (hsound : ReliableStore.Sound store) (hsame : SameRecords a.store store) :
    Chronicle (past ++ [⟨a, .obstruct⟩]) { a with store := store }
  | restart {past : List (Occasion σ)} {a b : Agent σ} {store : σ} {settings : Settings}
      (h : Chronicle past a) (hsound : ReliableStore.Sound store)
      (hsame : SameRecords a.store store) (hstart : Agent.start settings store = .ok b) :
    Chronicle (past ++ [⟨a, .restart settings⟩]) b

variable {past : List (Occasion σ)} {a b : Agent σ} {store store' : σ} {settings : Settings}
  {call : Call} {result : Except Fault Answer} {p q : Measurement → Prop} {o : Occasion σ}

/-! ### What is stored -/

/-- Whether the snapshot in a store, if it can be read, is that of a sound state whose numbers last,
that has no verdicts and trusts only measurements with a property. -/
def Stored (p : Measurement → Prop) (store : σ) : Prop :=
  ∀ text s, Store.load store Custody.record = .ok (some text) → decode? text = some s →
    s.Sound ∧ s.outbox.NumbersLast ∧ (∀ ta, s.gate.verdict? ta = none) ∧
      ∀ m, s.gate.allows m = true → p m

theorem Stored.mono (h : Stored p store) (hpq : ∀ m, p m → q m) : Stored q store := by
  intro text s htext hs
  obtain ⟨hsound, hnumbers, hverdict, hallows⟩ := h text s htext hs
  exact ⟨hsound, hnumbers, hverdict, fun m hm => hpq m (hallows m hm)⟩

theorem Stored.congr (h : Stored p store)
    (hrecord : Store.load store' Custody.record = Store.load store Custody.record) :
    Stored p store' :=
  fun text s htext => h text s (hrecord.symm.trans htext)

/-- A snapshot is read as the state that it was taken of. -/
theorem Stored.of_encode {s : Custody} (hs : s.Sound) (hnumbers : s.outbox.NumbersLast)
    (hcapacity : s.outbox.capacity < Outbox.sequenceBound)
    (hp : ∀ m, s.gate.allows m = true → p m)
    (hload : Store.load store Custody.record = .ok (some s.encode)) : Stored p store := by
  intro text t htext ht
  obtain rfl := Option.some.inj (Except.ok.inj (hload.symm.trans htext))
  have hrange := hs.inRange hnumbers.nextSequence_lt hcapacity
  obtain rfl := Option.some.inj ((decode?_encode hrange).symm.trans ht)
  exact ⟨hs.withGate _, hnumbers, fun _ => rfl, hp⟩

/-- A start restores its state from the snapshot that is stored, and nothing else is new. -/
theorem exists_restored_of_start (h : Agent.start settings store = .ok b) :
    ∃ anchor snapshot s, Store.load store Custody.record = .ok snapshot ∧
      restore settings.maxQueueDepth anchor snapshot = .ok s ∧
        b = ⟨settings, store, anchor, s.withCapacity settings.maxQueueDepth⟩ := by
  obtain ⟨⟨⟩, -, h⟩ := bind_eq_ok h
  obtain ⟨anchor, -, h⟩ := bind_eq_ok h
  obtain ⟨snapshot, hsnapshot, h⟩ := bind_eq_ok h
  obtain ⟨s, hs, h⟩ := bind_eq_ok h
  exact ⟨anchor, snapshot, s, eq_ok_of_mapError hsnapshot, eq_ok_of_mapError hs,
    (Except.ok.inj h).symm⟩

/-- What a start restores is a fresh state, or it goes back to the snapshot. -/
theorem restore_cases {capacity : Nat} {anchor : Option Anchor} {snapshot : Option Bytes}
    {s : Custody} (h : restore capacity anchor snapshot = .ok s) :
    s = fresh capacity ∨ ∃ text saved, snapshot = some text ∧ decode? text = some saved ∧
      (s = saved ∨ s = freshAfter capacity saved) := by
  rcases snapshot with _ | text
  · exact .inl (Except.ok.inj h).symm
  rcases hsaved : decode? text with _ | saved
  · rcases anchor with _ | anchor <;> simp only [restore, hsaved] at h
    · exact .inl (Except.ok.inj h).symm
    · cases h
  · refine .inr ⟨text, saved, rfl, hsaved, ?_⟩
    rcases anchor with _ | anchor <;> simp only [restore, hsaved] at h
    · exact .inr (Except.ok.inj h).symm
    · exact .inl (Except.ok.inj h).symm

omit [Store σ] in
/-- What was registered stays registered while no anchor is set. -/
theorem Registered.concat {m : Measurement} (h : Registered past m) (ho : ¬ o.Provisions) :
    Registered (past ++ [o]) m :=
  since_concat.mpr (.inr ⟨h, ho⟩)

/-! ### The invariant of a run -/

variable [ReliableStore σ]

/-- The invariant of an agent over any store: the state is sound and its numbers last, and only
measurements with a property are trusted, by the gate or by the snapshot that is stored. -/
structure Grounded (p : Measurement → Prop) (a : Agent σ) : Prop where
  store : ReliableStore.Sound a.store
  custody : a.custody.Sound
  numbersLast : a.custody.outbox.NumbersLast
  settings : a.settings.check = .ok ()
  capacity : a.custody.outbox.capacity = a.settings.maxQueueDepth
  allowed : ∀ m, a.custody.gate.allows m = true → p m
  stored : Stored p a.store

/-- A start goes on from what is stored, and nobody is verified. -/
theorem Stored.start (h : Stored p store) (hsound : ReliableStore.Sound store)
    (hstart : Agent.start settings store = .ok b) :
    b.Grounded p ∧ ∀ ta, b.custody.gate.verdict? ta = none := by
  have hsettings := check_of_start hstart
  obtain ⟨anchor, snapshot, s, hsnapshot, hs, rfl⟩ := exists_restored_of_start hstart
  have hrestored : s.Sound ∧ s.outbox.NumbersLast ∧ (∀ ta, s.gate.verdict? ta = none) ∧
      ∀ m, s.gate.allows m = true → p m := by
    obtain rfl | ⟨text, saved, rfl, hsaved, hs⟩ := restore_cases hs
    · exact ⟨.fresh _, numbersLast_fresh _, fun _ => rfl, nofun⟩
    · obtain ⟨hsound, hnumbers, hverdict, hallows⟩ := h text saved hsnapshot hsaved
      obtain rfl | rfl := hs
      · exact ⟨hsound, hnumbers, hverdict, hallows⟩
      · exact ⟨.freshAfter _ _, numbersLast_freshAfter hsound hnumbers _, fun _ => rfl, nofun⟩
  obtain ⟨hs, hnumbers, hverdict, hallows⟩ := hrestored
  exact ⟨⟨hsound, hs.withCapacity _, hnumbers, hsettings, rfl, hallows, h⟩, hverdict⟩

/-- Without a snapshot nothing is trusted. -/
theorem grounded_of_start_empty (p : Measurement → Prop) (hsound : ReliableStore.Sound store)
    (hempty : ∀ name ∈ recordNames, Store.load store name = .ok none)
    (hstart : Agent.start settings store = .ok b) :
    b.Grounded p ∧ ∀ ta, b.custody.gate.verdict? ta = none :=
  have hstored : Stored p store := fun _ _ htext _ =>
    nomatch (hempty _ List.mem_cons_self).symm.trans htext
  hstored.start hsound hstart

namespace Grounded

theorem mono (h : a.Grounded p) (hpq : ∀ m, p m → q m) : a.Grounded q where
  store := h.store
  custody := h.custody
  numbersLast := h.numbersLast
  settings := h.settings
  capacity := h.capacity
  allowed m hm := hpq m (h.allowed m hm)
  stored := h.stored.mono hpq

theorem capacity_le (h : a.Grounded p) :
    a.custody.outbox.capacity ≤ Settings.queueDepthCeiling :=
  h.capacity ▸ Settings.maxQueueDepth_le h.settings

theorem capacity_lt (h : a.Grounded p) : a.settings.maxQueueDepth < Outbox.sequenceBound :=
  Nat.lt_of_le_of_lt (Settings.maxQueueDepth_le h.settings) (by decide)

/-- What is beside the records of a store makes no difference. -/
theorem obstruct (h : a.Grounded p) (hsound : ReliableStore.Sound store)
    (hsame : SameRecords a.store store) : ({ a with store := store }).Grounded p :=
  ⟨hsound, h.custody, h.numbersLast, h.settings, h.capacity, h.allowed,
    h.stored.congr (hsame _ List.mem_cons_self)⟩

theorem restart (h : a.Grounded p) (hsound : ReliableStore.Sound store)
    (hsame : SameRecords a.store store) (hstart : Agent.start settings store = .ok b) :
    b.Grounded p ∧ ∀ ta, b.custody.gate.verdict? ta = none :=
  (h.stored.congr (hsame _ List.mem_cons_self)).start hsound hstart

end Grounded

/-- A call that fails, other than the one that ends custody, changes no record, and nothing at all
unless it is the store that failed. -/
theorem Effect.unchanged_of_error {fault : Fault} (h : a.Effect call (.error fault) b)
    (hsound : ReliableStore.Sound a.store) (hcall : call ≠ .close) :
    b = { a with store := b.store } ∧ SameRecords a.store b.store ∧
      ((∀ cause, fault ≠ .storage cause) → b = a) := by
  cases h with
  | refused => exact ⟨rfl, fun _ _ => rfl, fun _ => rfl⟩
  | unsaved _ _ hcommit =>
    exact ⟨rfl, (ReliableStore.of_commit_eq_error hsound (.snapshot _) hcommit).2,
      fun hcause => absurd rfl (hcause _)⟩
  | unprovisioned _ _ hcommit =>
    exact ⟨rfl, (ReliableStore.of_commit_eq_error hsound (.anchor _ _) hcommit).2,
      fun hcause => absurd rfl (hcause _)⟩
  | unerased | unclosed => exact absurd rfl hcall

/-- **Only what was registered is trusted**, after every call, whether it succeeds or fails. -/
theorem Effect.grounded (h : a.Effect call result b) (hnumbers : b.custody.outbox.NumbersLast)
    (ha : a.Grounded (Registered past)) :
    b.Grounded (Registered (past ++ [⟨a, .call call result⟩])) := by
  have hallowed : ∀ m, b.custody.gate.allows m = true →
      Registered (past ++ [⟨a, .call call result⟩]) m := by
    intro m hm
    refine since_concat.mpr ((h.turns.allows hm).imp_right fun ⟨hbefore, hprovisions⟩ => ?_)
    exact ⟨ha.allowed m hbefore, hprovisions⟩
  have hstored (hprovisions : ¬ Occasion.Provisions ⟨a, .call call result⟩) :
      Stored (Registered (past ++ [⟨a, .call call result⟩])) a.store :=
    ha.stored.mono fun _ hm => hm.concat hprovisions
  cases h with
  | refused =>
    exact ⟨ha.store, ha.custody, hnumbers, ha.settings, ha.capacity, hallowed, hstored nofun⟩
  | found _ _ hcall =>
    refine ⟨ha.store, ha.custody, hnumbers, ha.settings, ha.capacity, hallowed, hstored ?_⟩
    cases hcall <;> nofun
  | saved _ ht hcommit =>
    obtain ⟨hsound, hwritten⟩ := ReliableStore.of_commit_eq_ok ha.store (.snapshot _) hcommit
    have hcapacity := ht.follows.capacity_eq.trans ha.capacity
    have hcustody := ht.sound ha.custody
    refine ⟨hsound, hcustody, hnumbers, ha.settings, hcapacity, hallowed, ?_⟩
    exact .of_encode hcustody hnumbers (hcapacity ▸ ha.capacity_lt) hallowed
      (hwritten _ List.mem_cons_self)
  | unsaved _ _ hcommit =>
    obtain ⟨hsound, hsame⟩ := ReliableStore.of_commit_eq_error ha.store (.snapshot _) hcommit
    refine ⟨hsound, ha.custody, hnumbers, ha.settings, ha.capacity, hallowed, ?_⟩
    exact (hstored nofun).congr (hsame _ List.mem_cons_self)
  | provisioned _ _ hcommit =>
    obtain ⟨hsound, hwritten⟩ := ReliableStore.of_commit_eq_ok ha.store (.anchor _ _) hcommit
    have hcustody : a.blank.Sound := .freshAfter _ _
    refine ⟨hsound, hcustody, hnumbers, ha.settings, rfl, hallowed, ?_⟩
    exact .of_encode hcustody hnumbers ha.capacity_lt hallowed
      (hwritten (_, _) (List.mem_append_right _ List.mem_cons_self))
  | unprovisioned _ _ hcommit =>
    obtain ⟨hsound, hsame⟩ := ReliableStore.of_commit_eq_error ha.store (.anchor _ _) hcommit
    refine ⟨hsound, ha.custody, hnumbers, ha.settings, ha.capacity, hallowed, ?_⟩
    exact (hstored nofun).congr (hsame _ List.mem_cons_self)
  | attested | revoked =>
    exact ⟨ha.store, ha.custody.withGate _, hnumbers, ha.settings, ha.capacity, hallowed,
      hstored nofun⟩
  | unerased herase =>
    obtain ⟨hsound, hrecord⟩ := ReliableStore.of_erase ha.store herase
    refine ⟨hsound, ha.custody, hnumbers, ha.settings, ha.capacity, hallowed, ?_⟩
    exact (hstored nofun).congr hrecord
  | closed herase hcommit =>
    obtain ⟨hsound, -⟩ := ReliableStore.of_erase ha.store herase
    obtain ⟨hsound', hwritten⟩ := ReliableStore.of_commit_eq_ok hsound (.snapshot _) hcommit
    have hcustody : a.blank.Sound := .freshAfter _ _
    refine ⟨hsound', hcustody, hnumbers, ha.settings, rfl, hallowed, ?_⟩
    exact .of_encode hcustody hnumbers ha.capacity_lt hallowed (hwritten _ List.mem_cons_self)
  | unclosed herase hcommit =>
    -- the old snapshot stays behind, and what it trusts is still registered
    obtain ⟨hsound, hrecord⟩ := ReliableStore.of_erase ha.store herase
    obtain ⟨hsound', hsame⟩ := ReliableStore.of_commit_eq_error hsound (.snapshot _) hcommit
    refine ⟨hsound', .freshAfter _ _, hnumbers, ha.settings, rfl, hallowed, ?_⟩
    exact ((hstored nofun).congr hrecord).congr (hsame _ List.mem_cons_self)

/-- **Only what was registered is trusted** in a run, by the gate and by what is stored. -/
theorem Chronicle.grounded (h : Chronicle past a) : a.Grounded (Registered past) := by
  induction h with
  | start hsound hempty hstart => exact (grounded_of_start_empty _ hsound hempty hstart).1
  | @call past a call _ hnumbers ih => exact (effect_serve a call).grounded hnumbers ih
  | obstruct _ hsound hsame ih => exact (ih.obstruct hsound hsame).mono fun _ hm => hm.concat nofun
  | restart _ hsound hsame hstart ih =>
    exact (ih.restart hsound hsame hstart).1.mono fun _ hm => hm.concat nofun

omit [ReliableStore σ] in
/-- A start that finds no anchor goes on without entries and commands. -/
private theorem empty_of_start (h : Agent.start settings store = .ok b)
    (hinit : b.isInitialized = false) :
    b.custody.keyring = Keyring.empty ∧ b.custody.outbox.commands = [] := by
  obtain ⟨anchor, snapshot, s, -, hs, rfl⟩ := exists_restored_of_start h
  obtain rfl : anchor = none := by simpa [isInitialized] using hinit
  rcases snapshot with _ | text
  · rw [← Except.ok.inj hs]
    exact ⟨rfl, rfl⟩
  · rcases hsaved : decode? text with _ | saved <;> simp only [restore, hsaved] at hs <;>
      rw [← Except.ok.inj hs] <;> exact ⟨rfl, rfl⟩

/-- **Nothing is held without an anchor**, whatever has happened. -/
theorem Chronicle.empty_of_not_initialized (h : Chronicle past a)
    (hinit : a.isInitialized = false) :
    a.custody.keyring = Keyring.empty ∧ a.custody.outbox.commands = [] := by
  induction h with
  | start _ _ hstart => exact empty_of_start hstart hinit
  | @call past a call _ _ ih =>
    have heffect := effect_serve a call
    generalize (a.serve call).1 = result at heffect
    generalize (a.serve call).2 = b at heffect hinit ⊢
    cases heffect with
    | refused | found | unsaved | unprovisioned | revoked | unerased => exact ih hinit
    | saved hbefore | attested hbefore => exact absurd (hbefore.symm.trans hinit) nofun
    | provisioned => cases hinit
    | closed | unclosed => exact ⟨rfl, rfl⟩
  | obstruct _ _ _ ih => exact ih hinit
  | restart _ _ _ hstart => exact empty_of_start hstart hinit

/-- No command waits without an anchor. -/
theorem Chronicle.commands_eq_nil (h : Chronicle past a) (hinit : a.isInitialized = false) :
    a.custody.outbox.commands = [] :=
  (h.empty_of_not_initialized hinit).2

/-! ### Runs over the store in memory -/

/-- Every run over the store in memory is one of these runs. -/
theorem Run.chronicle {past : List Moment} {a : Agent MemoryStore} (h : Run past a) :
    Chronicle (past.map Moment.occasion) a := by
  induction h with
  | start hstart => exact .start trivial (fun _ _ => rfl) hstart
  | step _ hstep ih =>
    rw [List.map_append, List.map_singleton]
    cases hstep with
    | call call hnumbers => exact ih.call call hnumbers
    | obstruct => exact ih.obstruct trivial fun _ _ => rfl
    | restart hstart => exact ih.restart trivial (fun _ _ => rfl) hstart

end Agent

end KeyCustody
