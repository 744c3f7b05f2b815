import KeyCustody.Proofs.Agent.Effect
import KeyCustody.Proofs.Store.Memory

/-!
# Restarts

`Agent.Lawful` is the invariant of an agent over the store in memory: its state is sound, its
numbers have not come to their end, and what it holds is what a start over its store would find,
apart from verdicts (`Agent.start_eq_ok`). Every call that does not come to the end of the numbers
keeps it, also one that fails (`Agent.Effect.lawful`), and so does a restart under other settings
(`Agent.Lawful.start`).

What is stored depends on the records alone, so an agent whose store is replaced by one with the
same records stays lawful (`Agent.Lawful.of_records`).
-/

namespace KeyCustody

/-- Settings in use bound the outbox. -/
theorem Settings.maxQueueDepth_le {settings : Settings} (h : settings.check = .ok ()) :
    settings.maxQueueDepth ≤ queueDepthCeiling := by
  rw [check] at h
  split_ifs at h with hdepth
  omega

/-- A verdict is beside the list of trusted measurements. -/
theorem Gate.withoutVerdicts_of_attest {g g' : Gate} {ta : Uuid} {m : Measurement}
    (h : g.attest ta m = .ok g') : g'.withoutVerdicts = g.withoutVerdicts := by
  rw [attest] at h
  split_ifs at h
  split at h
  · split_ifs at h
    rw [Except.ok.inj h]
  · rw [← Except.ok.inj h]
    rfl

namespace Custody

variable {capacity : Nat} {s t : Custody}

/-- Only the number of the next command plays a part in what a state leaves behind. -/
theorem freshAfter_congr (capacity : Nat)
    (h : s.outbox.nextSequence = t.outbox.nextSequence) :
    freshAfter capacity s = freshAfter capacity t := by
  rw [freshAfter, freshAfter, h]

theorem freshAfter_freshAfter (capacity other : Nat) (s : Custody) :
    freshAfter capacity (freshAfter other s) = freshAfter capacity s := by
  simp only [freshAfter, Outbox.resumeFrom, Outbox.empty]
  rw [← Nat.max_assoc, Nat.max_self]

theorem freshAfter_fresh (capacity : Nat) : freshAfter capacity (fresh capacity) = fresh capacity :=
  rfl

end Custody

namespace Agent

open Custody

/-- A store holds the three records of an anchor, or none of the three without an anchor. -/
def Holds (m : MemoryStore) (anchor : Option Anchor) : Prop :=
  ∀ name ∈ Anchor.recordNames, m.get? name = anchor.bind (·.records.lookup name)

/-- The invariant of an agent: the state is sound, the next number fits into a snapshot, the
settings are in use, what a start over the store finds is what the agent holds, and nothing is held
without an anchor. -/
structure Lawful (a : Agent MemoryStore) : Prop where
  sound : a.custody.Sound
  nextSequence_lt : a.custody.outbox.nextSequence < Outbox.sequenceBound
  settings : a.settings.check = .ok ()
  capacity : a.custody.outbox.capacity = a.settings.maxQueueDepth
  stored_anchor : Holds a.store a.anchor
  stored_custody : ∀ capacity, ∃ s,
    restore capacity a.anchor (a.store.get? Custody.record) = .ok s ∧
      s.withCapacity capacity = a.custody.withoutVerdicts.withCapacity capacity
  eq_blank : a.isInitialized = false → a.custody = a.blank

variable {a b : Agent MemoryStore}

/-! ### What the store holds -/

/-- The anchor depends on the three records alone. -/
theorem loadAnchor_congr {σ τ : Type} [Store σ] [Store τ] {s : σ} {t : τ}
    (h : ∀ name ∈ Anchor.recordNames, Store.load s name = Store.load t name) :
    loadAnchor s = loadAnchor t := by
  rw [loadAnchor, loadAnchor, h _ (by decide), h _ (by decide), h _ (by decide)]

/-- A start reads all three records. -/
theorem exists_load_of_loadAnchor {σ : Type} [Store σ] {s : σ} {anchor : Option Anchor}
    (h : loadAnchor s = .ok anchor) :
    ∀ name ∈ Anchor.recordNames, ∃ data, Store.load s name = .ok data := by
  obtain ⟨serviceKey, hserviceKey, h⟩ := bind_eq_ok h
  obtain ⟨certificate, hcertificate, h⟩ := bind_eq_ok h
  obtain ⟨privateKey, hprivateKey, -⟩ := bind_eq_ok h
  simp only [Anchor.recordNames, List.forall_mem_cons, List.not_mem_nil, false_imp_iff,
    implies_true, and_true]
  exact ⟨⟨_, hserviceKey⟩, ⟨_, hcertificate⟩, ⟨_, hprivateKey⟩⟩

/-- No anchor is found if the first of the records is not there. -/
theorem loadAnchor_of_absent {σ : Type} [Store σ] {s : σ}
    (hfirst : Store.load s Anchor.serviceKeyRecord = .ok none)
    (hload : ∀ name ∈ Anchor.recordNames, ∃ data, Store.load s name = .ok data) :
    loadAnchor s = .ok none := by
  obtain ⟨certificate, hcertificate⟩ := hload Anchor.certificateRecord (by decide)
  obtain ⟨privateKey, hprivateKey⟩ := hload Anchor.privateKeyRecord (by decide)
  rw [loadAnchor, hfirst, hcertificate, hprivateKey]
  rfl

/-- A start finds the anchor whose records a store holds. -/
theorem Holds.loadAnchor {m : MemoryStore} {anchor : Option Anchor} (h : Holds m anchor) :
    loadAnchor m = .ok anchor := by
  have hload : Agent.loadAnchor m = .ok (Anchor.ofRecords? (m.get? Anchor.serviceKeyRecord)
      (m.get? Anchor.certificateRecord) (m.get? Anchor.privateKeyRecord)) := rfl
  rw [hload, h _ (by decide), h _ (by decide), h _ (by decide)]
  rcases anchor with _ | anchor <;> rfl

/-- A snapshot that is found without an anchor gives the number of the next command only. -/
theorem restore_none {capacity : Nat} {anchor : Option Anchor} {snapshot : Option Bytes}
    {s : Custody} (h : restore capacity anchor snapshot = .ok s) :
    restore capacity none snapshot = .ok (freshAfter capacity s) := by
  rcases snapshot with _ | text
  · rw [← Except.ok.inj h]
    rfl
  rcases anchor with _ | anchor <;> rcases hsaved : decode? text with _ | saved <;>
    simp only [restore, hsaved] at h ⊢
  · rw [← Except.ok.inj h, freshAfter_fresh]
  · rw [← Except.ok.inj h, freshAfter_freshAfter]
  · cases h
  · rw [Except.ok.inj h]

/-- A start reads back the snapshot of a sound state. -/
theorem restore_encode {s : Custody} (hs : s.Sound)
    (hnext : s.outbox.nextSequence < Outbox.sequenceBound)
    (hcapacity : s.outbox.capacity < Outbox.sequenceBound) (capacity : Nat) (anchor : Anchor) :
    restore capacity (some anchor) (some s.encode) = .ok s.withoutVerdicts := by
  simp only [restore, decode?_encode (hs.inRange hnext hcapacity)]

/-- What stays of a start over a store that holds an agent. -/
theorem start_eq_ok (h : a.Lawful) {settings : Settings} (hsettings : settings.check = .ok ()) :
    start settings a.store = .ok { a with
      settings := settings
      custody := a.custody.withoutVerdicts.withCapacity settings.maxQueueDepth } := by
  obtain ⟨s, hs, hcustody⟩ := h.stored_custody settings.maxQueueDepth
  have hload : Store.load a.store Custody.record = .ok (a.store.get? Custody.record) := rfl
  simp only [start, hsettings, h.stored_anchor.loadAnchor, hload, hs, Except.mapError, bind,
    Except.bind]
  rw [← hcustody, withCapacity]

namespace Lawful

/-- What is stored depends on the records alone. -/
theorem of_records (h : a.Lawful) {store : MemoryStore}
    (hrecords : store.records = a.store.records) : ({ a with store := store }).Lawful := by
  have hget : store.get? = a.store.get? := funext fun name => congrArg (Table.get? · name) hrecords
  refine ⟨h.sound, h.nextSequence_lt, h.settings, h.capacity, fun name hname => ?_,
    fun capacity => ?_, h.eq_blank⟩
  · rw [hget]
    exact h.stored_anchor name hname
  · obtain ⟨s, hs, hcustody⟩ := h.stored_custody capacity
    exact ⟨s, by rwa [hget], hcustody⟩

theorem capacity_le (h : a.Lawful) : a.custody.outbox.capacity ≤ Settings.queueDepthCeiling :=
  h.capacity ▸ Settings.maxQueueDepth_le h.settings

theorem capacity_lt (h : a.Lawful) : a.settings.maxQueueDepth < Outbox.sequenceBound :=
  Nat.lt_of_le_of_lt (Settings.maxQueueDepth_le h.settings) (by decide)

/-- A state that was committed is what a start finds. -/
private theorem of_written (h : a.Lawful) {s : Custody} (hs : s.Sound)
    (hnext : s.outbox.nextSequence < Outbox.sequenceBound)
    (hcapacity : s.outbox.capacity = a.settings.maxQueueDepth) {anchor : Anchor}
    {store : MemoryStore} (hanchor : Holds store (some anchor))
    (hrecord : store.get? Custody.record = some s.encode) :
    ({ a with store := store, anchor := some anchor, custody := s }).Lawful := by
  refine ⟨hs, hnext, h.settings, hcapacity, hanchor, fun capacity => ?_, nofun⟩
  rw [hrecord]
  exact ⟨s.withoutVerdicts, restore_encode hs hnext (hcapacity ▸ h.capacity_lt) capacity anchor,
    rfl⟩

/-- A change of verdicts is not stored and need not be. -/
private theorem withGate (h : a.Lawful) {gate : Gate}
    (hgate : gate.withoutVerdicts = a.custody.gate.withoutVerdicts)
    (hblank : a.isInitialized = false → gate = a.custody.gate) :
    ({ a with custody := { a.custody with gate := gate } }).Lawful := by
  have hcustody : ({ a.custody with gate := gate }).withoutVerdicts =
      a.custody.withoutVerdicts := by
    rw [withoutVerdicts, withoutVerdicts, hgate]
  refine ⟨h.sound.withGate gate, h.nextSequence_lt, h.settings, h.capacity, h.stored_anchor, ?_,
    fun hinit => ?_⟩
  · rw [hcustody]
    exact h.stored_custody
  · rw [hblank hinit]
    exact h.eq_blank hinit

/-- What is left when nothing is held has the number of the next command. -/
private theorem nextSequence_blank (h : a.Lawful) :
    a.blank.outbox.nextSequence = a.custody.outbox.nextSequence :=
  nextSequence_freshAfter h.sound _

private theorem nextSequence_blank_lt (h : a.Lawful) :
    a.blank.outbox.nextSequence < Outbox.sequenceBound :=
  h.nextSequence_blank ▸ h.nextSequence_lt

/-- Without an anchor only the number of the next command has to be found. -/
private theorem of_erased (h : a.Lawful) {store : MemoryStore}
    (hanchor : Holds store none)
    (hrecord : ∀ capacity, ∃ s,
      restore capacity none (store.get? Custody.record) = .ok (freshAfter capacity s) ∧
        s.outbox.nextSequence = a.custody.outbox.nextSequence) :
    ({ a with store := store, anchor := none, custody := a.blank }).Lawful := by
  refine ⟨.freshAfter _ _, h.nextSequence_blank_lt, h.settings, rfl, hanchor, fun capacity => ?_,
    fun _ => ?_⟩
  · obtain ⟨s, hs, hnext⟩ := hrecord capacity
    refine ⟨_, hs, ?_⟩
    rw [freshAfter_congr capacity hnext]
    rfl
  · exact (freshAfter_freshAfter _ _ _).symm

/-- The snapshot that was stored before gives the right number also without the anchor. -/
private theorem restore_erased (h : a.Lawful) {store : MemoryStore}
    (hrecord : store.get? Custody.record = a.store.get? Custody.record) (capacity : Nat) :
    ∃ s, restore capacity none (store.get? Custody.record) = .ok (freshAfter capacity s) ∧
      s.outbox.nextSequence = a.custody.outbox.nextSequence := by
  obtain ⟨s, hs, hcustody⟩ := h.stored_custody capacity
  rw [hrecord]
  exact ⟨s, restore_none hs, congrArg (·.outbox.nextSequence) hcustody⟩

/-- So does the snapshot of a state in which nothing is held. -/
private theorem restore_blank (h : a.Lawful) {store : MemoryStore}
    (hrecord : store.get? Custody.record = some a.blank.encode) (capacity : Nat) :
    ∃ s, restore capacity none (store.get? Custody.record) = .ok (freshAfter capacity s) ∧
      s.outbox.nextSequence = a.custody.outbox.nextSequence := by
  have hsound : a.blank.Sound := .freshAfter _ _
  have hrestore := restore_encode hsound h.nextSequence_blank_lt h.capacity_lt capacity ⟨[], [], []⟩
  rw [hrecord]
  exact ⟨a.blank.withoutVerdicts, restore_none hrestore, h.nextSequence_blank⟩

end Lawful

/-! ### Calls and restarts keep the invariant -/

/-- A snapshot is not among the records of an anchor. -/
private theorem Holds.written_snapshot {m : MemoryStore} {anchor : Option Anchor}
    (h : Holds m anchor) (snapshot : Bytes) :
    Holds (m.written [(Custody.record, snapshot)]) anchor := by
  intro name hname
  have hne : name ≠ Custody.record := fun heq => by
    rw [heq] at hname
    exact absurd hname (by decide)
  rw [MemoryStore.get?_written_singleton, if_neg hne]
  exact h name hname

private theorem holds_written_records (m : MemoryStore) (anchor : Anchor) (snapshot : Bytes) :
    Holds (m.written (anchor.records ++ [(Custody.record, snapshot)])) (some anchor) := by
  have hrecords : anchor.records = [(Anchor.serviceKeyRecord, anchor.serviceKey)] ++
      [(Anchor.certificateRecord, anchor.certificate)] ++
        [(Anchor.privateKeyRecord, anchor.privateKey)] := rfl
  intro name hname
  rw [hrecords]
  simp only [MemoryStore.get?_written_concat, MemoryStore.get?_written_singleton]
  simp only [Anchor.recordNames, List.mem_cons, List.not_mem_nil, or_false] at hname
  rcases hname with rfl | rfl | rfl <;> rfl

theorem holds_erased (m : MemoryStore) : Holds (m.erase Anchor.recordNames) none := by
  intro name hname
  rw [MemoryStore.get?_erase, if_pos hname]
  rfl

/-- **What is held is what is stored**, after every call, whether it succeeds or fails. -/
theorem Effect.lawful {call : Call} {result : Except Fault Answer} (h : a.Effect call result b)
    (hnext : b.custody.outbox.nextSequence < Outbox.sequenceBound) (ha : a.Lawful) :
    b.Lawful := by
  cases h with
  | refused | found => exact ha
  | saved hinit ht hcommit =>
    obtain ⟨-, rfl⟩ := MemoryStore.commit_eq_ok hcommit
    obtain ⟨anchor, hanchor⟩ := Option.isSome_iff_exists.mp hinit
    -- a transition is committed only while there is an anchor, whose records stay as they were
    have hholds : Holds a.store (some anchor) := hanchor ▸ ha.stored_anchor
    have hlawful := ha.of_written (ht.sound ha.sound) hnext
      (ht.follows.capacity_eq.trans ha.capacity) (hholds.written_snapshot _)
      (by rw [MemoryStore.get?_written_singleton, if_pos rfl])
    rw [← hanchor] at hlawful
    exact hlawful
  | unsaved _ _ hcommit =>
    obtain ⟨-, rfl⟩ := MemoryStore.commit_eq_error hcommit
    exact ha.of_records rfl
  | provisioned _ _ hcommit =>
    obtain ⟨-, rfl⟩ := MemoryStore.commit_eq_ok hcommit
    exact ha.of_written (.freshAfter _ _) hnext rfl (holds_written_records _ _ _)
      ((MemoryStore.get?_written_concat _ _ _ _ _).trans (if_pos rfl))
  | unprovisioned _ _ hcommit =>
    obtain ⟨-, rfl⟩ := MemoryStore.commit_eq_error hcommit
    exact ha.of_records rfl
  | attested hinit hgate =>
    exact ha.withGate (Gate.withoutVerdicts_of_attest hgate) fun hnot => by
      rw [hinit] at hnot
      cases hnot
  | revoked ta =>
    refine ha.withGate rfl fun hinit => ?_
    rw [ha.eq_blank hinit]
    rfl
  | unerased herase => cases (Prod.mk.inj herase).1
  | closed herase hcommit =>
    obtain ⟨-, rfl⟩ := Prod.mk.inj herase
    obtain ⟨-, rfl⟩ := MemoryStore.commit_eq_ok hcommit
    refine ha.of_erased ((holds_erased _).written_snapshot _) ?_
    exact ha.restore_blank (by rw [MemoryStore.get?_written_singleton, if_pos rfl])
  | unclosed herase hcommit =>
    -- the anchor is gone, but the snapshot stays and still has the right number
    obtain ⟨-, rfl⟩ := Prod.mk.inj herase
    obtain ⟨-, rfl⟩ := MemoryStore.commit_eq_error hcommit
    refine ha.of_erased (holds_erased _) (ha.restore_erased ?_)
    have hkept := MemoryStore.get?_erase a.store Anchor.recordNames Custody.record
    rw [if_neg (by decide)] at hkept
    exact hkept

theorem check_of_start {σ : Type} [Store σ] {settings : Settings} {store : σ} {b : Agent σ}
    (h : start settings store = .ok b) : settings.check = .ok () := by
  obtain ⟨⟨⟩, hcheck, -⟩ := bind_eq_ok h
  rcases hsettings : settings.check with fault | ⟨⟩
  · simp [hsettings, Except.mapError] at hcheck
  · rfl

/-- A start over the store of a lawful agent gives a lawful agent, whatever the settings. -/
theorem Lawful.start (ha : a.Lawful) {settings : Settings}
    (h : start settings a.store = .ok b) : b.Lawful := by
  have hsettings := check_of_start h
  obtain rfl := Except.ok.inj (h.symm.trans (start_eq_ok ha hsettings))
  have hsound : (a.custody.withoutVerdicts.withCapacity settings.maxQueueDepth).Sound :=
    (ha.sound.withGate _).withCapacity _
  refine ⟨hsound, ha.nextSequence_lt, hsettings, rfl, ha.stored_anchor, ha.stored_custody,
    fun hinit => ?_⟩
  dsimp only
  rw [ha.eq_blank hinit]
  exact congrArg (withCapacity · settings.maxQueueDepth) (freshAfter_freshAfter _ _ a.custody).symm

theorem start_empty {settings : Settings} (hsettings : settings.check = .ok ()) :
    Agent.start settings MemoryStore.empty =
      .ok ⟨settings, MemoryStore.empty, none, fresh settings.maxQueueDepth⟩ := by
  simp only [Agent.start, hsettings]
  rfl

theorem start_empty_eq_ok {settings : Settings}
    (h : Agent.start settings MemoryStore.empty = .ok b) :
    settings.check = .ok () ∧
      b = ⟨settings, MemoryStore.empty, none, fresh settings.maxQueueDepth⟩ := by
  have hsettings := check_of_start h
  exact ⟨hsettings, Except.ok.inj (h.symm.trans (start_empty hsettings))⟩

/-- A start over the empty store gives a lawful agent in which nothing is held. -/
theorem lawful_of_start_empty {settings : Settings}
    (h : Agent.start settings MemoryStore.empty = .ok b) : b.Lawful := by
  obtain ⟨hsettings, rfl⟩ := start_empty_eq_ok h
  have hnext := (numbersLast_fresh settings.maxQueueDepth).nextSequence_lt
  exact ⟨.fresh _, hnext, hsettings, rfl, fun _ _ => rfl, fun _ => ⟨_, rfl, rfl⟩, fun _ => rfl⟩

end Agent

end KeyCustody
