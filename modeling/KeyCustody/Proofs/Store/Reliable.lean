import KeyCustody.Custody.Snapshot
import KeyCustody.Proofs.Store.Memory
import KeyCustody.Proofs.Store.Reopening
import KeyCustody.Proofs.Store.RollBack

/-!
# What the custodian relies on in a store

A commit of records of the custodian writes all of them or none, and no record of the anchor is
erased together with the snapshot. Both stores keep to this: the store in memory and, if no journal
was left over, the sealed one, because the names of these records are plain and occur once in each
commit. What a vault loads also stays the same when it is mounted again
(`Vault.sameRecords_of_remounted`), or when something is put beside its files or taken away there
(`Vault.sameRecords_of_undisturbed`).

Both stores also leave the records alone that they are not told to change (`ExactStore`).

That commits succeed is another matter; a store of which this can be said is `Store.Steady`.
-/

namespace KeyCustody

/-- The names of all records of the custodian. -/
def recordNames : List String := Custody.record :: Anchor.recordNames

/-- Whether a list of writes writes records of the custodian, each once. -/
structure OwnWrites (writes : List (String × Bytes)) : Prop where
  nodup : (writes.map Prod.fst).Nodup
  mem_recordNames : ∀ write ∈ writes, write.1 ∈ recordNames

/-- Whether the records of the custodian load alike from two stores. -/
def SameRecords {σ : Type} [Store σ] (s t : σ) : Prop :=
  ∀ name ∈ recordNames, Store.load t name = Store.load s name

/-- A store on which the custodian can rely while it is sound. -/
class ReliableStore (σ : Type) [Store σ] where
  Sound : σ → Prop
  /-- A commit that succeeds writes all of its records. -/
  of_commit_eq_ok {s t : σ} {writes : List (String × Bytes)} (hs : Sound s)
    (hwrites : OwnWrites writes) (h : Store.commit s writes = (.ok (), t)) :
    Sound t ∧ ∀ write ∈ writes, Store.load t write.1 = .ok (some write.2)
  /-- A commit that fails changes no record. -/
  of_commit_eq_error {s t : σ} {writes : List (String × Bytes)} {fault : StoreFault} (hs : Sound s)
    (hwrites : OwnWrites writes) (h : Store.commit s writes = (.error fault, t)) :
    Sound t ∧ SameRecords s t
  /-- When the anchor is erased, with success or without, the snapshot stays. -/
  of_erase {s t : σ} {result : Except StoreFault Unit} (hs : Sound s)
    (h : Store.erase s Anchor.recordNames = (result, t)) :
    Sound t ∧ Store.load t Custody.record = Store.load s Custody.record

/-- A reliable store that changes no other records of the custodian than it is told to. -/
class ExactStore (σ : Type) [Store σ] [ReliableStore σ] : Prop where
  /-- A commit leaves the records that it does not write. -/
  load_of_commit {s t : σ} {writes : List (String × Bytes)} (hs : ReliableStore.Sound s)
    (hwrites : OwnWrites writes) (h : Store.commit s writes = (.ok (), t)) :
    ∀ name ∈ recordNames, name ∉ writes.map Prod.fst → Store.load t name = Store.load s name
  /-- When the anchor is erased, each of its records is gone, or it stays and the erasing fails. -/
  load_of_erase {s t : σ} {result : Except StoreFault Unit} (hs : ReliableStore.Sound s)
    (h : Store.erase s Anchor.recordNames = (result, t)) :
    ∀ name ∈ Anchor.recordNames, Store.load t name = .ok none ∨
      (result ≠ .ok () ∧ Store.load t name = Store.load s name)

/-- After an erasing that succeeds no record of the anchor is there. -/
theorem ExactStore.load_of_erase_eq_ok {σ : Type} [Store σ] [ReliableStore σ] [ExactStore σ]
    {s t : σ} (hs : ReliableStore.Sound s)
    (h : Store.erase s Anchor.recordNames = (.ok (), t)) {name : String}
    (hname : name ∈ Anchor.recordNames) : Store.load t name = .ok none :=
  (load_of_erase hs h name hname).resolve_right fun hfails => hfails.1 rfl

theorem Vault.isPlain_recordNames : ∀ name ∈ recordNames, IsPlain name := by decide

namespace OwnWrites

theorem snapshot (text : Bytes) : OwnWrites [(Custody.record, text)] where
  nodup := List.pairwise_singleton _ _
  mem_recordNames write hwrite := by
    rw [List.mem_singleton.mp hwrite]
    exact List.mem_cons_self

theorem anchor (anchor : Anchor) (text : Bytes) :
    OwnWrites (anchor.records ++ [(Custody.record, text)]) := by
  have hnames : (anchor.records ++ [(Custody.record, text)]).map Prod.fst =
      Anchor.recordNames ++ [Custody.record] := rfl
  refine ⟨by rw [hnames]; decide, fun write hwrite => ?_⟩
  have hname := List.mem_map_of_mem (f := Prod.fst) hwrite
  rw [hnames] at hname
  obtain hname | hname := List.mem_append.mp hname
  · exact List.mem_cons_of_mem _ hname
  · rw [List.mem_singleton.mp hname]
    exact List.mem_cons_self

variable {writes : List (String × Bytes)}

/-- What is written to a name is the only thing that is. -/
theorem lookup_reverse (h : OwnWrites writes) {write : String × Bytes} (hwrite : write ∈ writes) :
    writes.reverse.lookup write.1 = some write.2 := by
  obtain ⟨before, after, rfl⟩ := List.append_of_mem hwrite
  have hnodup := h.nodup
  rw [List.map_append, List.map_cons, List.nodup_append, List.nodup_cons] at hnodup
  obtain ⟨-, ⟨hnot, -⟩, -⟩ := hnodup
  refine List.lookup_eq_some_iff.mpr ⟨after.reverse, before.reverse, by simp, ?_⟩
  intro other hother
  refine bne_iff_ne.mpr fun heq => hnot ?_
  rw [heq]
  exact List.mem_map_of_mem (List.mem_reverse.mp hother)

theorem isPlain (h : OwnWrites writes) : ∀ write ∈ writes, Vault.IsPlain write.1 :=
  fun write hwrite => Vault.isPlain_recordNames _ (h.mem_recordNames write hwrite)

end OwnWrites

instance : ReliableStore MemoryStore where
  Sound _ := True
  of_commit_eq_ok {m m' writes} _ hwrites h := by
    obtain ⟨-, rfl⟩ := MemoryStore.commit_eq_ok h
    refine ⟨trivial, fun write hwrite => congrArg Except.ok ?_⟩
    rw [MemoryStore.get?_written, hwrites.lookup_reverse hwrite, Option.some_or]
  of_commit_eq_error _ _ h := by
    obtain ⟨-, rfl⟩ := MemoryStore.commit_eq_error h
    exact ⟨trivial, fun _ _ => rfl⟩
  of_erase {m m' result} _ h := by
    obtain ⟨-, rfl⟩ := Prod.mk.inj h
    refine ⟨trivial, congrArg Except.ok ?_⟩
    rw [MemoryStore.get?_erase, if_neg (by decide)]

/-- Nothing is written under a name that is not among the names of the writes. -/
private theorem lookup_reverse_eq_none {writes : List (String × Bytes)} {name : String}
    (h : name ∉ writes.map Prod.fst) : writes.reverse.lookup name = none := by
  refine List.lookup_eq_none_iff.mpr fun write hwrite => bne_iff_ne.mpr fun heq => h ?_
  rw [heq]
  exact List.mem_map_of_mem (List.mem_reverse.mp hwrite)

instance : ExactStore MemoryStore where
  load_of_commit {m m' writes} _ _ h name _ hname := by
    obtain ⟨-, rfl⟩ := MemoryStore.commit_eq_ok h
    refine congrArg Except.ok ?_
    rw [MemoryStore.get?_written, lookup_reverse_eq_none hname, Option.none_or]
  load_of_erase {m m' result} _ h name hname := by
    obtain ⟨-, rfl⟩ := Prod.mk.inj h
    refine .inl (congrArg Except.ok ?_)
    rw [MemoryStore.get?_erase, if_pos hname]

namespace Vault

variable {v w : Vault} {secret : String} {d : Disk}

private theorem sameRecords_of_load (h : ∀ name, IsPlain name → w.load name = v.load name) :
    SameRecords v w :=
  fun name hname => h name (isPlain_recordNames name hname)

instance : ReliableStore Vault where
  Sound v := ∃ secret, v.Clean secret
  of_commit_eq_ok {v u writes} := by
    rintro ⟨secret, hv⟩ hwrites h
    obtain ⟨-, hu, -, hloads⟩ := commit_reopens hv hwrites.isPlain h
    refine ⟨⟨secret, hu⟩, fun write hwrite => ?_⟩
    have hload : u.load write.1 = v.loadAfter writes write.1 :=
      hloads _ (hwrites.isPlain write hwrite)
    rw [loadAfter, hwrites.lookup_reverse hwrite] at hload
    exact hload
  of_commit_eq_error {v u writes fault} := by
    rintro ⟨secret, hv⟩ hwrites h
    obtain ⟨hu, hloads⟩ := clean_of_failed_commit hv hwrites.isPlain hwrites.nodup h
    exact ⟨⟨secret, hu⟩, sameRecords_of_load hloads⟩
  of_erase {v u result} := by
    rintro ⟨secret, hv⟩ h
    have hanchor : ∀ name ∈ Anchor.recordNames, IsPlain name := by decide
    obtain ⟨hu, part, hpart, hloads⟩ := clean_of_erase hv hanchor h
    have hrecord : Custody.record ∉ part := fun hmem => absurd (hpart.subset hmem) (by decide)
    exact ⟨⟨secret, hu⟩, (hloads _ (by decide)).trans (if_neg hrecord)⟩

instance : ExactStore Vault where
  load_of_commit {v u writes} := by
    rintro ⟨secret, hv⟩ hwrites h name hmem hname
    obtain ⟨-, -, -, hloads⟩ := commit_reopens hv hwrites.isPlain h
    have hload : u.load name = v.loadAfter writes name := hloads _ (isPlain_recordNames name hmem)
    rw [loadAfter, lookup_reverse_eq_none hname] at hload
    exact hload
  load_of_erase {v u result} := by
    rintro ⟨secret, hv⟩ h name hmem
    have hanchor : ∀ name ∈ Anchor.recordNames, IsPlain name := by decide
    rcases result with fault | ⟨⟩
    · obtain ⟨-, part, -, hloads⟩ := clean_of_erase hv hanchor h
      have hload := hloads name (hanchor name hmem)
      split_ifs at hload
      · exact .inl hload
      · exact .inr ⟨nofun, hload⟩
    · obtain ⟨-, -, -, hloads⟩ := erase_reopens hv hanchor h
      exact .inl ((hloads name (hanchor name hmem)).trans (if_pos hmem))

/-- A vault that is mounted again, after any number of crashes on the way, is sound and has the same
records. -/
theorem sameRecords_of_remounted (hv : v.Clean secret)
    (h : Remounted v.folder secret v.drive.disk w) :
    ReliableStore.Sound w ∧ SameRecords v w := by
  obtain ⟨hw, -, hloads⟩ := hv.reopens.of_remounted h
  exact ⟨⟨secret, hw⟩, sameRecords_of_load hloads⟩

/-- So has a vault on whose disk something else has changed. -/
theorem sameRecords_of_undisturbed (hv : v.Clean secret) (h : Undisturbed v.folder v.drive.disk d) :
    ReliableStore.Sound { v with drive := .ofDisk d } ∧
      SameRecords v { v with drive := .ofDisk d } := by
  have hjournal := (h.find?_eq .journal trivial).trans hv.journal
  refine ⟨⟨secret, h.hosts hv.hosts, hjournal, hv.key⟩, sameRecords_of_load fun name hname => ?_⟩
  exact load_congr rfl (h.find?_eq (.record name) hname)

end Vault

/-! ### Stores that never fail -/

/-- Whether no commit fails, however many are made one after the other. -/
def Store.Steady {σ : Type} [Store σ] (s : σ) : Prop :=
  ∃ good : σ → Prop, good s ∧
    ∀ s, good s → ∀ writes, ∃ t, Store.commit s writes = (.ok (), t) ∧ good t

theorem Store.Steady.commit {σ : Type} [Store σ] {s : σ} (h : Store.Steady s)
    (writes : List (String × Bytes)) :
    ∃ t, Store.commit s writes = (.ok (), t) ∧ Store.Steady t := by
  obtain ⟨good, hs, hcommit⟩ := h
  obtain ⟨t, ht, hgood⟩ := hcommit s hs writes
  exact ⟨t, ht, good, hgood, hcommit⟩

/-- The store in memory fails only where it is made to. -/
theorem MemoryStore.steady {m : MemoryStore} (h : m.failNext = false) : Store.Steady m :=
  ⟨fun m => m.failNext = false, h, fun m hm writes =>
    ⟨m.written writes, commit_of_not_failNext hm writes, hm⟩⟩

end KeyCustody
