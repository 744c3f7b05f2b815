import KeyCustody.Proofs.Agent.Recovery
import KeyCustody.Proofs.Store.Reopening

/-!
# The custodian over a sealed store

An agent over a vault mirrors a store in memory (`Agent.Mirrors`) if a start over the vault finds
what a start over that store would find, and the agent would be lawful over it. So all that is known
of agents over the store in memory carries over. A call that meets no fault of the store leaves an
agent that mirrors another store in memory, and on every disk with which the machine may stop before
its end the next start finds what was held before the call or what is held after it
(`Agent.Effect.mirrors`).

Erasing the anchor is not atomic. But an anchor counts only if all of its records are there, so to
erase the first of them is as good as to erase all (`Agent.Reads.erased`).
-/

namespace KeyCustody

namespace Agent

open Custody

variable {v w : Vault} {m : MemoryStore} {secret : String}

/-! ### Vaults that read like a store in memory -/

/-- Whether a start over a vault finds what a start over a store in memory finds: the anchor, if all
of its records are there, and the snapshot. -/
structure Reads (v : Vault) (m : MemoryStore) : Prop where
  anchor : loadAnchor v = loadAnchor m
  snapshot : Store.load v Custody.record = Store.load m Custody.record

/-- An agent over another store. -/
def withStore {σ τ : Type} (a : Agent σ) (store : τ) : Agent τ :=
  ⟨a.settings, store, a.anchor, a.custody⟩

theorem Reads.start (h : Reads v m) {settings : Settings} {b : Agent MemoryStore}
    (hstart : start settings m = .ok b) : start settings v = .ok (b.withStore v) := by
  obtain ⟨⟨⟩, hcheck, hstart⟩ := bind_eq_ok hstart
  obtain ⟨anchor, hanchor, hstart⟩ := bind_eq_ok hstart
  obtain ⟨snapshot, hsnapshot, hstart⟩ := bind_eq_ok hstart
  obtain ⟨s, hs, hstart⟩ := bind_eq_ok hstart
  obtain rfl := Except.ok.inj hstart
  simp only [Agent.start, h.anchor, h.snapshot, hcheck, hanchor, hsnapshot, hs, bind, Except.bind,
    withStore]

/-- A vault without records reads like the empty store. -/
theorem Reads.of_empty
    (h : ∀ name ∈ Custody.record :: Anchor.recordNames, v.load name = .ok none) :
    Reads v MemoryStore.empty := by
  obtain ⟨hsnapshot, hanchor⟩ := List.forall_mem_cons.mp h
  exact ⟨loadAnchor_congr hanchor, hsnapshot⟩

private theorem isPlain_record : Vault.IsPlain Custody.record := by decide

private theorem isPlain_recordNames : ∀ name ∈ Anchor.recordNames, Vault.IsPlain name := by decide

private theorem isPlain_snapshot {text : Bytes} :
    ∀ write ∈ [(Custody.record, text)], Vault.IsPlain write.1 := by
  intro write hwrite
  rw [List.mem_singleton.mp hwrite]
  exact isPlain_record

private theorem isPlain_anchor (anchor : Anchor) {text : Bytes} :
    ∀ write ∈ anchor.records ++ [(Custody.record, text)], Vault.IsPlain write.1 := by
  intro write hwrite
  obtain hwrite | hwrite := List.mem_append.mp hwrite
  · exact isPlain_recordNames _ (List.mem_map_of_mem (f := Prod.fst) hwrite)
  · exact isPlain_snapshot write hwrite

/-- Records that load alike are read alike. -/
theorem Reads.congr (h : Reads v m)
    (hloads : ∀ name, Vault.IsPlain name → w.load name = v.load name) : Reads w m := by
  have hanchor : loadAnchor w = loadAnchor v := loadAnchor_congr fun name hname =>
    hloads name (isPlain_recordNames name hname)
  exact ⟨hanchor.trans h.anchor, (hloads _ isPlain_record).trans h.snapshot⟩

private theorem ne_record : ∀ name ∈ Anchor.recordNames, name ≠ Custody.record := by decide

/-- A snapshot that is written is read, beside the anchor that was there. -/
theorem Reads.written_snapshot (h : Reads v m) {text : Bytes} (hloads : ∀ name,
    Vault.IsPlain name → w.load name = v.loadAfter [(Custody.record, text)] name) :
    Reads w (m.written [(Custody.record, text)]) := by
  have hwritten (name : String) : v.loadAfter [(Custody.record, text)] name =
      if name = Custody.record then .ok (some text) else v.load name :=
    v.loadAfter_concat [] _ name
  have hmemory (name : String) : Store.load (m.written [(Custody.record, text)]) name =
      if name = Custody.record then .ok (some text) else Store.load m name := by
    change Except.ok ((m.written [(Custody.record, text)]).get? name) = _
    rw [MemoryStore.get?_written_singleton]
    split_ifs <;> rfl
  refine ⟨?_, ?_⟩
  · have hvault : loadAnchor w = loadAnchor v := loadAnchor_congr fun name hname => by
      have hplain : Vault.IsPlain name := isPlain_recordNames name hname
      exact (hloads name hplain).trans ((hwritten name).trans (if_neg (ne_record name hname)))
    have hstore : loadAnchor (m.written [(Custody.record, text)]) = loadAnchor m :=
      loadAnchor_congr fun name hname => (hmemory name).trans (if_neg (ne_record name hname))
    rw [hvault, hstore, h.anchor]
  · rw [hmemory, if_pos rfl]
    exact (hloads _ isPlain_record).trans ((hwritten _).trans (if_pos rfl))

/-- An anchor that is written with a snapshot is read with it, whatever was there. -/
theorem reads_written_anchor (m : MemoryStore) {anchor : Anchor} {text : Bytes} (hloads : ∀ name,
    Vault.IsPlain name →
      w.load name = v.loadAfter (anchor.records ++ [(Custody.record, text)]) name) :
    Reads w (m.written (anchor.records ++ [(Custody.record, text)])) := by
  have hlookup : ∀ name ∈ Custody.record :: Anchor.recordNames, ∃ data,
      (anchor.records ++ [(Custody.record, text)]).reverse.lookup name = some data := by
    intro name hname
    simp only [Anchor.recordNames, List.mem_cons, List.not_mem_nil, or_false] at hname
    obtain rfl | rfl | rfl | rfl := hname <;> exact ⟨_, rfl⟩
  have hload : ∀ name ∈ Custody.record :: Anchor.recordNames, Store.load w name =
      Store.load (m.written (anchor.records ++ [(Custody.record, text)])) name := by
    intro name hname
    obtain ⟨data, hdata⟩ := hlookup name hname
    have hplain : Vault.IsPlain name :=
      List.forall_mem_cons.mpr ⟨isPlain_record, isPlain_recordNames⟩ name hname
    have hvault : w.load name = .ok (some data) := by
      rw [hloads name hplain, Vault.loadAfter, hdata]
    have hmemory : (m.written (anchor.records ++ [(Custody.record, text)])).get? name =
        some data := by
      rw [MemoryStore.get?_written, hdata, Option.some_or]
    exact hvault.trans (congrArg Except.ok hmemory).symm
  obtain ⟨hsnapshot, hanchor⟩ := List.forall_mem_cons.mp hload
  exact ⟨loadAnchor_congr hanchor, hsnapshot⟩

/-- As soon as one record of the anchor is erased no anchor is read, and the snapshot is as
before. -/
theorem Reads.erased (h : Reads v m) {part : List String} (hpart : part <+: Anchor.recordNames)
    (hne : part ≠ []) (hloads : ∀ name, Vault.IsPlain name →
      w.load name = if name ∈ part then .ok none else v.load name) :
    Reads w { m.erase Anchor.recordNames with failNext := false } := by
  have hfirst : Anchor.serviceKeyRecord ∈ part := by
    obtain ⟨name, rest, rfl⟩ := List.exists_cons_of_ne_nil hne
    rw [(List.cons_prefix_cons.mp hpart).1]
    exact List.mem_cons_self
  have hrecord : Custody.record ∉ part := fun hmem => ne_record _ (hpart.subset hmem) rfl
  constructor
  · -- a record that is not erased loads as before, so none of the three is unreadable
    have hread : loadAnchor v = .ok _ := h.anchor
    have hserviceKey : Store.load w Anchor.serviceKeyRecord = .ok none :=
      (hloads _ (by decide)).trans (if_pos hfirst)
    have hvault : loadAnchor w = .ok none := loadAnchor_of_absent hserviceKey fun name hname => by
      have hload : Store.load w name = if name ∈ part then .ok none else v.load name :=
        hloads name (isPlain_recordNames name hname)
      rw [hload]
      split_ifs
      · exact ⟨none, rfl⟩
      · exact exists_load_of_loadAnchor hread name hname
    exact hvault.trans (holds_erased m).loadAnchor.symm
  · have hkept : (m.erase Anchor.recordNames).get? Custody.record = m.get? Custody.record :=
      (MemoryStore.get?_erase m _ _).trans (if_neg (by decide))
    have hsame : w.load Custody.record = v.load Custody.record :=
      (hloads _ isPlain_record).trans (if_neg hrecord)
    exact (hsame.trans h.snapshot).trans (congrArg Except.ok hkept.symm)

/-! ### Agents over vaults -/

/-- Whether an agent over a clean vault is lawful: a start over the vault finds what a start over a
store in memory would find, over which the agent is lawful. -/
structure Mirrors (secret : String) (a : Agent Vault) (m : MemoryStore) : Prop where
  clean : a.store.Clean secret
  reads : Reads a.store m
  lawful : (a.withStore m).Lawful
  steady : m.failNext = false

/-- Whether an agent over a vault holds what one of two agents holds, as a start would find it. -/
def Resumes (secret : String) (a b : Agent Vault) (w : Vault) : Prop :=
  ∃ m, (a.withStore w).Mirrors secret m ∨ (b.withStore w).Mirrors secret m

variable {a b : Agent Vault}

/-- A call that touches no record is not noticed by a start. -/
private theorem passes_of_same_store (ha : a.Mirrors secret m) (hstore : b.store = a.store) :
    a.store.drive.Passes b.store.drive
      (Vault.Reopens a.store.folder secret (Resumes secret a b)) := by
  rw [hstore]
  refine .refl (ha.clean.reopens.imp fun w hw hloads => ⟨m, .inl ?_⟩)
  exact ⟨hw, ha.reads.congr hloads, ha.lawful, ha.steady⟩

/-- What is committed is found after the commit, and what was there before it. -/
private theorem commit_mirrors (ha : a.Mirrors secret m) {writes : List (String × Bytes)}
    (hnames : ∀ write ∈ writes, Vault.IsPlain write.1)
    (hcommit : a.store.commit writes = (.ok (), b.store))
    (hreads : ∀ w : Vault, (∀ name, Vault.IsPlain name →
      w.load name = a.store.loadAfter writes name) → Reads w (m.written writes))
    (hlawful : (b.withStore (m.written writes)).Lawful) :
    b.store.folder = a.store.folder ∧ b.Mirrors secret (m.written writes) ∧
      a.store.drive.Passes b.store.drive
        (Vault.Reopens a.store.folder secret (Resumes secret a b)) := by
  obtain ⟨hpasses, hclean, hfolder, hloads⟩ := Vault.commit_reopens ha.clean hnames hcommit
  refine ⟨hfolder, ⟨hclean, hreads _ hloads, hlawful, ha.steady⟩,
    hpasses.imp fun d hd => hd.imp fun w hw hwloads => ?_⟩
  obtain hbefore | hafter := hwloads
  · exact ⟨m, .inl ⟨hw, ha.reads.congr hbefore, ha.lawful, ha.steady⟩⟩
  · exact ⟨_, .inr ⟨hw, hreads w hafter, hlawful, ha.steady⟩⟩

/-- While the anchor is erased what is found is what was there or, as soon as one record is gone,
nothing but the number of the next command. -/
private theorem erase_mirrors (ha : a.Mirrors secret m)
    (hnext : a.blank.outbox.nextSequence < Outbox.sequenceBound) {store : Vault}
    (herase : a.store.erase Anchor.recordNames = (.ok (), store)) :
    let b : Agent Vault := { a with store := store, anchor := none, custody := a.blank }
    b.store.folder = a.store.folder ∧
      b.Mirrors secret { m.erase Anchor.recordNames with failNext := false } ∧
      a.store.drive.Passes b.store.drive
        (Vault.Reopens a.store.folder secret (Resumes secret a b)) := by
  intro b
  obtain ⟨hpasses, hclean, hfolder, hloads⟩ :=
    Vault.erase_reopens ha.clean isPlain_recordNames herase
  -- over a store in memory this is a close that could not commit
  have hobstructed : (a.withStore m.failing).Lawful := ha.lawful.of_records rfl
  have heffect : (a.withStore m.failing).Effect .close _ _ :=
    .unclosed rfl (MemoryStore.commit_of_failNext rfl _)
  have hlawful := heffect.lawful hnext hobstructed
  have hmirrors {w : Vault} {part : List String} (hw : w.Clean secret)
      (hpart : part <+: Anchor.recordNames) (hne : part ≠ []) (hwloads : ∀ name,
        Vault.IsPlain name → w.load name = if name ∈ part then .ok none else a.store.load name) :
      (b.withStore w).Mirrors secret { m.erase Anchor.recordNames with failNext := false } :=
    ⟨hw, ha.reads.erased hpart hne hwloads, hlawful, rfl⟩
  refine ⟨hfolder, hmirrors hclean List.prefix_rfl (by decide) hloads,
    hpasses.imp fun d hd => hd.imp fun w hw ⟨part, hpart, hwloads⟩ => ?_⟩
  by_cases hne : part = []
  · refine ⟨m, .inl ⟨hw, ha.reads.congr fun name hname => ?_, ha.lawful, ha.steady⟩⟩
    exact (hwloads name hname).trans (if_neg (hne ▸ List.not_mem_nil))
  · exact ⟨_, .inr (hmirrors hw hpart hne hwloads)⟩

/-- **A call that meets no fault of the store** and does not come to the end of the numbers leaves
an agent that is lawful, and wherever the machine stops before its end, the next mount finds what is
held before the call or after it. -/
theorem Effect.mirrors {call : Call} {result : Except Fault Answer} (h : a.Effect call result b)
    (hnext : b.custody.outbox.nextSequence < Outbox.sequenceBound) (ha : a.Mirrors secret m)
    (hfault : ∀ fault, result ≠ .error (.storage fault)) :
    b.store.folder = a.store.folder ∧ (∃ m', b.Mirrors secret m') ∧
      a.store.drive.Passes b.store.drive
        (Vault.Reopens a.store.folder secret (Resumes secret a b)) := by
  cases h with
  | refused | found => exact ⟨rfl, ⟨m, ha⟩, passes_of_same_store ha rfl⟩
  | @saved _ _ t store hinit ht hcommit =>
    have heffect : (a.withStore m).Effect call _ _ :=
      .saved hinit ht (MemoryStore.commit_of_not_failNext ha.steady _)
    obtain ⟨hfolder, hb, hpasses⟩ := commit_mirrors (b := { a with store := store, custody := t })
      ha isPlain_snapshot hcommit (fun w hw => ha.reads.written_snapshot hw)
      (heffect.lawful hnext ha.lawful)
    exact ⟨hfolder, ⟨_, hb⟩, hpasses⟩
  | @provisioned _ _ _ anchor store hinit hmake hcommit =>
    have heffect : (a.withStore m).Effect (.provision _ _ _) _ _ :=
      .provisioned hinit hmake (MemoryStore.commit_of_not_failNext ha.steady _)
    obtain ⟨hfolder, hb, hpasses⟩ := commit_mirrors
      (b := { a with store := store, anchor := some anchor, custody := a.blank })
      ha (isPlain_anchor anchor) hcommit (fun w hw => reads_written_anchor m hw)
      (heffect.lawful hnext ha.lawful)
    exact ⟨hfolder, ⟨_, hb⟩, hpasses⟩
  | attested hinit hgate =>
    have heffect : (a.withStore m).Effect (.attest _ _) _ _ := .attested hinit hgate
    exact ⟨rfl, ⟨m, ha.clean, ha.reads, heffect.lawful hnext ha.lawful, ha.steady⟩,
      passes_of_same_store ha rfl⟩
  | revoked ta =>
    have heffect : (a.withStore m).Effect (.revoke ta) _ _ := .revoked ta
    exact ⟨rfl, ⟨m, ha.clean, ha.reads, heffect.lawful hnext ha.lawful, ha.steady⟩,
      passes_of_same_store ha rfl⟩
  | @closed store store' herase hcommit =>
    have hsteady : (m.erase Anchor.recordNames).failNext = false := ha.steady
    have heffect : (a.withStore m).Effect .close _ _ :=
      .closed rfl (MemoryStore.commit_of_not_failNext hsteady _)
    have hlawful : (({ a with anchor := none, custody := a.blank } : Agent Vault).withStore
        (({ m.erase Anchor.recordNames with failNext := false } : MemoryStore).written
          [(Custody.record, a.blank.encode)])).Lawful :=
      (heffect.lawful hnext ha.lawful).of_records rfl
    obtain ⟨hfolder, hm', hpasses⟩ := erase_mirrors ha hnext herase
    obtain ⟨hfolder', hb, hpasses'⟩ := commit_mirrors
      (b := { a with store := store', anchor := none, custody := a.blank })
      hm' isPlain_snapshot hcommit (fun w hw => hm'.reads.written_snapshot hw) hlawful
    refine ⟨hfolder'.trans hfolder, ⟨_, hb⟩, hpasses.trans (hpasses'.imp fun d hd => ?_)⟩
    -- once the anchor is gone the agent is the one after the call
    rw [hfolder] at hd
    exact hd.imp fun w _ ⟨m', hresumes⟩ => ⟨m', .inr (hresumes.elim id id)⟩
  | unsaved | unprovisioned | unerased | unclosed => exact absurd rfl (hfault _)

end Agent

end KeyCustody
