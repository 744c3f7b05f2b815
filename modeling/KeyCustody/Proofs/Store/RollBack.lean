import KeyCustody.Proofs.Store.Crash

/-!
# Commits that fail

A commit that fails puts back what it has written, so every record loads as before
(`Vault.load_of_failed_commit`). It then drops its journal if each file was put back at once. A name
without a file that was written twice stands in the way of this, because its file is removed twice:
the journal of such a commit is left (`Vault.LeavesJournal`), and the next mount that succeeds
applies the commit that has failed.
-/

namespace KeyCustody.Vault

open SealedRecord

-- how a route is followed plays no part below
seal Disk.find? Disk.locate

variable {v u w : Vault} {secret : String} {writes : List (String × Bytes)} {fault : StoreFault}
  {d : Disk} {drive : Drive} {nonces : Nat → Nonce}

/-- The names that a commit writes before it comes to one that cannot be written, as far as they
have no file yet. -/
def newNames (v : Vault) (writes : List (String × Bytes)) : List String :=
  ((writes.map Prod.fst).takeWhile fun name => admits v.folder v.drive.disk (.record name)).filter
    fun name => v.drive.disk.find? (recordRoute v.folder name) = none

/-- Whether a commit that fails leaves its journal behind: it gets as far as writing the journal,
and it writes a name without a file twice before it fails. -/
def LeavesJournal (v : Vault) (writes : List (String × Bytes)) : Prop :=
  (∀ write ∈ writes, v.drive.disk.find? (recordRoute v.folder write.1) ≠ some .folder) ∧
    admits v.folder v.drive.disk .journal = true ∧ ¬ (v.newNames writes).Nodup

instance (v : Vault) (writes : List (String × Bytes)) : Decidable (v.LeavesJournal writes) :=
  inferInstanceAs (Decidable (_ ∧ _ ∧ _))

private theorem absent_writable (v : Vault) (nonces : Nat → Nonce) (drawn : Nat) :
    absent v.folder v.drive.disk
      (writable v.folder v.drive.disk (sealRecords v.key nonces drawn writes)) =
        v.newNames writes := by
  rw [absent, writable, newNames, ← map_name_sealRecords v.key nonces drawn, List.takeWhile_map]
  rfl

/-- What a failed commit leaves on the disk. -/
private theorem find?_of_failed_commit (hv : v.Clean secret)
    (hnames : ∀ write ∈ writes, IsPlain write.1) (h : v.commit writes = (.error fault, u)) :
    u.key = v.key ∧ u.folder = v.folder ∧ u.drive.disk.isFolder = v.drive.disk.isFolder ∧
      (∀ name, IsPlain name → u.drive.disk.find? (recordRoute v.folder name) =
        v.drive.disk.find? (recordRoute v.folder name)) ∧
      u.drive.disk.find? (journalRoute v.folder) =
        if v.LeavesJournal writes then
          some (.file (encodeList (sealRecords v.key v.nonces v.drawn writes)))
        else none := by
  have houtcome := commitOutcome_commit hv hnames
  have hnotFolder : (∀ r ∈ sealRecords v.key v.nonces v.drawn writes,
      v.drive.disk.find? (recordRoute v.folder r.name) ≠ some .folder) ↔ ∀ write ∈ writes,
        v.drive.disk.find? (recordRoute v.folder write.1) ≠ some .folder :=
    forall_mem_sealRecords (p := fun name =>
      v.drive.disk.find? (recordRoute v.folder name) ≠ some .folder)
  obtain ⟨hkey, hfolder⟩ := of_commit h
  rw [h] at houtcome
  refine ⟨hkey, hfolder, houtcome.course.last.1, ?_⟩
  cases houtcome with
  | refused hwhy hpasses =>
    have hkeeps := hpasses.last
    have hnot : ¬ v.LeavesJournal writes := by
      rintro ⟨hfree, hadmits, -⟩
      obtain ⟨r, hr, hfolder⟩ | hblocked := hwhy
      · exact hnotFolder.mpr hfree r hr hfolder
      · rw [hadmits] at hblocked
        cases hblocked
    refine ⟨fun name hname => hkeeps.record hname, ?_⟩
    rw [if_neg hnot]
    exact hkeeps.journal.trans hv.journal
  | undone hfree hadmits hpasses hrecords hjournal =>
    rw [absent_writable] at hjournal
    refine ⟨hrecords, ?_⟩
    split_ifs with hleaves
    · -- a journal that is there is that of the commit
      have hthere : u.drive.disk.find? (journalRoute v.folder) ≠ none :=
        fun hnone => hleaves.2.2 (hjournal.mp hnone)
      obtain ⟨-, hphase⟩ := hpasses.last
      cases hphase with
      | before hitems => exact absurd ((hitems .journal trivial).trans hv.journal) hthere
      | underway hfile _ => exact hfile
      | after hnone _ => exact absurd hnone hthere
    · refine hjournal.mpr ?_
      by_contra hnodup
      exact hleaves ⟨hnotFolder.mp hfree, hadmits, hnodup⟩

/-- A commit of records with different names leaves no journal when it fails, and it changes
nothing. -/
theorem clean_of_failed_commit (hv : v.Clean secret) (hnames : ∀ write ∈ writes, IsPlain write.1)
    (hnodup : (writes.map Prod.fst).Nodup) (h : v.commit writes = (.error fault, u)) :
    u.Clean secret ∧ ∀ name, IsPlain name → u.load name = v.load name := by
  obtain ⟨hkey, hfolder, hfolders, hrecords, hjournal⟩ := find?_of_failed_commit hv hnames h
  have hnew : (v.newNames writes).Nodup :=
    (hnodup.sublist (List.takeWhile_sublist _)).sublist List.filter_sublist
  have hleaves : ¬ v.LeavesJournal writes := fun hleaves => hleaves.2.2 hnew
  rw [if_neg hleaves] at hjournal
  have hhosts := (Disk.hosts_congr hfolders v.folder).mpr hv.hosts
  refine ⟨⟨hfolder ▸ hhosts, hfolder ▸ hjournal, hkey.trans hv.key⟩, fun name hname => ?_⟩
  exact load_congr hkey (by rw [hfolder, hrecords name hname])

/-- **A commit that fails changes no record**, but one that leaves its journal takes effect all the
same: after the next mount that succeeds, whatever has become of the obstacle, all records load as
it was to leave them. -/
theorem load_of_failed_commit (hv : v.Clean secret)
    (hnames : ∀ write ∈ writes, IsPlain write.1) (h : v.commit writes = (.error fault, u)) :
    (∀ name, IsPlain name → u.load name = v.load name) ∧
    (u.drive.disk.find? (journalRoute u.folder) = none ↔ ¬ v.LeavesJournal writes) ∧
    ∀ d nonces w drive, Later v.folder secret u.drive.disk d →
      mount (.ofDisk d) v.folder secret nonces = (.ok w, drive) →
      w.drive.disk.find? (journalRoute w.folder) = none ∧
      ∀ name, IsPlain name → w.load name =
        if v.LeavesJournal writes then v.loadAfter writes name else v.load name := by
  obtain ⟨hkey, hfolder, hfolders, hrecords, hjournal⟩ := find?_of_failed_commit hv hnames h
  have hloads : ∀ name, IsPlain name → u.load name = v.load name := by
    intro name hname
    exact load_congr hkey (by rw [hfolder, hrecords name hname])
  refine ⟨hloads, ?_, fun d nonces w drive hlater hmount => ?_⟩
  · rw [hfolder, hjournal]
    split_ifs with hleaves <;> simp [hleaves]
  · have hhosts := (Disk.hosts_congr hfolders v.folder).mpr hv.hosts
    split_ifs with hleaves
    · -- mounts go on with the commit from its journal
      rw [if_pos hleaves] at hjournal
      obtain ⟨hfolder', hkey', hnone, hlast⟩ := hlater.over (forall_mem_sealRecords.mpr hnames)
        (.inr hjournal) hhosts (.before fun _ _ => rfl) hmount
      refine ⟨by rw [hfolder', hnone], fun name hname => ?_⟩
      obtain ⟨hnone', -⟩ | hrecords' := hlast
      · cases hnone'.symm.trans hjournal
      · have hfile : w.drive.disk.find? (recordRoute w.folder name) =
            settled (sealRecords v.key v.nonces v.drawn writes) name
              (v.drive.disk.find? (recordRoute v.folder name)) := by
          rw [hfolder', hrecords' name hname, hrecords name hname]
        exact load_of_settled (hkey'.trans hv.key.symm) hfile
    · -- without a journal they do nothing, as after a commit of no records
      rw [if_neg hleaves] at hjournal
      have hnothing : ∀ r ∈ ([] : List SealedRecord), IsPlain r.name := nofun
      obtain ⟨hfolder', hkey', hnone, hlast⟩ :=
        hlater.over hnothing (.inl hjournal) hhosts (.before fun _ _ => rfl) hmount
      refine ⟨by rw [hfolder', hnone], fun name hname => ?_⟩
      have hsame : w.drive.disk.find? (recordRoute v.folder name) =
          u.drive.disk.find? (recordRoute v.folder name) :=
        hlast.elim (fun hbefore => hbefore.2 name hname) fun hafter => hafter name hname
      refine load_congr (hkey'.trans hv.key.symm) ?_
      rw [hfolder', hsame, hrecords name hname]

/-! ### A failed commit that takes effect -/

/-- A vault where a folder stands in the way of one record. -/
def blocked : Vault :=
  { sample with drive := .ofDisk ⟨.folder [("s", .folder [("b.tmp", .folder [])])]⟩ }

/-- Two contents of a record without a file, and a record that cannot be written. -/
def blockedWrites : List (String × Bytes) := [("a", [0x31]), ("a", [0x32]), ("b", [0x33])]

/-- The disk after the commit of these records, without the folder that was in the way. -/
def unblocked : Disk := (blocked.commit blockedWrites).2.drive.disk.drop ["s", "b.tmp"]

theorem clean_blocked : blocked.Clean "secret" :=
  ⟨.inr (by decide +kernel), by decide +kernel, rfl⟩

theorem undisturbed_unblocked :
    Undisturbed blocked.folder (blocked.commit blockedWrites).2.drive.disk unblocked := by
  have hempty : ((blocked.commit blockedWrites).2.drive.disk.tree? ["s", "b.tmp"]).map
      (·.children.length) = some 0 := by decide +kernel
  have hnode : ∀ q, unblocked.node? q = if q = ["s", "b.tmp"] then none
      else (blocked.commit blockedWrites).2.drive.disk.node? q := by
    refine Disk.node?_drop (by decide) fun t ht => List.eq_nil_of_length_eq_zero ?_
    rw [ht] at hempty
    exact Option.some.inj hempty
  have hhome : (blocked.commit blockedWrites).2.drive.disk.home? blocked.folder = .ok ["s"] := by
    decide +kernel
  have hhome' : unblocked.home? blocked.folder = .ok ["s"] := by decide +kernel
  refine undisturbed_of_home (.inr (by decide +kernel)) hhome hhome' (by decide +kernel) ?_
  intro item _
  have hplace : Path.enter ["s"] "b.tmp" ≠ Path.enter ["s"] item.file :=
    Path.enter_ne item.file_isName (Item.temporaryFile_ne (.record "b") item)
  rw [hnode, if_neg fun heq => hplace (heq.trans rfl).symm]

/-- The commit fails and its first record loads as before. After the folder is gone, the next mount
finds what the commit was to write. -/
theorem load_of_failed_commit_blocked :
    ∃ fault w drive,
      (blocked.commit blockedWrites).1 = .error fault ∧
      (blocked.commit blockedWrites).2.load "a" = .ok none ∧
      Later blocked.folder "secret" (blocked.commit blockedWrites).2.drive.disk unblocked ∧
      mount (.ofDisk unblocked) blocked.folder "secret" blocked.nonces = (.ok w, drive) ∧
      w.load "a" = .ok (some [0x32]) ∧ w.load "b" = .ok (some [0x33]) := by
  have hnames : ∀ write ∈ blockedWrites, IsPlain write.1 := by decide
  have hadmits : ∀ write ∈ blockedWrites,
      admits blocked.folder unblocked (.record write.1) = true := by decide +kernel
  have hfails : (blocked.commit blockedWrites).1.isOk = false := by decide +kernel
  rcases hresult : (blocked.commit blockedWrites).1 with fault | ⟨⟩
  · have hcommit : blocked.commit blockedWrites =
        (.error fault, (blocked.commit blockedWrites).2) := Prod.ext hresult rfl
    have hleaves : blocked.LeavesJournal blockedWrites := by decide +kernel
    have hlater : Later blocked.folder "secret" (blocked.commit blockedWrites).2.drive.disk
        unblocked := .single (.inr undisturbed_unblocked)
    obtain ⟨-, -, hfolders, -, hjournal⟩ := find?_of_failed_commit clean_blocked hnames hcommit
    rw [if_pos hleaves] at hjournal
    obtain ⟨w, drive, hmount⟩ := hlater.exists_mount (forall_mem_sealRecords.mpr hnames)
      (.inr hjournal) ((Disk.hosts_congr hfolders blocked.folder).mpr clean_blocked.hosts)
      (.before fun _ _ => rfl)
      (forall_mem_sealRecords (p := fun name => admits _ _ (.record name) = true) |>.mpr hadmits)
      blocked.nonces
    obtain ⟨hloads, -, hmounts⟩ := load_of_failed_commit clean_blocked hnames hcommit
    obtain ⟨-, hlast⟩ := hmounts _ _ _ _ hlater hmount
    refine ⟨fault, w, drive, rfl, ?_, hlater, hmount, ?_, ?_⟩
    · rw [hloads "a" (by decide)]
      decide +kernel
    · rw [hlast "a" (by decide), if_pos hleaves]
      rfl
    · rw [hlast "b" (by decide), if_pos hleaves]
      rfl
  · rw [hresult] at hfails
    cases hfails

end KeyCustody.Vault
