import KeyCustody.Proofs.Store.Crash

/-!
# Journals that cannot be read

A journal gets its name only when it is complete, so one whose contents are no list of sealed
records belongs to no commit. A mount drops it without touching another file, and finds the records
as they were (`Vault.mount_of_isUnreadable`). It does so as far as the contents are UTF-8 text. At
any other octets the mount fails before it looks for records, and leaves the journal where it is, so
every mount after it fails in the same way.

That the journal is found already says that the folder of the store is there
(`Disk.hosts_of_find?_join`), so no mount makes a folder here.
-/

namespace KeyCustody

/-! ### The folder of a file that is found -/

namespace Route

variable {folder : Route} {name : String}

/-- The names that lead to a folder are all its names, but for a stroke at the end of its text. -/
private theorem names_cases (folder : Route) :
    folder.names = folder.base ∨ folder.names = folder.base ++ [""] := by
  rw [base]
  split_ifs with hlast
  · obtain ⟨init, hinit⟩ := List.getLast?_eq_some_iff.mp hlast
    exact .inr (by rw [hinit, List.dropLast_concat])
  · exact .inl rfl

/-- The text of a folder is no longer than that of a file in it. -/
private theorem size_le_size_join (folder : Route) (name : String) :
    folder.size ≤ (folder.join ⟨[name]⟩).size := by
  rw [join_single, size, size, text, text]
  by_cases hbase : folder.base = []
  · obtain hnames | hnames := names_cases folder <;> simp [hnames, hbase]
  · have hsize (last : String) : (String.intercalate "/" (folder.base ++ [last])).utf8ByteSize =
        (String.intercalate "/" folder.base).utf8ByteSize + 1 + last.utf8ByteSize := by
      rw [String.intercalate_append_of_ne_nil hbase (List.cons_ne_nil _ _),
        String.intercalate_singleton, String.utf8ByteSize_append, String.utf8ByteSize_append]
      rfl
    obtain hnames | hnames := names_cases folder
    · rw [hnames, hsize]
      omega
    · rw [hnames, hsize, hsize]
      exact Nat.add_le_add_left (Nat.zero_le _) _

/-- Whoever follows the route to a file in a folder can follow that to the folder. -/
private theorem refusal?_of_join (hsize : folder.size ≠ 0)
    (h : (folder.join ⟨[name]⟩).refusal? = none) : folder.refusal? = none := by
  have hle := size_le_size_join folder name
  rw [refusal?, join_single] at h
  split_ifs at h with hnul hlarge
  rw [← join_single] at hlarge
  have hnames : ¬ (folder.names.any fun name => name.toList.contains '\x00') = true := by
    rw [List.any_append, Bool.or_eq_true, not_or] at hnul
    obtain hnames | hnames := names_cases folder
    · rw [hnames]
      exact hnul.1
    · rw [hnames, List.any_append, Bool.or_eq_true, not_or]
      exact ⟨hnul.1, by decide⟩
  rw [refusal?, if_neg hnames, if_neg (by omega)]

private theorem start_eq (hsize : folder.size ≠ 0) :
    folder.start = if folder.base.head? = some "" then ["/"] else [] := by
  have hempty : folder.names ≠ [""] := fun h => hsize (by rw [size, text, h]; rfl)
  have hhead : folder.names.head? = some "" ∧ 1 < folder.names.length ↔
      folder.base.head? = some "" := by
    rw [base]
    rcases hnames : folder.names with _ | ⟨first, _ | ⟨second, rest⟩⟩
    · simp
    · have hfirst : first ≠ "" := fun h => hempty (by rw [hnames, h])
      simp [hfirst]
    · split_ifs <;> simp
  simp only [start, isAbsolute, Bool.and_eq_true, decide_eq_true_eq, hhead]

end Route

namespace Disk

variable {d : Disk} {folder : Route} {name : String} {node : Node}

/-- Where a file is found in a folder, the folder is there. -/
theorem hosts_of_find?_join (h : d.find? (folder.join ⟨[name]⟩) = some node) :
    d.Hosts folder := by
  by_cases hsize : folder.size = 0
  · exact .inl hsize
  · obtain ⟨path, hpath, -⟩ := exists_of_find? h
    obtain ⟨home, hhome, hfolder, -⟩ := locate_join hpath
    have hjoined : (folder.join ⟨[name]⟩).refusal? = none := by
      rw [locate_eq] at hpath
      split at hpath
      · cases hpath
      · assumption
    have hrefusal : folder.refusal? = none := Route.refusal?_of_join hsize hjoined
    have hlocate : d.locate folder = .ok home := by
      rw [home?, ← Route.start_eq hsize] at hhome
      rw [locate_eq, hrefusal]
      obtain hnames | hnames := Route.names_cases folder
      · rw [hnames]
        exact hhome
      · -- the stroke at the end asks for a step that stays
        have hstay : d.advance home "" = .ok home := if_pos ⟨hfolder, Nat.zero_le _⟩
        simp only [hnames, List.foldlM_append, hhome]
        change [""].foldlM d.advance home = .ok home
        rw [List.foldlM_cons, hstay]
        rfl
    exact .inr ((find?_of_locate hlocate).trans (isFolder_iff.mp hfolder))

end Disk

namespace Vault

variable {drive : Drive} {folder : Route} {content : Bytes}

/-- Whether contents of a journal are no list of sealed records. -/
def IsUnreadable (content : Bytes) : Prop :=
  Bytes.text? content = none ∨ SealedRecord.decodeList? content = none

instance (content : Bytes) : Decidable (IsUnreadable content) :=
  inferInstanceAs (Decidable (_ ∨ _))

/-! ### Mounting over an unreadable journal -/

/-- A journal that is text but no list of records is removed. -/
private theorem replay_of_text
    (hjournal : drive.disk.find? (journalRoute folder) = some (.file content))
    (htext : (Bytes.text? content).isSome) (hcontent : IsUnreadable content) :
    replay drive folder = removeJournal drive folder := by
  have hdecode : SealedRecord.decodeList? content = none :=
    hcontent.resolve_left (Option.isSome_iff_ne_none.mp htext)
  have hnode : (Node.file content).text? = .ok content := if_pos htext
  simp only [replay, hjournal, hnode, hdecode]

/-- A journal that is no text stops the mount. -/
private theorem replay_of_not_text
    (hjournal : drive.disk.find? (journalRoute folder) = some (.file content))
    (htext : Bytes.text? content = none) :
    replay drive folder = (.error (.access (.readJournal .notText)), drive) := by
  have hnode : (Node.file content).text? = .error .notText := if_neg (by simp [htext])
  simp only [replay, hjournal, hnode]

/-- A journal that is a file is removed in one step, which changes what is at its path only. -/
private theorem removeJournal_of_file
    (hjournal : drive.disk.find? (journalRoute folder) = some (.file content)) :
    ∃ path b, drive.disk.locate (journalRoute folder) = .ok path ∧
      removeJournal drive folder = (.ok (), b) ∧
      (∀ q, b.disk.node? q = if q = path then none else drive.disk.node? q) ∧
      Changes folder .journal none drive.disk b.disk := by
  obtain ⟨b, hremove, -, hchanges⟩ := remove_of_file .journal trivial hjournal
  have hremove : drive.remove (journalRoute folder) = (.ok (), b) := hremove
  obtain ⟨why, hfail⟩ | ⟨path, d, hpath, hstep, hdone⟩ := drive.remove_cases (journalRoute folder)
  · cases hremove.symm.trans hfail
  · obtain rfl : b = ⟨d, .remove path :: drive.log⟩ := (Prod.mk.inj (hremove.symm.trans hdone)).2
    refine ⟨path, _, hpath, ?_, (Disk.remove_eq_ok hstep).2, hchanges⟩
    simp only [removeJournal, hremove]

/-- **A journal that cannot be read** keeps no store from being mounted if it is text: it is
removed, nothing else on the disk changes, and every record loads as before. If it is no text, the
mount fails and changes nothing. -/
theorem mount_of_isUnreadable
    (hjournal : drive.disk.find? (journalRoute folder) = some (.file content))
    (hcontent : IsUnreadable content) (secret : String) (nonces : Nat → Nonce) :
    ((Bytes.text? content).isSome → ∃ path w,
      drive.disk.locate (journalRoute folder) = .ok path ∧
      mount drive folder secret nonces = (.ok w, w.drive) ∧ w.folder = folder ∧ w.Clean secret ∧
      (∀ q, w.drive.disk.node? q = if q = path then none else drive.disk.node? q) ∧
      ∀ name, IsPlain name →
        w.load name = load ⟨drive, folder, Seal.deviceKey secret, nonces, 0⟩ name) ∧
    (Bytes.text? content = none →
      mount drive folder secret nonces = (.error (.access (.readJournal .notText)), drive)) := by
  have hmade : drive.makeFolders folder = (.ok (), drive) :=
    Drive.makeFolders_of_hosts (Disk.hosts_of_find?_join hjournal)
  refine ⟨fun htext => ?_, fun htext => ?_⟩
  · obtain ⟨path, b, hpath, hremove, hnode, hchanges⟩ := removeJournal_of_file hjournal
    have hmount : mount drive folder secret nonces =
        (.ok ⟨b, folder, Seal.deviceKey secret, nonces, 0⟩, b) := by
      simp only [mount, hmade, replay_of_text hjournal htext hcontent, hremove]
    refine ⟨path, _, hpath, hmount, rfl, (clean_of_mount hmount).1, hnode, fun name hname => ?_⟩
    have hrecord := hchanges.record hname
    simp only [reduceCtorEq, if_false] at hrecord
    exact load_congr rfl hrecord
  · simp only [mount, hmade, replay_of_not_text hjournal htext]

/-- The disk of a vault with one record, after some contents were left in the place of its
journal. -/
def leftover (content : Bytes) : Drive :=
  .ofDisk ((sample.commit [("a", [0x31])]).2.drive.disk.put ["s", "journal.json"] (.file content))

/-- A list that breaks off is dropped, and the record of the vault loads. An octet that starts no
character stops the mount. -/
theorem mount_of_isUnreadable_leftover :
    (∃ w, mount (leftover (Bytes.ofText "[")) sample.folder "secret" sample.nonces =
        (.ok w, w.drive) ∧
      w.drive.disk.find? (journalRoute w.folder) = none ∧ w.load "a" = .ok (some [0x31])) ∧
    mount (leftover [0xff]) sample.folder "secret" sample.nonces =
      (.error (.access (.readJournal .notText)), leftover [0xff]) := by
  have htorn : (leftover (Bytes.ofText "[")).disk.find? (journalRoute sample.folder) =
      some (.file (Bytes.ofText "[")) := by decide +kernel
  have hgarbled : (leftover [0xff]).disk.find? (journalRoute sample.folder) =
      some (.file [0xff]) := by decide +kernel
  have hload : load ⟨leftover (Bytes.ofText "["), sample.folder, Seal.deviceKey "secret",
      sample.nonces, 0⟩ "a" = .ok (some [0x31]) := by decide +kernel
  refine ⟨?_, ?_⟩
  · obtain ⟨-, w, -, hmount, hfolder, hclean, -, hloads⟩ :=
      (mount_of_isUnreadable htorn (by decide +kernel) "secret" sample.nonces).1 (by decide +kernel)
    exact ⟨w, hmount, hclean.journal, (hloads "a" (by decide)).trans hload⟩
  · exact (mount_of_isUnreadable hgarbled (by decide +kernel) "secret" sample.nonces).2
      (by decide +kernel)

end Vault

end KeyCustody
