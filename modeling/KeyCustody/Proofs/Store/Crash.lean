import KeyCustody.Proofs.Store.Commit

/-!
# Crashes of the sealed store

A machine may stop at any step of a commit, and again at any step of each later attempt to mount the
store; in between, things that are in the way may come and go. The disk stays in one of the phases
of the commit, so the first attempt that succeeds finds all records as they were before the commit
or all of them as they were to be after it (`Vault.commit_atomic`).

A vault that has been mounted, whatever was on the disk, has no journal left, which is what a commit
starts from (`Vault.clean_of_mount`).
-/

namespace KeyCustody

namespace Vault

open SealedRecord

-- how a route is followed plays no part below
seal Disk.find? Disk.locate

variable {folder : Route} {records : List SealedRecord} {d e f : Disk} {drive b : Drive}
  {name secret : String} {nonces : Nat → Nonce} {v w : Vault}

/-! ### Applying a journal that is still there -/

/-- The phase depends on the files alone. -/
theorem Phase.congr (h : Phase folder records d e) (hitems : ∀ item : Item, item.IsPlain →
    f.find? (item.route folder) = e.find? (item.route folder)) : Phase folder records d f := by
  have hjournal : f.find? (journalRoute folder) = e.find? (journalRoute folder) :=
    hitems .journal trivial
  have hrecord : ∀ name, IsPlain name →
      f.find? (recordRoute folder name) = e.find? (recordRoute folder name) :=
    fun name => hitems (.record name)
  cases h with
  | before h => exact .before fun item hitem => (hitems item hitem).trans (h item hitem)
  | underway hfile h =>
    refine .underway (hjournal.trans hfile) fun name hname => ?_
    rw [hrecord name hname]
    exact h name hname
  | after hnone h =>
    exact .after (hjournal.trans hnone) fun name hname => (hrecord name hname).trans (h name hname)

/-- In every phase the file of a record holds what it held before or one of its new pages. -/
private theorem Phase.mixed (h : Phase folder records d e) (hname : IsPlain name) :
    Mixed folder records d (records.map SealedRecord.name) name
      (e.find? (recordRoute folder name)) := by
  cases h with
  | before hitems => exact .inl (hitems (.record name) hname)
  | underway _ hrecords => exact hrecords name hname
  | after _ hrecords =>
    have hnode := hrecords name hname
    obtain ⟨hbefore, -⟩ | ⟨r, hr, rfl, hpage⟩ :=
      settled_cases records name (d.find? (recordRoute folder name))
    · exact .inl (hnode.trans hbefore)
    · exact .inr ⟨List.mem_map_of_mem hr, r, hr, rfl, hnode.trans hpage⟩

/-- A new page that is written over a new page of the same name makes no difference. -/
private theorem settled_of_mixed {names : List String} {node : Option Node}
    (h : Mixed folder records d names name node) : settled records name node =
      settled records name (d.find? (recordRoute folder name)) := by
  obtain rfl | ⟨-, r, hr, hname, -⟩ := h
  · rfl
  · rw [settled, settled]
    rcases hlatest : latest? records name with _ | last
    · exact absurd hname (latest?_eq_none.mp hlatest r hr)
    · rfl

/-- A commit that is made once more over one of its own phases is in one of its phases. -/
theorem Phase.trans (h : Phase folder records d e) (h' : Phase folder records e f) :
    Phase folder records d f := by
  cases h' with
  | before hitems => exact h.congr hitems
  | underway hjournal hrecords =>
    refine .underway hjournal fun name hname => ?_
    obtain hbefore | hpage := hrecords name hname
    · rw [hbefore]
      exact h.mixed hname
    · exact .inr hpage
  | after hjournal hrecords =>
    refine .after hjournal fun name hname => ?_
    rw [hrecords name hname, settled_of_mixed (h.mixed hname)]

/-- Whether a disk is one from which a commit of records starts: there is no journal, or the one of
this commit. -/
def Starts (folder : Route) (records : List SealedRecord) (d : Disk) : Prop :=
  d.find? (journalRoute folder) = none ∨
    d.find? (journalRoute folder) = some (.file (encodeList records))

/-- Whether a commit of records is over: the journal is gone, and the files of all records have
their last pages or, if there was no journal, are as before. -/
def Over (folder : Route) (records : List SealedRecord) (d e : Disk) : Prop :=
  e.find? (journalRoute folder) = none ∧
    ((d.find? (journalRoute folder) = none ∧ ∀ name, IsPlain name →
      e.find? (recordRoute folder name) = d.find? (recordRoute folder name)) ∨
    ∀ name, IsPlain name → e.find? (recordRoute folder name) =
      settled records name (d.find? (recordRoute folder name)))

/-- A journal that is there is applied to its end, up to the first record that cannot be written. -/
private theorem replay_of_journal (hnames : ∀ r ∈ records, IsPlain r.name)
    (hjournal : drive.disk.find? (journalRoute folder) = some (.file (encodeList records))) :
    ∃ result b, replay drive folder = (result, b) ∧
      drive.Passes b (Course folder records drive.disk drive.disk) ∧
      (result = .ok () → b.disk.find? (journalRoute folder) = none ∧
        ∀ name, IsPlain name → b.disk.find? (recordRoute folder name) =
          settled records name (drive.disk.find? (recordRoute folder name))) ∧
      ((∀ r ∈ records, admits folder drive.disk (.record r.name) = true) → result = .ok ()) := by
  have htext : (Node.file (encodeList records)).text? = .ok (encodeList records) :=
    if_pos (isText_encodeList records).isSome_text?
  have hstart : Underway folder records drive.disk (Settled folder drive.disk []) drive.disk :=
    ⟨rfl, hjournal, fun _ _ => rfl⟩
  obtain ⟨result, m, hwrite, hpasses, hlast, hresult⟩ := writeRecords_passes hnames hstart
  have hpasses : drive.Passes m (Course folder records drive.disk drive.disk) :=
    hpasses.imp fun e he => he.course fun _ hr => hr
  rcases result with fault | ⟨⟩
  · refine ⟨.error fault, m, ?_, hpasses, nofun, hresult⟩
    simp only [replay, hjournal, htext, decodeList?_encodeList, hwrite]
  · obtain ⟨b, hremove, hpasses', hend⟩ := removeJournal_passes (hlast rfl)
    refine ⟨.ok (), b, ?_, hpasses.trans hpasses', fun _ => hend, fun _ => rfl⟩
    simp only [replay, hjournal, htext, decodeList?_encodeList, hwrite, hremove]

/-- A journal that is applied keeps to the phases of its commit, and if it is applied to its end the
commit is over. This fails only if a record cannot be written. -/
theorem replay_passes (drive : Drive) (hnames : ∀ r ∈ records, IsPlain r.name)
    (hstarts : Starts folder records d) (h : Phase folder records d drive.disk) :
    ∃ result b, replay drive folder = (result, b) ∧
      drive.Passes b (Course folder records drive.disk d) ∧
      (result = .ok () → Over folder records d b.disk) ∧
      ((∀ r ∈ records, admits folder drive.disk (.record r.name) = true) → result = .ok ()) := by
  -- without a journal nothing happens, and the commit has not begun or is over
  by_cases hnone : drive.disk.find? (journalRoute folder) = none
  · have hover : Over folder records d drive.disk := by
      cases h with
      | before hitems =>
        have hnone' := (hitems .journal trivial).symm.trans hnone
        exact ⟨hnone, .inl ⟨hnone', fun name => hitems (.record name)⟩⟩
      | underway hjournal _ => cases hnone.symm.trans hjournal
      | after _ hrecords => exact ⟨hnone, .inr hrecords⟩
    exact ⟨.ok (), drive, by simp only [replay, hnone], .refl ⟨rfl, h⟩, fun _ => hover,
      fun _ => rfl⟩
  · have hjournal : drive.disk.find? (journalRoute folder) =
        some (.file (encodeList records)) := by
      cases h with
      | before hitems =>
        have hsame := hitems .journal trivial
        exact hsame.trans (hstarts.resolve_left fun hnone' => hnone (hsame.trans hnone'))
      | underway hjournal _ => exact hjournal
      | after hnone' _ => exact absurd hnone' hnone
    obtain ⟨result, b, hreplay, hpasses, hlast, hresult⟩ := replay_of_journal hnames hjournal
    refine ⟨result, b, hreplay, hpasses.imp fun e he => ⟨he.1, h.trans he.2⟩, fun hok => ?_,
      hresult⟩
    obtain ⟨hnone', hrecords⟩ := hlast hok
    refine ⟨hnone', .inr fun name hname => ?_⟩
    rw [hrecords name hname, settled_of_mixed (h.mixed hname)]

/-! ### Mounting -/

/-- What a mount does to a disk on which a commit may have been interrupted: it keeps to the phases
of the commit, and if it succeeds the commit is over. It fails only if a record cannot be
written. -/
theorem mount_passes (drive : Drive) (hnames : ∀ r ∈ records, IsPlain r.name)
    (hstarts : Starts folder records d) (hhosts : drive.disk.Hosts folder)
    (h : Phase folder records d drive.disk) (secret : String) (nonces : Nat → Nonce) :
    ∃ result b, mount drive folder secret nonces = (result, b) ∧
      drive.Passes b (Course folder records drive.disk d) ∧
      (∀ v, result = .ok v → v = ⟨b, folder, Seal.deviceKey secret, nonces, 0⟩ ∧
        Over folder records d b.disk) ∧
      ((∀ r ∈ records, admits folder drive.disk (.record r.name) = true) →
        ∃ v, result = .ok v) := by
  obtain ⟨result, b, hreplay, hpasses, hover, hresult⟩ := replay_passes drive hnames hstarts h
  rcases result with fault | ⟨⟩
  · refine ⟨.error fault, b, ?_, hpasses, nofun, fun hall => nomatch hresult hall⟩
    simp only [mount, Drive.makeFolders_of_hosts hhosts, hreplay]
  · refine ⟨.ok ⟨b, folder, Seal.deviceKey secret, nonces, 0⟩, b, ?_, hpasses, ?_,
      fun _ => ⟨_, rfl⟩⟩
    · simp only [mount, Drive.makeFolders_of_hosts hhosts, hreplay]
    · rintro v hv
      obtain rfl := Except.ok.inj hv
      exact ⟨rfl, hover rfl⟩

/-! ### What a mounted vault is like -/

/-- A vault as it is mounted with a secret: its folder is there, no journal is left over, and its
key is that of the secret. -/
structure Clean (v : Vault) (secret : String) : Prop where
  hosts : v.drive.disk.Hosts v.folder
  journal : v.drive.disk.find? (journalRoute v.folder) = none
  key : v.key = Seal.deviceKey secret

private theorem isFolder_replace (drive : Drive) (temporary target : Route) (content : Bytes) :
    (drive.replace temporary target content).2.disk.isFolder = drive.disk.isFolder := by
  obtain ⟨fault, h⟩ | ⟨path, d, -, hwrite, hrest⟩ := drive.replace_cases temporary target content
  · rw [h]
  · have hfolders := Disk.isFolder_of_write hwrite
    obtain ⟨fault, h⟩ | ⟨path', e, -, hrename, h⟩ := hrest
    · rw [h]
      exact hfolders
    · rw [h]
      exact (Disk.isFolder_of_rename hrename).trans hfolders

private theorem isFolder_writeRecords (drive : Drive) (folder : Route)
    (records : List SealedRecord) :
    (writeRecords drive folder records).2.disk.isFolder = drive.disk.isFolder := by
  induction records generalizing drive with
  | nil => rfl
  | cons r rest ih =>
    have hfirst : (writeRecord drive folder r).2.disk.isFolder = drive.disk.isFolder :=
      isFolder_replace _ _ _ _
    rw [writeRecords_cons]
    generalize writeRecord drive folder r = outcome at hfirst
    obtain ⟨fault | ⟨⟩, m⟩ := outcome
    · exact hfirst
    · exact (ih m).trans hfirst

private theorem removeJournal_eq_ok (h : removeJournal drive folder = (.ok (), b)) :
    b.disk.isFolder = drive.disk.isFolder ∧ b.disk.find? (journalRoute folder) = none := by
  by_cases hfile : ∃ content, drive.disk.find? (journalRoute folder) = some (.file content)
  · obtain ⟨content, hfile⟩ := hfile
    obtain ⟨b', hremove, -, hlast⟩ := remove_of_file .journal trivial hfile
    have hremove : drive.remove (journalRoute folder) = (.ok (), b') := hremove
    simp only [removeJournal, hremove] at h
    obtain rfl := (Prod.mk.inj h).2
    exact ⟨hlast.folders, hlast.journal.trans (if_pos rfl)⟩
  · obtain ⟨why, hremove⟩ : ∃ why, drive.remove (journalRoute folder) = (.error why, drive) :=
      remove_of_not_file .journal fun content hcontent => hfile ⟨content, hcontent⟩
    simp only [removeJournal, hremove] at h
    cases (Prod.mk.inj h).1

private theorem replay_eq_ok (h : replay drive folder = (.ok (), b)) :
    b.disk.isFolder = drive.disk.isFolder ∧ b.disk.find? (journalRoute folder) = none := by
  unfold replay at h
  split at h
  · rename_i hnone
    obtain rfl := (Prod.mk.inj h).2
    exact ⟨rfl, hnone⟩
  split at h
  · cases (Prod.mk.inj h).1
  split at h
  · exact removeJournal_eq_ok h
  rename_i records _
  have hfolders := isFolder_writeRecords drive folder records
  generalize writeRecords drive folder records = outcome at h hfolders
  obtain ⟨fault | ⟨⟩, m⟩ := outcome
  · cases (Prod.mk.inj h).1
  · obtain ⟨hfolders', hnone⟩ := removeJournal_eq_ok h
    exact ⟨hfolders'.trans hfolders, hnone⟩

/-- **A mounted vault is clean**, whatever was on the disk. -/
theorem clean_of_mount (h : mount drive folder secret nonces = (.ok v, b)) :
    v.Clean secret ∧ v.folder = folder := by
  unfold mount at h
  split at h
  · cases (Prod.mk.inj h).1
  rename_i m hmake
  split at h
  · cases (Prod.mk.inj h).1
  rename_i b' hreplay
  obtain ⟨hv, rfl⟩ := Prod.mk.inj h
  obtain rfl := Except.ok.inj hv
  obtain ⟨hfolders, hnone⟩ := replay_eq_ok hreplay
  have hhosts := (Disk.hosts_congr hfolders folder).mpr (Drive.hosts_of_makeFolders hmake)
  exact ⟨⟨hhosts, hnone, rfl⟩, rfl⟩

/-- A clean vault can be mounted from its disk, and a mount changes nothing there. -/
theorem Clean.mount_eq_ok (hv : v.Clean secret) (nonces : Nat → Nonce) :
    mount (.ofDisk v.drive.disk) v.folder secret nonces =
      (.ok ⟨.ofDisk v.drive.disk, v.folder, Seal.deviceKey secret, nonces, 0⟩,
        .ofDisk v.drive.disk) := by
  have hhosts : (Drive.ofDisk v.drive.disk).disk.Hosts v.folder := hv.hosts
  have hnone : (Drive.ofDisk v.drive.disk).disk.find? (journalRoute v.folder) = none := hv.journal
  simp only [mount, Drive.makeFolders_of_hosts hhosts, replay, hnone]

/-! ### Any number of crashes -/

/-- Whether a machine that was to mount a vault may have stopped with a disk. -/
def Interrupted (folder : Route) (secret : String) (d e : Disk) : Prop :=
  ∃ nonces, (Drive.ofDisk d).Stops (mount (.ofDisk d) folder secret nonces).2 e

/-- Whether a disk still has the folder of a vault and holds what it held for the vault. Anything
else may have changed, so that a file that could not be written now can, or the other way round. -/
structure Undisturbed (folder : Route) (d e : Disk) : Prop where
  hosts : d.Hosts folder → e.Hosts folder
  find?_eq : ∀ item : Item, item.IsPlain →
    e.find? (item.route folder) = d.find? (item.route folder)

/-- A disk on which the names of the folder lead to the same place, with the same files of the vault
in it, is undisturbed. -/
theorem undisturbed_of_home {home : Path} (hhosts : e.Hosts folder)
    (hhome : d.home? folder = .ok home) (hhome' : e.home? folder = .ok home)
    (hfolder : e.isFolder home = d.isFolder home) (hnode : ∀ item : Item, item.IsPlain →
      e.node? (home.enter item.file) = d.node? (home.enter item.file)) :
    Undisturbed folder d e := by
  refine ⟨fun _ => hhosts, fun item hitem => ?_⟩
  have hadvance : (Except.ok home >>= (e.advance · item.file)) =
      (Except.ok home >>= (d.advance · item.file)) := by
    change e.advance home item.file = d.advance home item.file
    rw [Disk.advance, Disk.advance, hfolder]
  have hlocate : e.locate (item.route folder) = d.locate (item.route folder) := by
    rw [Item.route_eq hitem, Disk.locate_join_eq, Disk.locate_join_eq, hhome, hhome', hadvance]
  rcases hplace : d.locate (item.route folder) with why | path
  · rw [Disk.find?_of_locate_error hplace, Disk.find?_of_locate_error (hlocate.trans hplace)]
  · rw [Disk.find?_of_locate hplace, Disk.find?_of_locate (hlocate.trans hplace)]
    rw [Item.route_eq hitem] at hplace
    obtain ⟨home', hhome'', -, rfl⟩ := Disk.locate_join hplace
    obtain rfl := Except.ok.inj (hhome''.symm.trans hhome)
    exact hnode item hitem

/-- The disks that crashes during a mount and changes beside the vault may lead to. -/
def Later (folder : Route) (secret : String) : Disk → Disk → Prop :=
  Relation.ReflTransGen fun d e => Interrupted folder secret d e ∨ Undisturbed folder d e

/-- The phases of a commit are not left. -/
theorem Later.phase (hnames : ∀ r ∈ records, IsPlain r.name)
    (hstarts : Starts folder records d) (h : Later folder secret e f)
    (hhosts : e.Hosts folder) (hphase : Phase folder records d e) :
    f.Hosts folder ∧ Phase folder records d f := by
  induction h with
  | refl => exact ⟨hhosts, hphase⟩
  | tail _ hstep ih =>
    obtain ⟨hhosts, hphase⟩ := ih
    obtain ⟨nonces, hstop⟩ | hundisturbed := hstep
    · obtain ⟨result, b, hmount, hpasses, -⟩ :=
        mount_passes (.ofDisk _) hnames hstarts hhosts hphase secret nonces
      rw [hmount] at hstop
      obtain ⟨hfolders, hphase'⟩ := hpasses.of_stops hstop
      exact ⟨(Disk.hosts_congr hfolders folder).mpr hhosts, hphase'⟩
    · exact ⟨hundisturbed.hosts hhosts, hphase.congr hundisturbed.find?_eq⟩

/-- The first mount that succeeds ends the commit. -/
theorem Later.over (hnames : ∀ r ∈ records, IsPlain r.name) (hstarts : Starts folder records d)
    (h : Later folder secret e f) (hhosts : e.Hosts folder) (hphase : Phase folder records d e)
    (hmount : mount (.ofDisk f) folder secret nonces = (.ok w, b)) :
    w.folder = folder ∧ w.key = Seal.deviceKey secret ∧ Over folder records d w.drive.disk := by
  obtain ⟨hhosts', hphase'⟩ := h.phase hnames hstarts hhosts hphase
  obtain ⟨result, b', hmount', -, hover, -⟩ :=
    mount_passes (.ofDisk f) hnames hstarts hhosts' hphase' secret nonces
  obtain ⟨rfl, rfl⟩ := Prod.mk.inj (hmount'.symm.trans hmount)
  obtain ⟨rfl, hlast⟩ := hover w rfl
  exact ⟨rfl, rfl, hlast⟩

/-- A mount succeeds if all records of the commit can be written. -/
theorem Later.exists_mount (hnames : ∀ r ∈ records, IsPlain r.name)
    (hstarts : Starts folder records d) (h : Later folder secret e f) (hhosts : e.Hosts folder)
    (hphase : Phase folder records d e)
    (hadmits : ∀ r ∈ records, admits folder f (.record r.name) = true) (nonces : Nat → Nonce) :
    ∃ w b, mount (.ofDisk f) folder secret nonces = (.ok w, b) := by
  obtain ⟨hhosts', hphase'⟩ := h.phase hnames hstarts hhosts hphase
  obtain ⟨result, b, hmount, -, -, hsucceeds⟩ :=
    mount_passes (.ofDisk f) hnames hstarts hhosts' hphase' secret nonces
  obtain ⟨w, rfl⟩ := hsucceeds hadmits
  exact ⟨w, b, hmount⟩

theorem CommitOutcome.course {result : Except StoreFault Unit}
    (h : v.CommitOutcome records result b) :
    v.drive.Passes b (Course v.folder records v.drive.disk v.drive.disk) := by
  cases h with
  | refused _ hpasses => exact hpasses.imp fun e he => ⟨he.folders, .before he.find?_eq⟩
  | applied _ hpasses => exact hpasses
  | undone _ _ hpasses => exact hpasses

theorem of_commit {writes : List (String × Bytes)} {result : Except StoreFault Unit}
    (h : v.commit writes = (result, w)) : w.key = v.key ∧ w.folder = v.folder := by
  obtain rfl : (v.commit writes).2 = w := congrArg Prod.snd h
  exact ⟨rfl, rfl⟩

theorem commitOutcome_commit {writes : List (String × Bytes)} (hv : v.Clean secret)
    (hnames : ∀ write ∈ writes, IsPlain write.1) :
    v.CommitOutcome (sealRecords v.key v.nonces v.drawn writes) (v.commit writes).1
      (v.commit writes).2.drive :=
  commitOutcome v hv.journal (forall_mem_sealRecords.mpr hnames)

/-- A commit succeeds if all of its files can be written. -/
theorem exists_commit {writes : List (String × Bytes)}
    (hnames : ∀ write ∈ writes, IsPlain write.1)
    (hadmits : admits v.folder v.drive.disk .journal = true)
    (hall : ∀ write ∈ writes, admits v.folder v.drive.disk (.record write.1) = true) :
    ∃ u, v.commit writes = (.ok (), u) := by
  have hrecords : ∀ r ∈ sealRecords v.key v.nonces v.drawn writes,
      admits v.folder v.drive.disk (.record r.name) = true :=
    forall_mem_sealRecords (p := fun name => admits _ _ (.record name) = true) |>.mpr hall
  obtain ⟨b, hcommit, -⟩ :=
    commitRecords_of_admits (forall_mem_sealRecords.mpr hnames) hadmits hrecords
  exact ⟨_, by rw [commit, hcommit]⟩

/-- A commit changes no folder. -/
theorem isFolder_of_commit {writes : List (String × Bytes)} {result : Except StoreFault Unit}
    (hv : v.Clean secret) (hnames : ∀ write ∈ writes, IsPlain write.1)
    (h : v.commit writes = (result, w)) : w.drive.disk.isFolder = v.drive.disk.isFolder := by
  have houtcome := commitOutcome_commit hv hnames
  rw [h] at houtcome
  exact houtcome.course.last.1

/-- After a commit that is over, all records load as before it or all load as they were to. -/
theorem Over.load {drawn : Nat} {writes : List (String × Bytes)} (hkey : w.key = v.key)
    (hfolder : w.folder = v.folder) (h : Over v.folder (sealRecords v.key nonces drawn writes)
      v.drive.disk w.drive.disk) :
    (∀ name, IsPlain name → w.load name = v.load name) ∨
      ∀ name, IsPlain name → w.load name = v.loadAfter writes name := by
  rw [← hfolder] at h
  obtain ⟨-, ⟨-, hrecords⟩ | hrecords⟩ := h
  · refine .inl fun name hname => load_congr hkey ?_
    rw [hrecords name hname, hfolder]
  · refine .inr fun name hname => ?_
    exact load_of_settled hkey (by rw [hrecords name hname, hfolder])

/-- **A commit is atomic under crashes.** However often the machine stops, during the commit, while
the commit puts files back, or during an attempt to mount the vault again, the first mount that
succeeds leaves no journal and finds every record as it was before the commit, or every record as it
was to be after it. -/
theorem commit_atomic {writes : List (String × Bytes)} (hv : v.Clean secret)
    (hnames : ∀ write ∈ writes, IsPlain write.1)
    (hstop : v.drive.Stops (v.commit writes).2.drive d) (hlater : Later v.folder secret d e)
    (hmount : mount (.ofDisk e) v.folder secret nonces = (.ok w, b)) :
    w.drive.disk.find? (journalRoute w.folder) = none ∧
      ((∀ name, IsPlain name → w.load name = v.load name) ∨
        ∀ name, IsPlain name → w.load name = v.loadAfter writes name) := by
  obtain ⟨hfolders, hphase⟩ := (commitOutcome_commit hv hnames).course.of_stops hstop
  have hhosts := (Disk.hosts_congr hfolders v.folder).mpr hv.hosts
  obtain ⟨hfolder, hkey, hover⟩ :=
    hlater.over (forall_mem_sealRecords.mpr hnames) (.inl hv.journal) hhosts hphase hmount
  have hkey : w.key = v.key := hkey.trans hv.key.symm
  refine ⟨?_, hover.load hkey hfolder⟩
  rw [hfolder]
  exact hover.1

/-- A mount makes no folders in a vault that is there and takes none away. -/
private theorem isFolder_of_interrupted (hnames : ∀ r ∈ records, IsPlain r.name)
    (hstarts : Starts folder records d)
    (h : Relation.ReflTransGen (Interrupted folder secret) e f) (hhosts : e.Hosts folder)
    (hphase : Phase folder records d e) : f.isFolder = e.isFolder := by
  induction h with
  | refl => rfl
  | tail hearlier hstep ih =>
    have hlater : Later folder secret e _ :=
      Relation.ReflTransGen.mono (fun _ _ => Or.inl) _ _ hearlier
    obtain ⟨hhosts', hphase'⟩ := hlater.phase hnames hstarts hhosts hphase
    obtain ⟨nonces, hstop⟩ := hstep
    obtain ⟨result, b, hmount, hpasses, -⟩ :=
      mount_passes (.ofDisk _) hnames hstarts hhosts' hphase' secret nonces
    rw [hmount] at hstop
    exact (hpasses.of_stops hstop).1.trans ih

/-- If all records of a commit can be written, and as long as nothing else touches the disk, a mount
after any number of crashes succeeds, and the commit is over. -/
theorem exists_mount (hv : v.Clean secret) (hnames : ∀ r ∈ records, IsPlain r.name)
    (hadmits : ∀ r ∈ records, admits v.folder v.drive.disk (.record r.name) = true)
    (hcourse : Course v.folder records v.drive.disk v.drive.disk d)
    (hlater : Relation.ReflTransGen (Interrupted v.folder secret) d e) (nonces : Nat → Nonce) :
    ∃ w b, mount (.ofDisk e) v.folder secret nonces = (.ok w, b) ∧ w.Clean secret ∧
      w.folder = v.folder ∧ Over v.folder records v.drive.disk w.drive.disk := by
  obtain ⟨hfolders, hphase⟩ := hcourse
  have hhosts := (Disk.hosts_congr hfolders v.folder).mpr hv.hosts
  have hfolders' : e.isFolder = v.drive.disk.isFolder :=
    (isFolder_of_interrupted hnames (.inl hv.journal) hlater hhosts hphase).trans hfolders
  have hlater : Later v.folder secret d e :=
    Relation.ReflTransGen.mono (fun _ _ => Or.inl) _ _ hlater
  have hadmits' : ∀ r ∈ records, admits v.folder e (.record r.name) = true := by
    intro r hr
    rw [admits_congr hfolders', hadmits r hr]
  obtain ⟨w, b, hmount⟩ :=
    hlater.exists_mount hnames (.inl hv.journal) hhosts hphase hadmits' nonces
  obtain ⟨hfolder, -, hover⟩ := hlater.over hnames (.inl hv.journal) hhosts hphase hmount
  exact ⟨w, b, hmount, (clean_of_mount hmount).1, hfolder, hover⟩

/-- A vault in a folder with nothing in it. -/
def sample : Vault where
  drive := .ofDisk ⟨.folder [("s", .folder [])]⟩
  folder := .ofText "s"
  key := Seal.deviceKey "secret"
  nonces _ := ⟨List.replicate 16 0, rfl⟩
  drawn := 0

theorem clean_sample : sample.Clean "secret" :=
  ⟨.inr (by decide +kernel), by decide +kernel, rfl⟩

/-- Two contents of one record, and another record in between. -/
def sampleWrites : List (String × Bytes) := [("a", [1]), ("b", []), ("a", [2])]

/-- The machine stops after the journal has got its name and one of three records its new contents.
The next mount succeeds. -/
theorem commit_atomic_sample :
    ∃ d w b, sample.drive.Stops (sample.commit sampleWrites).2.drive d ∧
      d.find? (journalRoute sample.folder) ≠ none ∧
      mount (.ofDisk d) sample.folder "secret" sample.nonces = (.ok w, b) ∧
      w.drive.disk.find? (journalRoute w.folder) = none ∧
      ((∀ name, IsPlain name → w.load name = sample.load name) ∨
        ∀ name, IsPlain name → w.load name = sample.loadAfter sampleWrites name) := by
  have hnames : ∀ write ∈ sampleWrites, IsPlain write.1 := by decide
  have hadmits : ∀ write ∈ sampleWrites,
      admits sample.folder sample.drive.disk (.record write.1) = true := by decide +kernel
  have hjournal : ((((sample.commit sampleWrites).2.drive.log.reverse.take 4).foldlM Action.apply
      sample.drive.disk).toOption.bind (·.find? (journalRoute sample.folder))).isSome = true := by
    decide +kernel
  rcases hstopped : ((sample.commit sampleWrites).2.drive.log.reverse.take 4).foldlM Action.apply
      sample.drive.disk with why | d
  · rw [hstopped] at hjournal
    cases hjournal
  rw [hstopped] at hjournal
  have hstop : sample.drive.Stops (sample.commit sampleWrites).2.drive d :=
    ⟨_, by simp only [List.reverse_reverse]; exact (List.append_nil _).symm, .of_take hstopped⟩
  obtain ⟨w, b, hmount, -⟩ := exists_mount clean_sample (forall_mem_sealRecords.mpr hnames)
    (forall_mem_sealRecords (p := fun name => admits _ _ (.record name) = true) |>.mpr hadmits)
    ((commitOutcome_commit clean_sample hnames).course.of_stops hstop) .refl sample.nonces
  obtain ⟨hnone, hloads⟩ := commit_atomic clean_sample hnames hstop .refl hmount
  refine ⟨d, w, b, hstop, fun hfind => ?_, hmount, hnone, hloads⟩
  rw [Except.toOption, Option.bind_some, hfind] at hjournal
  cases hjournal

end Vault

end KeyCustody
