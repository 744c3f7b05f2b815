import KeyCustody.Proofs.Store.Crash

/-!
# What a store that is mounted again holds

`Vault.Reopens` says of a disk what every mount finds on it that comes after any number of crashes.
While an operation on a clean vault succeeds, all disks on which the machine may stop reopen: with
the records before or after a commit (`Vault.commit_reopens`), or with some first names erased
(`Vault.erase_reopens`).
-/

namespace KeyCustody.Vault

open SealedRecord

-- how a route is followed plays no part below
seal Disk.find? Disk.locate

variable {v u : Vault} {secret : String} {folder : Route} {d e f : Disk} {drive : Drive}
  {p q : Vault → Prop} {names done rest : List String} {writes : List (String × Bytes)}

/-- Whether every mount after any number of crashes succeeds, with a clean vault that has a
property. -/
def Reopens (folder : Route) (secret : String) (p : Vault → Prop) (d : Disk) : Prop :=
  ∀ e, Relation.ReflTransGen (Interrupted folder secret) d e → ∀ nonces, ∃ w b,
    mount (.ofDisk e) folder secret nonces = (.ok w, b) ∧ w.Clean secret ∧ w.folder = folder ∧ p w

/-- Whether a vault has been mounted from a disk, after any number of crashes on the way. -/
def Remounted (folder : Route) (secret : String) (d : Disk) (v : Vault) : Prop :=
  ∃ e nonces b, Relation.ReflTransGen (Interrupted folder secret) d e ∧
    mount (.ofDisk e) folder secret nonces = (.ok v, b)

theorem Remounted.clean (h : Remounted folder secret d v) : v.Clean secret := by
  obtain ⟨e, nonces, b, -, hmount⟩ := h
  exact (clean_of_mount hmount).1

theorem Reopens.of_remounted (h : Reopens folder secret p d)
    (hv : Remounted folder secret d v) : v.Clean secret ∧ v.folder = folder ∧ p v := by
  obtain ⟨e, nonces, b, hlater, hmount⟩ := hv
  obtain ⟨w, b', hmount', hw⟩ := h e hlater nonces
  obtain rfl := Except.ok.inj (Prod.mk.inj (hmount'.symm.trans hmount)).1
  exact hw

theorem Reopens.imp (h : Reopens folder secret p d) (hpq : ∀ w, w.Clean secret → p w → q w) :
    Reopens folder secret q d := by
  intro e hlater nonces
  obtain ⟨w, b, hmount, hw, hfolder, hp⟩ := h e hlater nonces
  exact ⟨w, b, hmount, hw, hfolder, hpq w hw hp⟩

/-- A clean vault is found as it is. -/
theorem Clean.reopens (hv : v.Clean secret) : Reopens v.folder secret
    (fun w => ∀ name, IsPlain name → w.load name = v.load name) v.drive.disk := by
  intro e hlater nonces
  have hnothing : ∀ r ∈ ([] : List SealedRecord), IsPlain r.name := nofun
  obtain ⟨w, b, hmount, hw, hfolder, -, hover⟩ :=
    exists_mount hv hnothing nofun ⟨rfl, .before fun _ _ => rfl⟩ hlater nonces
  refine ⟨w, b, hmount, hw, hfolder, fun name hname => load_congr (hw.key.trans hv.key.symm) ?_⟩
  rw [hfolder]
  exact hover.elim (fun hbefore => hbefore.2 name hname) fun hafter => hafter name hname

/-! ### Commits -/

/-- **A commit that succeeds** writes all of its records, and wherever the machine stops before its
end, the next mount finds none of them written or all. -/
theorem commit_reopens (hv : v.Clean secret) (hnames : ∀ write ∈ writes, IsPlain write.1)
    (h : v.commit writes = (.ok (), u)) :
    v.drive.Passes u.drive (Reopens v.folder secret fun w =>
      (∀ name, IsPlain name → w.load name = v.load name) ∨
        ∀ name, IsPlain name → w.load name = v.loadAfter writes name) ∧
      u.Clean secret ∧ u.folder = v.folder ∧
      ∀ name, IsPlain name → u.load name = v.loadAfter writes name := by
  have houtcome := commitOutcome_commit hv hnames
  obtain ⟨hkey, hfolder⟩ := of_commit h
  rw [h] at houtcome
  cases houtcome with
  | applied hadmits hpasses hjournal hrecords =>
    have hhosts := (Disk.hosts_congr hpasses.last.1 v.folder).mpr hv.hosts
    refine ⟨hpasses.imp fun d hcourse e hlater nonces => ?_, ?_, hfolder, fun name hname => ?_⟩
    · obtain ⟨w, b, hmount, hw, hwfolder, hover⟩ := exists_mount hv
        (forall_mem_sealRecords.mpr hnames) hadmits hcourse hlater nonces
      exact ⟨w, b, hmount, hw, hwfolder, hover.load (hw.key.trans hv.key.symm) hwfolder⟩
    · exact ⟨hfolder ▸ hhosts, hfolder ▸ hjournal, hkey.trans hv.key⟩
    · have hfile := hrecords name hname
      rw [← hfolder] at hfile
      exact load_of_settled hkey (hfile.trans (by rw [hfolder]))

/-! ### Erasing -/

/-- The files of some names are gone, and everything else is as on a disk. -/
structure Erased (folder : Route) (names : List String) (d e : Disk) : Prop where
  folders : e.isFolder = d.isFolder
  journal : e.find? (journalRoute folder) = d.find? (journalRoute folder)
  record : ∀ name, IsPlain name → e.find? (recordRoute folder name) =
    if name ∈ names then none else d.find? (recordRoute folder name)

theorem Erased.nil (folder : Route) (d : Disk) : Erased folder [] d d :=
  ⟨rfl, rfl, fun _ _ => (if_neg List.not_mem_nil).symm⟩

private theorem Erased.keeps (h : Erased folder done d e) (hstep : Keeps folder e f) :
    Erased folder done d f := by
  refine ⟨hstep.folders.trans h.folders, hstep.journal.trans h.journal, fun other hother => ?_⟩
  rw [hstep.record hother, h.record other hother]

/-- One more file is gone if it was removed or was not there. -/
private theorem Erased.concat (h : Erased folder done d e) (name : String)
    (hstep : Changes folder (.record name) none e f) : Erased folder (done ++ [name]) d f := by
  refine ⟨hstep.folders.trans h.folders, ?_, fun other hother => ?_⟩
  · rw [hstep.journal, if_neg nofun, h.journal]
  · rw [hstep.record hother, h.record other hother]
    by_cases hname : other = name
    · simp [hname]
    · simp [hname]

/-- Whether some first names of a list are gone, after others. -/
private def Erasing (folder : Route) (d : Disk) (done rest : List String) (e : Disk) : Prop :=
  ∃ part, part <+: rest ∧ Erased folder (done ++ part) d e

private theorem Erased.erasing (h : Erased folder done d e) (rest : List String) :
    Erasing folder d done rest e :=
  ⟨[], List.nil_prefix, by rwa [List.append_nil]⟩

private theorem Erasing.cons {name : String} (h : Erasing folder d (done ++ [name]) rest e) :
    Erasing folder d done (name :: rest) e := by
  obtain ⟨part, hpart, he⟩ := h
  rw [List.append_assoc] at he
  exact ⟨name :: part, (List.prefix_cons_inj name).mpr hpart, he⟩

private theorem eraseRecords_cons (drive : Drive) (folder : Route) (name : String)
    (rest : List String) : eraseRecords drive folder (name :: rest) =
      match drive.disk.find? (recordRoute folder name) with
      | none => eraseRecords drive folder rest
      | some _ =>
        match drive.remove (recordRoute folder name) with
        | (.ok (), drive) => eraseRecords drive folder rest
        | (.error why, drive) => (.error (.access (.removeRecord name why)), drive) :=
  rfl

/-- Names are erased one by one, up to the first that cannot be erased. -/
private theorem eraseRecords_passes (hrest : ∀ name ∈ rest, IsPlain name)
    (h : Erased folder done d drive.disk) :
    ∃ result b, eraseRecords drive folder rest = (result, b) ∧
      drive.Passes b (Erasing folder d done rest) ∧
      (result = .ok () → Erased folder (done ++ rest) d b.disk) ∧
      ((∀ name ∈ rest, d.find? (recordRoute folder name) ≠ some .folder) → result = .ok ()) := by
  induction rest generalizing drive done with
  | nil =>
    refine ⟨.ok (), drive, rfl, .refl (h.erasing []), fun _ => ?_, fun _ => rfl⟩
    rwa [List.append_nil]
  | cons name rest ih =>
    obtain ⟨hname, hrest⟩ := List.forall_mem_cons.mp hrest
    -- once the file of the first name is gone the other names are erased
    have hgoesOn {m : Drive} (hm : Erased folder (done ++ [name]) d m.disk)
        (hpasses : drive.Passes m (Erasing folder d done (name :: rest)))
        (hstep : eraseRecords drive folder (name :: rest) = eraseRecords m folder rest) :
        ∃ result b, eraseRecords drive folder (name :: rest) = (result, b) ∧
          drive.Passes b (Erasing folder d done (name :: rest)) ∧
          (result = .ok () → Erased folder (done ++ name :: rest) d b.disk) ∧
          ((∀ other ∈ name :: rest, d.find? (recordRoute folder other) ≠ some .folder) →
            result = .ok ()) := by
      obtain ⟨result, b, herase, hpasses', hlast, hresult⟩ := ih hrest hm
      rw [List.append_assoc] at hlast
      exact ⟨result, b, hstep.trans herase, hpasses.trans (hpasses'.imp fun e he => he.cons), hlast,
        fun hfree => hresult fun other hmem => hfree other (List.mem_cons_of_mem _ hmem)⟩
    rcases hfile : drive.disk.find? (recordRoute folder name) with _ | _ | content
    · have hsame : Changes folder (.record name) none drive.disk drive.disk := by
        refine ⟨rfl, fun other _ => ?_⟩
        split_ifs with hother
        · rw [hother]
          exact hfile
        · rfl
      exact hgoesOn (h.concat name hsame) (.refl (h.erasing _)) (by rw [eraseRecords_cons, hfile])
    · obtain ⟨why, hremove⟩ : ∃ why, drive.remove (recordRoute folder name) =
          (.error why, drive) :=
        remove_of_not_file (.record name) fun content hcontent => nomatch hfile.symm.trans hcontent
      refine ⟨.error (.access (.removeRecord name why)), drive,
        by rw [eraseRecords_cons, hfile, hremove], .refl (h.erasing _), nofun, fun hfree => ?_⟩
      -- what has been erased so far has made no folder
      rw [h.record name hname] at hfile
      split_ifs at hfile
      exact absurd hfile (hfree name List.mem_cons_self)
    · obtain ⟨m, hremove, hpasses, hlast⟩ := remove_of_file (.record name) hname hfile
      have hremove : drive.remove (recordRoute folder name) = (.ok (), m) := hremove
      refine hgoesOn (h.concat name hlast) (hpasses.imp fun e he => ?_)
        (by rw [eraseRecords_cons, hfile, hremove])
      obtain he | he := he
      · exact (h.keeps he).erasing _
      · exact ((h.concat name he).erasing rest).cons

/-- A clean vault some of whose files are gone is clean, and their records are gone. -/
private theorem Erased.clean (hv : v.Clean secret)
    (h : Erased v.folder names v.drive.disk drive.disk) :
    ({ v with drive := drive } : Vault).Clean secret ∧ ∀ name, IsPlain name →
      ({ v with drive := drive } : Vault).load name =
        if name ∈ names then .ok none else v.load name := by
  refine ⟨⟨(Disk.hosts_congr h.folders v.folder).mpr hv.hosts, h.journal.trans hv.journal, hv.key⟩,
    fun name hname => ?_⟩
  have hfile := h.record name hname
  by_cases hmem : name ∈ names
  · rw [if_pos hmem] at hfile ⊢
    unfold load
    rw [hfile]
  · rw [if_neg hmem] at hfile ⊢
    exact load_congr rfl hfile

private theorem erase_passes {result : Except StoreFault Unit}
    (hnames : ∀ name ∈ names, IsPlain name) (h : v.erase names = (result, u)) :
    ∃ b, u = { v with drive := b } ∧
      v.drive.Passes b (Erasing v.folder v.drive.disk [] names) ∧
      (result = .ok () → Erased v.folder names v.drive.disk b.disk) ∧
      ((∀ name ∈ names, v.drive.disk.find? (recordRoute v.folder name) ≠ some .folder) →
        result = .ok ()) := by
  obtain ⟨result', b, herase, hpasses, hlast⟩ :=
    eraseRecords_passes hnames (Erased.nil v.folder v.drive.disk)
  have hv' : v.erase names = (result', { v with drive := b }) := by
    simp only [erase, herase]
  obtain ⟨rfl, rfl⟩ := Prod.mk.inj (hv'.symm.trans h)
  exact ⟨b, rfl, hpasses, hlast⟩

/-- Erasing succeeds where no folder is in the place of a record. -/
theorem exists_erase (hnames : ∀ name ∈ names, IsPlain name)
    (hfree : ∀ name ∈ names, v.drive.disk.find? (recordRoute v.folder name) ≠ some .folder) :
    ∃ u, v.erase names = (.ok (), u) := by
  obtain ⟨b, -, -, -, hresult⟩ := erase_passes hnames (rfl : v.erase names = (_, _))
  exact ⟨_, Prod.ext (hresult hfree) rfl⟩

/-- Erasing changes no folder. -/
theorem isFolder_of_erase (hnames : ∀ name ∈ names, IsPlain name)
    {result : Except StoreFault Unit} (h : v.erase names = (result, u)) :
    u.drive.disk.isFolder = v.drive.disk.isFolder := by
  obtain ⟨b, rfl, hpasses, -⟩ := erase_passes hnames h
  obtain ⟨part, -, herased⟩ := hpasses.last
  exact herased.folders

/-- Erasing, with success or without, leaves a clean vault with some first names erased. -/
theorem clean_of_erase (hv : v.Clean secret) (hnames : ∀ name ∈ names, IsPlain name)
    {result : Except StoreFault Unit} (h : v.erase names = (result, u)) :
    u.Clean secret ∧ ∃ part, part <+: names ∧
      ∀ name, IsPlain name → u.load name = if name ∈ part then .ok none else v.load name := by
  obtain ⟨b, rfl, hpasses, -⟩ := erase_passes hnames h
  obtain ⟨part, hpart, herased⟩ := hpasses.last
  obtain ⟨hclean, hloads⟩ := herased.clean hv
  exact ⟨hclean, part, hpart, hloads⟩

/-- **Erasing that succeeds** erases all names, and wherever the machine stops before its end, the
next mount finds some first names erased. -/
theorem erase_reopens (hv : v.Clean secret) (hnames : ∀ name ∈ names, IsPlain name)
    (h : v.erase names = (.ok (), u)) :
    v.drive.Passes u.drive (Reopens v.folder secret fun w => ∃ part, part <+: names ∧
      ∀ name, IsPlain name → w.load name = if name ∈ part then .ok none else v.load name) ∧
      u.Clean secret ∧ u.folder = v.folder ∧
      ∀ name, IsPlain name → u.load name = if name ∈ names then .ok none else v.load name := by
  obtain ⟨b, rfl, hpasses, hlast, -⟩ := erase_passes hnames h
  obtain ⟨hclean, hloads⟩ := (hlast rfl).clean hv
  refine ⟨hpasses.imp fun d ⟨part, hpart, hd⟩ => ?_, hclean, rfl, hloads⟩
  have hd : Erased v.folder part v.drive.disk (Drive.ofDisk d).disk := hd
  obtain ⟨hclean', hloads'⟩ := hd.clean hv
  refine hclean'.reopens.imp fun w _ hw => ⟨part, hpart, fun name hname => ?_⟩
  rw [hw name hname, hloads' name hname]

end KeyCustody.Vault
