import KeyCustody.Proofs.Store.Loading
import KeyCustody.Proofs.Store.Vault

/-!
# The course of a commit

Between the first and the last step of a commit a disk is in one of three phases (`Vault.Phase`):
everything is as before; or the journal is there, and the file of each record is as before or has
one of the new pages; or the journal is gone and all files have their last pages. A journal that is
applied later goes through the second phase to the third, so a disk that is in one of the phases
stays in one, wherever the machine stops.

A commit ends in one of three ways (`Vault.CommitOutcome`). It does not begin if the journal cannot
be written or a folder is where a record should be; it is applied if all records can be written; and
otherwise it puts back what it has written.
-/

namespace KeyCustody.Vault

open SealedRecord

variable {folder : Route} {records done rest : List SealedRecord} {r : SealedRecord}
  {d e f start : Disk} {drive : Drive} {name : String} {held held' : String → Option Node → Prop}

-- how a route is followed plays no part below
seal Disk.find? Disk.locate

/-! ### Phases -/

/-- What the file of a name may hold while a commit is under way: what it held before or, if the
name is on a list, one of the new pages of this name. -/
def Mixed (folder : Route) (records : List SealedRecord) (d : Disk) (names : List String)
    (name : String) (node : Option Node) : Prop :=
  node = d.find? (recordRoute folder name) ∨
    name ∈ names ∧ ∃ r ∈ records, r.name = name ∧ node = some (.file r.page)

/-- The phases of a commit of records over a disk. -/
inductive Phase (folder : Route) (records : List SealedRecord) (d e : Disk) : Prop
  | before (hitems : ∀ item : Item, item.IsPlain →
      e.find? (item.route folder) = d.find? (item.route folder))
  | underway (hjournal : e.find? (journalRoute folder) = some (.file (encodeList records)))
      (hrecords : ∀ name, IsPlain name →
        Mixed folder records d (records.map SealedRecord.name) name
          (e.find? (recordRoute folder name)))
  | after (hjournal : e.find? (journalRoute folder) = none)
      (hrecords : ∀ name, IsPlain name → e.find? (recordRoute folder name) =
        settled records name (d.find? (recordRoute folder name)))

/-- The journal of a commit is there, the folders are as at the start, and the file of each record
is as a condition says. -/
structure Underway (folder : Route) (records : List SealedRecord) (start : Disk)
    (held : String → Option Node → Prop) (e : Disk) : Prop where
  folders : e.isFolder = start.isFolder
  journal : e.find? (journalRoute folder) = some (.file (encodeList records))
  record : ∀ name, IsPlain name → held name (e.find? (recordRoute folder name))

namespace Underway

theorem imp (h : Underway folder records start held e)
    (hheld : ∀ name node, held name node → held' name node) :
    Underway folder records start held' e :=
  ⟨h.folders, h.journal, fun name hname => hheld name _ (h.record name hname)⟩

theorem keeps (h : Underway folder records start held e) (h' : Keeps folder e f) :
    Underway folder records start held f := by
  refine ⟨h'.folders.trans h.folders, h'.journal.trans h.journal, fun name hname => ?_⟩
  rw [h'.record hname]
  exact h.record name hname

/-- A change of the file of one record matters to the condition on this file only. -/
theorem changes {node : Option Node} (h : Underway folder records start held e)
    (h' : Changes folder (.record name) node e f) (hnode : held' name node)
    (hother : ∀ other node, other ≠ name → held other node → held' other node) :
    Underway folder records start held' f := by
  refine ⟨h'.folders.trans h.folders, ?_, fun other hplain => ?_⟩
  · rw [h'.journal, if_neg nofun, h.journal]
  · rw [h'.record hplain]
    by_cases hname : other = name
    · rw [hname, if_pos rfl]
      exact hnode
    · rw [if_neg fun heq => hname (Item.record.inj heq)]
      exact hother other _ hname (h.record other hplain)

theorem phase {names : List String}
    (h : Underway folder records start (Mixed folder records d names) e) :
    Phase folder records d e := by
  refine .underway h.journal fun name hplain => (h.record name hplain).imp_right ?_
  rintro ⟨-, r, hr, rfl, hpage⟩
  exact ⟨List.mem_map_of_mem hr, r, hr, rfl, hpage⟩

end Underway

/-! ### Writing records -/

/-- The files of the records that have been written have their last pages, and the others are as on
a disk. -/
def Settled (folder : Route) (d : Disk) (done : List SealedRecord) (name : String)
    (node : Option Node) : Prop :=
  node = settled done name (d.find? (recordRoute folder name))

/-- What has been written was new. -/
theorem Underway.mixed (h : Underway folder records start (Settled folder d done) e)
    (hdone : ∀ r ∈ done, r ∈ records) :
    Underway folder records start (Mixed folder records d (done.map SealedRecord.name)) e := by
  refine h.imp fun name node hnode => ?_
  rw [Settled] at hnode
  obtain ⟨hbefore, -⟩ | ⟨r, hr, rfl, hpage⟩ :=
    settled_cases done name (d.find? (recordRoute folder name))
  · exact .inl (hnode.trans hbefore)
  · exact .inr ⟨List.mem_map_of_mem hr, r, hdone r hr, rfl, hnode.trans hpage⟩

/-- Whether the files of some first records of a list have been written, after those of others. -/
def Partial (folder : Route) (records : List SealedRecord) (start d : Disk)
    (done rest : List SealedRecord) (e : Disk) : Prop :=
  ∃ part, part <+: rest ∧ Underway folder records start (Settled folder d (done ++ part)) e

theorem Underway.partial
    (h : Underway folder records start (Settled folder d done) e) (rest : List SealedRecord) :
    Partial folder records start d done rest e :=
  ⟨[], List.nil_prefix, by rwa [List.append_nil]⟩

theorem Partial.cons (h : Partial folder records start d (done ++ [r]) rest e) :
    Partial folder records start d done (r :: rest) e := by
  obtain ⟨part, hpart, he⟩ := h
  refine ⟨r :: part, (List.prefix_cons_inj r).mpr hpart, ?_⟩
  rwa [List.append_assoc] at he

theorem Partial.mono (h : Partial folder records start d done rest e) {all : List SealedRecord}
    (hall : rest <+: all) : Partial folder records start d done all e := by
  obtain ⟨part, hpart, he⟩ := h
  exact ⟨part, hpart.trans hall, he⟩

/-- Writing one more record. -/
private theorem writeRecord_of_admits (hname : IsPlain r.name)
    (hadmits : admits folder start (.record r.name) = true)
    (h : Underway folder records start (Settled folder d done) drive.disk) :
    ∃ b, writeRecord drive folder r = (.ok (), b) ∧
      drive.Passes b (Partial folder records start d done [r]) ∧
      Underway folder records start (Settled folder d (done ++ [r])) b.disk := by
  rw [← admits_congr h.folders] at hadmits
  obtain ⟨b, hwrite, hpasses, hlast⟩ :=
    replace_of_admits (.record r.name) hname hadmits r.page
  have hwritten {e : Disk}
      (he : Changes folder (.record r.name) (some (.file r.page)) drive.disk e) :
      Underway folder records start (Settled folder d (done ++ [r])) e := by
    refine h.changes he ?_ fun other node hother hheld => ?_
    · rw [Settled, settled_concat, if_pos rfl]
    · rw [Settled, settled_concat, if_neg hother]
      exact hheld
  refine ⟨b, hwrite, hpasses.imp fun e he => ?_, hwritten hlast⟩
  obtain he | he := he
  · exact (h.keeps he).partial [r]
  · exact ((hwritten he).partial []).cons

private theorem writeRecord_of_not_admits (hname : IsPlain r.name)
    (hadmits : admits folder start (.record r.name) = false)
    (h : Underway folder records start held drive.disk) :
    ∃ fault b, writeRecord drive folder r = (.error fault, b) ∧
      drive.Passes b (Underway folder records start held) := by
  rw [← admits_congr h.folders] at hadmits
  obtain ⟨fault, b, hwrite, hpasses⟩ :=
    replace_of_not_admits (.record r.name) hname hadmits r.page
  exact ⟨fault, b, hwrite, hpasses.imp fun e he => h.keeps he⟩

-- whether a record can be written is not to be computed when the recursion is opened
seal writeRecord in
theorem writeRecords_cons (drive : Drive) (folder : Route) (r : SealedRecord)
    (rest : List SealedRecord) : writeRecords drive folder (r :: rest) =
      match writeRecord drive folder r with
      | (.ok (), drive) => writeRecords drive folder rest
      | (.error fault, drive) => (.error fault, drive) :=
  rfl

seal writeRecord in
private theorem applyRecords_cons (drive : Drive) (folder : Route)
    (done : List (SealedRecord × Option Bytes)) (next : SealedRecord × Option Bytes)
    (rest : List (SealedRecord × Option Bytes)) :
    applyRecords drive folder done (next :: rest) =
      match writeRecord drive folder next.1 with
      | (.ok (), drive) => applyRecords drive folder (done ++ [next]) rest
      | (.error fault, drive) => (.error fault, rollBack drive folder done) :=
  rfl

/-- A journal is applied record by record, up to the first record that cannot be written. -/
theorem writeRecords_passes (hnames : ∀ r ∈ rest, IsPlain r.name)
    (h : Underway folder records start (Settled folder d done) drive.disk) :
    ∃ result b, writeRecords drive folder rest = (result, b) ∧
      drive.Passes b (Partial folder records start d done rest) ∧
      (result = .ok () → Underway folder records start (Settled folder d (done ++ rest)) b.disk) ∧
      ((∀ r ∈ rest, admits folder start (.record r.name) = true) → result = .ok ()) := by
  induction rest generalizing drive done with
  | nil =>
    refine ⟨.ok (), drive, rfl, .refl (h.partial []), fun _ => ?_, fun _ => rfl⟩
    rwa [List.append_nil]
  | cons r rest ih =>
    have hname := hnames r List.mem_cons_self
    rcases hadmits : admits folder start (.record r.name)
    · obtain ⟨fault, b, hwrite, hpasses⟩ := writeRecord_of_not_admits hname hadmits h
      refine ⟨.error fault, b, by simp only [writeRecords_cons, hwrite], ?_, nofun, fun hall => ?_⟩
      · exact hpasses.imp fun e he => he.partial (r :: rest)
      · rw [hall r List.mem_cons_self] at hadmits
        cases hadmits
    · obtain ⟨m, hwrite, hpasses, hm⟩ := writeRecord_of_admits hname hadmits h
      obtain ⟨result, b, hrest, hpasses', hlast, hresult⟩ :=
        ih (fun r hr => hnames r (List.mem_cons_of_mem _ hr)) hm
      refine ⟨result, b, by simp only [writeRecords_cons, hwrite, hrest], ?_, fun hok => ?_,
        fun hall => hresult fun r hr => hall r (List.mem_cons_of_mem _ hr)⟩
      · refine Drive.Passes.trans (hpasses.imp fun e he => ?_) (hpasses'.imp fun e he => he.cons)
        exact he.mono (List.prefix_cons_inj r |>.mpr List.nil_prefix)
      · have hend := hlast hok
        rwa [List.append_assoc] at hend

/-! ### What files held before -/

/-- What the file of a record holds, if there is one. -/
def previous? (folder : Route) (d : Disk) (r : SealedRecord) : Option Bytes :=
  match d.find? (recordRoute folder r.name) with
  | some (.file content) => some content
  | _ => none

/-- A record with what its file holds. -/
def withPrevious (folder : Route) (d : Disk) (r : SealedRecord) : SealedRecord × Option Bytes :=
  (r, previous? folder d r)

/-- The names of records that have no file. -/
def absent (folder : Route) (d : Disk) (records : List SealedRecord) : List String :=
  (records.map SealedRecord.name).filter fun name => d.find? (recordRoute folder name) = none

theorem absent_cons (folder : Route) (d : Disk) (r : SealedRecord) (rest : List SealedRecord) :
    absent folder d (r :: rest) = if d.find? (recordRoute folder r.name) = none then
      r.name :: absent folder d rest else absent folder d rest := by
  rw [absent, List.map_cons, List.filter_cons]
  simp only [decide_eq_true_eq]
  rfl

theorem find?_of_mem_absent (h : name ∈ absent folder d records) :
    d.find? (recordRoute folder name) = none := by
  simpa using (List.mem_filter.mp h).2

theorem isPlain_of_mem_absent (hnames : ∀ r ∈ records, IsPlain r.name)
    (h : name ∈ absent folder d records) : IsPlain name := by
  obtain ⟨r, hr, rfl⟩ := List.mem_map.mp (List.mem_filter.mp h).1
  exact hnames r hr

/-- The records can be looked at before a commit if there is no folder in the place of one. -/
private theorem mapM_existing {v : Vault}
    (h : ∀ r ∈ records, v.drive.disk.find? (recordRoute v.folder r.name) ≠ some .folder) :
    records.mapM v.existing = .ok (records.map (previous? v.folder v.drive.disk)) := by
  induction records with
  | nil => rfl
  | cons r rest ih =>
    have hfirst : v.existing r = .ok (previous? v.folder v.drive.disk r) := by
      have hr := h r List.mem_cons_self
      unfold existing previous?
      rcases hfile : v.drive.disk.find? (recordRoute v.folder r.name) with _ | _ | content
      · rfl
      · exact absurd hfile hr
      · rfl
    rw [List.mapM_cons, hfirst, ih fun r hr => h r (List.mem_cons_of_mem _ hr)]
    rfl

private theorem mapM_existing_error {v : Vault} (hr : r ∈ records)
    (h : v.drive.disk.find? (recordRoute v.folder r.name) = some .folder) :
    ∃ fault, records.mapM v.existing = .error fault := by
  induction records with
  | nil => cases hr
  | cons first rest ih =>
    rw [List.mapM_cons]
    rcases hfirst : v.existing first with fault | content
    · exact ⟨fault, rfl⟩
    · obtain rfl | hr := List.mem_cons.mp hr
      · unfold existing at hfirst
        simp only [h, Node.content?] at hfirst
        cases hfirst
      · obtain ⟨fault, hrest⟩ := ih hr
        exact ⟨fault, by rw [hrest]; rfl⟩

/-! ### Applying records -/

/-- If all records can be written, a commit writes all of them. -/
private theorem applyRecords_of_admits (hnames : ∀ r ∈ rest, IsPlain r.name)
    (hadmits : ∀ r ∈ rest, admits folder start (.record r.name) = true)
    (h : Underway folder records start (Settled folder d done) drive.disk) :
    ∃ b, applyRecords drive folder (done.map (withPrevious folder d))
        (rest.map (withPrevious folder d)) = (.ok (), b) ∧
      drive.Passes b (Partial folder records start d done rest) ∧
      Underway folder records start (Settled folder d (done ++ rest)) b.disk := by
  induction rest generalizing drive done with
  | nil =>
    refine ⟨drive, rfl, .refl (h.partial []), ?_⟩
    rwa [List.append_nil]
  | cons r rest ih =>
    obtain ⟨m, hwrite, hpasses, hm⟩ := writeRecord_of_admits (hnames r List.mem_cons_self)
      (hadmits r List.mem_cons_self) h
    obtain ⟨b, hrest, hpasses', hlast⟩ := ih (fun r hr => hnames r (List.mem_cons_of_mem _ hr))
      (fun r hr => hadmits r (List.mem_cons_of_mem _ hr)) hm
    rw [List.map_append, List.map_singleton] at hrest
    rw [List.append_assoc] at hlast
    refine ⟨b, ?_, ?_, hlast⟩
    · rw [List.map_cons, applyRecords_cons]
      simp only [withPrevious] at hwrite hrest ⊢
      simp only [hwrite, hrest]
    · refine Drive.Passes.trans (hpasses.imp fun e he => ?_) (hpasses'.imp fun e he => he.cons)
      exact he.mono ((List.prefix_cons_inj r).mpr List.nil_prefix)

/-- The records before the first that cannot be written. -/
def writable (folder : Route) (start : Disk) (records : List SealedRecord) : List SealedRecord :=
  records.takeWhile fun r => admits folder start (.record r.name)

theorem writable_cons (folder : Route) (start : Disk) (r : SealedRecord)
    (rest : List SealedRecord) : writable folder start (r :: rest) =
      if admits folder start (.record r.name) = true then r :: writable folder start rest
      else [] :=
  List.takeWhile_cons

/-- If one cannot be written, the records before the first such record are written and put back. -/
private theorem applyRecords_of_not_admits (hnames : ∀ r ∈ rest, IsPlain r.name)
    (hadmits : ∃ r ∈ rest, admits folder start (.record r.name) = false)
    (h : Underway folder records start (Settled folder d done) drive.disk) :
    ∃ fault m, applyRecords drive folder (done.map (withPrevious folder d))
          (rest.map (withPrevious folder d)) = (.error fault,
            rollBack m folder ((done ++ writable folder start rest).map (withPrevious folder d))) ∧
      drive.Passes m (Partial folder records start d done rest) ∧
      Underway folder records start (Settled folder d (done ++ writable folder start rest))
        m.disk := by
  induction rest generalizing drive done with
  | nil =>
    obtain ⟨r, hr, -⟩ := hadmits
    cases hr
  | cons r rest ih =>
    have hname := hnames r List.mem_cons_self
    rcases hfirst : admits folder start (.record r.name)
    · obtain ⟨fault, m, hwrite, hpasses⟩ := writeRecord_of_not_admits hname hfirst h
      refine ⟨fault, m, ?_, hpasses.imp fun e he => he.partial _, ?_⟩
      · rw [writable_cons, hfirst, if_neg Bool.false_ne_true, List.append_nil, List.map_cons,
          applyRecords_cons]
        simp only [withPrevious] at hwrite ⊢
        simp only [hwrite]
      · rw [writable_cons, hfirst, if_neg Bool.false_ne_true, List.append_nil]
        exact hpasses.last
    · obtain ⟨m, hwrite, hpasses, hm⟩ := writeRecord_of_admits hname hfirst h
      have hrest : ∃ r ∈ rest, admits folder start (.record r.name) = false := by
        obtain ⟨r', hr', hnot⟩ := hadmits
        obtain rfl | hr' := List.mem_cons.mp hr'
        · rw [hfirst] at hnot
          cases hnot
        · exact ⟨r', hr', hnot⟩
      obtain ⟨fault, b, happly, hpasses', hlast⟩ :=
        ih (fun r hr => hnames r (List.mem_cons_of_mem _ hr)) hrest hm
      refine ⟨fault, b, ?_, ?_, ?_⟩
      · rw [List.map_append, List.map_singleton] at happly
        rw [writable_cons, if_pos hfirst, List.map_cons, applyRecords_cons]
        simp only [withPrevious] at hwrite happly ⊢
        simp only [hwrite, happly, List.append_assoc, List.singleton_append]
      · refine Drive.Passes.trans (hpasses.imp fun e he => ?_) (hpasses'.imp fun e he => he.cons)
        exact he.mono ((List.prefix_cons_inj r).mpr List.nil_prefix)
      · rw [List.append_assoc] at hlast
        rwa [writable_cons, if_pos hfirst]

/-! ### Putting records back -/

private theorem Underway.widen {names : List String}
    (h : Underway folder records start (Mixed folder records d names) e) (name : String) :
    Underway folder records start (Mixed folder records d (name :: names)) e := by
  refine h.imp fun other node hheld => ?_
  exact hheld.imp_right fun ⟨hmem, hpage⟩ => ⟨List.mem_cons_of_mem _ hmem, hpage⟩

/-- A file that is as it was may no longer hold a new page. -/
private theorem Underway.narrow {names : List String}
    (h : Underway folder records start (Mixed folder records d (name :: names)) e)
    (hname : e.find? (recordRoute folder name) = d.find? (recordRoute folder name)) :
    Underway folder records start (Mixed folder records d names) e := by
  refine ⟨h.folders, h.journal, fun other hplain => ?_⟩
  obtain hheld | ⟨hmem, hpage⟩ := h.record other hplain
  · exact .inl hheld
  · obtain rfl | hmem := List.mem_cons.mp hmem
    · exact .inl hname
    · exact .inr ⟨hmem, hpage⟩

/-- A file that is put back is as it was, and all others stay. It cannot be removed if it is not
there. -/
private theorem restore_passes {names : List String} (hname : IsPlain r.name)
    (hadmits : admits folder start (.record r.name) = true)
    (hfree : d.find? (recordRoute folder r.name) ≠ some .folder)
    (h : Underway folder records start (Mixed folder records d (r.name :: names)) drive.disk) :
    ∃ result b, restore drive folder r.name (previous? folder d r) = (result, b) ∧
      drive.Passes b (Underway folder records start (Mixed folder records d (r.name :: names))) ∧
      Underway folder records start (Mixed folder records d names) b.disk ∧
      (∀ name, IsPlain name → b.disk.find? (recordRoute folder name) =
        if name = r.name then d.find? (recordRoute folder name)
        else drive.disk.find? (recordRoute folder name)) ∧
      (result = true ↔ d.find? (recordRoute folder r.name) = none →
        drive.disk.find? (recordRoute folder r.name) ≠ none) := by
  have hchanges {e : Disk} (he : Changes folder (.record r.name)
      (d.find? (recordRoute folder r.name)) drive.disk e) :
      Underway folder records start (Mixed folder records d names) e ∧
        ∀ name, IsPlain name → e.find? (recordRoute folder name) =
          if name = r.name then d.find? (recordRoute folder name)
          else drive.disk.find? (recordRoute folder name) := by
    have hsame : e.find? (recordRoute folder r.name) = d.find? (recordRoute folder r.name) := by
      rw [he.record hname, if_pos rfl]
    refine ⟨(h.changes he (.inl rfl) fun _ _ _ hheld => hheld).narrow hsame,
      fun name hplain => ?_⟩
    split_ifs with heq
    · rw [heq, hsame]
    · rw [he.record hplain, if_neg fun hitem => heq (Item.record.inj hitem)]
  unfold restore
  rcases hfile : d.find? (recordRoute folder r.name) with _ | _ | content
  · rw [hfile] at hchanges
    simp only [previous?, hfile]
    obtain hbefore | ⟨-, page, -, -, hpage⟩ := h.record r.name hname
    · obtain ⟨why, hremove⟩ : ∃ why, drive.remove (recordRoute folder r.name) =
          (.error why, drive) :=
        remove_of_not_file (.record r.name) fun content hcontent =>
          nomatch (hbefore.trans hfile).symm.trans hcontent
      refine ⟨false, drive, by rw [hremove], .refl h, h.narrow hbefore, fun name _ => ?_, ?_⟩
      · split_ifs with heq
        · rw [heq, hbefore]
        · rfl
      · simp [hbefore.trans hfile]
    · obtain ⟨b, hremove, hpasses, hlast⟩ := remove_of_file (.record r.name) hname hpage
      have hremove : drive.remove (recordRoute folder r.name) = (.ok (), b) := hremove
      obtain ⟨hmixed, hfiles⟩ := hchanges hlast
      refine ⟨true, b, by rw [hremove], hpasses.imp fun e he => ?_, hmixed, hfiles, ?_⟩
      · obtain he | he := he
        · exact h.keeps he
        · exact (hchanges he).1.widen _
      · simp [hpage]
  · exact absurd hfile hfree
  · rw [hfile] at hchanges
    rw [← admits_congr h.folders] at hadmits
    obtain ⟨b, hreplace, hpasses, hlast⟩ := replace_of_admits (.record r.name) hname hadmits content
    have hreplace : drive.replace (temporaryRoute folder r.name) (recordRoute folder r.name)
      content = (.ok (), b) := hreplace
    obtain ⟨hmixed, hfiles⟩ := hchanges hlast
    simp only [previous?, hfile]
    refine ⟨true, b, by rw [hreplace], hpasses.imp fun e he => ?_, hmixed, hfiles, ?_⟩
    · obtain he | he := he
      · exact h.keeps he
      · exact (hchanges he).1.widen _
    · simp

private theorem restoreAll_cons {first others : Bool} {m b : Drive} {r : SealedRecord}
    {previous : Option Bytes} {rest : List (SealedRecord × Option Bytes)}
    (hfirst : restore drive folder r.name previous = (first, m))
    (hothers : restoreAll m folder rest = (others, b)) :
    restoreAll drive folder ((r, previous) :: rest) = (first && others, b) := by
  change ((restore drive folder r.name previous).1 &&
      (restoreAll (restore drive folder r.name previous).2 folder rest).1,
    (restoreAll (restore drive folder r.name previous).2 folder rest).2) = _
  rw [hfirst, hothers]

/-- When all files have been put back they are as they were. Each of them was put back at once if
those that were not there before were there in between, each once. -/
private theorem restoreAll_passes (hnames : ∀ r ∈ done, IsPlain r.name)
    (hadmits : ∀ r ∈ done, admits folder start (.record r.name) = true)
    (hfree : ∀ r ∈ done, d.find? (recordRoute folder r.name) ≠ some .folder)
    (h : Underway folder records start
      (Mixed folder records d (done.map SealedRecord.name)) drive.disk) :
    ∃ result b, restoreAll drive folder (done.map (withPrevious folder d)) = (result, b) ∧
      drive.Passes b (Underway folder records start
        (Mixed folder records d (done.map SealedRecord.name))) ∧
      Underway folder records start (Mixed folder records d []) b.disk ∧
      (result = true ↔ (∀ name ∈ absent folder d done,
        drive.disk.find? (recordRoute folder name) ≠ none) ∧ (absent folder d done).Nodup) := by
  induction done generalizing drive with
  | nil => exact ⟨true, drive, rfl, .refl h, h, by simp [absent]⟩
  | cons r rest ih =>
    obtain ⟨hname, hrest⟩ := List.forall_mem_cons.mp hnames
    obtain ⟨hfirstAdmits, hrestAdmits⟩ := List.forall_mem_cons.mp hadmits
    obtain ⟨hfirstFree, hrestFree⟩ := List.forall_mem_cons.mp hfree
    obtain ⟨first, m, hrestore, hpasses, hm, hfiles, hfirst⟩ :=
      restore_passes hname hfirstAdmits hfirstFree h
    obtain ⟨others, b, hrestoreRest, hpasses', hlast, hothers⟩ := ih hrest hrestAdmits hrestFree hm
    refine ⟨first && others, b, restoreAll_cons hrestore hrestoreRest, ?_, hlast, ?_⟩
    · exact hpasses.trans (hpasses'.imp fun e he => he.widen _)
    · -- a file that was put back to not being there cannot be removed again
      have hleft : ∀ name ∈ absent folder d rest, name ≠ r.name →
          m.disk.find? (recordRoute folder name) = drive.disk.find? (recordRoute folder name) := by
        intro name hmem hother
        rw [hfiles name (isPlain_of_mem_absent hrest hmem), if_neg hother]
      rw [Bool.and_eq_true, hfirst, hothers, absent_cons]
      by_cases hfile : d.find? (recordRoute folder r.name) = none
      · rw [if_pos hfile, List.forall_mem_cons, List.nodup_cons]
        constructor
        · rintro ⟨hthere, hall, hnodup⟩
          have hfresh : r.name ∉ absent folder d rest := fun hmem =>
            hall r.name hmem (by rw [hfiles r.name hname, if_pos rfl, hfile])
          refine ⟨⟨hthere hfile, fun name hmem => ?_⟩, hfresh, hnodup⟩
          rw [← hleft name hmem fun heq => hfresh (heq ▸ hmem)]
          exact hall name hmem
        · rintro ⟨⟨hthere, hall⟩, hfresh, hnodup⟩
          refine ⟨fun _ => hthere, fun name hmem => ?_, hnodup⟩
          rw [hleft name hmem fun heq => hfresh (heq ▸ hmem)]
          exact hall name hmem
      · have hfresh : ∀ name ∈ absent folder d rest, name ≠ r.name := by
          rintro name hmem rfl
          exact hfile (find?_of_mem_absent hmem)
        rw [if_neg hfile]
        constructor
        · rintro ⟨-, hall, hnodup⟩
          refine ⟨fun name hmem => ?_, hnodup⟩
          rw [← hleft name hmem (hfresh name hmem)]
          exact hall name hmem
        · rintro ⟨hall, hnodup⟩
          refine ⟨fun hnone => absurd hnone hfile, fun name hmem => ?_, hnodup⟩
          rw [hleft name hmem (hfresh name hmem)]
          exact hall name hmem

/-- Whether a disk has the folders of another and is in one of the phases of a commit. -/
def Course (folder : Route) (records : List SealedRecord) (start d e : Disk) : Prop :=
  e.isFolder = start.isFolder ∧ Phase folder records d e

theorem Underway.course {names : List String}
    (h : Underway folder records start (Mixed folder records d names) e) :
    Course folder records start d e :=
  ⟨h.folders, h.phase⟩

/-- All files are as they were after a commit has been rolled back. The journal is left if a record
that was not there had been written twice. -/
private theorem rollBack_passes (hnames : ∀ r ∈ done, IsPlain r.name)
    (hadmits : ∀ r ∈ done, admits folder start (.record r.name) = true)
    (hfree : ∀ r ∈ done, d.find? (recordRoute folder r.name) ≠ some .folder)
    (hdone : ∀ r ∈ done, r ∈ records) (hjournal : d.find? (journalRoute folder) = none)
    (h : Underway folder records start (Settled folder d done) drive.disk) :
    let b := rollBack drive folder (done.map (withPrevious folder d))
    drive.Passes b (Course folder records start d) ∧
      (∀ name, IsPlain name →
        b.disk.find? (recordRoute folder name) = d.find? (recordRoute folder name)) ∧
      (b.disk.find? (journalRoute folder) = none ↔ (absent folder d done).Nodup) := by
  intro b
  obtain ⟨result, m, hrestore, hpasses, hm, hresult⟩ :=
    restoreAll_passes hnames hadmits hfree (h.mixed hdone)
  have hpasses : drive.Passes m (Course folder records start d) := hpasses.imp fun e he => he.course
  have hback : ∀ name, IsPlain name →
      m.disk.find? (recordRoute folder name) = d.find? (recordRoute folder name) := by
    intro name hplain
    obtain hbefore | ⟨hmem, -⟩ := hm.record name hplain
    · exact hbefore
    · cases hmem
  -- what was written is there, so only repeated names are in the way
  have hthere : ∀ name ∈ absent folder d done,
      drive.disk.find? (recordRoute folder name) ≠ none := by
    intro name hmem
    have hname := h.record name (isPlain_of_mem_absent hnames hmem)
    obtain ⟨r, hr, hrname⟩ := List.mem_map.mp (List.mem_filter.mp hmem).1
    obtain ⟨-, hnot⟩ | ⟨page, -, -, hpage⟩ :=
      settled_cases done name (d.find? (recordRoute folder name))
    · exact absurd hrname (hnot r hr)
    · rw [hname.trans hpage]
      nofun
  rw [and_iff_right hthere] at hresult
  rcases result with _ | _
  · have hb : b = m := by simp only [b, rollBack, hrestore]
    have hnot : ¬ (absent folder d done).Nodup := fun hnodup => nomatch hresult.mpr hnodup
    rw [hb, hm.journal]
    exact ⟨hpasses, hback, iff_of_false nofun hnot⟩
  · obtain ⟨b', hremove, hpasses', hlast⟩ := remove_of_file .journal trivial hm.journal
    have hremove : m.remove (journalRoute folder) = (.ok (), b') := hremove
    have hb : b = b' := by simp only [b, rollBack, hrestore, hremove]
    have hrecord {e : Disk} (he : Changes folder .journal none m.disk e) :
        ∀ name, IsPlain name →
          e.find? (recordRoute folder name) = d.find? (recordRoute folder name) := by
      intro name hplain
      rw [he.record hplain, if_neg nofun, hback name hplain]
    rw [hb]
    refine ⟨hpasses.trans (hpasses'.imp fun e he => ?_), hrecord hlast, ?_⟩
    · obtain he | he := he
      · exact (hm.keeps he).course
      · refine ⟨he.folders.trans hm.folders, .before fun item hitem => ?_⟩
        cases item with
        | journal => exact (he.journal.trans (if_pos rfl)).trans hjournal.symm
        | record name => exact hrecord he name hitem
    · rw [hlast.journal, if_pos rfl]
      exact iff_of_true rfl (hresult.mp rfl)

/-! ### Outcomes -/

/-- How a commit can end, and on which disks the machine may stop in between. -/
inductive CommitOutcome (v : Vault) (records : List SealedRecord) :
    Except StoreFault Unit → Drive → Prop
  | refused {fault : StoreFault} {b : Drive}
      (hwhy : (∃ r ∈ records, v.drive.disk.find? (recordRoute v.folder r.name) = some .folder) ∨
        admits v.folder v.drive.disk .journal = false)
      (hpasses : v.drive.Passes b (Keeps v.folder v.drive.disk)) :
    CommitOutcome v records (.error fault) b
  | applied {b : Drive} (hadmits : ∀ r ∈ records, admits v.folder v.drive.disk (.record r.name))
      (hpasses : v.drive.Passes b (Course v.folder records v.drive.disk v.drive.disk))
      (hjournal : b.disk.find? (journalRoute v.folder) = none)
      (hrecords : ∀ name, IsPlain name → b.disk.find? (recordRoute v.folder name) =
        settled records name (v.drive.disk.find? (recordRoute v.folder name))) :
    CommitOutcome v records (.ok ()) b
  | undone {fault : StoreFault} {b : Drive}
      (hfree : ∀ r ∈ records, v.drive.disk.find? (recordRoute v.folder r.name) ≠ some .folder)
      (hadmits : admits v.folder v.drive.disk .journal = true)
      (hpasses : v.drive.Passes b (Course v.folder records v.drive.disk v.drive.disk))
      (hrecords : ∀ name, IsPlain name → b.disk.find? (recordRoute v.folder name) =
        v.drive.disk.find? (recordRoute v.folder name))
      (hjournal : b.disk.find? (journalRoute v.folder) = none ↔
        (absent v.folder v.drive.disk (writable v.folder v.drive.disk records)).Nodup) :
    CommitOutcome v records (.error fault) b

theorem of_mem_writable (h : r ∈ writable folder start records) :
    r ∈ records ∧ admits folder start (.record r.name) = true := by
  rw [writable] at h
  have hadmits := List.mem_takeWhile_imp h
  exact ⟨(List.takeWhile_sublist _).subset h, hadmits⟩

theorem Partial.course (h : Partial folder records start d [] rest e)
    (hrest : ∀ r ∈ rest, r ∈ records) : Course folder records start d e := by
  obtain ⟨part, hpart, he⟩ := h
  exact (he.mixed fun r hr => hrest r (hpart.subset hr)).course

/-- The journal is there from one step to the next, and then nothing has been written yet. -/
private theorem underway_of_changes
    (h : Changes folder .journal (some (.file (encodeList records))) d e) :
    Underway folder records d (Settled folder d []) e := by
  refine ⟨h.folders, h.journal.trans (if_pos rfl), fun name hplain => ?_⟩
  rw [h.record hplain, if_neg nofun]
  rfl

/-- When all records have been written the journal is removed. -/
theorem removeJournal_passes
    (h : Underway folder records start (Settled folder d records) drive.disk) :
    ∃ b, removeJournal drive folder = (.ok (), b) ∧
      drive.Passes b (Course folder records start d) ∧
      b.disk.find? (journalRoute folder) = none ∧
      ∀ name, IsPlain name → b.disk.find? (recordRoute folder name) =
        settled records name (d.find? (recordRoute folder name)) := by
  obtain ⟨b, hremove, hpasses, hlast⟩ := remove_of_file .journal trivial h.journal
  have hremove : drive.remove (journalRoute folder) = (.ok (), b) := hremove
  have hafter {e : Disk} (he : Changes folder .journal none drive.disk e) :
      e.find? (journalRoute folder) = none ∧
        ∀ name, IsPlain name → e.find? (recordRoute folder name) =
          settled records name (d.find? (recordRoute folder name)) := by
    refine ⟨he.journal.trans (if_pos rfl), fun name hplain => ?_⟩
    rw [he.record hplain, if_neg nofun]
    exact h.record name hplain
  refine ⟨b, by simp only [removeJournal, hremove], hpasses.imp fun e he => ?_, hafter hlast⟩
  obtain he | he := he
  · exact ((h.keeps he).mixed fun _ hr => hr).course
  · exact ⟨he.folders.trans h.folders, .after (hafter he).1 (hafter he).2⟩

/-- Once no folder is in the place of a record, a commit writes the journal and then the records. -/
private theorem commitRecords_eq {v : Vault} (hfree : ∀ r ∈ records,
      v.drive.disk.find? (recordRoute v.folder r.name) ≠ some .folder) :
    v.commitRecords records =
      match v.drive.replace (journalTemporaryRoute v.folder) (journalRoute v.folder)
          (encodeList records) with
      | (.error fault, drive) => (.error fault, drive)
      | (.ok (), drive) =>
        match applyRecords drive v.folder []
            (records.map (withPrevious v.folder v.drive.disk)) with
        | (.error fault, drive) => (.error fault, drive)
        | (.ok (), drive) => removeJournal drive v.folder := by
  have hzip : records.zip (records.map (previous? v.folder v.drive.disk)) =
      records.map (withPrevious v.folder v.drive.disk) := List.map_prod_left_eq_zip.symm
  rw [← hzip]
  unfold commitRecords
  exact mapM_existing hfree ▸ rfl

/-- The journal gets its name at one step, before which everything is as it was. -/
private theorem exists_begun {v : Vault} (hadmits : admits v.folder v.drive.disk .journal = true)
    (records : List SealedRecord) :
    ∃ m, v.drive.replace (journalTemporaryRoute v.folder) (journalRoute v.folder)
        (encodeList records) = (.ok (), m) ∧
      v.drive.Passes m (Course v.folder records v.drive.disk v.drive.disk) ∧
      Underway v.folder records v.drive.disk (Settled v.folder v.drive.disk []) m.disk := by
  obtain ⟨m, hreplace, hpasses, hm⟩ :=
    replace_of_admits .journal trivial hadmits (encodeList records)
  refine ⟨m, hreplace, hpasses.imp fun e he => ?_, underway_of_changes hm⟩
  obtain he | he := he
  · exact ⟨he.folders, .before he.find?_eq⟩
  · exact ((underway_of_changes he).mixed fun _ hr => nomatch hr).course

/-- A commit is applied if all of its files can be written. -/
theorem commitRecords_of_admits {v : Vault} (hnames : ∀ r ∈ records, IsPlain r.name)
    (hadmits : admits v.folder v.drive.disk .journal = true)
    (hall : ∀ r ∈ records, admits v.folder v.drive.disk (.record r.name) = true) :
    ∃ b, v.commitRecords records = (.ok (), b) ∧ v.CommitOutcome records (.ok ()) b := by
  have hfree : ∀ r ∈ records,
      v.drive.disk.find? (recordRoute v.folder r.name) ≠ some .folder :=
    fun r hr => find?_ne_folder_of_admits (hall r hr)
  obtain ⟨m, hreplace, hpasses, hbegun⟩ := exists_begun hadmits records
  obtain ⟨w, happly, hpasses', hw⟩ := applyRecords_of_admits hnames hall hbegun
  obtain ⟨b, hremove, hpasses'', hnone, hrecords⟩ := removeJournal_passes hw
  have happly : applyRecords m v.folder []
    (records.map (withPrevious v.folder v.drive.disk)) = (.ok (), w) := happly
  refine ⟨b, ?_, .applied hall
    (hpasses.trans (.trans (hpasses'.imp fun e he => ?_) hpasses'')) hnone hrecords⟩
  · rw [commitRecords_eq hfree]
    simp only [hreplace, happly, hremove]
  · exact he.course fun _ hr => hr

/-- **The outcome of a commit** is one of the three. -/
theorem commitOutcome (v : Vault) (hjournal : v.drive.disk.find? (journalRoute v.folder) = none)
    (hnames : ∀ r ∈ records, IsPlain r.name) :
    v.CommitOutcome records (v.commitRecords records).1 (v.commitRecords records).2 := by
  by_cases hfolder : ∃ r ∈ records,
      v.drive.disk.find? (recordRoute v.folder r.name) = some .folder
  · obtain ⟨r, hr, hfile⟩ := hfolder
    obtain ⟨fault, hexisting⟩ := mapM_existing_error hr hfile
    unfold commitRecords
    simp only [hexisting]
    exact .refused (.inl ⟨r, hr, hfile⟩) (.refl (.refl _ _))
  have hfree : ∀ r ∈ records,
      v.drive.disk.find? (recordRoute v.folder r.name) ≠ some .folder :=
    fun r hr hfile => hfolder ⟨r, hr, hfile⟩
  rcases hadmits : admits v.folder v.drive.disk .journal
  · obtain ⟨fault, b, hreplace, hpasses⟩ :=
      replace_of_not_admits .journal trivial hadmits (encodeList records)
    have hreplace : v.drive.replace (journalTemporaryRoute v.folder) (journalRoute v.folder)
      (encodeList records) = (.error fault, b) := hreplace
    rw [commitRecords_eq hfree]
    simp only [hreplace]
    exact .refused (.inr hadmits) hpasses
  by_cases hall : ∀ r ∈ records, admits v.folder v.drive.disk (.record r.name) = true
  · obtain ⟨b, hcommit, houtcome⟩ := commitRecords_of_admits hnames hadmits hall
    rw [hcommit]
    exact houtcome
  · obtain ⟨r, hr, hnot⟩ : ∃ r ∈ records,
        admits v.folder v.drive.disk (.record r.name) = false := by
      simpa using hall
    obtain ⟨m, hreplace, hpasses, hbegun⟩ := exists_begun hadmits records
    obtain ⟨fault, w, happly, hpasses', hw⟩ :=
      applyRecords_of_not_admits hnames ⟨r, hr, hnot⟩ hbegun
    have happly : applyRecords m v.folder []
      (records.map (withPrevious v.folder v.drive.disk)) = (.error fault, _) := happly
    obtain ⟨hpasses'', hrecords, hleft⟩ := rollBack_passes
      (fun r hr => hnames r (of_mem_writable hr).1) (fun r hr => (of_mem_writable hr).2)
      (fun r hr => hfree r (of_mem_writable hr).1) (fun r hr => (of_mem_writable hr).1) hjournal hw
    rw [commitRecords_eq hfree]
    simp only [hreplace, happly]
    refine .undone hfree hadmits (hpasses.trans (.trans (hpasses'.imp fun e he => ?_) hpasses''))
      hrecords hleft
    exact he.course fun _ hr => hr

end KeyCustody.Vault
