import KeyCustody.Proofs.Store.Drive
import KeyCustody.Store.Vault

/-!
# The files of a sealed store

A sealed store keeps its journal and its records in files of one folder, and writes each of them
through a temporary file. For records with plain names (`Vault.IsPlain`) all of these files are
different (`Vault.Item.locate_ne`, `Vault.Item.locate_temporary_ne`), so whatever is done to one of
them leaves the others as they were: writing a file (`Vault.replace_of_admits`) changes this file at
its last step and no other file (`Vault.Changes`), and if it fails it changes none (`Vault.Keeps`).
Whether a file can be written depends on the folders of the disk alone (`Vault.admits`).
-/

namespace KeyCustody

/-- The route along a text without strokes. -/
theorem Route.ofText_of_not_mem {text : String} (h : '/' ∉ text.toList) :
    Route.ofText text = ⟨[text]⟩ := by
  have hsplit : text.toList.splitOn '/' = [text.toList] := by
    refine List.splitOnP_eq_singleton fun c hc => ?_
    rw [beq_eq_false_iff_ne]
    rintro rfl
    exact h hc
  rw [ofText, hsplit, List.map_singleton, String.ofList_toList]

namespace Vault

/-- A name without strokes, so that the file of the record lies in the folder of the store. -/
def IsPlain (name : String) : Prop := '/' ∉ name.toList

instance (name : String) : Decidable (IsPlain name) :=
  inferInstanceAs (Decidable ('/' ∉ name.toList))

/-- What a sealed store keeps in a file of its own. -/
inductive Item where
  | journal
  | record (name : String)
  deriving DecidableEq

namespace Item

/-- Whether an item is the journal or a record with a plain name. -/
def IsPlain : Item → Prop
  | journal => True
  | record name => Vault.IsPlain name

/-- The route to the file of an item. -/
def route (folder : Route) : Item → Route
  | journal => journalRoute folder
  | record name => recordRoute folder name

/-- The route to the temporary file of an item. -/
def temporary (folder : Route) : Item → Route
  | journal => journalTemporaryRoute folder
  | record name => temporaryRoute folder name

/-- The name of the file of an item. -/
def file : Item → String
  | journal => "journal.json"
  | record name => fileName name

/-- The name of the temporary file of an item. -/
def temporaryFile : Item → String
  | journal => "journal.tmp"
  | record name => temporaryName name

variable {item other : Item} {folder : Route}

/-! ### Names of files -/

theorem route_eq (h : item.IsPlain) : item.route folder = folder.join ⟨[item.file]⟩ := by
  cases item with
  | journal => rfl
  | record name =>
    have hplain : '/' ∉ (fileName name).toList := by
      have hname : '/' ∉ name.toList := h
      simp [fileName, String.toList_append, hname]
    rw [route, recordRoute, Route.ofText_of_not_mem hplain]
    rfl

theorem temporary_eq (h : item.IsPlain) :
    item.temporary folder = folder.join ⟨[item.temporaryFile]⟩ := by
  cases item with
  | journal => rfl
  | record name =>
    have hplain : '/' ∉ (temporaryName name).toList := by
      have hname : '/' ∉ name.toList := h
      rw [temporaryName]
      split <;> simp [fileName, String.toList_append, hname]
    rw [temporary, temporaryRoute, Route.ofText_of_not_mem hplain]
    rfl

/-- The last letter of the name of a file tells what the file is. -/
private theorem getLast?_file (item : Item) : item.file.toList.getLast? =
    match item with
    | journal => some 'n'
    | record _ => some 'd' := by
  cases item with
  | journal => rfl
  | record name => simp [file, fileName, String.toList_append]

private theorem getLast?_temporaryFile (item : Item) :
    item.temporaryFile.toList.getLast? = some 'p' ∨
      item.temporaryFile.toList.getLast? = some '.' := by
  cases item with
  | journal => exact .inl rfl
  | record name =>
    rw [temporaryFile, temporaryName]
    split <;> simp [fileName, String.toList_append]

theorem file_isName (item : Item) : item.file ≠ "" ∧ item.file ≠ "." ∧ item.file ≠ ".." := by
  have hlast := getLast?_file item
  refine ⟨?_, ?_, ?_⟩ <;> intro h <;> rw [h] at hlast <;> cases item <;> cases hlast

theorem file_injective (h : item.file = other.file) : item = other := by
  have hitem := getLast?_file item
  rw [h, getLast?_file other] at hitem
  cases item with
  | journal =>
    cases other with
    | journal => rfl
    | record name => cases hitem
  | record name =>
    cases other with
    | journal => cases hitem
    | record name' =>
      have hnames : (name ++ ".sealed").toList = (name' ++ ".sealed").toList :=
        congrArg String.toList h
      rw [String.toList_append, String.toList_append, List.append_cancel_right_eq] at hnames
      rw [String.toList_inj.mp hnames]

theorem temporaryFile_ne (item other : Item) : item.temporaryFile ≠ other.file := by
  intro h
  have hother := getLast?_file other
  rw [← h] at hother
  obtain htemporary | htemporary := getLast?_temporaryFile item <;> rw [htemporary] at hother <;>
    cases other <;> cases hother

/-! ### Places of files -/

variable {d : Disk} {path q : Path}

/-- Different items have different files. -/
theorem locate_ne (hitem : item.IsPlain) (hother : other.IsPlain) (hne : item ≠ other)
    (h : d.locate (item.route folder) = .ok path) (h' : d.locate (other.route folder) = .ok q) :
    path ≠ q := by
  rw [route_eq hitem] at h
  rw [route_eq hother] at h'
  exact Disk.locate_join_ne other.file_isName (fun heq => hne (file_injective heq)) h h'

/-- A temporary file is the file of no item. -/
theorem locate_temporary_ne (hitem : item.IsPlain) (hother : other.IsPlain)
    (h : d.locate (item.temporary folder) = .ok path)
    (h' : d.locate (other.route folder) = .ok q) : path ≠ q := by
  rw [temporary_eq hitem] at h
  rw [route_eq hother] at h'
  exact Disk.locate_join_ne other.file_isName (temporaryFile_ne item other) h h'

end Item

/-! ### What a step changes -/

/-- The files of all items are on one disk as they are on another, and so are the folders. -/
structure Keeps (folder : Route) (d e : Disk) : Prop where
  folders : e.isFolder = d.isFolder
  find?_eq : ∀ item : Item, item.IsPlain →
    e.find? (item.route folder) = d.find? (item.route folder)

/-- The file of one item is as given, and those of all others are on one disk as they are on
another. -/
structure Changes (folder : Route) (item : Item) (node : Option Node) (d e : Disk) : Prop where
  folders : e.isFolder = d.isFolder
  find?_eq : ∀ other : Item, other.IsPlain →
    e.find? (other.route folder) = if other = item then node else d.find? (other.route folder)

variable {folder : Route} {item : Item} {node : Option Node} {d e f : Disk} {content : Bytes}

theorem Keeps.refl (folder : Route) (d : Disk) : Keeps folder d d := ⟨rfl, fun _ _ => rfl⟩

theorem Keeps.changes (h : Keeps folder d e) (h' : Changes folder item node e f) :
    Changes folder item node d f := by
  refine ⟨h'.folders.trans h.folders, fun other hother => ?_⟩
  rw [h'.find?_eq other hother, h.find?_eq other hother]

theorem Keeps.journal (h : Keeps folder d e) :
    e.find? (journalRoute folder) = d.find? (journalRoute folder) :=
  h.find?_eq .journal trivial

theorem Keeps.record (h : Keeps folder d e) {name : String} (hname : IsPlain name) :
    e.find? (recordRoute folder name) = d.find? (recordRoute folder name) :=
  h.find?_eq (.record name) hname

theorem Changes.journal (h : Changes folder item node d e) :
    e.find? (journalRoute folder) =
      if .journal = item then node else d.find? (journalRoute folder) :=
  h.find?_eq .journal trivial

theorem Changes.record (h : Changes folder item node d e) {name : String} (hname : IsPlain name) :
    e.find? (recordRoute folder name) =
      if .record name = item then node else d.find? (recordRoute folder name) :=
  h.find?_eq (.record name) hname

/-- What a route finds after one path has changed. -/
private theorem find?_of_node? {path : Path} (hfolders : e.isFolder = d.isFolder)
    (hnode : ∀ q, e.node? q = if q = path then node else d.node? q) (route : Route) :
    e.find? route = if d.locate route = .ok path then node else d.find? route := by
  rw [Disk.find?_eq, Disk.find?_eq, Disk.locate_congr hfolders]
  rcases d.locate route with why | q
  · rw [if_neg nofun]
    rfl
  · change e.node? q = if Except.ok q = Except.ok path then node else d.node? q
    rw [hnode]
    by_cases hq : q = path
    · rw [if_pos hq, if_pos (congrArg Except.ok hq)]
    · rw [if_neg hq, if_neg fun h => hq (Except.ok.inj h)]

private theorem keeps_of_write {path : Path} (hitem : item.IsPlain)
    (hpath : d.locate (item.temporary folder) = .ok path) (h : d.write path content = .ok e) :
    Keeps folder d e := by
  have hfolders := Disk.isFolder_of_write h
  refine ⟨hfolders, fun other hother => ?_⟩
  rw [find?_of_node? hfolders (Disk.write_eq_ok h).2]
  exact if_neg fun hother' => Item.locate_temporary_ne hitem hother hpath hother' rfl

private theorem changes_of_rename {path target : Path} (hitem : item.IsPlain)
    (hpath : d.locate (item.temporary folder) = .ok path)
    (htarget : d.locate (item.route folder) = .ok target)
    (hcontent : d.node? path = some (.file content)) (h : d.rename path target = .ok e) :
    Changes folder item (some (.file content)) d e := by
  have hfolders := Disk.isFolder_of_rename h
  obtain ⟨moved, hmoved, -, hnode⟩ := Disk.rename_eq_ok h
  obtain rfl : moved = content := by simpa [hcontent] using hmoved.symm
  refine ⟨hfolders, fun other hother => ?_⟩
  by_cases hother' : other = item
  · subst hother'
    rw [if_pos rfl, Disk.find?_of_locate ((Disk.locate_congr hfolders _).trans htarget), hnode,
      if_pos rfl]
  · rw [if_neg hother', Disk.find?_eq, Disk.find?_eq, Disk.locate_congr hfolders]
    rcases hlocate : d.locate (other.route folder) with why | q
    · rfl
    · -- neither of the two paths is that of another item
      change e.node? q = d.node? q
      rw [hnode, if_neg (Item.locate_ne hother hitem hother' hlocate htarget),
        if_neg (Item.locate_temporary_ne hitem hother hpath hlocate).symm]

private theorem changes_of_remove {path : Path} (hitem : item.IsPlain)
    (hpath : d.locate (item.route folder) = .ok path) (h : d.remove path = .ok e) :
    Changes folder item none d e := by
  have hfolders := Disk.isFolder_of_remove h
  refine ⟨hfolders, fun other hother => ?_⟩
  rw [find?_of_node? hfolders (Disk.remove_eq_ok h).2]
  by_cases hother' : other = item
  · rw [hother', if_pos hpath, if_pos rfl]
  · rw [if_neg fun hlocate => Item.locate_ne hother hitem hother' hlocate hpath rfl,
      if_neg hother']

/-! ### Writing and removing files -/

/-- Whether the file of an item can be written: neither where it goes nor where its temporary file
goes is there a folder, and both places can be reached. -/
def admits (folder : Route) (d : Disk) (item : Item) : Bool :=
  d.isFree (item.temporary folder) && d.isFree (item.route folder)

/-- Whether a file can be written depends on the folders alone. -/
theorem admits_congr (h : e.isFolder = d.isFolder) (folder : Route) (item : Item) :
    admits folder e item = admits folder d item := by
  rw [admits, admits, Disk.isFree_congr h, Disk.isFree_congr h]

/-- A folder cannot be written like a file. -/
theorem find?_ne_folder_of_admits (h : admits folder d item = true) :
    d.find? (item.route folder) ≠ some .folder := by
  obtain ⟨path, hpath, hplace⟩ := Disk.isFree_iff.mp (Bool.and_eq_true_iff.mp h).2
  rw [Disk.find?_of_locate hpath]
  exact Disk.not_isFolder_iff.mp hplace

variable {drive : Drive}

/-- Writing a file that can be written succeeds, and changes the file at the last step. -/
theorem replace_of_admits (item : Item) (hitem : item.IsPlain)
    (h : admits folder drive.disk item = true) (content : Bytes) :
    ∃ b, drive.replace (item.temporary folder) (item.route folder) content = (.ok (), b) ∧
      drive.Passes b (fun e => Keeps folder drive.disk e ∨
        Changes folder item (some (.file content)) drive.disk e) ∧
      Changes folder item (some (.file content)) drive.disk b.disk := by
  obtain ⟨htemporary, hroute⟩ := Bool.and_eq_true_iff.mp h
  obtain ⟨path, hpath, hplace⟩ := Disk.isFree_iff.mp htemporary
  obtain ⟨target, htarget, htargetPlace⟩ := Disk.isFree_iff.mp hroute
  -- both places are in folders, as they have been reached by a name in one
  have hparent : drive.disk.isFolder path.dropLast = true :=
    Disk.isFolder_dropLast_of_locate_join (Item.temporary_eq hitem ▸ hpath) hplace
  have htargetParent : drive.disk.isFolder target.dropLast = true :=
    Disk.isFolder_dropLast_of_locate_join (Item.route_eq hitem ▸ htarget) htargetPlace
  obtain ⟨d, hwrite⟩ := Disk.exists_write hparent hplace content
  have hfolders := Disk.isFolder_of_write hwrite
  have hroutes := Disk.locate_congr hfolders
  have hcontent : d.node? path = some (.file content) := by
    rw [(Disk.write_eq_ok hwrite).2, if_pos rfl]
  obtain ⟨e, hrename⟩ : ∃ e, d.rename path target = .ok e :=
    Disk.exists_rename hcontent (by rwa [hfolders]) (by rwa [hfolders])
  have hkeeps : Keeps folder drive.disk d := keeps_of_write hitem hpath hwrite
  have hchanges : Changes folder item (some (.file content)) drive.disk e :=
    hkeeps.changes (changes_of_rename hitem ((hroutes _).trans hpath) ((hroutes _).trans htarget)
      hcontent hrename)
  refine ⟨⟨e, .rename path target :: .write path content :: drive.log⟩, ?_, ?_, hchanges⟩
  · simp only [Drive.replace, Drive.write, Drive.rename, Drive.performAt, Drive.perform,
      Action.apply, hpath, hwrite, hroutes, htarget, hrename]
  · refine Drive.Passes.trans (b := ⟨d, .write path content :: drive.log⟩) ?_ ?_
    · exact .step_write hwrite (.inl (.refl folder _)) fun _ _ hpart =>
        .inl (keeps_of_write hitem hpath hpart)
    · exact .step hrename (by simp) (.inl hkeeps) (.inr hchanges)

/-- Writing a file that cannot be written fails and leaves all files as they were. -/
theorem replace_of_not_admits (item : Item) (hitem : item.IsPlain)
    (h : admits folder drive.disk item = false)
    (content : Bytes) :
    ∃ fault b, drive.replace (item.temporary folder) (item.route folder) content =
        (.error fault, b) ∧ drive.Passes b (Keeps folder drive.disk) := by
  obtain ⟨fault, hfail⟩ | ⟨path, d, hpath, hwrite, hrest⟩ :=
    drive.replace_cases (item.temporary folder) (item.route folder) content
  · exact ⟨fault, drive, hfail, .refl (.refl folder _)⟩
  obtain ⟨fault, hfail⟩ | ⟨target, e, htarget, hrename, -⟩ := hrest
  · exact ⟨fault, _, hfail, .step_write hwrite (.refl folder _) fun _ _ hpart =>
      keeps_of_write hitem hpath hpart⟩
  · -- steps that succeed go to places where there is no folder
    obtain ⟨-, -, hplace, -⟩ := Disk.rename_eq_ok hrename
    rw [Disk.isFolder_of_write hwrite] at hplace
    have hadmits : admits folder drive.disk item = true := Bool.and_eq_true_iff.mpr
      ⟨Disk.isFree_iff.mpr ⟨path, hpath, (Disk.write_eq_ok hwrite).1⟩,
        Disk.isFree_iff.mpr ⟨target, htarget, hplace⟩⟩
    rw [hadmits] at h
    cases h

/-- Removing a file that is there succeeds. -/
theorem remove_of_file (item : Item) (hitem : item.IsPlain)
    (h : drive.disk.find? (item.route folder) = some (.file content)) :
    ∃ b, drive.remove (item.route folder) = (.ok (), b) ∧
      drive.Passes b (fun e => Keeps folder drive.disk e ∨ Changes folder item none drive.disk e) ∧
      Changes folder item none drive.disk b.disk := by
  obtain ⟨path, hpath, hnode⟩ := Disk.exists_of_find? h
  obtain ⟨d, hremove⟩ := Disk.exists_remove hnode
  have hchanges : Changes folder item none drive.disk d := changes_of_remove hitem hpath hremove
  refine ⟨⟨d, .remove path :: drive.log⟩, ?_, ?_, hchanges⟩
  · simp only [Drive.remove, Drive.performAt, Drive.perform, Action.apply, hpath, hremove]
  · exact .step hremove (by simp) (.inl (.refl folder _)) (.inr hchanges)

/-- Removing what is no file fails without a step. -/
theorem remove_of_not_file (item : Item)
    (h : ∀ content, drive.disk.find? (item.route folder) ≠ some (.file content)) :
    ∃ why, drive.remove (item.route folder) = (.error why, drive) := by
  obtain hfail | ⟨path, d, hpath, hremove, -⟩ := drive.remove_cases (item.route folder)
  · exact hfail
  · obtain ⟨⟨content, hnode⟩, -⟩ := Disk.remove_eq_ok hremove
    exact absurd ((Disk.find?_of_locate hpath).trans hnode) (h content)

end Vault

end KeyCustody
