import KeyCustody.Store.Disk
import Mathlib.Tactic.Common

/-!
# What steps change on a disk

A step that writes, moves or removes a file says what is at one or two paths afterwards and leaves
everything else as it was (`Disk.write_eq_ok`, `Disk.rename_eq_ok`, `Disk.remove_eq_ok`). None of
the three makes or unmakes a folder, and where a route leads depends on the folders alone
(`Disk.locate_congr`), so all routes keep leading where they led.

The names of the files of one folder lead from one and the same place (`Disk.locate_join`).
-/

namespace KeyCustody

/-! ### Steps one after another -/

section

variable {ε α β : Type} {f : β → α → Except ε β} {b c : β}

theorem foldlM_append_eq_ok {l l' : List α} (h : (l ++ l').foldlM f b = .ok c) :
    ∃ m, l.foldlM f b = .ok m ∧ l'.foldlM f m = .ok c := by
  rw [List.foldlM_append] at h
  rcases hfirst : l.foldlM f b with why | m
  · rw [hfirst] at h
    cases h
  · rw [hfirst] at h
    exact ⟨m, rfl, h⟩

theorem foldlM_cons_eq_ok {x : α} {l : List α} (h : (x :: l).foldlM f b = .ok c) :
    ∃ m, f b x = .ok m ∧ l.foldlM f m = .ok c := by
  obtain ⟨m, hfirst, hrest⟩ := foldlM_append_eq_ok (l := [x]) h
  exact ⟨m, by simpa only [List.foldlM_cons, List.foldlM_nil, bind_pure] using hfirst, hrest⟩

end

namespace Disk

variable {d e : Disk} {path source target : Path} {content : Bytes} {route folder : Route}

theorem isFolder_iff : d.isFolder path = true ↔ d.node? path = some .folder := by
  simp [isFolder]

theorem not_isFolder_iff : d.isFolder path = false ↔ d.node? path ≠ some .folder := by
  simp [isFolder]

/-- Only a path that not every disk has can lead to something other than a folder. -/
private theorem isGiven_of_not_isFolder (h : d.isFolder path = false) : path.isGiven = false := by
  by_contra hgiven
  rw [not_isFolder_iff, node?_of_isGiven (Bool.not_eq_false _ ▸ hgiven)] at h
  exact h rfl

/-! ### Steps on files -/

private theorem node?_put_file (hfolder : d.isFolder path.dropLast = true)
    (hold : d.isFolder path = false) (content : Bytes) (q : Path) :
    (d.put path (.file content)).node? q = if q = path then some (.file content) else d.node? q :=
  node?_put (isGiven_of_not_isFolder hold) hfolder hold _ q

private theorem node?_drop_file (h : d.node? path = some (.file content)) (q : Path) :
    (d.drop path).node? q = if q = path then none else d.node? q := by
  have hold : d.isFolder path = false := not_isFolder_iff.mpr (by simp [h])
  refine node?_drop (isGiven_of_not_isFolder hold) (fun t ht => ?_) q
  refine Tree.children_eq_nil ?_
  rw [node?, ht, Option.map_some] at h
  simp [Option.some.inj h]

/-- A file that is written is there, and all else is as it was. -/
theorem write_eq_ok (h : d.write path content = .ok e) : d.isFolder path = false ∧
    ∀ q, e.node? q = if q = path then some (.file content) else d.node? q := by
  rw [write] at h
  split_ifs at h with hpath
  obtain ⟨hfolder, hold⟩ := hpath
  have hold : d.isFolder path = false := Bool.eq_false_iff.mpr hold
  rw [← Except.ok.inj h]
  exact ⟨hold, node?_put_file hfolder hold content⟩

/-- A file that is moved is at its new place and not at its old one, and all else is as it was. -/
theorem rename_eq_ok (h : d.rename source target = .ok e) :
    ∃ content, d.node? source = some (.file content) ∧ d.isFolder target = false ∧
      ∀ q, e.node? q = if q = target then some (.file content)
        else if q = source then none else d.node? q := by
  rw [rename] at h
  split at h
  · rename_i content hsource
    split_ifs at h with htarget
    obtain ⟨hfolder, hold⟩ := htarget
    have hold : d.isFolder target = false := Bool.eq_false_iff.mpr hold
    have hdrop := node?_drop_file hsource
    -- the folder of the new place is not the file that is moved
    have hfolder' : (d.drop source).isFolder target.dropLast = true := by
      rw [isFolder_iff] at hfolder ⊢
      have hne : target.dropLast ≠ source := fun heq => by simp [heq, hsource] at hfolder
      rw [hdrop, if_neg hne, hfolder]
    have hold' : (d.drop source).isFolder target = false := by
      rw [not_isFolder_iff] at hold ⊢
      rw [hdrop]
      split_ifs
      · nofun
      · exact hold
    refine ⟨content, hsource, hold, fun q => ?_⟩
    rw [← Except.ok.inj h, node?_put_file hfolder' hold', hdrop]
  · cases h

/-- A file that is removed is not there, and all else is as it was. -/
theorem remove_eq_ok (h : d.remove path = .ok e) :
    (∃ content, d.node? path = some (.file content)) ∧
      ∀ q, e.node? q = if q = path then none else d.node? q := by
  rw [remove] at h
  split at h
  · rename_i content hpath
    rw [← Except.ok.inj h]
    exact ⟨⟨content, hpath⟩, node?_drop_file hpath⟩
  · cases h

theorem exists_write (hfolder : d.isFolder path.dropLast = true) (hold : d.isFolder path = false)
    (content : Bytes) : ∃ e, d.write path content = .ok e :=
  ⟨_, if_pos ⟨hfolder, Bool.eq_false_iff.mp hold⟩⟩

theorem exists_rename (hsource : d.node? source = some (.file content))
    (hfolder : d.isFolder target.dropLast = true) (hold : d.isFolder target = false) :
    ∃ e, d.rename source target = .ok e := by
  rw [rename, hsource]
  exact ⟨_, if_pos ⟨hfolder, Bool.eq_false_iff.mp hold⟩⟩

theorem exists_remove (h : d.node? path = some (.file content)) : ∃ e, d.remove path = .ok e := by
  rw [remove, h]
  exact ⟨_, rfl⟩

/-! ### Folders stay -/

theorem isFolder_of_write (h : d.write path content = .ok e) : e.isFolder = d.isFolder := by
  obtain ⟨hold, hnode⟩ := write_eq_ok h
  funext q
  rw [isFolder, isFolder, hnode]
  split_ifs with hq
  · rw [hq]
    simpa [isFolder] using hold
  · rfl

theorem isFolder_of_rename (h : d.rename source target = .ok e) : e.isFolder = d.isFolder := by
  obtain ⟨content, hsource, hold, hnode⟩ := rename_eq_ok h
  funext q
  rw [isFolder, isFolder, hnode]
  split_ifs with htarget hq
  · rw [htarget]
    simpa [isFolder] using hold
  · simp [hq, hsource]
  · rfl

theorem isFolder_of_remove (h : d.remove path = .ok e) : e.isFolder = d.isFolder := by
  obtain ⟨⟨content, hpath⟩, hnode⟩ := remove_eq_ok h
  funext q
  rw [isFolder, isFolder, hnode]
  split_ifs with hq
  · simp [hq, hpath]
  · rfl

/-! ### Routes -/

theorem locate_eq (d : Disk) (route : Route) : d.locate route =
    match route.refusal? with
    | some why => .error why
    | none => route.names.foldlM d.advance route.start := by
  rw [locate, follow]
  cases route.refusal? with
  | some why => rfl
  | none => exact map_path_walk _ _

/-- Where a route leads depends on the folders alone. -/
theorem locate_congr (h : e.isFolder = d.isFolder) (route : Route) :
    e.locate route = d.locate route := by
  have hadvance : e.advance = d.advance := by
    funext path name
    rw [advance, advance, h]
  rw [locate_eq, locate_eq, hadvance]

theorem find?_of_locate (h : d.locate route = .ok path) : d.find? route = d.node? path := by
  rw [find?_eq, h]
  rfl

theorem find?_of_locate_error {why : Refusal} (h : d.locate route = .error why) :
    d.find? route = none := by
  rw [find?_eq, h]
  rfl

/-- The path of what a route finds. -/
theorem exists_of_find? {node : Node} (h : d.find? route = some node) :
    ∃ path, d.locate route = .ok path ∧ d.node? path = some node := by
  rcases hlocate : d.locate route with why | path
  · rw [find?_of_locate_error hlocate] at h
    cases h
  · rw [find?_of_locate hlocate] at h
    exact ⟨path, rfl, h⟩

/-- Whether a route leads to a place where there is no folder. -/
def isFree (d : Disk) (route : Route) : Bool :=
  match d.locate route with
  | .ok path => !d.isFolder path
  | .error _ => false

theorem isFree_iff :
    d.isFree route = true ↔ ∃ path, d.locate route = .ok path ∧ d.isFolder path = false := by
  rw [isFree]
  rcases d.locate route with why | path <;> simp

theorem isFree_congr (h : e.isFolder = d.isFolder) (route : Route) :
    e.isFree route = d.isFree route := by
  rw [isFree, isFree, locate_congr h, h]

theorem advance_eq_ok {name : String} {next : Path} (h : d.advance path name = .ok next) :
    d.isFolder path = true ∧ next = path.enter name := by
  rw [advance] at h
  split_ifs at h with hpath
  exact ⟨hpath.1, (Except.ok.inj h).symm⟩

end Disk

/-- The names that lead to a folder, without a stroke at their end. -/
def Route.base (folder : Route) : List String :=
  if folder.names.getLast? = some "" then folder.names.dropLast else folder.names

theorem Route.join_single (folder : Route) (name : String) :
    folder.join ⟨[name]⟩ = ⟨folder.base ++ [name]⟩ := by
  have habsolute : (Route.mk [name]).isAbsolute = false := by simp [isAbsolute]
  rw [join, if_neg (by simp [habsolute]), base]
  split_ifs <;> rfl

/-- A name leads one step down, or not down at all. -/
private theorem Path.enter_cases (path : Path) (name : String) :
    path.enter name = path ++ [name] ∨ (path.enter name).length ≤ path.length := by
  rw [enter]
  split_ifs
  · exact .inr (Nat.le_refl _)
  · exact .inl rfl
  · exact .inr (Nat.le_refl _)
  · exact .inl rfl
  · exact .inr (by simp)

/-- The name of a file leads to another place than any other name. -/
theorem Path.enter_ne {path : Path} {name other : String}
    (hother : other ≠ "" ∧ other ≠ "." ∧ other ≠ "..") (hne : name ≠ other) :
    path.enter name ≠ path.enter other := by
  obtain ⟨hempty, hdot, hback⟩ := hother
  have hlast : path.enter other = path ++ [other] := by simp [enter, hempty, hdot, hback]
  rw [hlast]
  intro h
  obtain hdown | hle := enter_cases path name
  · rw [hdown] at h
    exact hne (by simpa using h)
  · rw [h, List.length_append, List.length_singleton] at hle
    omega

namespace Disk

variable {d e : Disk} {folder : Route} {name : String} {path : Path}

/-- The place to which the names of a folder lead. -/
def home? (d : Disk) (folder : Route) : Except Refusal Path :=
  folder.base.foldlM d.advance (if folder.base.head? = some "" then ["/"] else [])

/-- A name in a folder is followed from the place of the folder. -/
theorem locate_join_eq (d : Disk) (folder : Route) (name : String) :
    d.locate (folder.join ⟨[name]⟩) =
      match (folder.join ⟨[name]⟩).refusal? with
      | some why => .error why
      | none => d.home? folder >>= (d.advance · name) := by
  have hstart : (Route.mk (folder.base ++ [name])).start =
      if folder.base.head? = some "" then ["/"] else [] := by
    rw [Route.start, Route.isAbsolute]
    cases folder.base with
    | nil => simp
    | cons first rest => simp
  have hlast : (fun home => List.foldlM d.advance home [name]) = (d.advance · name) := by
    funext home
    simp only [List.foldlM_cons, List.foldlM_nil, bind_pure]
  rw [Route.join_single, locate_eq, hstart, List.foldlM_append, hlast]
  rfl

theorem locate_join (h : d.locate (folder.join ⟨[name]⟩) = .ok path) :
    ∃ home, d.home? folder = .ok home ∧ d.isFolder home = true ∧ path = home.enter name := by
  rw [locate_join_eq] at h
  split at h
  · cases h
  · rcases hhome : d.home? folder with why | home
    · rw [hhome] at h
      cases h
    · rw [hhome] at h
      obtain ⟨hfolder, hpath⟩ := advance_eq_ok h
      exact ⟨home, rfl, hfolder, hpath⟩

/-- Two names in a folder do not lead to the same place, if the second is that of a file. -/
theorem locate_join_ne {other : String} {q : Path}
    (hother : other ≠ "" ∧ other ≠ "." ∧ other ≠ "..") (hne : name ≠ other)
    (h : d.locate (folder.join ⟨[name]⟩) = .ok path)
    (h' : d.locate (folder.join ⟨[other]⟩) = .ok q) : path ≠ q := by
  obtain ⟨home, hhome, -, rfl⟩ := locate_join h
  obtain ⟨home', hhome', -, rfl⟩ := locate_join h'
  obtain rfl := Except.ok.inj (hhome.symm.trans hhome')
  exact Path.enter_ne hother hne

/-- Above a folder there is a folder. -/
theorem isFolder_dropLast (h : d.isFolder path = true) : d.isFolder path.dropLast = true := by
  by_cases hgiven : Path.isGiven path.dropLast
  · exact isFolder_iff.mpr (node?_of_isGiven hgiven d)
  · have hgiven := Bool.eq_false_iff.mpr hgiven
    have hpath : path ≠ [] := by
      rintro rfl
      exact absurd hgiven (by decide)
    have hsplit : path.dropLast ++ [path.getLast hpath] = path :=
      List.dropLast_concat_getLast hpath
    have hgiven' : path.isGiven = false := Bool.eq_false_iff.mpr fun hpath => by
      rw [← hsplit] at hpath
      rw [isGiven_of_append hpath] at hgiven
      cases hgiven
    rw [isFolder_iff, node?_of_not_isGiven hgiven'] at h
    obtain ⟨t, ht, -⟩ := Option.map_eq_some_iff.mp h
    rw [← hsplit] at ht
    rw [isFolder_iff, node?_of_not_isGiven hgiven]
    exact Tree.node?_of_at?_append (by simp) ht

/-- A name in a folder that leads to no folder leads directly below the folder. -/
theorem isFolder_dropLast_enter (h : d.isFolder path = true)
    (hname : d.isFolder (path.enter name) = false) :
    d.isFolder (path.enter name).dropLast = true := by
  rw [Path.enter] at hname ⊢
  split_ifs at hname ⊢ with hstay hdown hroot hgiven
  · rw [h] at hname
    cases hname
  · rwa [List.dropLast_concat]
  · rw [h] at hname
    cases hname
  · rwa [List.dropLast_concat]
  · rw [isFolder_dropLast h] at hname
    cases hname

/-- Where a name in a folder leads to no folder, a file may be written. -/
theorem isFolder_dropLast_of_locate_join (h : d.locate (folder.join ⟨[name]⟩) = .ok path)
    (hpath : d.isFolder path = false) : d.isFolder path.dropLast = true := by
  obtain ⟨home, -, hhome, rfl⟩ := locate_join h
  exact isFolder_dropLast_enter hhome hpath

end Disk

end KeyCustody
