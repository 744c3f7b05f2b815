import KeyCustody.Proofs.Store.Disk

/-!
# Where a machine may stop

A drive keeps the steps that it performs, so the disks on which a machine may stop between two
drives are given by the steps between them (`Drive.Stops`): any number of them has been made, and if
the next one writes a file, anything may be in this file. `Drive.Passes a b p` says that one drive
comes from the other and that all of these disks, the first and the last included, satisfy `p`. It
is composed along the operations of a drive.

The three operations on files come down to single steps (`Drive.replace_cases`,
`Drive.remove_cases`). Making the folders of a route that are there already makes no step
(`Drive.makeFolders_of_hosts`).
-/

namespace KeyCustody

/-- The disks on which a machine may stop that is to make steps: after some of them, or within one
that writes a file. -/
inductive Disk.Stop : Disk → List Action → Disk → Prop
  | here (d : Disk) (steps : List Action) : Stop d steps d
  | torn {d e : Disk} {path : Path} {part : Bytes} (content : Bytes) (rest : List Action)
      (h : d.write path part = .ok e) :
    Stop d (.write path content :: rest) e
  | later {d e f : Disk} {action : Action} {rest : List Action} (h : action.apply d = .ok e)
      (hrest : Stop e rest f) :
    Stop d (action :: rest) f

namespace Disk

variable {d e : Disk} {steps more : List Action}

/-- Any number of the steps may have been made. -/
theorem Stop.of_take {n : Nat} (h : (steps.take n).foldlM Action.apply d = .ok e) :
    d.Stop steps e := by
  induction steps generalizing d n with
  | nil =>
    rw [List.take_nil] at h
    obtain rfl := Except.ok.inj h
    exact .here _ []
  | cons action steps ih =>
    rcases n with _ | n
    · obtain rfl := Except.ok.inj h
      exact .here _ _
    · obtain ⟨f, happly, hrest⟩ := foldlM_cons_eq_ok h
      exact .later happly (ih hrest)

/-- All of the steps may have been made. -/
theorem Stop.last (h : steps.foldlM Action.apply d = .ok e) : d.Stop steps e := by
  rw [← steps.take_length] at h
  exact .of_take h

/-- A machine stops during the first steps or, when these have been made, during the others. -/
theorem Stop.of_append (h : d.Stop (steps ++ more) e) :
    d.Stop steps e ∨ ∃ f, steps.foldlM Action.apply d = .ok f ∧ f.Stop more e := by
  induction steps generalizing d with
  | nil => exact .inr ⟨d, rfl, h⟩
  | cons action steps ih =>
    cases h with
    | here => exact .inl (.here _ _)
    | torn content rest hwrite => exact .inl (.torn content _ hwrite)
    | @later _ f _ _ _ happly hrest =>
      obtain hfirst | ⟨g, hrun, hmore⟩ := ih hrest
      · exact .inl (.later happly hfirst)
      · refine .inr ⟨g, ?_, hmore⟩
        rw [List.foldlM_cons, happly]
        exact hrun

end Disk

namespace Drive

/-- The disks on which a machine may stop between two drives. -/
def Stops (a b : Drive) (e : Disk) : Prop :=
  ∃ steps, b.log = steps.reverse ++ a.log ∧ a.disk.Stop steps e

/-- One drive comes from another by steps, and wherever the machine stops, the disk satisfies a
property. -/
def Passes (a b : Drive) (p : Disk → Prop) : Prop :=
  ∃ steps, b.log = steps.reverse ++ a.log ∧ steps.foldlM Action.apply a.disk = .ok b.disk ∧
    ∀ e, a.disk.Stop steps e → p e

variable {a b c : Drive} {p q : Disk → Prop} {action : Action} {route : Route} {folder : Route}

theorem Passes.of_stops (h : a.Passes b p) {e : Disk} (hstop : a.Stops b e) : p e := by
  obtain ⟨steps, hlog, -, hsteps⟩ := h
  obtain ⟨others, hlog', hstop⟩ := hstop
  have heq : others = steps := by
    rw [hlog] at hlog'
    exact (List.reverse_inj.mp (List.append_cancel_right hlog')).symm
  rw [heq] at hstop
  exact hsteps e hstop

theorem Passes.last (h : a.Passes b p) : p b.disk := by
  obtain ⟨steps, -, hrun, hsteps⟩ := h
  exact hsteps _ (.last hrun)

theorem Passes.imp (h : a.Passes b p) (hpq : ∀ e, p e → q e) : a.Passes b q := by
  obtain ⟨steps, hlog, hrun, hsteps⟩ := h
  exact ⟨steps, hlog, hrun, fun e he => hpq e (hsteps e he)⟩

theorem Passes.refl (h : p a.disk) : a.Passes a p := by
  refine ⟨[], rfl, rfl, fun e he => ?_⟩
  cases he
  exact h

theorem Passes.trans (h : a.Passes b p) (h' : b.Passes c p) : a.Passes c p := by
  obtain ⟨steps, hlog, hrun, hsteps⟩ := h
  obtain ⟨more, hlog', hrun', hmore⟩ := h'
  refine ⟨steps ++ more, ?_, ?_, fun e he => ?_⟩
  · rw [hlog', hlog, List.reverse_append, List.append_assoc]
  · rw [List.foldlM_append, hrun]
    exact hrun'
  · obtain he | ⟨f, hf, he⟩ := he.of_append
    · exact hsteps e he
    · obtain rfl := Except.ok.inj (hrun.symm.trans hf)
      exact hmore e he

/-- A single step that does not write is made or not. -/
theorem Passes.step {d : Disk} (happly : action.apply a.disk = .ok d)
    (hwrite : ∀ path content, action ≠ .write path content) (hbefore : p a.disk) (hafter : p d) :
    a.Passes ⟨d, action :: a.log⟩ p := by
  have hrun : [action].foldlM Action.apply a.disk = .ok d := by
    rw [List.foldlM_cons, happly]
    rfl
  refine ⟨[action], rfl, hrun, fun e he => ?_⟩
  cases he with
  | here => exact hbefore
  | torn content => exact absurd rfl (hwrite _ content)
  | later h hrest =>
    obtain rfl := Except.ok.inj (happly.symm.trans h)
    cases hrest
    exact hafter

/-- A step that writes a file leaves anything in it until it is made. -/
theorem Passes.step_write {d : Disk} {path : Path} {content : Bytes}
    (happly : a.disk.write path content = .ok d) (hbefore : p a.disk)
    (hwrite : ∀ part e, a.disk.write path part = .ok e → p e) :
    a.Passes ⟨d, .write path content :: a.log⟩ p := by
  have hrun : [Action.write path content].foldlM Action.apply a.disk = .ok d := by
    rw [List.foldlM_cons]
    change (a.disk.write path content >>= _) = _
    rw [happly]
    rfl
  refine ⟨[.write path content], rfl, hrun, fun e he => ?_⟩
  cases he with
  | here => exact hbefore
  | torn _ _ h => exact hwrite _ _ h
  | later h hrest =>
    cases hrest
    exact hwrite _ _ h

/-! ### Operations on files -/

/-- A file is removed in one step, or nothing happens. -/
theorem remove_cases (drive : Drive) (route : Route) :
    (∃ why, drive.remove route = (.error why, drive)) ∨
      ∃ path d, drive.disk.locate route = .ok path ∧ drive.disk.remove path = .ok d ∧
        drive.remove route = (.ok (), ⟨d, .remove path :: drive.log⟩) := by
  rcases hlocate : drive.disk.locate route with why | path
  · exact .inl ⟨why, by simp only [remove, performAt, hlocate]⟩
  · rcases hremove : drive.disk.remove path with why | d
    · exact .inl ⟨why, by simp only [remove, performAt, hlocate, perform, Action.apply, hremove]⟩
    · refine .inr ⟨path, d, rfl, hremove, ?_⟩
      simp only [remove, performAt, hlocate, perform, Action.apply, hremove]

private theorem write_cases (drive : Drive) (route : Route) (content : Bytes) :
    (∃ why, drive.write route content = (.error why, drive)) ∨
      ∃ path d, drive.disk.locate route = .ok path ∧ drive.disk.write path content = .ok d ∧
        drive.write route content = (.ok (), ⟨d, .write path content :: drive.log⟩) := by
  rcases hlocate : drive.disk.locate route with why | path
  · exact .inl ⟨why, by simp only [write, performAt, hlocate]⟩
  · rcases hwrite : drive.disk.write path content with why | d
    · exact .inl ⟨why, by simp only [write, performAt, hlocate, perform, Action.apply, hwrite]⟩
    · refine .inr ⟨path, d, rfl, hwrite, ?_⟩
      simp only [write, performAt, hlocate, perform, Action.apply, hwrite]

private theorem rename_cases (drive : Drive) (source target : Route) :
    (∃ why, drive.rename source target = (.error why, drive)) ∨
      ∃ path path' d, drive.disk.locate source = .ok path ∧ drive.disk.locate target = .ok path' ∧
        drive.disk.rename path path' = .ok d ∧
        drive.rename source target = (.ok (), ⟨d, .rename path path' :: drive.log⟩) := by
  rcases hsource : drive.disk.locate source with why | path
  · exact .inl ⟨why, by simp only [rename, hsource]⟩
  · rcases htarget : drive.disk.locate target with why | path'
    · exact .inl ⟨why, by simp only [rename, performAt, hsource, htarget]⟩
    · rcases hrename : drive.disk.rename path path' with why | d
      · refine .inl ⟨why, ?_⟩
        simp only [rename, performAt, hsource, htarget, perform, Action.apply, hrename]
      · refine .inr ⟨path, path', d, rfl, rfl, hrename, ?_⟩
        simp only [rename, performAt, hsource, htarget, perform, Action.apply, hrename]

/-- The contents of a file are replaced in two steps. Either may be refused. -/
theorem replace_cases (drive : Drive) (temporary target : Route) (content : Bytes) :
    (∃ fault, drive.replace temporary target content = (.error fault, drive)) ∨
      ∃ path d, drive.disk.locate temporary = .ok path ∧ drive.disk.write path content = .ok d ∧
        ((∃ fault, drive.replace temporary target content =
            (.error fault, ⟨d, .write path content :: drive.log⟩)) ∨
          ∃ path' e, drive.disk.locate target = .ok path' ∧ d.rename path path' = .ok e ∧
            drive.replace temporary target content =
              (.ok (), ⟨e, .rename path path' :: .write path content :: drive.log⟩)) := by
  obtain ⟨why, hwrite⟩ | ⟨path, d, hpath, happly, hwrite⟩ := drive.write_cases temporary content
  · exact .inl ⟨_, by simp only [replace, hwrite]; rfl⟩
  refine .inr ⟨path, d, hpath, happly, ?_⟩
  -- the folders are as before, so both routes lead where they led
  have hroutes := Disk.locate_congr (Disk.isFolder_of_write happly)
  obtain ⟨why, hrename⟩ | ⟨source, path', e, hsource, htarget, happly', hrename⟩ :=
    rename_cases ⟨d, .write path content :: drive.log⟩ temporary target
  · exact .inl ⟨_, by simp only [replace, hwrite, hrename]; rfl⟩
  · rw [hroutes, hpath] at hsource
    obtain rfl := Except.ok.inj hsource
    rw [hroutes] at htarget
    exact .inr ⟨path', e, htarget, happly', by simp only [replace, hwrite, hrename]⟩

/-! ### Folders -/

end Drive

/-- Whether the folder of a store is there. The empty route is that of the folder where a program
stands. -/
def Disk.Hosts (d : Disk) (folder : Route) : Prop :=
  folder.size = 0 ∨ d.find? folder = some .folder

theorem Disk.hosts_congr {d e : Disk} (h : e.isFolder = d.isFolder) (folder : Route) :
    e.Hosts folder ↔ d.Hosts folder := by
  have hfind : e.find? folder = some .folder ↔ d.find? folder = some .folder := by
    rw [find?_eq, find?_eq, locate_congr h]
    rcases d.locate folder with why | path
    · exact Iff.rfl
    · change e.node? path = some .folder ↔ d.node? path = some .folder
      rw [← isFolder_iff, ← isFolder_iff, h]
  rw [Hosts, Hosts, hfind]

namespace Disk

variable {d : Disk} {here path : Path} {names : List String}

/-- Names that lead to a folder start from a folder. -/
private theorem isFolder_of_foldlM (h : names.foldlM d.advance here = .ok path)
    (hpath : d.isFolder path = true) : d.isFolder here = true := by
  cases names with
  | nil =>
    obtain rfl := Except.ok.inj h
    exact hpath
  | cons name rest =>
    obtain ⟨next, hnext, -⟩ := foldlM_cons_eq_ok h
    exact (advance_eq_ok hnext).1

/-- The names that lead away from where one stands lead as far as all names. -/
private theorem foldlM_strides (h : names.foldlM d.advance here = .ok path) :
    (names.filter fun name => name ≠ "" ∧ name ≠ ".").foldlM d.advance here = .ok path := by
  induction names generalizing here with
  | nil => exact h
  | cons name rest ih =>
    obtain ⟨next, hnext, h⟩ := foldlM_cons_eq_ok h
    have hrest := ih h
    by_cases hstay : name = "" ∨ name = "."
    · have hhere : next = here := by
        rw [(advance_eq_ok hnext).2, Path.enter, if_pos hstay]
      rw [List.filter_cons_of_neg (by simpa [← or_iff_not_imp_left] using hstay), ← hhere]
      exact hrest
    · rw [List.filter_cons_of_pos (by simpa using hstay), List.foldlM_cons, hnext]
      exact hrest

/-- Where names lead to a folder, all but the last of them do. -/
private theorem exists_foldlM_dropLast (h : names.foldlM d.advance here = .ok path)
    (hpath : d.isFolder path = true) :
    ∃ last, names.dropLast.foldlM d.advance here = .ok last ∧ d.isFolder last = true := by
  by_cases hnames : names = []
  · subst hnames
    exact ⟨here, rfl, isFolder_of_foldlM h hpath⟩
  · rw [← List.dropLast_concat_getLast hnames] at h
    obtain ⟨last, hlast, hpath'⟩ := foldlM_append_eq_ok h
    exact ⟨last, hlast, isFolder_of_foldlM hpath' hpath⟩

end Disk

namespace Drive

variable {drive drive' : Drive} {here path : Path} {names : List String} {folder : Route}

/-- Along folders nothing is made. -/
private theorem makeAlong_eq_ok (h : names.foldlM drive.disk.advance here = .ok path)
    (hpath : drive.disk.isFolder path = true) :
    drive.makeAlong here names = (.ok path, drive) := by
  induction names generalizing here with
  | nil =>
    obtain rfl := Except.ok.inj h
    rfl
  | cons name rest ih =>
    obtain ⟨next, hnext, h⟩ := foldlM_cons_eq_ok h
    have hfolder : drive.disk.isFolder next = true := Disk.isFolder_of_foldlM h hpath
    simp only [makeAlong, hnext, hfolder, if_true]
    exact ih h

/-- A folder that is there is not made. -/
theorem makeFolders_of_hosts (h : drive.disk.Hosts folder) :
    drive.makeFolders folder = (.ok (), drive) := by
  rw [makeFolders]
  by_cases hsize : folder.size = 0
  · rw [if_pos hsize]
  · rw [if_neg hsize]
    have hfind := h.resolve_left hsize
    obtain ⟨path, hlocate, hnode⟩ := Disk.exists_of_find? hfind
    have hpath : drive.disk.isFolder path = true := Disk.isFolder_iff.mpr hnode
    rw [Disk.locate_eq] at hlocate
    have hrefusal : folder.refusal? = none := by
      cases hrefusal : folder.refusal? with
      | none => rfl
      | some why => simp only [hrefusal, reduceCtorEq] at hlocate
    simp only [hrefusal] at hlocate
    have hstrides := Disk.foldlM_strides hlocate
    -- a route that ends in a dot asks for one folder less
    obtain ⟨last, hmade, hlast⟩ : ∃ last, (if folder.endsInDot then folder.strides.dropLast
        else folder.strides).foldlM drive.disk.advance folder.start = .ok last ∧
          drive.disk.isFolder last = true := by
      split_ifs
      · exact Disk.exists_foldlM_dropLast hstrides hpath
      · exact ⟨path, hstrides, hpath⟩
    simp only [hrefusal, makeAlong_eq_ok hmade hlast, hfind, if_true]

/-- A folder that was made is there. -/
theorem hosts_of_makeFolders (h : drive.makeFolders folder = (.ok (), drive')) :
    drive'.disk.Hosts folder := by
  rw [makeFolders] at h
  by_cases hsize : folder.size = 0
  · exact .inl hsize
  · rw [if_neg hsize] at h
    split at h
    · cases (Prod.mk.inj h).1
    dsimp only at h
    split at h
    · cases (Prod.mk.inj h).1
    split at h
    · rename_i hfind
      obtain ⟨-, rfl⟩ := Prod.mk.inj h
      exact .inr hfind
    · cases (Prod.mk.inj h).1

end Drive

end KeyCustody
