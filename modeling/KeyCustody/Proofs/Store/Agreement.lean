import KeyCustody.Proofs.Store.Memory
import KeyCustody.Proofs.Store.Reopening

/-!
# The two stores agree

What a sealed store loads is what the store in memory loads after the same commits and erasures, the
contents that were committed last (`Vault.loads_as_in_memory`), also when the sealed store is
mounted anew in between. Both stores are compared with what their records are to hold, a function of
the names: `Store.Tracks` says that one use of a store keeps to this function, and then so does
every sequence of uses (`Store.Tracks.run`).

A sealed store that nobody else touches never fails as long as the file system takes the names that
are written, because its commits and erasures change no folder.
-/

namespace KeyCustody

namespace Store

/-! ### Uses of a store -/

/-- One use of a store. When it is mounted anew, it is given the nonces that it is to draw. -/
inductive Use where
  | commit (writes : List (String × Bytes))
  | erase (names : List String)
  | load (name : String)
  | remount (nonces : Nat → Nonce)

namespace Use

/-- The names that a use is about. -/
def names : Use → List String
  | commit writes => writes.map Prod.fst
  | erase names => names
  | load name => [name]
  | remount _ => []

/-- What the records are to hold after a use, given what they held before: the last contents that
are committed, and nothing once they have been erased. -/
def after (held : String → Option Bytes) : Use → String → Option Bytes
  | commit writes, name => (writes.reverse.lookup name).or (held name)
  | erase names, name => if name ∈ names then none else held name
  | load _, name | remount _, name => held name

/-- What is to be loaded in a use. -/
def loaded (held : String → Option Bytes) : Use → List (Option Bytes)
  | load name => [held name]
  | commit _ | erase _ | remount _ => []

end Use

/-- What is to be loaded in a sequence of uses. -/
def expected (held : String → Option Bytes) : List Use → List (Option Bytes)
  | [] => []
  | use :: rest => use.loaded held ++ expected (use.after held) rest

section

variable {σ : Type} [Store σ] (remount : (Nat → Nonce) → σ → Except StoreFault σ)

/-- Makes one use of a store; answers what was loaded. -/
def perform (s : σ) : Use → Except StoreFault (List (Option Bytes) × σ)
  | .commit writes =>
    match Store.commit s writes with
    | (.ok (), t) => .ok ([], t)
    | (.error fault, _) => .error fault
  | .erase names =>
    match Store.erase s names with
    | (.ok (), t) => .ok ([], t)
    | (.error fault, _) => .error fault
  | .load name => (Store.load s name).map fun held => ([held], s)
  | .remount nonces => (remount nonces s).map fun t => ([], t)

/-- Makes use of a store as often as asked, up to the first failure; answers all that was loaded. -/
def run (s : σ) : List Use → Except StoreFault (List (Option Bytes) × σ)
  | [] => .ok ([], s)
  | use :: rest =>
    match perform remount s use with
    | .error fault => .error fault
    | .ok (loaded, t) => (run t rest).map fun (others, w) => (loaded ++ others, w)

/-- A relation between stores and what their records are to hold that every use keeps. A use of a
related store loads what it is to load, and fails only if it is not admitted. -/
structure Tracks (good admitted : Use → Prop) (r : σ → (String → Option Bytes) → Prop) : Prop where
  step : ∀ {s held use loaded t}, r s held → good use → perform remount s use = .ok (loaded, t) →
    loaded = use.loaded held ∧ r t (use.after held)
  progress : ∀ {s held use}, r s held → good use → admitted use →
    ∃ outcome, perform remount s use = .ok outcome

variable {remount} {good admitted : Use → Prop} {r : σ → (String → Option Bytes) → Prop} {s : σ}
  {held : String → Option Bytes} {uses : List Use}

/-- Then every sequence of uses loads what it is to load, and fails only if one of them is not
admitted. -/
theorem Tracks.run (h : Tracks remount good admitted r) (hs : r s held)
    (hgood : ∀ use ∈ uses, good use) :
    ((∀ use ∈ uses, admitted use) → ∃ outcome, Store.run remount s uses = .ok outcome) ∧
      ∀ {loads t}, Store.run remount s uses = .ok (loads, t) → loads = expected held uses := by
  induction uses generalizing s held with
  | nil => exact ⟨fun _ => ⟨_, rfl⟩, fun hrun => (Prod.mk.inj (Except.ok.inj hrun)).1.symm⟩
  | cons use rest ih =>
    obtain ⟨huse, hrest⟩ := List.forall_mem_cons.mp hgood
    rw [Store.run]
    rcases hperform : perform remount s use with fault | ⟨loaded, t⟩
    · refine ⟨fun hall => ?_, nofun⟩
      obtain ⟨outcome, hok⟩ := h.progress hs huse (hall use List.mem_cons_self)
      cases hperform.symm.trans hok
    · obtain ⟨rfl, ht⟩ := h.step hs huse hperform
      obtain ⟨hsucceeds, hloads⟩ := ih ht hrest
      refine ⟨fun hall => ?_, fun {loads w} hrun => ?_⟩
      · obtain ⟨outcome, hrun⟩ := hsucceeds fun u hu => hall u (List.mem_cons_of_mem _ hu)
        exact ⟨_, congrArg (Except.map _) hrun⟩
      · dsimp only at hrun
        rcases hothers : Store.run remount t rest with fault | ⟨others, w'⟩ <;> rw [hothers] at hrun
        · cases hrun
        · rw [← (Prod.mk.inj (Except.ok.inj hrun)).1, hloads hothers, expected]

end

end Store

/-! ### The store in memory -/

namespace MemoryStore

/-- Whether the records of a store that works hold what they are to hold. -/
def Holds (m : MemoryStore) (held : String → Option Bytes) : Prop :=
  m.failNext = false ∧ ∀ name, m.get? name = held name

/-- The store in memory, which is never mounted anew, keeps track of what it is to hold and never
fails. -/
theorem tracks : Store.Tracks (fun _ m => .ok m) (fun _ => True) (fun _ => True) Holds where
  step {m held use loaded t} := by
    rintro ⟨hworks, hheld⟩ - hperform
    cases use with
    | commit writes =>
      rw [Store.perform, commit_of_not_failNext hworks] at hperform
      obtain ⟨rfl, rfl⟩ := Prod.mk.inj (Except.ok.inj hperform)
      refine ⟨rfl, hworks, fun name => ?_⟩
      rw [get?_written, hheld, Store.Use.after]
    | erase names =>
      obtain ⟨rfl, rfl⟩ := Prod.mk.inj (Except.ok.inj hperform)
      refine ⟨rfl, hworks, fun name => ?_⟩
      rw [get?_erase, hheld, Store.Use.after]
    | load name =>
      obtain ⟨rfl, rfl⟩ := Prod.mk.inj (Except.ok.inj hperform)
      exact ⟨congrArg ([·]) (hheld name), hworks, hheld⟩
    | remount nonces =>
      obtain ⟨rfl, rfl⟩ := Prod.mk.inj (Except.ok.inj hperform)
      exact ⟨rfl, hworks, hheld⟩
  progress {m held use} := by
    rintro ⟨hworks, -⟩ - -
    cases use with
    | commit writes => exact ⟨_, by rw [Store.perform, commit_of_not_failNext hworks]⟩
    | erase | load | remount => exact ⟨_, rfl⟩

end MemoryStore

/-! ### The sealed store -/

namespace Vault

-- how a route is followed plays no part below
seal Disk.find? Disk.locate

variable {v w start : Vault} {secret name : String} {held : String → Option Bytes}

/-- The vault as it is mounted anew from its disk. -/
def remount (secret : String) (nonces : Nat → Nonce) (v : Vault) : Except StoreFault Vault :=
  (mount (.ofDisk v.drive.disk) v.folder secret nonces).1

/-- Whether the file system takes what a use writes. -/
def Admits (v : Vault) : Store.Use → Prop
  | .commit writes => admits v.folder v.drive.disk .journal = true ∧
    ∀ write ∈ writes, admits v.folder v.drive.disk (.record write.1) = true
  | .erase _ | .load _ | .remount _ => True

instance (v : Vault) : DecidablePred v.Admits
  | .commit _ => inferInstanceAs (Decidable (_ ∧ _))
  | .erase _ | .load _ | .remount _ => inferInstanceAs (Decidable True)

/-- Whether the records of a clean vault hold what they are to hold, with the folders that were
there at the start. -/
structure Holds (secret : String) (start v : Vault) (held : String → Option Bytes) : Prop where
  clean : v.Clean secret
  folder : v.folder = start.folder
  folders : v.drive.disk.isFolder = start.drive.disk.isFolder
  load : ∀ name, IsPlain name → v.load name = .ok (held name)

/-- No folder is in the place of a record that loads. -/
private theorem find?_ne_folder_of_load {contents : Option Bytes}
    (h : v.load name = .ok contents) :
    v.drive.disk.find? (recordRoute v.folder name) ≠ some .folder := by
  intro hfolder
  unfold load at h
  rw [hfolder] at h
  cases h

/-- A vault keeps track of what it is to hold, and does not fail where the file system takes what is
written. -/
theorem tracks (secret : String) (start : Vault) :
    Store.Tracks (remount secret) (fun use => ∀ name ∈ use.names, IsPlain name) start.Admits
      (Holds secret start) where
  step {v held use loaded w} h hplain hperform := by
    cases use with
    | commit writes =>
      have hnames : ∀ write ∈ writes, IsPlain write.1 := fun write hwrite =>
        hplain _ (List.mem_map_of_mem hwrite)
      rcases hcommit : Store.commit v writes with ⟨fault | ⟨⟩, u⟩ <;>
        rw [Store.perform, hcommit] at hperform
      · cases hperform
      obtain ⟨rfl, rfl⟩ := Prod.mk.inj (Except.ok.inj hperform)
      obtain ⟨-, hclean, hfolder, hloads⟩ := commit_reopens h.clean hnames hcommit
      refine ⟨rfl, hclean, hfolder.trans h.folder,
        (isFolder_of_commit h.clean hnames hcommit).trans h.folders, fun name hname => ?_⟩
      rw [hloads name hname, loadAfter, h.load name hname, Store.Use.after]
      cases writes.reverse.lookup name <;> rfl
    | erase names =>
      have hplain : ∀ name ∈ names, IsPlain name := hplain
      rcases herase : Store.erase v names with ⟨fault | ⟨⟩, u⟩ <;>
        rw [Store.perform, herase] at hperform
      · cases hperform
      obtain ⟨rfl, rfl⟩ := Prod.mk.inj (Except.ok.inj hperform)
      obtain ⟨-, hclean, hfolder, hloads⟩ := erase_reopens h.clean hplain herase
      refine ⟨rfl, hclean, hfolder.trans h.folder,
        (isFolder_of_erase hplain herase).trans h.folders, fun name hname => ?_⟩
      rw [hloads name hname, h.load name hname, Store.Use.after]
      split_ifs <;> rfl
    | load name =>
      have hload : Store.load v name = .ok (held name) := h.load name (hplain _ List.mem_cons_self)
      rw [Store.perform, hload] at hperform
      obtain ⟨rfl, rfl⟩ := Prod.mk.inj (Except.ok.inj hperform)
      exact ⟨rfl, h⟩
    | remount nonces =>
      rw [Store.perform, remount, h.clean.mount_eq_ok] at hperform
      obtain ⟨rfl, rfl⟩ := Prod.mk.inj (Except.ok.inj hperform)
      refine ⟨rfl, ⟨h.clean.hosts, h.clean.journal, rfl⟩, h.folder, h.folders, fun name hname => ?_⟩
      rw [Store.Use.after, ← h.load name hname]
      exact load_congr h.clean.key.symm rfl
  progress {v held use} h hplain hadmits := by
    cases use with
    | commit writes =>
      obtain ⟨hjournal, hall⟩ := hadmits
      rw [← h.folder] at hjournal hall
      have hnames : ∀ write ∈ writes, IsPlain write.1 := fun write hwrite =>
        hplain _ (List.mem_map_of_mem hwrite)
      obtain ⟨u, hcommit⟩ := exists_commit hnames ((admits_congr h.folders _ _).trans hjournal)
        fun write hwrite => (admits_congr h.folders _ _).trans (hall write hwrite)
      have hcommit : Store.commit v writes = (.ok (), u) := hcommit
      exact ⟨_, by rw [Store.perform, hcommit]⟩
    | erase names =>
      obtain ⟨u, herase⟩ := exists_erase hplain fun name hname =>
        find?_ne_folder_of_load (h.load name (hplain name hname))
      have herase : Store.erase v names = (.ok (), u) := herase
      exact ⟨_, by rw [Store.perform, herase]⟩
    | load name =>
      have hload : Store.load v name = .ok (held name) := h.load name (hplain _ List.mem_cons_self)
      exact ⟨_, by rw [Store.perform, hload]; rfl⟩
    | remount nonces => exact ⟨_, by rw [Store.perform, remount, h.clean.mount_eq_ok]; rfl⟩

/-- No record is in a vault whose folder is empty. -/
theorem load_of_empty {home : Path} (hhome : v.drive.disk.home? v.folder = .ok home)
    (hempty : v.drive.disk.tree? home = some (.folder [])) (hname : IsPlain name) :
    v.load name = .ok none := by
  have hfile : v.drive.disk.find? (recordRoute v.folder name) = none := by
    have hroute : recordRoute v.folder name = v.folder.join ⟨[(Item.record name).file]⟩ :=
      Item.route_eq (show Item.IsPlain (.record name) from hname)
    rw [hroute]
    rcases hlocate : v.drive.disk.locate (v.folder.join ⟨[(Item.record name).file]⟩) with why | path
    · exact Disk.find?_of_locate_error hlocate
    obtain ⟨home', hhome', -, rfl⟩ := Disk.locate_join hlocate
    obtain rfl := Except.ok.inj (hhome'.symm.trans hhome)
    obtain ⟨hname, hdot, hback⟩ := (Item.record name).file_isName
    have hroot : (Item.record name).file ≠ "/" := fun heq => by
      have hlast := congrArg (·.toList.getLast?) heq
      simp [Item.file, fileName, String.toList_append] at hlast
    rw [Disk.find?_of_locate hlocate, Path.enter, if_neg (not_or.mpr ⟨hname, hdot⟩), if_pos hback,
      Disk.node?, Disk.tree?_append ⟨hback, hroot⟩, hempty]
    rfl
  unfold load
  rw [hfile]

/-- **The two stores agree**: in a vault that has just been mounted and holds no record, under plain
names, any sequence of commits, erasures, loads and mounts with the same secret succeeds if the file
system takes what is written; and when it succeeds, it loads what the same sequence loads in memory,
which is what was committed last, or nothing if that was erased or if nothing was committed. -/
theorem loads_as_in_memory {d : Disk} {folder : Route} {nonces : Nat → Nonce} {b : Drive}
    (hmount : mount (.ofDisk d) folder secret nonces = (.ok v, b))
    (hfresh : ∀ name, IsPlain name → v.load name = .ok none) {uses : List Store.Use}
    (hplain : ∀ use ∈ uses, ∀ name ∈ use.names, IsPlain name) :
    ((∀ use ∈ uses, v.Admits use) →
      ∃ loads w, Store.run (remount secret) v uses = .ok (loads, w)) ∧
    ∀ {loads w}, Store.run (remount secret) v uses = .ok (loads, w) →
      (∃ m, Store.run (fun _ m => .ok m) MemoryStore.empty uses = .ok (loads, m)) ∧
      loads = Store.expected (fun _ => none) uses := by
  obtain ⟨hsucceeds, hloads⟩ := (tracks secret v).run
    ⟨(clean_of_mount hmount).1, rfl, rfl, hfresh⟩ hplain
  have hnothing : MemoryStore.empty.Holds fun _ => none := ⟨rfl, fun _ => rfl⟩
  have hany : ∀ use ∈ uses, True := fun _ _ => trivial
  obtain ⟨hmemory, hloads'⟩ := MemoryStore.tracks.run hnothing hany
  obtain ⟨⟨loads', m⟩, hm⟩ := hmemory hany
  refine ⟨fun hall => ?_, fun {loads w} hrun => ⟨⟨m, ?_⟩, hloads hrun⟩⟩
  · obtain ⟨⟨loads, w⟩, hrun⟩ := hsucceeds hall
    exact ⟨loads, w, hrun⟩
  · rw [hm, hloads hrun, hloads' hm]

/-- Records that are written twice in a commit, erased, written again and looked up in between, also
after the vault has been mounted anew. -/
def sampleUses : List Store.Use :=
  let quoted := "\"\\\n𝄞"
  [.load "a", .commit sampleWrites, .commit [(quoted, [0xff, 0])], .load "a",
    .remount fun _ => ⟨List.replicate 16 5, rfl⟩, .load "b", .load quoted,
    .erase ["b", "none", "a"], .commit [("b", [3])],
    .remount fun _ => ⟨List.replicate 16 6, rfl⟩, .load "a", .load "b"]

/-- In a vault whose folder was empty these uses succeed. -/
theorem loads_as_in_memory_sample :
    mount (.ofDisk sample.drive.disk) sample.folder "secret" sample.nonces =
        (.ok sample, sample.drive) ∧
      (∀ name, IsPlain name → sample.load name = .ok none) ∧
      (∀ use ∈ sampleUses, ∀ name ∈ use.names, IsPlain name) ∧
      (∀ use ∈ sampleUses, sample.Admits use) ∧
      ∃ w m, let loads := [none, some [2], some [], some [0xff, 0], none, some [3]]
        Store.run (remount "secret") sample sampleUses = .ok (loads, w) ∧
        Store.run (fun _ m => .ok m) MemoryStore.empty sampleUses = .ok (loads, m) := by
  have hmount := clean_sample.mount_eq_ok sample.nonces
  have hhome : sample.drive.disk.home? sample.folder = .ok ["s"] := by decide +kernel
  have hempty : sample.drive.disk.tree? ["s"] = some (.folder []) := rfl
  have hfresh : ∀ name, IsPlain name → sample.load name = .ok none := fun name hname =>
    load_of_empty hhome hempty hname
  have hplain : ∀ use ∈ sampleUses, ∀ name ∈ use.names, IsPlain name := by decide +kernel
  have hadmits : ∀ use ∈ sampleUses, sample.Admits use := by decide +kernel
  obtain ⟨hsucceeds, hagrees⟩ := loads_as_in_memory hmount hfresh hplain
  obtain ⟨loads, w, hrun⟩ := hsucceeds hadmits
  obtain ⟨⟨m, hmemory⟩, hloads⟩ := hagrees hrun
  have hexpected : Store.expected (fun _ => none) sampleUses =
      [none, some [2], some [], some [0xff, 0], none, some [3]] := by decide +kernel
  obtain rfl := hloads.trans hexpected
  exact ⟨hmount, hfresh, hplain, hadmits, w, m, hrun, hmemory⟩

end Vault

end KeyCustody
