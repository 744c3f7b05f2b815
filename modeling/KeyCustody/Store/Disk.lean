import KeyCustody.Store.Tree

/-!
# Disks

A disk is a tree of folders and files. A route is followed name by name (`Disk.walk`), and leads
somewhere only if each name but the last leads to a folder. The sealed store changes a disk in four
kinds of steps (`Action`); a `Drive` performs them one by one and keeps them, so that the disks on
which a machine may stop are those that the steps so far have made.

The view of a disk is `Disk.node?`. A step that puts a file or a folder somewhere, or takes a file
away, changes it at one path only (`node?_put`, `node?_drop`).
-/

namespace KeyCustody

/-- The folders and files around the place where a program stands. -/
structure Disk where
  root : Tree

namespace Disk

/-- The disk without nodes. -/
def empty : Disk := ⟨Tree.empty⟩

/-- What is at a path. -/
def tree? (d : Disk) (path : Path) : Option Tree :=
  if path.isGiven then some (.folder (((d.root.at? path).map Tree.children).getD []))
  else d.root.at? path

/-- The node of a path. -/
def node? (d : Disk) (path : Path) : Option Node := (d.tree? path).map Tree.node

/-- Whether a path leads to a folder. -/
def isFolder (d : Disk) (path : Path) : Bool := d.node? path = some .folder

/-- The disk with a file or an empty folder at a path. -/
def put (d : Disk) (path : Path) (node : Node) : Disk := ⟨d.root.put (.ofNode node) path⟩

/-- The disk without the node at a path. -/
def drop (d : Disk) (path : Path) : Disk := ⟨d.root.drop path⟩

/-- The names in a folder with a stroke after the names of folders, in the order of these texts. -/
def listing (d : Disk) (folder : Path) : List String :=
  let children := ((d.tree? folder).map Tree.children).getD []
  let names := (children.filter fun child => !(folder ++ [child.1]).isGiven).map fun child =>
    if child.2.node = .folder then child.1 ++ "/" else child.1
  names.mergeSort fun a b => !(b < a)

/-! ### The view -/

theorem node?_of_isGiven {path : Path} (h : path.isGiven) (d : Disk) :
    d.node? path = some .folder := by
  simp [node?, tree?, h, Tree.node]

theorem node?_of_not_isGiven {path : Path} (h : path.isGiven = false) (d : Disk) :
    d.node? path = d.root.node? path := by
  simp [node?, tree?, h, Tree.node?]

theorem isGiven_append {path : Path} {name : String} (hname : name ≠ ".." ∧ name ≠ "/") :
    Path.isGiven (path ++ [name]) = false := by
  have hlast : path ++ [name] ≠ ["/"] := fun h => hname.2 (by simpa using congrArg List.getLast? h)
  simp [Path.isGiven, hname.1, hlast]

theorem tree?_append {path : Path} {name : String} (hname : name ≠ ".." ∧ name ≠ "/") (d : Disk) :
    d.tree? (path ++ [name]) = (d.tree? path).bind (·.child? name) := by
  rw [tree?, if_neg (by simp [isGiven_append hname]), Tree.at?_append]
  by_cases hpath : path.isGiven
  · rw [tree?, if_pos hpath]
    cases d.root.at? path with
    | none => rfl
    | some t =>
      cases t with
      | folder children => simp [Tree.at?, Tree.child?, Tree.children]; grind
      | file content => simp [Tree.at?, Tree.child?, Tree.children, Table.find?]
  · rw [tree?, if_neg hpath]
    cases d.root.at? path with
    | none => rfl
    | some t => simp [Tree.at?]; cases t.child? name <;> rfl

theorem isGiven_of_append {path rest : Path} (h : (path ++ rest).isGiven) : path.isGiven := by
  simp only [Path.isGiven, Bool.or_eq_true, decide_eq_true_eq, List.all_append, Bool.and_eq_true]
    at h ⊢
  rcases h with h | h
  · exact .inl h.1
  · cases path with
    | nil => exact .inl rfl
    | cons name path => simp_all

/-- A file or an empty folder that is put into a folder changes what is at its own path only. -/
theorem node?_put {d : Disk} {path : Path} (hgiven : path.isGiven = false)
    (hfolder : d.isFolder path.dropLast) (hold : d.isFolder path = false) (n : Node) (q : Path) :
    (d.put path n).node? q = if q = path then some n else d.node? q := by
  by_cases hq : q.isGiven
  · have hne : q ≠ path := fun h => by simp [h, hgiven] at hq
    rw [node?_of_isGiven hq, node?_of_isGiven hq, if_neg hne]
  · have hq := Bool.eq_false_iff.2 hq
    rw [node?_of_not_isGiven hq, node?_of_not_isGiven hq, put]
    by_cases hself : q = path
    · subst hself
      simp [Tree.node?_put_self]
    · rw [if_neg hself]
      by_cases hway : q <+: path
      · obtain ⟨rest, rfl⟩ := hway
        have hrest : rest ≠ [] := fun h => hself (by simp [h])
        rw [Tree.node?_put_append _ _ _ hrest]
        rw [List.dropLast_append_of_ne_nil hrest] at hfolder
        have hbelow : (q ++ rest.dropLast).isGiven = false :=
          Bool.eq_false_iff.2 fun h => by simp [isGiven_of_append h] at hq
        rw [isFolder, node?_of_not_isGiven hbelow, decide_eq_true_eq] at hfolder
        by_cases hlast : rest.dropLast = []
        · simpa [hlast] using hfolder.symm
        · obtain ⟨t, ht, -⟩ := Option.map_eq_some_iff.1 hfolder
          exact (Tree.node?_of_at?_append hlast ht).symm
      · refine Tree.node?_put_of_not_prefix ?_ (Tree.children_ofNode n) hway
        rw [← node?_of_not_isGiven hgiven]
        simpa [isFolder] using hold

/-- A file or an empty folder that is dropped leaves nothing at its path and all else as it was. -/
theorem node?_drop {d : Disk} {path : Path} (hgiven : path.isGiven = false)
    (hold : ∀ t, d.tree? path = some t → t.children = []) (q : Path) :
    (d.drop path).node? q = if q = path then none else d.node? q := by
  by_cases hq : q.isGiven
  · have hne : q ≠ path := fun h => by simp [h, hgiven] at hq
    rw [node?_of_isGiven hq, node?_of_isGiven hq, if_neg hne]
  · have hq := Bool.eq_false_iff.2 hq
    have hpath : path ≠ [] := fun h => by simp [h, Path.isGiven] at hgiven
    have hold : ∀ t, d.root.at? path = some t → t.children = [] := by
      simpa [tree?, hgiven] using hold
    rw [node?_of_not_isGiven hq, node?_of_not_isGiven hq]
    exact Tree.node?_drop hpath hold q

/-! ### Following routes -/

/-- The largest number of octets of a name. -/
def maxNameSize : Nat := 255

/-- The path one step along a name, which may only be taken from a folder. -/
def advance (d : Disk) (path : Path) (name : String) : Except Refusal Path :=
  if d.isFolder path ∧ name.utf8ByteSize ≤ maxNameSize then .ok (path.enter name)
  else .error .refused

/-- A path of a disk together with what is there. -/
structure Place (d : Disk) where
  path : Path
  tree? : Option Tree
  eq_tree? : tree? = d.tree? path

namespace Place

variable {d : Disk}

/-- The place at a path. -/
def ofPath (d : Disk) (path : Path) : Place d := ⟨path, d.tree? path, rfl⟩

/-- The place one step along a name, which may only be taken from a folder. -/
def step (here : Place d) (name : String) : Except Refusal (Place d) :=
  match here.tree? with
  | some (.folder _) =>
    if maxNameSize < name.utf8ByteSize then .error .refused
    else if name = "" ∨ name = "." then .ok here
    else if h : name = ".." ∨ name = "/" then .ok (.ofPath d (here.path.enter name))
    else
      .ok ⟨here.path ++ [name], here.tree?.bind (·.child? name), by
        rw [here.eq_tree?, tree?_append (by simpa using h)]⟩
  | _ => .error .refused

/-- A step leads where its path leads. -/
theorem map_path_step (here : Place d) (name : String) :
    (here.step name).map path = d.advance here.path name := by
  obtain ⟨path, tree, htree⟩ := here
  have hview : d.node? path = tree.map Tree.node := by rw [node?, htree]
  simp only [step, advance, isFolder, hview]
  cases tree with
  | none => rfl
  | some t =>
    cases t with
    | file content => rfl
    | folder children =>
      by_cases hsize : maxNameSize < name.utf8ByteSize
      · simp [hsize, Nat.not_le.2 hsize, Except.map]
      · by_cases hstay : name = "" ∨ name = "."
        · simp [hsize, Nat.not_lt.1 hsize, hstay, Path.enter, Except.map, Tree.node]
        · by_cases hturn : name = ".." ∨ name = "/"
          · simp [hsize, Nat.not_lt.1 hsize, hstay, hturn, ofPath, Except.map, Tree.node]
          · obtain ⟨hback, hroot⟩ := not_or.1 hturn
            simp [hsize, Nat.not_lt.1 hsize, hstay, hback, hroot, Path.enter, Except.map, Tree.node]

end Place

/-- The place to which names lead. There need not be a node. -/
def walk {d : Disk} (here : Place d) : List String → Except Refusal (Place d)
  | [] => .ok here
  | name :: rest =>
    match here.step name with
    | .ok next => walk next rest
    | .error why => .error why

/-- Names lead where their paths lead. -/
theorem map_path_walk {d : Disk} (here : Place d) (names : List String) :
    (walk here names).map Place.path = names.foldlM d.advance here.path := by
  induction names generalizing here with
  | nil => rfl
  | cons name rest ih =>
    rw [List.foldlM_cons, ← here.map_path_step, walk]
    cases here.step name with
    | error why => rfl
    | ok next => exact ih next

/-- The place to which a route leads. -/
def follow (d : Disk) (route : Route) : Except Refusal (Place d) :=
  match route.refusal? with
  | some why => .error why
  | none => walk (.ofPath d route.start) route.names

/-- The path to which a route leads. -/
def locate (d : Disk) (route : Route) : Except Refusal Path := (d.follow route).map Place.path

/-- The node to which a route leads. -/
def find? (d : Disk) (route : Route) : Option Node :=
  (d.follow route).toOption.bind fun place => place.tree?.map Tree.node

theorem find?_eq (d : Disk) (route : Route) :
    d.find? route = (d.locate route).toOption.bind d.node? := by
  unfold find? locate
  cases d.follow route with
  | error why => rfl
  | ok place =>
    show place.tree?.map Tree.node = d.node? place.path
    rw [node?, place.eq_tree?]

/-! ### Changes -/

/-- The disk on which a file has new contents. Its folder has to be there. -/
def write (d : Disk) (path : Path) (content : Bytes) : Except Refusal Disk :=
  if d.isFolder path.dropLast ∧ ¬ d.isFolder path then .ok (d.put path (.file content))
  else .error .refused

/-- The disk on which a file has moved, over another file if there is one. -/
def rename (d : Disk) (source target : Path) : Except Refusal Disk :=
  match d.node? source with
  | some (.file content) =>
    if d.isFolder target.dropLast ∧ ¬ d.isFolder target then
      .ok ((d.drop source).put target (.file content))
    else .error .refused
  | _ => .error .refused

/-- The disk without a file. -/
def remove (d : Disk) (path : Path) : Except Refusal Disk :=
  match d.node? path with
  | some (.file _) => .ok (d.drop path)
  | _ => .error .refused

/-- The disk with a folder where nothing was. -/
def makeFolder (d : Disk) (path : Path) : Except Refusal Disk :=
  if d.isFolder path.dropLast ∧ d.node? path = none then .ok (d.put path .folder)
  else .error .refused

end Disk

/-- A step that changes a disk. -/
inductive Action where
  | write (path : Path) (content : Bytes)
  | rename (source target : Path)
  | remove (path : Path)
  | makeFolder (path : Path)
  deriving DecidableEq, Repr

/-- The disk after a step, unless it is refused; a refused step changes nothing. -/
def Action.apply (d : Disk) : Action → Except Refusal Disk
  | write path content => d.write path content
  | rename source target => d.rename source target
  | remove path => d.remove path
  | makeFolder path => d.makeFolder path

/-- A disk with the steps that have changed it, latest first. -/
structure Drive where
  disk : Disk
  log : List Action

namespace Drive

/-- The drive that starts with a disk. -/
def ofDisk (disk : Disk) : Drive := ⟨disk, []⟩

/-- Performs one step. -/
def perform (drive : Drive) (action : Action) : Except Refusal Unit × Drive :=
  match action.apply drive.disk with
  | .ok disk => (.ok (), ⟨disk, action :: drive.log⟩)
  | .error why => (.error why, drive)

/-- Performs the step that `action` makes of the path to which a route leads. -/
def performAt (drive : Drive) (route : Route) (action : Path → Action) :
    Except Refusal Unit × Drive :=
  match drive.disk.locate route with
  | .error why => (.error why, drive)
  | .ok path => drive.perform (action path)

/-- Gives a file new contents. -/
def write (drive : Drive) (route : Route) (content : Bytes) : Except Refusal Unit × Drive :=
  drive.performAt route (.write · content)

/-- Moves a file, over another file if there is one. -/
def rename (drive : Drive) (source target : Route) : Except Refusal Unit × Drive :=
  match drive.disk.locate source with
  | .error why => (.error why, drive)
  | .ok path => drive.performAt target (.rename path)

/-- Removes a file. -/
def remove (drive : Drive) (route : Route) : Except Refusal Unit × Drive :=
  drive.performAt route .remove

/-- Replaces the contents of a file at once: they are written to a temporary file, which then takes
the place of the file. -/
def replace (drive : Drive) (temporary target : Route) (content : Bytes) :
    Except StoreFault Unit × Drive :=
  match drive.write temporary content with
  | (.error why, drive) => (.error (.access (.write why)), drive)
  | (.ok (), drive) =>
    match drive.rename temporary target with
    | (.error why, drive) => (.error (.access (.rename why)), drive)
    | (.ok (), drive) => (.ok (), drive)

/-- Goes along names and makes each folder that is not there; answers where they lead. -/
def makeAlong (drive : Drive) (here : Path) : List String → Except Refusal Path × Drive
  | [] => (.ok here, drive)
  | name :: rest =>
    match drive.disk.advance here name with
    | .error why => (.error why, drive)
    | .ok next =>
      if drive.disk.isFolder next then drive.makeAlong next rest
      else
        match drive.perform (.makeFolder next) with
        | (.error why, drive) => (.error why, drive)
        | (.ok (), drive) => drive.makeAlong next rest

/-- Makes the folder to which a route leads and those on the way, as far as they are not there. A
route that ends in `.` only leads to a folder that is there already, so for such a route all but the
last folder is made. The empty route asks for nothing. -/
def makeFolders (drive : Drive) (route : Route) : Except Refusal Unit × Drive :=
  if route.size = 0 then (.ok (), drive)
  else
    match route.refusal? with
    | some why => (.error why, drive)
    | none =>
      let made := if route.endsInDot then route.strides.dropLast else route.strides
      match drive.makeAlong route.start made with
      | (.error why, drive) => (.error why, drive)
      | (.ok _, drive) =>
        if drive.disk.find? route = some .folder then (.ok (), drive) else (.error .refused, drive)

end Drive

end KeyCustody
