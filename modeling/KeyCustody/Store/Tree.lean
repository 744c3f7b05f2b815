import KeyCustody.Store.Route
import KeyCustody.Table

/-!
# Trees of folders and files

A folder holds trees under names. `Tree.node? t path` is the view of a tree: whether there is a
folder, a file with its contents, or nothing at a path. A file or an empty folder that is put at a
path is there (`node?_put_self`), there are folders on the way to it (`node?_put_append`), and all
else is as it was (`node?_put_of_not_prefix`). One that is dropped leaves nothing at its path and
all else as it was (`node?_drop`).
-/

namespace KeyCustody

/-- A folder, or a file with its contents. -/
inductive Node where
  | folder
  | file (content : Bytes)
  deriving DecidableEq, Repr

/-- The contents of a node that is a file. -/
def Node.content? : Node → Except Refusal Bytes
  | folder => .error .refused
  | file content => .ok content

/-- The contents of a node that is a file of UTF-8 text. -/
def Node.text? : Node → Except Refusal Bytes
  | folder => .error .refused
  | file content => if (Bytes.text? content).isSome then .ok content else .error .notText

/-- A folder with what is in it, by name, or a file with its contents. -/
inductive Tree where
  | folder (children : List (String × Tree))
  | file (content : Bytes)

namespace Tree

/-- The folder with nothing in it. -/
def empty : Tree := folder []

/-- A node as a tree of its own. -/
def ofNode : Node → Tree
  | .folder => empty
  | .file content => file content

/-- What a tree is without regard to what is in it. -/
def node : Tree → Node
  | folder _ => .folder
  | file content => .file content

/-- What is in a folder, by name. -/
def children : Tree → List (String × Tree)
  | folder children => children
  | file _ => []

/-- What a folder holds under a name. -/
def child? (t : Tree) (name : String) : Option Tree := Table.find? name t.children

/-- What is at a path below a tree. -/
def at? (t : Tree) : Path → Option Tree
  | [] => some t
  | name :: rest =>
    match t.child? name with
    | some child => child.at? rest
    | none => none

/-- The node at a path below a tree. -/
def node? (t : Tree) (path : Path) : Option Node := (t.at? path).map node

/-- The folder that holds a tree under a name. -/
def withChild (t : Tree) (name : String) (child : Tree) : Tree :=
  folder (Table.put name child t.children)

/-- The tree that holds nothing under a name. -/
def withoutChild (t : Tree) (name : String) : Tree :=
  match t with
  | folder children => folder (children.filter fun entry => compare name entry.1 ≠ .eq)
  | file content => file content

/-- The tree with another one at a path, and folders on the way to it. -/
def put (t other : Tree) : Path → Tree
  | [] => other
  | name :: rest => t.withChild name (((t.child? name).getD empty).put other rest)

/-- The tree with nothing at a path below it. -/
def drop (t : Tree) : Path → Tree
  | [] => t
  | [name] => t.withoutChild name
  | name :: next :: rest =>
    match t.child? name with
    | some child => t.withChild name (child.drop (next :: rest))
    | none => t

/-! ### The view -/

theorem child?_withChild (t child : Tree) (name other : String) :
    (t.withChild name child).child? other =
      if other = name then some child else t.child? other := by
  simp [child?, withChild, children, Table.find?_put, Std.LawfulEqCmp.compare_eq_iff_eq]

theorem child?_withoutChild (t : Tree) (name other : String) :
    (t.withoutChild name).child? other = if other = name then none else t.child? other := by
  cases t with
  | folder children => exact Table.find?_filter name other children
  | file content => simp [child?, withoutChild, children, Table.find?]

theorem node_withoutChild (t : Tree) (name : String) : (t.withoutChild name).node = t.node := by
  cases t <;> rfl

@[simp]
theorem at?_nil (t : Tree) : t.at? [] = some t := rfl

theorem at?_append (t : Tree) (path rest : Path) :
    t.at? (path ++ rest) = (t.at? path).bind (·.at? rest) := by
  induction path generalizing t with
  | nil => rfl
  | cons name path ih =>
    simp only [List.cons_append, at?]
    cases t.child? name with
    | none => rfl
    | some child => exact ih child

@[simp]
theorem node_ofNode (n : Node) : (ofNode n).node = n := by cases n <;> rfl

@[simp]
theorem children_ofNode (n : Node) : (ofNode n).children = [] := by cases n <;> rfl

/-- Nothing is below a tree without children. -/
theorem node?_of_children_eq_nil {t : Tree} (h : t.children = []) (path : Path) :
    t.node? path = if path = [] then some t.node else none := by
  cases path with
  | nil => rfl
  | cons name rest => simp [node?, at?, child?, h, Table.find?]

theorem node?_cons (t : Tree) (name : String) (rest : Path) :
    t.node? (name :: rest) = (t.child? name).bind (·.node? rest) := by
  simp only [node?, at?]
  cases t.child? name <;> rfl

/-- A tree that is no folder has no children. -/
theorem children_eq_nil {t : Tree} (h : t.node ≠ .folder) : t.children = [] := by
  cases t with
  | folder children => exact absurd rfl h
  | file content => rfl

theorem node_eq_folder_of_child? {t child : Tree} {name : String} (h : t.child? name = some child) :
    t.node = .folder := by
  cases t with
  | folder children => rfl
  | file content => exact absurd h (by simp [child?, children, Table.find?])

/-- On the way to something there are folders. -/
theorem node?_of_at?_append {t u : Tree} {path rest : Path} (hrest : rest ≠ [])
    (h : t.at? (path ++ rest) = some u) : t.node? path = some .folder := by
  rw [at?_append] at h
  obtain ⟨v, hv, h⟩ := Option.bind_eq_some_iff.1 h
  cases rest with
  | nil => exact absurd rfl hrest
  | cons name rest =>
    rw [at?] at h
    cases hchild : v.child? name with
    | none => simp [hchild] at h
    | some child => simp [node?, hv, node_eq_folder_of_child? hchild]

theorem node?_put_self (t other : Tree) (path : Path) :
    (t.put other path).node? path = some other.node := by
  induction path generalizing t with
  | nil => rfl
  | cons name rest ih => simp [put, node?_cons, child?_withChild, ih]

theorem node?_put_append (t other : Tree) (path : Path) {rest : Path} (hrest : rest ≠ []) :
    (t.put other (path ++ rest)).node? path = some .folder := by
  induction path generalizing t with
  | nil =>
    cases rest with
    | nil => exact absurd rfl hrest
    | cons name rest => rfl
  | cons name path ih => simp [put, node?_cons, child?_withChild, ih]

private theorem node?_put_empty {other : Tree} (hother : other.children = []) {path q : Path}
    (hq : ¬ q <+: path) : (empty.put other path).node? q = none := by
  induction path generalizing q with
  | nil => simpa [put, node?_of_children_eq_nil hother] using hq
  | cons name rest ih =>
    cases q with
    | nil => exact absurd List.nil_prefix hq
    | cons first q =>
      have hchild (name : String) : empty.child? name = none := rfl
      rw [put, node?_cons, child?_withChild, hchild, hchild]
      by_cases hfirst : first = name
      · subst hfirst
        simpa using ih fun h => hq (List.cons_prefix_cons.2 ⟨rfl, h⟩)
      · simp [hfirst]

theorem node?_put_of_not_prefix {t other : Tree} {path q : Path}
    (hold : t.node? path ≠ some .folder) (hother : other.children = []) (hq : ¬ q <+: path) :
    (t.put other path).node? q = t.node? q := by
  induction path generalizing t q with
  | nil =>
    have hfile : t.children = [] := children_eq_nil fun h => hold (congrArg some h)
    rw [put, node?_of_children_eq_nil hother, node?_of_children_eq_nil hfile]
    have : q ≠ [] := fun h => hq (h ▸ List.nil_prefix)
    simp [this]
  | cons name rest ih =>
    cases q with
    | nil => exact absurd List.nil_prefix hq
    | cons first q =>
      rw [put, node?_cons, node?_cons, child?_withChild]
      by_cases hfirst : first = name
      · subst hfirst
        have hq : ¬ q <+: rest := fun h => hq (List.cons_prefix_cons.2 ⟨rfl, h⟩)
        cases hchild : t.child? first with
        | none => simp [node?_put_empty hother hq]
        | some child =>
          rw [node?_cons, hchild] at hold
          simpa using ih hold hq
      · simp [hfirst]

/-- A file or an empty folder that is dropped leaves nothing at its path and all else as it was. -/
theorem node?_drop {t : Tree} {path : Path} (hpath : path ≠ [])
    (hold : ∀ old, t.at? path = some old → old.children = []) (q : Path) :
    (t.drop path).node? q = if q = path then none else t.node? q := by
  induction path generalizing t q with
  | nil => exact absurd rfl hpath
  | cons name rest ih =>
    cases rest with
    | nil =>
      rw [drop]
      cases q with
      | nil => simp [node?, node_withoutChild]
      | cons first q =>
        rw [node?_cons, node?_cons, child?_withoutChild]
        by_cases hfirst : first = name
        · subst hfirst
          cases hchild : t.child? first with
          | none => simp
          | some child =>
            have hchildren := hold child (by rw [at?, hchild]; rfl)
            by_cases hq : q = []
            · simp [hq]
            · simp [hq, node?_of_children_eq_nil hchildren]
        · simp [hfirst]
    | cons next rest =>
      rw [drop]
      cases hchild : t.child? name with
      | none =>
        by_cases hq : q = name :: next :: rest
        · simp [hq, node?_cons, hchild]
        · simp [hq]
      | some child =>
        have hroot := node_eq_folder_of_child? hchild
        cases q with
        | nil => simpa [withChild, node?, node] using hroot.symm
        | cons first q =>
          rw [node?_cons, node?_cons, child?_withChild]
          by_cases hfirst : first = name
          · subst hfirst
            have hold' : ∀ old, child.at? (next :: rest) = some old → old.children = [] :=
              fun old h => hold old (by rw [at?, hchild]; exact h)
            simpa [hchild] using ih (List.cons_ne_nil _ _) hold' q
          · simp [hfirst]

end Tree

end KeyCustody
