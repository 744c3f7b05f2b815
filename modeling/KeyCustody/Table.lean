/-!
# Finite tables in key order

A `Table κ α` assigns values to finitely many keys and lists its entries in increasing order of the
keys, each key once. The view of a table is `get?`: `get?_insert` and `get?_erase` say what the
operations do to it, and `ext_get?` that a table is determined by it, so that two histories that
leave the same assignments leave the same table.
-/

namespace KeyCustody

/-- A finite assignment of values to keys, listed in increasing order of the keys. -/
structure Table (κ α : Type) [Ord κ] where
  entries : List (κ × α)
  ordered : entries.Pairwise fun x y => compare x.1 y.1 = .lt

namespace Table

variable {κ α : Type} [Ord κ]

instance [DecidableEq κ] [DecidableEq α] : DecidableEq (Table κ α) := fun s t =>
  decidable_of_iff (s.entries = t.entries)
    ⟨fun h => by cases s; cases t; simp_all, fun h => by rw [h]⟩

/-- The entries with `key` assigned to `value`. -/
def put (key : κ) (value : α) : List (κ × α) → List (κ × α)
  | [] => [(key, value)]
  | entry :: rest =>
    match compare key entry.1 with
    | .lt => (key, value) :: entry :: rest
    | .eq => (key, value) :: rest
    | .gt => entry :: put key value rest

/-- The value at a key in a list of entries. -/
def find? (key : κ) : List (κ × α) → Option α
  | [] => none
  | entry :: rest => if compare key entry.1 = .eq then some entry.2 else find? key rest

theorem mem_put {key : κ} {value : α} {entries : List (κ × α)} {x : κ × α}
    (h : x ∈ put key value entries) : x = (key, value) ∨ x ∈ entries := by
  fun_induction put key value entries with
  | case1 => simpa using h
  | case2 => simp_all
  | case3 => exact (List.mem_cons.1 h).imp_right (List.mem_cons_of_mem _)
  | case4 entry rest _ ih => grind

theorem find?_eq_none {key : κ} {entries : List (κ × α)}
    (h : ∀ x ∈ entries, compare key x.1 ≠ .eq) : find? key entries = none := by
  induction entries with
  | nil => rfl
  | cons entry rest ih => grind [find?]

/-- The first key of an ordered list is not found among larger keys. -/
private theorem find?_eq_none_of_lt {key : κ} {entries : List (κ × α)}
    (h : ∀ x ∈ entries, compare key x.1 = .lt) : find? key entries = none :=
  find?_eq_none fun x hx => by rw [h x hx]; decide

/-! ### Reading -/

/-- The table without entries. -/
def empty : Table κ α := ⟨[], .nil⟩

instance : Inhabited (Table κ α) := ⟨empty⟩

/-- The value at a key. -/
def get? (t : Table κ α) (key : κ) : Option α := find? key t.entries

/-- Whether a key has a value. -/
def contains (t : Table κ α) (key : κ) : Bool := (t.get? key).isSome

/-- The number of keys that have a value. -/
def size (t : Table κ α) : Nat := t.entries.length

/-- The keys in increasing order. -/
def keys (t : Table κ α) : List κ := t.entries.map (·.1)

/-- The values in the order of their keys. -/
def values (t : Table κ α) : List α := t.entries.map (·.2)

/-- The table without `key`. -/
def erase (t : Table κ α) (key : κ) : Table κ α :=
  ⟨t.entries.filter fun entry => compare key entry.1 ≠ .eq, t.ordered.filter _⟩

theorem get?_empty (key : κ) : (empty : Table κ α).get? key = none := rfl

/-! ### Writing -/

variable [Std.TransOrd κ] [Std.LawfulEqOrd κ]

theorem pairwise_put {key : κ} {value : α} {entries : List (κ × α)}
    (h : entries.Pairwise fun x y => compare x.1 y.1 = .lt) :
    (put key value entries).Pairwise fun x y => compare x.1 y.1 = .lt := by
  fun_induction put key value entries with
  | case1 => simp
  | case2 entry rest hlt =>
    refine List.pairwise_cons.2 ⟨fun x hx => ?_, h⟩
    rcases List.mem_cons.1 hx with rfl | hx
    · exact hlt
    · exact Std.TransCmp.lt_trans hlt ((List.pairwise_cons.1 h).1 x hx)
  | case3 entry rest heq =>
    have hkey := Std.LawfulEqCmp.eq_of_compare heq
    subst hkey
    exact List.pairwise_cons.2 (List.pairwise_cons.1 h)
  | case4 entry rest hgt ih =>
    obtain ⟨hfirst, hrest⟩ := List.pairwise_cons.1 h
    refine List.pairwise_cons.2 ⟨fun x hx => ?_, ih hrest⟩
    rcases mem_put hx with rfl | hx
    · exact Std.OrientedCmp.gt_iff_lt.1 hgt
    · exact hfirst x hx

/-- The table with `key` assigned to `value`. -/
def insert (t : Table κ α) (key : κ) (value : α) : Table κ α :=
  ⟨put key value t.entries, pairwise_put t.ordered⟩

/-- The table of a list of assignments, of which a later one overrides an earlier one. -/
def ofList (entries : List (κ × α)) : Table κ α :=
  entries.foldl (fun t entry => t.insert entry.1 entry.2) empty

/-! ### The view -/

theorem find?_put (key other : κ) (value : α) (entries : List (κ × α)) :
    find? other (put key value entries) =
      if compare other key = .eq then some value else find? other entries := by
  fun_induction put key value entries with
  | case1 => simp [find?]
  | case2 entry rest hlt => simp [find?]
  | case3 entry rest heq =>
    have hkey := Std.LawfulEqCmp.eq_of_compare heq
    subst hkey
    by_cases h : compare other entry.1 = .eq <;> simp [find?, h]
  | case4 entry rest hgt ih =>
    by_cases h : compare other entry.1 = .eq
    · have hkey := Std.LawfulEqCmp.eq_of_compare h
      subst hkey
      have : compare entry.1 key ≠ .eq := by
        rw [Std.OrientedCmp.gt_iff_lt.1 hgt]; decide
      simp [find?, this]
    · simp [find?, h, ih]

theorem get?_insert [DecidableEq κ] (t : Table κ α) (key other : κ) (value : α) :
    (t.insert key value).get? other = if other = key then some value else t.get? other := by
  simp [get?, insert, find?_put, Std.LawfulEqCmp.compare_eq_iff_eq]

omit [Std.TransOrd κ] in
theorem find?_filter [DecidableEq κ] (key other : κ) (entries : List (κ × α)) :
    find? other (entries.filter fun entry => compare key entry.1 ≠ .eq) =
      if other = key then none else find? other entries := by
  induction entries with
  | nil => simp [find?]
  | cons entry rest ih =>
    by_cases hkey : key = entry.1
    · subst hkey
      by_cases h : other = entry.1
      · simp_all
      · simp_all [find?, Std.LawfulEqCmp.compare_eq_iff_eq]
    · by_cases h : other = entry.1
      · have hne : other ≠ key := fun h' => hkey (h' ▸ h)
        simp_all [find?, Std.LawfulEqCmp.compare_eq_iff_eq]
      · simp_all [find?, Std.LawfulEqCmp.compare_eq_iff_eq]

omit [Std.TransOrd κ] in
theorem get?_erase [DecidableEq κ] (t : Table κ α) (key other : κ) :
    (t.erase key).get? other = if other = key then none else t.get? other :=
  find?_filter key other t.entries

/-- A table is determined by its view. -/
theorem ext_get? {s t : Table κ α} (h : ∀ key, s.get? key = t.get? key) : s = t := by
  obtain ⟨xs, hxs⟩ := s
  obtain ⟨ys, hys⟩ := t
  simp only [get?] at h
  suffices xs = ys by subst this; rfl
  induction xs generalizing ys with
  | nil =>
    cases ys with
    | nil => rfl
    | cons y ys => have := h y.1; simp [find?] at this
  | cons x xs ih =>
    obtain ⟨hx, hxs⟩ := List.pairwise_cons.1 hxs
    cases ys with
    | nil => have := h x.1; simp [find?] at this
    | cons y ys =>
      obtain ⟨hy, hrest⟩ := List.pairwise_cons.1 hys
      have hkey : compare x.1 y.1 = .eq := by
        cases hc : compare x.1 y.1 with
        | eq => rfl
        | lt =>
          have hnone : find? x.1 (y :: ys) = none := find?_eq_none_of_lt fun z hz => by
            rcases List.mem_cons.1 hz with rfl | hz
            · exact hc
            · exact Std.TransCmp.lt_trans hc (hy z hz)
          have := h x.1
          rw [hnone] at this
          simp [find?] at this
        | gt =>
          have hc := Std.OrientedCmp.gt_iff_lt.1 hc
          have hnone : find? y.1 (x :: xs) = none := find?_eq_none_of_lt fun z hz => by
            rcases List.mem_cons.1 hz with rfl | hz
            · exact hc
            · exact Std.TransCmp.lt_trans hc (hx z hz)
          have := h y.1
          rw [hnone] at this
          simp [find?] at this
      have hkey := Std.LawfulEqCmp.eq_of_compare hkey
      have hvalue : x.2 = y.2 := by
        have := h x.1
        rw [← hkey] at hy
        simpa [find?, hkey] using this
      have hhead : x = y := Prod.ext hkey hvalue
      subst hhead
      congr 1
      refine ih hxs ys hrest fun key => ?_
      by_cases hk : key = x.1
      · subst hk
        rw [find?_eq_none_of_lt hx, find?_eq_none_of_lt hy]
      · have := h key
        simpa [find?, Std.LawfulEqCmp.compare_eq_iff_eq, hk] using this

end Table

end KeyCustody
