import KeyCustody.Table
import Mathlib.Tactic.Common

/-!
# Tables and the lists of their entries

A table is the table of its own entries (`Table.ofList_entries`), and a value is among the entries
exactly if some key has it (`Table.mem_values`).
-/

namespace KeyCustody.Table

variable {κ α : Type} [Ord κ]

/-- A larger key is not found among the entries of an ordered list after the first. -/
private theorem find?_rest_eq_none {entry : κ × α} {rest : List (κ × α)}
    (h : (entry :: rest).Pairwise fun x y => compare x.1 y.1 = .lt) :
    find? entry.1 rest = none := by
  refine find?_eq_none fun x hx => ?_
  rw [(List.pairwise_cons.mp h).1 x hx]
  decide

variable [Std.LawfulEqOrd κ]

/-- Of an ordered list of entries each is found. -/
theorem find?_eq_some_iff {key : κ} {value : α} {entries : List (κ × α)}
    (h : entries.Pairwise fun x y => compare x.1 y.1 = .lt) :
    find? key entries = some value ↔ (key, value) ∈ entries := by
  induction entries with
  | nil => simp [find?]
  | cons entry rest ih =>
    obtain ⟨k, v⟩ := entry
    rw [find?, List.mem_cons, Prod.mk.injEq]
    by_cases hkey : compare key k = .eq
    · -- the first entry has the key, so no other does
      have hkey := Std.LawfulEqCmp.eq_of_compare hkey
      subst hkey
      have hnone := find?_rest_eq_none h
      have hrest : (key, value) ∉ rest := fun hmem => by
        simp [(ih h.of_cons).mpr hmem] at hnone
      simp [hrest, eq_comm]
    · have hne : key ≠ k := fun hk => hkey (hk ▸ Std.ReflCmp.compare_self)
      simp [hkey, hne, ih h.of_cons]

theorem get?_eq_some_iff {t : Table κ α} {key : κ} {value : α} :
    t.get? key = some value ↔ (key, value) ∈ t.entries :=
  find?_eq_some_iff t.ordered

/-- The values are what the keys have. -/
theorem mem_values {t : Table κ α} {value : α} :
    value ∈ t.values ↔ ∃ key, t.get? key = some value := by
  simp [values, get?_eq_some_iff]

variable [Std.TransOrd κ] [DecidableEq κ]

/-- Assigning the entries of an ordered list one after the other leaves each of them. -/
private theorem get?_foldl_insert {entries : List (κ × α)} (t : Table κ α)
    (h : entries.Pairwise fun x y => compare x.1 y.1 = .lt) (key : κ) :
    (entries.foldl (fun t entry => t.insert entry.1 entry.2) t).get? key =
      (find? key entries).or (t.get? key) := by
  induction entries generalizing t with
  | nil => rfl
  | cons entry rest ih =>
    rw [List.foldl_cons, ih _ h.of_cons, get?_insert, find?]
    by_cases hkey : key = entry.1
    · subst hkey
      simp [find?_rest_eq_none h]
    · simp [hkey, Std.LawfulEqCmp.compare_eq_iff_eq]

/-- A table is the table of its entries. -/
theorem ofList_entries (t : Table κ α) : ofList t.entries = t := by
  refine ext_get? fun key => ?_
  rw [ofList, get?_foldl_insert empty t.ordered]
  exact Option.or_none

end KeyCustody.Table
