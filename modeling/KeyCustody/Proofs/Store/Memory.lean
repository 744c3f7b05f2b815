import KeyCustody.Store.Memory
import Mathlib.Data.List.Induction
import Mathlib.Tactic.Common

/-!
# What the store in memory does

A commit fails exactly if it is made to, and then without effect on the records; otherwise it writes
all of them. `get?_written` and `get?_erase` say what a record holds afterwards.
-/

namespace KeyCustody.MemoryStore

/-- The store after a commit. -/
def written (m : MemoryStore) (writes : List (String × Bytes)) : MemoryStore :=
  { m with
    records := writes.foldl (fun t write => t.insert write.1 write.2) m.records
    commits := m.commits + 1 }

variable {m m' : MemoryStore} {writes : List (String × Bytes)}

theorem commit_of_not_failNext (h : m.failNext = false) (writes : List (String × Bytes)) :
    Store.commit m writes = (.ok (), m.written writes) :=
  if_neg (Bool.eq_false_iff.mp h)

theorem commit_of_failNext (h : m.failNext = true) (writes : List (String × Bytes)) :
    Store.commit m writes = (.error (.access .injected), { m with failNext := false }) :=
  if_pos h

theorem commit_eq_ok (h : Store.commit m writes = (.ok (), m')) :
    m.failNext = false ∧ m' = m.written writes := by
  change m.commit writes = _ at h
  rw [commit] at h
  split_ifs at h with hfail
  · cases (Prod.mk.inj h).1
  · exact ⟨by simpa using hfail, (Prod.mk.inj h).2.symm⟩

theorem commit_eq_error {fault : StoreFault} (h : Store.commit m writes = (.error fault, m')) :
    m.failNext = true ∧ m' = { m with failNext := false } := by
  change m.commit writes = _ at h
  rw [commit] at h
  split_ifs at h with hfail
  · exact ⟨hfail, (Prod.mk.inj h).2.symm⟩
  · cases (Prod.mk.inj h).1

/-- A record that is written last holds what was written. -/
theorem get?_written_concat (m : MemoryStore) (writes : List (String × Bytes)) (name other : String)
    (data : Bytes) :
    (m.written (writes ++ [(name, data)])).get? other =
      if other = name then some data else (m.written writes).get? other := by
  rw [get?, written, List.foldl_append]
  exact Table.get?_insert _ _ _ _

theorem get?_written_singleton (m : MemoryStore) (name other : String) (data : Bytes) :
    (m.written [(name, data)]).get? other = if other = name then some data else m.get? other :=
  get?_written_concat m [] name other data

/-- A record holds what was written last, or what it held before if nothing was. -/
theorem get?_written (m : MemoryStore) (writes : List (String × Bytes)) (name : String) :
    (m.written writes).get? name = (writes.reverse.lookup name).or (m.get? name) := by
  induction writes using List.reverseRecOn with
  | nil => rfl
  | append_singleton writes write ih =>
    rw [get?_written_concat, List.reverse_append, List.reverse_singleton, List.singleton_append,
      List.lookup_cons]
    split_ifs with hname
    · simp [hname]
    · rw [beq_eq_false_iff_ne.mpr hname]
      exact ih

/-- What is erased is gone, and all else stays. -/
theorem get?_erase (m : MemoryStore) (names : List String) (other : String) :
    (m.erase names).get? other = if other ∈ names then none else m.get? other := by
  induction names generalizing m with
  | nil => rfl
  | cons name rest ih =>
    have herase : m.erase (name :: rest) =
        ({ m with records := m.records.erase name } : MemoryStore).erase rest := rfl
    have hname : ({ m with records := m.records.erase name } : MemoryStore).get? other =
        if other = name then none else m.get? other := Table.get?_erase _ _ _
    rw [herase, ih, hname]
    by_cases hrest : other ∈ rest <;> by_cases hother : other = name <;> simp [hrest, hother]

/-- Erasing what is not there changes nothing. -/
theorem erase_of_absent {m : MemoryStore} {names : List String}
    (h : ∀ name ∈ names, m.get? name = none) : m.erase names = m := by
  have hrecords : (m.erase names).records = m.records := by
    refine Table.ext_get? fun name => ?_
    have herase := get?_erase m names name
    split_ifs at herase with hname
    · exact herase.trans (h name hname).symm
    · exact herase
  exact congrArg (fun records => { m with records := records }) hrecords

end KeyCustody.MemoryStore
