import KeyCustody.Store.Basic
import KeyCustody.Table

/-!
# The store in memory

Records are kept as they are. A commit can be made to fail, once and without effect, and the
commits that succeeded are counted.
-/

namespace KeyCustody

/-- The records, whether the next commit is to fail, and the number of commits so far. -/
structure MemoryStore where
  records : Table String Bytes
  failNext : Bool
  commits : Nat
  deriving DecidableEq

namespace MemoryStore

/-- The store without records. -/
def empty : MemoryStore := ⟨Table.empty, false, 0⟩

/-- The store whose next commit fails. -/
def failing (m : MemoryStore) : MemoryStore := { m with failNext := true }

/-- The contents of a record. -/
def get? (m : MemoryStore) (name : String) : Option Bytes := m.records.get? name

/-- Writes records, unless this commit is to fail. -/
def commit (m : MemoryStore) (writes : List (String × Bytes)) :
    Except StoreFault Unit × MemoryStore :=
  if m.failNext then (.error (.access .injected), { m with failNext := false })
  else
    (.ok (),
      { m with
        records := writes.foldl (fun t write => t.insert write.1 write.2) m.records
        commits := m.commits + 1 })

/-- Removes records. -/
def erase (m : MemoryStore) (names : List String) : MemoryStore :=
  { m with records := names.foldl (fun t name => t.erase name) m.records }

instance : Store MemoryStore where
  load m name := .ok (m.get? name)
  commit := commit
  erase m names := (.ok (), m.erase names)

end MemoryStore

end KeyCustody
