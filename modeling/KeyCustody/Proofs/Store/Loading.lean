import KeyCustody.Proofs.Bytes.Hex
import KeyCustody.Proofs.Store.Seal
import KeyCustody.Proofs.Store.SealedRecord
import KeyCustody.Store.Vault

/-!
# What records load as

What a record loads as depends on the sealing key and on what its file is (`Vault.load_congr`), and
a file that holds the page of a sealed record loads as what was sealed (`Vault.load_of_page`). After
a list of records has been written, the file of each name holds the last page of this name
(`SealedRecord.settled`), so the record loads as its last contents (`Vault.load_of_settled`).
-/

namespace KeyCustody

namespace SealedRecord

/-- The last record of a name in a list. -/
def latest? (records : List SealedRecord) (name : String) : Option SealedRecord :=
  records.reverse.find? (·.name = name)

/-- What the file of a name holds after records have been written, given what it held before. -/
def settled (records : List SealedRecord) (name : String) (before : Option Node) : Option Node :=
  match latest? records name with
  | some r => some (.file r.page)
  | none => before

variable {records : List SealedRecord} {name : String} {r : SealedRecord} {before : Option Node}

theorem latest?_concat (records : List SealedRecord) (r : SealedRecord) (name : String) :
    latest? (records ++ [r]) name = if r.name = name then some r else latest? records name := by
  rw [latest?, List.reverse_append, List.reverse_singleton, List.singleton_append, List.find?_cons,
    latest?]
  split_ifs with hname <;> simp [hname]

theorem latest?_eq_none : latest? records name = none ↔ ∀ r ∈ records, r.name ≠ name := by
  simp [latest?]

theorem of_latest?_eq_some (h : latest? records name = some r) : r ∈ records ∧ r.name = name := by
  refine ⟨List.mem_reverse.mp (List.mem_of_find?_eq_some h), ?_⟩
  simpa using List.find?_some h

theorem settled_concat (records : List SealedRecord) (r : SealedRecord) (name : String)
    (before : Option Node) : settled (records ++ [r]) name before =
      if name = r.name then some (.file r.page) else settled records name before := by
  rw [settled, settled, latest?_concat]
  by_cases hname : name = r.name
  · rw [if_pos hname, if_pos hname.symm]
  · rw [if_neg hname, if_neg (Ne.symm hname)]

/-- A file of a name that was not written is as before, and any other holds one of the pages. -/
theorem settled_cases (records : List SealedRecord) (name : String) (before : Option Node) :
    (settled records name before = before ∧ ∀ r ∈ records, r.name ≠ name) ∨
      ∃ r ∈ records, r.name = name ∧ settled records name before = some (.file r.page) := by
  rw [settled]
  rcases hlatest : latest? records name with _ | r
  · exact .inl ⟨rfl, latest?_eq_none.mp hlatest⟩
  · obtain ⟨hmem, hname⟩ := of_latest?_eq_some hlatest
    exact .inr ⟨r, hmem, hname, rfl⟩

end SealedRecord

namespace Vault

open SealedRecord

variable {v w : Vault} {name : String}

/-- A record loads as before if its file and the sealing key are as before. -/
theorem load_congr (hkey : w.key = v.key)
    (hfile : w.drive.disk.find? (recordRoute w.folder name) =
      v.drive.disk.find? (recordRoute v.folder name)) : w.load name = v.load name := by
  unfold load
  rw [hkey, hfile]

/-- The file of a sealed record loads as what was sealed. -/
theorem load_of_page {nonce : Nonce} {data : Bytes}
    (hfile : v.drive.disk.find? (recordRoute v.folder name) =
      some (.file (SealedRecord.page ⟨name, Hex.encode (Seal.close v.key nonce name data)⟩))) :
    v.load name = .ok (some data) := by
  let r : SealedRecord := ⟨name, Hex.encode (Seal.close v.key nonce name data)⟩
  have htext : (Node.file r.page).text? = .ok r.page := if_pos r.isText_page.isSome_text?
  have hreveal : Seal.reveal v.key name (Seal.close v.key nonce name data) = .ok data :=
    Seal.reveal_close ..
  unfold load
  rw [hfile]
  simp only [r] at htext
  simp only [htext, decode?_page, ne_eq, not_true_eq_false, if_false, Hex.decode_encode, hreveal]
  rfl

/-! ### Sealed records -/

theorem sealRecords_concat (key : Bytes) (nonces : Nat → Nonce) (drawn : Nat)
    (writes : List (String × Bytes)) (write : String × Bytes) :
    sealRecords key nonces drawn (writes ++ [write]) =
      sealRecords key nonces drawn writes ++ [⟨write.1,
        Hex.encode (Seal.close key (nonces (drawn + writes.length)) write.1 write.2)⟩] := by
  induction writes generalizing drawn with
  | nil => rfl
  | cons first rest ih =>
    have hdrawn : drawn + 1 + rest.length = drawn + (first :: rest).length := by
      rw [List.length_cons]
      omega
    rw [List.cons_append, sealRecords, ih, sealRecords, hdrawn, List.cons_append]

theorem map_name_sealRecords (key : Bytes) (nonces : Nat → Nonce) (drawn : Nat)
    (writes : List (String × Bytes)) :
    (sealRecords key nonces drawn writes).map SealedRecord.name = writes.map Prod.fst := by
  induction writes generalizing drawn with
  | nil => rfl
  | cons first rest ih => rw [sealRecords, List.map_cons, ih, List.map_cons]

/-- What is true of the names that are written is true of the names of the sealed records. -/
theorem forall_mem_sealRecords {p : String → Prop} {key : Bytes} {nonces : Nat → Nonce}
    {drawn : Nat} {writes : List (String × Bytes)} :
    (∀ r ∈ sealRecords key nonces drawn writes, p r.name) ↔ ∀ write ∈ writes, p write.1 := by
  have hnames := map_name_sealRecords key nonces drawn writes
  rw [← List.forall_mem_map, hnames, List.forall_mem_map]

/-- What a record is to load as after a list of writes: the last contents that are written, or what
it loaded as before. -/
def loadAfter (v : Vault) (writes : List (String × Bytes)) (name : String) :
    Except StoreFault (Option Bytes) :=
  match writes.reverse.lookup name with
  | some data => .ok (some data)
  | none => v.load name

theorem loadAfter_concat (v : Vault) (writes : List (String × Bytes)) (write : String × Bytes)
    (name : String) : v.loadAfter (writes ++ [write]) name =
      if name = write.1 then .ok (some write.2) else v.loadAfter writes name := by
  rw [loadAfter, List.reverse_append, List.reverse_singleton, List.singleton_append,
    List.lookup_cons, loadAfter]
  by_cases hname : name = write.1
  · simp [hname]
  · simp [hname, beq_eq_false_iff_ne.mpr hname]

/-- **What was written loads**: the record of a name loads as the last contents sealed for it. -/
theorem load_of_settled (hkey : w.key = v.key) {nonces : Nat → Nonce} {drawn : Nat}
    {writes : List (String × Bytes)} (hfile : w.drive.disk.find? (recordRoute w.folder name) =
      settled (sealRecords v.key nonces drawn writes) name
        (v.drive.disk.find? (recordRoute v.folder name))) :
    w.load name = v.loadAfter writes name := by
  induction writes using List.reverseRecOn with
  | nil => exact load_congr hkey hfile
  | append_singleton writes write ih =>
    rw [sealRecords_concat, settled_concat] at hfile
    rw [loadAfter_concat]
    split_ifs with hname
    · rw [if_pos hname, ← hkey, ← hname] at hfile
      exact load_of_page hfile
    · rw [if_neg hname] at hfile
      exact ih hfile

end Vault

end KeyCustody
