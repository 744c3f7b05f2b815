import KeyCustody.Store.Basic
import KeyCustody.Store.Disk
import KeyCustody.Store.Seal
import KeyCustody.Store.SealedRecord

/-!
# The sealed store

A `Vault` keeps each record in a sealed file of one folder of a disk. A commit first writes all of
its records to a journal; from the moment the journal has its name the commit counts, and whoever
mounts the vault next applies a journal that is still there before anything else. A commit that
fails half-way puts back the files that it has replaced, and drops the journal if that succeeded.
-/

namespace KeyCustody

/-- A folder of a drive with sealed records: the route to it, the sealing key, the nonces to come
and the number of those drawn. -/
structure Vault where
  drive : Drive
  folder : Route
  key : Bytes
  nonces : Nat → Nonce
  drawn : Nat

namespace Vault

/-! ### Names of files -/

/-- The name of the file of a record. -/
def fileName (name : String) : String := name ++ ".sealed"

/-- The name of the temporary file of a record: the name of its file with another extension. A file
name that only consists of an extension counts as having none, and one that without its extension
would be two dots does not get another. -/
def temporaryName (name : String) : String :=
  match (Route.ofText name).names.getLast? with
  | some "" => fileName name ++ ".tmp"
  | some "." => name ++ "."
  | _ => name ++ ".tmp"

/-- The route to the file of a record. -/
def recordRoute (folder : Route) (name : String) : Route :=
  folder.join (Route.ofText (fileName name))

/-- The route to the temporary file of a record. -/
def temporaryRoute (folder : Route) (name : String) : Route :=
  folder.join (Route.ofText (temporaryName name))

/-- The route to the journal. -/
def journalRoute (folder : Route) : Route := folder.join ⟨["journal.json"]⟩

/-- The route to the temporary file of the journal. -/
def journalTemporaryRoute (folder : Route) : Route := folder.join ⟨["journal.tmp"]⟩

/-! ### Files of records -/

/-- Writes the file of a record. -/
def writeRecord (drive : Drive) (folder : Route) (record : SealedRecord) :
    Except StoreFault Unit × Drive :=
  drive.replace (temporaryRoute folder record.name) (recordRoute folder record.name) record.page

/-- Writes the files of records one by one, up to the first failure. -/
def writeRecords (drive : Drive) (folder : Route) :
    List SealedRecord → Except StoreFault Unit × Drive
  | [] => (.ok (), drive)
  | record :: rest =>
    match writeRecord drive folder record with
    | (.ok (), drive) => writeRecords drive folder rest
    | (.error fault, drive) => (.error fault, drive)

/-- Removes the journal. -/
def removeJournal (drive : Drive) (folder : Route) : Except StoreFault Unit × Drive :=
  match drive.remove (journalRoute folder) with
  | (.ok (), drive) => (.ok (), drive)
  | (.error why, drive) => (.error (.access (.removeJournal why)), drive)

/-! ### Mounting -/

/-- Applies and removes a journal that is still there. One that cannot be read as a list of records
never counted, and is only removed. -/
def replay (drive : Drive) (folder : Route) : Except StoreFault Unit × Drive :=
  match drive.disk.find? (journalRoute folder) with
  | none => (.ok (), drive)
  | some node =>
    match node.text? with
    | .error why => (.error (.access (.readJournal why)), drive)
    | .ok text =>
      match SealedRecord.decodeList? text with
      | none => removeJournal drive folder
      | some records =>
        match writeRecords drive folder records with
        | (.error fault, drive) => (.error fault, drive)
        | (.ok (), drive) => removeJournal drive folder

/-- The vault in a folder of a drive, made if need be. -/
def mount (drive : Drive) (folder : Route) (secret : String) (nonces : Nat → Nonce) :
    Except StoreFault Vault × Drive :=
  match drive.makeFolders folder with
  | (.error why, drive) => (.error (.access (.createFolder why)), drive)
  | (.ok (), drive) =>
    match replay drive folder with
    | (.error fault, drive) => (.error fault, drive)
    | (.ok (), drive) => (.ok ⟨drive, folder, Seal.deviceKey secret, nonces, 0⟩, drive)

/-! ### Loading -/

/-- The contents of a record, if its file is there. -/
def load (v : Vault) (name : String) : Except StoreFault (Option Bytes) :=
  match v.drive.disk.find? (recordRoute v.folder name) with
  | none => .ok none
  | some node =>
    match node.text? with
    | .error why => .error (.access (.readRecord name why))
    | .ok text =>
      match SealedRecord.decode? text with
      | none => .error (.sealing (.unreadable name))
      | some record =>
        if record.name ≠ name then .error (.integrity (.misplaced record.name name))
        else match Hex.decode record.body with
          | .error why => .error (.sealing (.notHex name why))
          | .ok sealed => (Seal.reveal v.key name sealed).map some

/-! ### Committing -/

/-- The sealed forms of records, each under the next nonce. -/
def sealRecords (key : Bytes) (nonces : Nat → Nonce) (drawn : Nat) :
    List (String × Bytes) → List SealedRecord
  | [] => []
  | write :: rest =>
    ⟨write.1, Hex.encode (Seal.close key (nonces drawn) write.1 write.2)⟩ ::
      sealRecords key nonces (drawn + 1) rest

/-- What the file of a record holds, if it is there. -/
def existing (v : Vault) (record : SealedRecord) : Except StoreFault (Option Bytes) :=
  match v.drive.disk.find? (recordRoute v.folder record.name) with
  | none => .ok none
  | some node =>
    match node.content? with
    | .ok content => .ok (some content)
    | .error why =>
      .error (.access (.readFile (recordRoute v.folder record.name).text why))

/-- Puts back what the file of a record held before; answers whether that succeeded. -/
def restore (drive : Drive) (folder : Route) (name : String) (previous : Option Bytes) :
    Bool × Drive :=
  match previous with
  | some content =>
    match drive.replace (temporaryRoute folder name) (recordRoute folder name) content with
    | (.ok (), drive) => (true, drive)
    | (.error _, drive) => (false, drive)
  | none =>
    match drive.remove (recordRoute folder name) with
    | (.ok (), drive) => (true, drive)
    | (.error _, drive) => (false, drive)

/-- Puts back what the files of records held before; answers whether all of it succeeded. -/
def restoreAll (drive : Drive) (folder : Route) :
    List (SealedRecord × Option Bytes) → Bool × Drive
  | [] => (true, drive)
  | (record, previous) :: rest =>
    let (first, drive) := restore drive folder record.name previous
    let (others, drive) := restoreAll drive folder rest
    (first && others, drive)

/-- Puts back what a failed commit has replaced. The journal is dropped only if nothing is left of
the commit, so that otherwise the next mount completes it. -/
def rollBack (drive : Drive) (folder : Route) (done : List (SealedRecord × Option Bytes)) : Drive :=
  match restoreAll drive folder done with
  | (true, drive) => (drive.remove (journalRoute folder)).2
  | (false, drive) => drive

/-- Writes the files of the records of a commit; `done` are those already written, with what their
files held before. -/
def applyRecords (drive : Drive) (folder : Route) (done : List (SealedRecord × Option Bytes)) :
    List (SealedRecord × Option Bytes) → Except StoreFault Unit × Drive
  | [] => (.ok (), drive)
  | next :: rest =>
    match writeRecord drive folder next.1 with
    | (.ok (), drive) => applyRecords drive folder (done ++ [next]) rest
    | (.error fault, drive) => (.error fault, rollBack drive folder done)

/-- Writes sealed records through the journal. -/
def commitRecords (v : Vault) (records : List SealedRecord) : Except StoreFault Unit × Drive :=
  match records.mapM v.existing with
  | .error fault => (.error fault, v.drive)
  | .ok previous =>
    match v.drive.replace (journalTemporaryRoute v.folder) (journalRoute v.folder)
        (SealedRecord.encodeList records) with
    | (.error fault, drive) => (.error fault, drive)
    | (.ok (), drive) =>
      match applyRecords drive v.folder [] (records.zip previous) with
      | (.error fault, drive) => (.error fault, drive)
      | (.ok (), drive) => removeJournal drive v.folder

/-- Writes records. -/
def commit (v : Vault) (writes : List (String × Bytes)) : Except StoreFault Unit × Vault :=
  let records := sealRecords v.key v.nonces v.drawn writes
  let (result, drive) := v.commitRecords records
  (result, { v with drive := drive, drawn := v.drawn + records.length })

/-! ### Erasing -/

/-- Removes the files of records one by one, up to the first failure. -/
def eraseRecords (drive : Drive) (folder : Route) : List String → Except StoreFault Unit × Drive
  | [] => (.ok (), drive)
  | name :: rest =>
    match drive.disk.find? (recordRoute folder name) with
    | none => eraseRecords drive folder rest
    | some _ =>
      match drive.remove (recordRoute folder name) with
      | (.ok (), drive) => eraseRecords drive folder rest
      | (.error why, drive) => (.error (.access (.removeRecord name why)), drive)

/-- Removes records. -/
def erase (v : Vault) (names : List String) : Except StoreFault Unit × Vault :=
  let (result, drive) := eraseRecords v.drive v.folder names
  (result, { v with drive := drive })

instance : Store Vault where
  load := load
  commit := commit
  erase := erase

end Vault

end KeyCustody
