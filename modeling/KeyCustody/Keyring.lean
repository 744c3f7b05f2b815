import KeyCustody.KeyRef
import KeyCustody.Table
import KeyCustody.Text.Quoted

/-!
# The keyring

The keyring holds one entry for each key that some application has asked for. An entry waits for
the reply to its latest command, holds the material of its key, or records that the key was deleted
or could not be had. Replies to earlier commands find `isPendingOn` false and change nothing.
-/

namespace KeyCustody

/-- The state of an entry. -/
inductive KeyStatus where
  | pending
  | ready
  | deleted
  | failed
  deriving DecidableEq, Repr

namespace KeyStatus

/-- The name of a status in records. -/
def name : KeyStatus → String
  | pending => "Pending"
  | ready => "Ready"
  | deleted => "Deleted"
  | failed => "Failed"

/-- The status of a name. -/
def ofName? (s : String) : Option KeyStatus :=
  [pending, ready, deleted, failed].find? (·.name = s)

end KeyStatus

/-- An entry: its key, the material if there is any, its state and the number of the latest command
issued for it. -/
structure Entry where
  key : KeyRef
  material : Option Bytes
  status : KeyStatus
  lastSequence : Nat
  deriving DecidableEq

/-- The description of an entry in diagnostics, which never shows the material. -/
def Entry.describe (e : Entry) : String :=
  "TaKeyEntry \x7b ta_identity: " ++ e.key.owner.text ++
    ", key_id: " ++ Text.quoted e.key.id ++
    ", status: " ++ e.status.name ++
    ", last_sequence: " ++ toString e.lastSequence ++
    ", has_material: " ++ toString e.material.isSome ++ " \x7d"

/-- The entries, each filed under the text of its key. -/
structure Keyring where
  entries : Table String Entry
  deriving DecidableEq

namespace Keyring

/-- The keyring without entries. -/
def empty : Keyring := ⟨Table.empty⟩

/-- The entry of a key. -/
def get? (k : Keyring) (key : KeyRef) : Option Entry := k.entries.get? key.slot

/-- The entries in the order of the texts of their keys. -/
def toList (k : Keyring) : List Entry := k.entries.values

/-- The number of entries. -/
def size (k : Keyring) : Nat := k.entries.size

/-- The number of entries in a state. -/
def count (k : Keyring) (status : KeyStatus) : Nat := k.toList.countP (·.status = status)

/-- The identifiers of the keys of an application, in order. -/
def idsOf (k : Keyring) (owner : Uuid) : List String :=
  (k.toList.filter (·.key.owner = owner)).map (·.key.id)

/-- The keyring with an entry filed under a key. -/
def file (k : Keyring) (key : KeyRef) (entry : Entry) : Keyring :=
  ⟨k.entries.insert key.slot entry⟩

/-- The keyring without the entry of a key. -/
def remove (k : Keyring) (key : KeyRef) : Keyring := ⟨k.entries.erase key.slot⟩

/-- The keyring in which a key, filed now if need be, has no material, a new state and a new latest
command. -/
def reset (k : Keyring) (key : KeyRef) (status : KeyStatus) (sequence : Nat) : Keyring :=
  let filed := ((k.get? key).map (·.key)).getD key
  k.file key ⟨filed, none, status, sequence⟩

/-- The keyring in which a key waits for the reply to a command. -/
def markPending (k : Keyring) (key : KeyRef) (sequence : Nat) : Keyring :=
  k.reset key .pending sequence

/-- The keyring in which a key is deleted and its material gone. -/
def markDeleted (k : Keyring) (key : KeyRef) (sequence : Nat) : Keyring :=
  k.reset key .deleted sequence

/-- Whether an entry waits for the reply to a command. -/
def isPendingOn (k : Keyring) (key : KeyRef) (sequence : Nat) : Bool :=
  match k.get? key with
  | some entry => entry.status = .pending ∧ entry.lastSequence = sequence
  | none => false

/-- The keyring in which the entry of a key is changed, provided it waits for the reply to a
command. -/
def settle (k : Keyring) (key : KeyRef) (sequence : Nat) (change : Entry → Entry) : Keyring :=
  match k.get? key with
  | some entry =>
    if entry.status = .pending ∧ entry.lastSequence = sequence then k.file key (change entry)
    else k
  | none => k

/-- The keyring after a reply with key material. -/
def markReady (k : Keyring) (key : KeyRef) (sequence : Nat) (material : Bytes) : Keyring :=
  k.settle key sequence fun entry => { entry with material := some material, status := .ready }

/-- The keyring after a reply without success. -/
def markFailed (k : Keyring) (key : KeyRef) (sequence : Nat) : Keyring :=
  k.settle key sequence fun entry => { entry with status := .failed }

/-- The keyring in which a waiting entry waits for another command instead. -/
def repoint (k : Keyring) (key : KeyRef) (sequence other : Nat) : Keyring :=
  k.settle key sequence fun entry => { entry with lastSequence := other }

end Keyring

end KeyCustody
