import KeyCustody.Settings
import KeyCustody.Store.Disk

/-!
# Settings files

Settings are read from a file, or are the standard ones where the file is not there.
-/

namespace KeyCustody.Settings

/-- The settings that a file writes. -/
def load (disk : Disk) (path : String) : Except SettingsFault Settings :=
  match disk.find? (Route.ofText path) with
  | none => .error (.unreadable path .refused)
  | some node =>
    match node.text? with
    | .error why => .error (.unreadable path why)
    | .ok text => decode text

/-- The settings that a file writes, or the standard ones where there is nothing at its path. -/
def loadOrStandard (disk : Disk) (path : String) : Except SettingsFault Settings :=
  if (disk.find? (Route.ofText path)).isSome then load disk path else .ok standard

end KeyCustody.Settings
