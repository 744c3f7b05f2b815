import KeyCustody.Console.Run
import KeyCustody.Console.Seed

/-!
# The program

The thin layer between the command line and the library. It puts the files that a run may look at on
a disk, lets `Console.run` decide, and then carries out the steps that the drive has logged. Serving
polls again and again, carrying out the steps of each poll before it waits for the next.
-/

namespace KeyCustody.Console

/-! ### Files -/

/-- What the file system holds at a path. -/
def nodeAt (path : Path) : IO (Option Node) := do
  let place := (← IO.currentDir) / path.text
  if ← place.isDir then return some .folder
  try return some (.file (← IO.FS.readBinFile place).data.toList)
  catch _ => return none

/-- The disk with what the file system holds one step along a name, and the path of that step. -/
def fetchStep (here : Path × Disk) (name : String) : IO (Path × Disk) := do
  let path := here.1.enter name
  if here.2.isFolder path then return (path, here.2)
  match ← nodeAt path with
  | some node => return (path, here.2.put path node)
  | none => return (path, here.2)

/-- The disk with all that the file system holds along a route. -/
def fetch (disk : Disk) (route : Route) : IO Disk :=
  return (← route.names.foldlM fetchStep (route.start, disk)).2

/-- The disk with a folder and the nodes in it. -/
def fetchFolder (disk : Disk) (route : Route) : IO Disk := do
  let disk ← fetch disk route
  match disk.locate route with
  | .ok path =>
    if disk.isFolder path then
      let entries ← ((← IO.currentDir) / path.text).readDir
      entries.foldlM (fun disk entry => return (← fetchStep (path, disk) entry.fileName).2) disk
    else return disk
  | .error _ => return disk

/-- Carries out a step on the file system. -/
def carryOut : Action → IO Unit
  | .write path content => IO.FS.writeBinFile path.text ⟨content.toArray⟩
  | .rename source target => IO.FS.rename source.text target.text
  | .remove path => IO.FS.removeFile path.text
  | .makeFolder path => IO.FS.createDir path.text

/-- Carries out the steps of a drive. -/
def carryOutAll (drive : Drive) : IO Unit := drive.log.reverse.forM carryOut

/-! ### Runs -/

/-- The machine as a run with these file arguments may look at it. -/
def machine (arguments : List String) : IO Machine := do
  let settingsPath := (← IO.getEnv settingsVariable).getD standardSettingsPath
  let disk ← (settingsPath :: arguments).foldlM (fun disk text => fetch disk (Route.ofText text))
    Disk.empty
  let disk ← match Settings.loadOrStandard disk settingsPath with
    | .ok settings => fetchFolder disk (Route.ofText settings.storageFolder)
    | .error _ => pure disk
  let seed : Seed := ⟨(← IO.getRandomBytes 32).data.toList⟩
  return {
    drive := Drive.ofDisk disk
    settingsPath := settingsPath
    nonces := seed.nonce
    mint := seed.key
    demoApplication := seed.uuid }

/-- Carries out what a run has decided and prints what it tells. -/
def finish (outcome : Outcome) : IO UInt32 := do
  try carryOutAll outcome.drive
  catch problem =>
    IO.eprint (faultLine (.storage (.access (.stated problem.toString))))
    return 1
  IO.print outcome.output
  IO.eprint outcome.errors
  return UInt32.ofNat outcome.exitCode

/-- Polls until the program is stopped. A poll that fails is tried again like any other. -/
partial def keepPolling (courier : VaultCourier) : IO UInt32 := do
  let (_, courier) := courier.pollOnce
  carryOutAll (driveOf courier)
  IO.sleep (UInt32.ofNat courier.settings.interval)
  keepPolling (settled courier)

/-- Serves the custodian of the machine. -/
def serve (arguments : List String) : IO UInt32 := do
  match openCourier (← machine []) (serveSettings arguments) with
  | (.error fault, drive) => finish (.of "" (.error fault) drive)
  | (.ok courier, _) =>
    carryOutAll (driveOf courier)
    IO.println "  Key agent running, press Ctrl-C to stop"
    keepPolling (settled courier)

end KeyCustody.Console

/-- The program. -/
def main (arguments : List String) : IO UInt32 :=
  match arguments with
  | "serve" :: rest => KeyCustody.Console.serve rest
  | _ => do
    KeyCustody.Console.finish
      (KeyCustody.Console.run (← KeyCustody.Console.machine (arguments.drop 1)) arguments)
