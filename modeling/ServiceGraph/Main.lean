import ServiceGraph.CommandLine.Run
import ServiceGraph.Source.Parse

namespace ServiceGraph.Main

/-- The absolute path of a place. -/
def realPath (place : List String) : String := "/" ++ "/".intercalate place

/-- Takes in what is at a place, if something is. -/
def addPlace (d : Disk) (place : List String) : IO Disk := do
  try
    let path ← IO.FS.realPath (realPath place)
    if ← path.isDir then return d.addDirectory place
    else return d.addFile place (← IO.FS.readBinFile path) Disk.privateMode
  catch _ => return d

/-- Takes in everything on the way along a path. -/
def addPath (d : Disk) (path : String) : IO Disk := do
  let (start, rest) := d.startOf path
  let mut place := start
  let mut disk := d
  for name in Path.names rest do
    if name = ".." then place := place.dropLast
    else if name ≠ "." then
      place := place ++ [name]
      disk ← addPlace disk place
  return disk

/-- Takes in the directories, sources and programs below a place. Links are not followed to
directories or sources. -/
partial def addBelow (d : Disk) (place : List String) : IO Disk := do
  let mut disk := d
  for entry in ← (← IO.FS.realPath (realPath place)).readDir do
    let inner := place ++ [entry.fileName]
    match (← entry.path.symlinkMetadata).type with
    | .dir => disk ← addBelow (disk.addDirectory inner) inner
    | .file =>
      if isSource entry.fileName || entry.fileName == Loader.dumpName then
        disk ← addPlace disk inner
    | _ => if entry.fileName == Loader.dumpName then disk ← addPlace disk inner
  return disk

/-- The parts of the real disk that a run with the given options can ask for. -/
def readDisk (options : CommandLine.Options) : IO Disk := do
  let current := Path.names (← IO.currentDir).toString
  let mut disk := { (Disk.empty "").addDirectory current with current }
  let paths := [some options.projectDirectory, some options.serviceDirectory,
    options.environmentFile, options.outputFile, options.bridge]
  for path in paths.filterMap fun path => path do
    disk ← addPath disk path
  match disk.locate options.serviceDirectory with
  | .ok place => if (disk.entry? place).any Entry.isDirectory then disk ← addBelow disk place
  | .error _ => pure ()
  return disk

/-- Writes the file that a run made. A new one is for its owner alone. -/
def writeFile (before after : Disk) (path : String) : IO Unit := do
  match after.find path with
  | .ok (.file content _) =>
    if (before.find path).toOption.isNone then
      IO.FS.writeBinFile path .empty
      IO.setAccessRights path ⟨⟨true, true, false⟩, ⟨false, false, false⟩, ⟨false, false, false⟩⟩
    IO.FS.writeBinFile path content
  | _ => return

end ServiceGraph.Main

open ServiceGraph in
/-- Infers which services of a project call each other. -/
def main (arguments : List String) : IO UInt32 := do
  let disk ← match CommandLine.Options.parse? arguments with
    | some options => Main.readDisk options
    | none => pure (Disk.empty "")
  let launch : CommandLine.Launcher := fun command _ _ => .error (disk.launchError command)
  -- a run that never ends does not come to its result, so there always is one
  let some outcome := CommandLine.run disk Source.parse launch arguments | return 1
  if let some path := (CommandLine.Options.parse? arguments).bind (·.outputFile) then
    if outcome.status = 0 then Main.writeFile disk outcome.disk path
  IO.print outcome.output
  if let some report := outcome.report then IO.eprintln report
  return outcome.status.toUInt32
