import ServiceGraph.Disk.Error
import ServiceGraph.Disk.Path

namespace ServiceGraph

inductive Entry where
  | directory
  /-- The mode is made of the permission bits. -/
  | file (content : ByteArray) (mode : Nat)

def Entry.isDirectory : Entry → Bool
  | directory => true
  | file .. => false

structure Disk where
  /-- How the path of the topmost directory is written. -/
  root : String
  /-- The directory that relative paths start in. -/
  current : List String
  entries : List (List String × Entry)

namespace Disk

def empty (root : String) : Disk := ⟨root, [], []⟩

def entry? (d : Disk) (place : List String) : Option Entry :=
  if place.isEmpty then some .directory else d.entries.lookup place

/-- Puts an entry in a place instead of what was there. -/
def put (d : Disk) (place : List String) (entry : Entry) : Disk :=
  { d with entries := (place, entry) :: d.entries.filter (·.1 != place) }

/-- Puts a directory in its place, and those above it. -/
def addDirectory (d : Disk) (place : List String) : Disk :=
  (List.range place.length).foldl (fun d n => d.put (place.take (n + 1)) .directory) d

def addFile (d : Disk) (place : List String) (content : ByteArray) (mode : Nat) : Disk :=
  (d.addDirectory place.dropLast).put place (.file content mode)

/-- The path of a place, from the topmost directory. -/
def pathOf (d : Disk) (place : List String) : String :=
  if d.root.isEmpty && place.isEmpty then "/" else place.foldl (· ++ "/" ++ ·) d.root

/-- Where a path starts, and the rest of it. -/
def startOf (d : Disk) (path : String) : List String × String :=
  match Text.dropStart? d.root.toList path.toList with
  | some ('/' :: rest) => ([], String.ofList ('/' :: rest))
  | some [] => ([], "")
  | _ => (d.current, path)

/-- Goes on by one name. -/
def enter (d : Disk) (place : List String) (name : String) : Except DiskError (List String) :=
  match d.entry? place with
  | none => .error .notFound
  | some (.file ..) => .error .notDirectory
  | some .directory =>
    if name = "." then .ok place
    else if name = ".." then .ok place.dropLast
    else if Path.isTooLong name then .error .nameTooLong
    else if (d.entry? (place ++ [name])).isSome then .ok (place ++ [name])
    else .error .notFound

/-- The place of a path where something is. -/
def locate (d : Disk) (path : String) : Except DiskError (List String) :=
  if path.isEmpty then .error .notFound
  else if Path.isBad path then .error .badName
  else if Path.isOverlong path then .error .nameTooLong
  else
    let (start, rest) := d.startOf path
    (Path.names rest).foldlM d.enter start

def find (d : Disk) (path : String) : Except DiskError Entry := do
  match d.entry? (← d.locate path) with
  | some entry => return entry
  | none => throw .notFound

/-- The full path of a directory. -/
def directory? (d : Disk) (path : String) : Option String :=
  match d.locate path with
  | .ok place => if (d.entry? place).any Entry.isDirectory then some (d.pathOf place) else none
  | .error _ => none

/-- The content of a text file. -/
def readText (d : Disk) (path : String) : Except DiskError String := do
  match ← d.find path with
  | .directory => throw .isDirectory
  | .file content _ =>
    match String.fromUTF8? content with
    | some text => return text
    | none => throw .notText

/-- What is below a directory, by the names that lead there from it. -/
def below (d : Disk) (place : List String) : List (List String × Entry) :=
  d.entries.filterMap fun (p, entry) =>
    (Text.dropStart? place p).bind fun names => if names.isEmpty then none else some (names, entry)

/-- The names of the directories in a place. -/
def directoryNames (d : Disk) (place : List String) : List String :=
  (d.below place).filterMap fun
    | ([name], .directory) => some name
    | _ => none

/-- The names of the directories in a directory. -/
def subdirectories (d : Disk) (path : String) : Except DiskError (List String) := do
  let place ← d.locate path
  match d.entry? place with
  | some .directory => return d.directoryNames place
  | _ => throw .notDirectory

/-- The files below a directory by the names that lead to them: what is in a directory stands where
its name puts the directory. -/
def filesByName (d : Disk) (place : List String) : List (List String) :=
  ((d.below place).filterMap fun (names, entry) => if entry.isDirectory then none else some names)
    |>.mergeSort fun a b => (compare a b).isLE

/-- The paths of the files below a directory in order. A file is the only one below itself. -/
def filesBelow (d : Disk) (path : String) : Except DiskError (List String) := do
  let place ← d.locate path
  match d.entry? place with
  | some (.file ..) => return [path]
  | _ => return (d.filesByName place).map (Path.joinAll path)

/-- The mode of a file that only its owner can read and write. -/
def privateMode : Nat := 0o600

/-- Replaces the content of a file, or creates it. A path that ends in `/` cannot be that of a file.
-/
def write (d : Disk) (path : String) (content : ByteArray) : Except DiskError Disk := do
  let (start, rest) := d.startOf path
  if Path.isBad path then throw .badName
  if Path.isOverlong path then throw .nameTooLong
  let names := Path.partNames rest
  match names.getLast? with
  | none => throw .isDirectory
  | some name =>
    let place ← names.dropLast.foldlM d.enter start
    match d.entry? place with
    | some .directory =>
      if name = "." || name = ".." || Path.endsInSlash rest then throw .isDirectory
      if Path.isTooLong name then throw .nameTooLong
      match d.entry? (place ++ [name]) with
      | some .directory => throw .isDirectory
      | some (.file _ mode) => return d.addFile (place ++ [name]) content mode
      | none => return d.addFile (place ++ [name]) content privateMode
    | some (.file ..) => throw .notDirectory
    | none => throw .notFound

/-- Why a command that is no program cannot be started. A name without `/` is looked for elsewhere,
where `.` and `..` are directories. -/
def launchError (d : Disk) (command : String) : DiskError :=
  if command.toList.contains '/' then
    match d.find command with
    | .ok _ => .denied
    | .error e => e
  else if command = "." || command = ".." then .denied
  else if Path.isTooLong command then .nameTooLong
  else .notFound

end Disk

end ServiceGraph
