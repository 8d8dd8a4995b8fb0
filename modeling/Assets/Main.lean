import Assets.Program

/-!
# Main

The program at work on a machine.  What a run may look at is observed first, the run itself is
computed, and then what it changed is written back.
-/

namespace Assets.Machine

open CommandLine

/-- The location that an absolute path without links leads to. -/
def locationOf (path : String) : Location := (Path.ofString path).split.filter (· ≠ [])

/-- The absolute path of a location. -/
def pathTo (location : Location) : String := Path.toShown (Path.slash :: Tree.pathOf location)

/-- The paths that a path goes through, from the outermost to itself. -/
def stages (path : Path) : List String :=
  (path.marked.map fun component => Path.toShown (path.take component.2)).dropLast ++
    [path.toShown]

/-- What has been observed of a disk. -/
structure Observation where
  disk : Disk
  /-- The directories whose entries have been observed. -/
  listed : List Location := []

/-- Puts an entry where none has been observed, and the directories that lead to it. -/
def Observation.note (observation : Observation) (location : Location) (entry : Entry) :
    Observation :=
  let put (disk : Disk) (location : Location) (entry : Entry) : Disk :=
    if (disk.find? location).isSome then disk else disk.put location entry
  let directories := (List.range location.length).map location.take
  let disk := directories.foldl (fun disk directory => put disk directory .directory)
    observation.disk
  { observation with disk := put disk location entry }

/-- The location of a path whose last name is not followed. -/
def locationAt (path : String) : IO Location := do
  let real ← IO.FS.realPath path
  match (Path.ofString path).parent?, (Path.ofString path).marked.getLast? with
  | some parent, some (.name name, _) =>
    let parent ← IO.FS.realPath (if parent.isEmpty then "." else Path.toShown parent)
    return locationOf parent.toString ++ [name]
  | _, _ => return locationOf real.toString

/-- Observes what a path leads to, with all that is below it.  Symbolic links are followed.
A hard link is observed as a file of its own, and remains one name of its file when the file is
written back. -/
partial def Observation.observe (observation : Observation) (path : String) : IO Observation := do
  let here := (← IO.currentDir) / path
  try
    match (← here.symlinkMetadata).type with
    | .dir =>
      let location := locationOf (← IO.FS.realPath here).toString
      let observation := observation.note location .directory
      if observation.listed.contains location then return observation
      (← here.readDir).foldlM
        (fun observation entry => observation.observe (here / entry.fileName).toString)
        { observation with listed := location :: observation.listed }
    | .file =>
      let content ← IO.FS.readBinFile here
      return observation.note (← locationAt here.toString) (.file content.toList)
    | .symlink =>
      let target := (← IO.FS.realPath here).toString
      let observation := observation.note (← locationAt here.toString)
        (.link (Path.ofString target))
      observation.observe target
    | .other => return observation
  catch _ => return observation

/-- Observes what a path leads to, without what is below a directory. -/
def Observation.pass (observation : Observation) (path : String) : IO Observation := do
  let here := (← IO.currentDir) / path
  try
    if (← here.symlinkMetadata).type == .dir then
      return observation.note (locationOf (← IO.FS.realPath here).toString) .directory
    else observation.observe path
  catch _ => return observation

/-- Observes a path and the links on the way to it. -/
def Observation.follow (observation : Observation) (path : Path) : IO Observation := do
  let observation ← (stages path).dropLast.foldlM Observation.pass observation
  observation.observe path.toShown

/-- The paths that a request starts from. -/
def pathsOf (userDirectory : Option Path) : Request → List Path
  | .pack directory output _ => directory :: output.toList
  | .unpack blob directory => [blob, directory]
  | .hash blob => [blob]
  | .compile input target config _ =>
    let targets := match target with
      | .output => []
      | .blob path => [path]
      | .directory path => [path]
    input :: targets ++ config.toList ++
      Config.localPath :: (userDirectory.map Config.userPath).toList
  | .install .. => []

/-- The directory that a request loads from as well, if its configuration names one. -/
def loadDirectory? (disk : Disk) (userDirectory : Option Path) : Request → Option Path
  | .compile _ _ config _ =>
    match (Config.locate disk userDirectory config).2 with
    | .ok config => config.defaults.loadDir.map Path.ofString
    | .error _ => none
  | _ => none

/-- Observes what a run may look at. -/
def observeFor (userDirectory : Option Path) (arguments : List String) : IO Disk := do
  let working := locationOf (← IO.FS.realPath (← IO.currentDir)).toString
  let start : Observation := { disk := { working } }
  let start := start.note working .directory
  match Reading.ofLine arguments with
  | .invocation invocation =>
    let paths := pathsOf userDirectory invocation.request ++ invocation.logDirectory.toList
    let observation ← paths.foldlM Observation.follow start
    match loadDirectory? observation.disk userDirectory invocation.request with
    | some directory => return (← observation.follow directory).disk
    | none => return observation.disk
  | _ => return start.disk

/-- Writes back what a run changed, directories before what is in them. -/
def writeBack (before after : Disk) : IO Unit := do
  for (location, entry) in after.below [] do
    if before.find? location ≠ some entry then
      match entry with
      | .directory => IO.FS.createDirAll (pathTo location)
      | .file content => IO.FS.writeBinFile (pathTo location) ⟨content.toArray⟩
      | .link _ => pure ()

/-- The path that a variable of the environment holds. -/
def environmentPath? (name : String) : IO (Option Path) :=
  return (← IO.getEnv name).map Path.ofString

def run (arguments : List String) : IO UInt32 := do
  let userDirectory :=
    Program.userDirectory? (← environmentPath? "XDG_CONFIG_HOME") (← environmentPath? "HOME")
  let logName := Path.ofString (toString (← IO.monoNanosNow) ++ ".log")
  let disk ← observeFor userDirectory arguments
  let exit := Program.run ⟨userDirectory, logName⟩ disk arguments
  writeBack disk exit.disk
  (← IO.getStdout).putStr exit.output
  for line in exit.messages do IO.eprintln line
  return UInt32.ofNat exit.code

end Assets.Machine

def main (arguments : List String) : IO UInt32 := Assets.Machine.run arguments
