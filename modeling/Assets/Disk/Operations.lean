import Assets.Disk.Basic

/-!
# Disk operations

Reading and writing files, and making directories.  An operation that fails changes nothing,
except for the making of several directories, which keeps those that it made before it failed.
-/

namespace Assets.Disk

def read (disk : Disk) (path : Path) : Except Fault (List UInt8) := do
  match (← disk.resolve .target path).entry with
  | some (.file content) => .ok content
  | some .directory => .error .isADirectory
  | some (.link _) => .error .notFound
  | none => .error .notFound

def readText (disk : Disk) (path : Path) : Except Fault String := do
  match Text.ofBytes? (← disk.read path) with
  | some text => .ok text
  | none => .error .notText

/-- What a path leads to, without following a link that it ends at. -/
def status (disk : Disk) (path : Path) : Except Fault Place := do
  let place ← disk.resolve .entry path
  if place.entry.isSome then .ok place else .error .notFound

/-- What a path leads to. -/
def target (disk : Disk) (path : Path) : Except Fault Place := do
  let place ← disk.resolve .target path
  if place.entry.isSome then .ok place else .error .notFound

/-- Writes a file: a new one, or in place of the content of the file that the path leads to. -/
def write (disk : Disk) (path : Path) (content : List UInt8) : Except Fault Disk := do
  let place ← disk.resolve .file path
  match place.entry with
  | some .directory => .error .isADirectory
  | _ => .ok (disk.put place.location (.file content))

/-- Makes an entry where a path leads, if there is none. -/
def create (disk : Disk) (path : Path) (entry : Entry) : Except Fault Disk := do
  let place ← disk.resolve .entry path
  if place.entry.isSome then .error .alreadyExists else .ok (disk.put place.location entry)

/-- Makes one directory.  Slashes at the end of its path do not count. -/
def makeDirectory (disk : Disk) (path : Path) : Except Fault Disk :=
  let trimmed := (path.reverse.dropWhile (· = Path.slash)).reverse
  disk.create (if trimmed.isEmpty then path else trimmed) .directory

/-- A path and its ancestors, nearest first, without the last one, which always exists. -/
def ancestry : (fuel : Nat) → Path → List Path
  | 0, _ => []
  | fuel + 1, path =>
    match path.parent? with
    | none => []
    | some parent => if path.isEmpty then [] else path :: ancestry fuel parent

/-- Makes the nearest of some ancestors that can be made, or finds one that is a directory: the
ancestors that are still to be made, nearest first. -/
def climb (disk : Disk) : List Path → Except Fault (List Path × Disk)
  | [] => .ok ([], disk)
  | path :: paths =>
    match disk.makeDirectory path with
    | .ok disk => .ok ([], disk)
    | .error .notFound => do
      let (missing, disk) ← climb disk paths
      return (path :: missing, disk)
    | .error .alreadyExists =>
      if disk.isDirectory path then .ok ([], disk) else .error .alreadyExists
    | .error fault => .error fault

def makeAll (disk : Disk) : List Path → Except Fault Unit × Disk
  | [] => (.ok (), disk)
  | path :: paths =>
    match disk.makeDirectory path with
    | .ok disk => makeAll disk paths
    | .error .alreadyExists =>
      if disk.isDirectory path then makeAll disk paths else (.error .alreadyExists, disk)
    | .error fault => (.error fault, disk)

/-- Makes a directory with all its missing ancestors. -/
def makeDirectories (disk : Disk) (path : Path) : Except Fault Unit × Disk :=
  match disk.climb (ancestry (path.length + 1) path) with
  | .error fault => (.error fault, disk)
  | .ok (missing, disk) => disk.makeAll missing.reverse

end Assets.Disk
