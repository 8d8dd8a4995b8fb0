import Assets.Disk.Fault
import Assets.Disk.Path

/-!
# The disk

Files, directories and symbolic links by location.  A location is the list of names that leads
from the root to an entry.  Looking up a path follows the symbolic links on the way, and steps out
of a directory at `..`; it ends at a location that holds an entry, or could hold one.

A file can have several names.  One location keeps it, and the others are hard links, which tell
where it is kept (`Disk.home`).  What is written under one of the names is read under all of them.

A disk has no permissions and no devices, it is never full, and nobody else changes it.  Reading
and writing fail for the path and for what it leads to, and for nothing else.
-/

namespace Assets

/-- The names on the way from the root to an entry. -/
abbrev Location := List Name

/-- What a location holds. -/
inductive Entry where
  | file (content : List UInt8)
  | directory
  | link (target : Path)
  deriving DecidableEq, Repr

/-- What is kept under a location: an entry, or for a hard link the location that keeps the
file. -/
inductive Node where
  | entry (entry : Entry)
  | hardLink (file : Location)
  deriving DecidableEq, Repr

namespace Node

abbrev file (content : List UInt8) : Node := .entry (.file content)

abbrev directory : Node := .entry .directory

abbrev link (target : Path) : Node := .entry (.link target)

def entry? : Node → Option Entry
  | .entry own => some own
  | .hardLink _ => none

end Node

/-- Nodes by location, and the directory that relative paths start from.  The root is a directory
without a node of its own. -/
structure Disk where
  entries : List (Location × Node) := []
  working : Location := []
  deriving DecidableEq, Repr

namespace Disk

/-- The location that keeps what is found at a location, which is another one for a hard link. -/
def home (disk : Disk) (location : Location) : Location :=
  match disk.entries.lookup location with
  | some (.hardLink file) => file
  | _ => location

def find? (disk : Disk) (location : Location) : Option Entry :=
  if location = [] then some .directory
  else (disk.entries.lookup (disk.home location)).bind Node.entry?

/-- Puts an entry where the location keeps it, so that all names of a file have the new content. -/
def put (disk : Disk) (location : Location) (entry : Entry) : Disk :=
  let home := disk.home location
  { disk with entries := disk.entries.filter (·.1 ≠ home) ++ [(home, .entry entry)] }

/-- Whether a location lies strictly below another. -/
def isBelow (root location : Location) : Bool :=
  root.isPrefixOf location && root.length < location.length

/-- The entries below a location, under the names that lead from it to them.  They are in
ascending order, name by name, so that an entry comes right before those below it. -/
def below (disk : Disk) (root : Location) : List (Location × Entry) :=
  ((disk.entries.filter fun e => isBelow root e.1).filterMap fun e =>
    (disk.find? e.1).map fun entry => (e.1.drop root.length, entry)).mergeSort
      fun a b => a.1 ≤ b.1

/-! ## Looking up paths -/

/-- The end of a path: its location, and the entry there if there is one. -/
structure Place where
  location : Location
  entry : Option Entry
  deriving DecidableEq, Repr

def nameLimit : Nat := 255

def pathLimit : Nat := 4096

def linkLimit : Nat := 40

/-- What a path is looked up for. -/
inductive Purpose where
  /-- The entry itself, be it a link. -/
  | entry
  /-- What the entry leads to, links followed. -/
  | target
  /-- A file to be written, links followed. -/
  | file
  deriving DecidableEq, Repr

/-- Whether the last name of a path is refused because of the parts behind it.  They are empty if
only slashes come after the name, and then no file can have it, whatever holds that name. -/
def refusesSlash (purpose : Purpose) (parts : List Name) : Bool :=
  purpose = .file && !parts.isEmpty && parts.all List.isEmpty

/-- Goes from a directory through the parts of a path up to a link that is followed, and leaves the
rest to `follow`.  A link is followed if more parts come after it, or if it is not the entry itself
that is looked up. -/
def walkWith (disk : Disk) (purpose : Purpose)
    (follow : (here : Location) → (parts : List Name) → Except Fault Place) :
    (here : Location) → (parts : List Name) → Except Fault Place
  | here, [] => .ok ⟨here, disk.find? here⟩
  | here, part :: parts =>
    if part = [] ∨ part = [Path.dot] then walkWith disk purpose follow here parts
    else if part = [Path.dot, Path.dot] then walkWith disk purpose follow here.dropLast parts
    else if refusesSlash purpose parts then .error .isADirectory
    else if nameLimit < part.length then .error .nameTooLong
    else
      let location := here ++ [part]
      match disk.find? location with
      | none => if parts.isEmpty then .ok ⟨location, none⟩ else .error .notFound
      | some .directory => walkWith disk purpose follow location parts
      | some (.file content) =>
        if parts.isEmpty then .ok ⟨location, some (.file content)⟩ else .error .notADirectory
      | some (.link target) =>
        if parts.isEmpty ∧ purpose = .entry then .ok ⟨location, some (.link target)⟩
        else if target.isEmpty then .error .notFound
        else follow (if target.isAbsolute then [] else here) (target.split ++ parts)

/-- Goes from a directory through the parts of a path, and follows a number of links at most. -/
def walk (disk : Disk) (purpose : Purpose) :
    (links : Nat) → (here : Location) → (parts : List Name) → Except Fault Place
  | 0 => disk.walkWith purpose fun _ _ => .error .tooManyLinks
  | links + 1 => disk.walkWith purpose (walk disk purpose links)

def resolve (disk : Disk) (purpose : Purpose) (path : Path) : Except Fault Place :=
  if path.contains 0 then .error .nulInPath
  else if pathLimit ≤ path.length then .error .nameTooLong
  else if path.isEmpty then .error .notFound
  else disk.walk purpose linkLimit (if path.isAbsolute then [] else disk.working) path.split

/-- The entry that a path leads to, links followed, if it can be reached. -/
def entry? (disk : Disk) (path : Path) : Option Entry :=
  match disk.resolve .target path with
  | .ok place => place.entry
  | .error _ => none

def contains (disk : Disk) (path : Path) : Bool := (disk.entry? path).isSome

def isDirectory (disk : Disk) (path : Path) : Bool := disk.entry? path == some .directory

end Disk

end Assets
