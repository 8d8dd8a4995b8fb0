import Assets.Disk.Operations
import Assets.File
import Assets.Log
import Assets.Report

/-!
# Writing a file set into a directory

A file is written below a directory at the path that its name becomes once cleaned.  A name that
would lead out of the directory is refused, and every name is checked before anything is written.
Writing itself stops at the first fault and keeps what was written before it.
-/

namespace Assets.Tree

/-- Where a file of a name is written below a directory, if the name does not lead out of it. -/
def destination? (root : Path) (name : String) : Option Path :=
  let relative := (Path.ofString name).clean
  if relative.staysBelow then some (root.join relative) else none

/-- The files of a set with the paths that they are written to. -/
def destinations (root : Path) : FileSet → Except Report (List (File × Path))
  | [] => .ok []
  | file :: files =>
    match destination? root file.name with
    | some path => (destinations root files).map ((file, path) :: ·)
    | none => .error ⟨none, .outside file.name root⟩

/-- How far the writing of a file set came. -/
structure Written where
  disk : Disk
  files : List (File × Path) := []
  stop : Option Report := none
  deriving DecidableEq, Repr

namespace Written

def diagnostics (written : Written) : List Diagnostic :=
  written.files.map fun (file, path) =>
    ⟨.debug, "Wrote file", [("file", file.name), ("path", path.toShown)]⟩

def result (written : Written) : Except Report Unit :=
  match written.stop with
  | some report => .error report
  | none => .ok ()

end Written

def makeParent (disk : Disk) (path : Path) : Except Report Unit × Disk :=
  match path.parent? with
  | none => (.ok (), disk)
  | some parent =>
    match disk.makeDirectories parent with
    | (.ok (), disk) => (.ok (), disk)
    | (.error fault, disk) => (.error ⟨some (.createDirectory parent), .disk fault⟩, disk)

def writeFile (disk : Disk) (file : File) (path : Path) : Except Report Unit × Disk :=
  match makeParent disk path with
  | (.error report, disk) => (.error report, disk)
  | (.ok (), disk) =>
    match disk.write path (Text.bytes file.content) with
    | .ok disk => (.ok (), disk)
    | .error fault => (.error ⟨some (.writeFile path), .disk fault⟩, disk)

/-- Writes files in order, up to the first fault. -/
def writeAll (disk : Disk) : List (File × Path) → Written
  | [] => { disk }
  | (file, path) :: rest =>
    match writeFile disk file path with
    | (.ok (), disk) =>
      let written := writeAll disk rest
      { written with files := (file, path) :: written.files }
    | (.error report, disk) => { disk, stop := some report }

def write (disk : Disk) (root : Path) (files : FileSet) : Written :=
  match destinations root files with
  | .ok targets => writeAll disk targets
  | .error report => { disk, stop := some report }

end Assets.Tree
