import Assets.Disk.Operations
import Assets.File
import Assets.Log
import Assets.Report

/-!
# Reading a directory as a file set

Every regular file below a directory becomes a file of the set, named by the path that leads to it
with `/` between the parts.  Links below the directory are neither read nor followed.  Hidden
entries, whose name starts with a dot, are left out with all that is below them, unless they are
asked for.  A file without content, or whose name or content is not text, cannot be in a blob; it
is skipped with a warning.
-/

namespace Assets.Tree

/-- Whether an entry is hidden.  A name that is not text never is. -/
def isHidden (name : Name) : Bool :=
  name.head? == some Path.dot && (Text.ofBytes? name).isSome

def pathOf : Location → Path
  | [] => []
  | [name] => name
  | name :: names => name ++ Path.slash :: pathOf names

/-- A path below a directory, one name after the other. -/
def joinAll (root : Path) (names : Location) : Path := names.foldl Path.join root

/-- The regular files below a location, in the order of their names, part by part. -/
def regularFiles (disk : Disk) (root : Location) (hidden : Bool) : List Location :=
  (disk.below root).filterMap fun (names, entry) =>
    match entry with
    | .file _ => if hidden || !names.any isHidden then some names else none
    | _ => none

/-- What becomes of a regular file. -/
inductive Finding where
  | file (file : File)
  | skipped (reason : Diagnostic)
  deriving DecidableEq, Repr

def skip (message field value : String) : Finding := .skipped ⟨.warn, message, [(field, value)]⟩

def inspect (name : String) (content : List UInt8) : Finding :=
  match Text.ofBytes? content with
  | none => skip "Skipping non-UTF-8 file" "file" name
  | some text =>
    if text.isEmpty then skip "Skipping empty file" "file" name else .file ⟨name, text⟩

/-- Looks at a regular file below the start of a walk. -/
def visit (disk : Disk) (root : Path) (names : Location) : Except Report Finding :=
  let path := joinAll root names
  match Text.ofBytes? (pathOf names) with
  | none => .ok (skip "Skipping file with a non-UTF-8 name" "path" path.toShown)
  | some name =>
    match disk.read path with
    | .ok content => .ok (inspect name content)
    | .error fault => .error ⟨some (.readFile path), .disk fault⟩

/-- What a walk found, and what ended it early, if anything did. -/
structure Survey where
  findings : List Finding := []
  stop : Option Report := none
  deriving DecidableEq, Repr

namespace Survey

def files (survey : Survey) : FileSet :=
  survey.findings.filterMap fun
    | .file file => some file
    | .skipped _ => none

def warnings (survey : Survey) : List Diagnostic :=
  survey.findings.filterMap fun
    | .file _ => none
    | .skipped reason => some reason

def result (survey : Survey) : Except Report FileSet :=
  match survey.stop with
  | some report => .error report
  | none => .ok survey.files

end Survey

/-- Looks at regular files in order, up to the first that cannot be read. -/
def visitAll (disk : Disk) (root : Path) : List Location → Survey
  | [] => {}
  | names :: rest =>
    match visit disk root names with
    | .ok finding =>
      let survey := visitAll disk root rest
      { survey with findings := finding :: survey.findings }
    | .error report => { stop := some report }

/-- The regular files that a walk from a path meets.  A link at its start is followed if it leads
to a directory. -/
def start (disk : Disk) (root : Path) (hidden : Bool) : Except Disk.Fault (List Location) := do
  let first ← disk.status root
  let place ← disk.target root
  match first.entry, place.entry with
  | _, some .directory => .ok (regularFiles disk place.location hidden)
  | some (.file _), some (.file _) => .ok [[]]
  | _, _ => .ok []

/-- Walks a directory. -/
def survey (disk : Disk) (root : Path) (hidden : Bool) : Survey :=
  match start disk root hidden with
  | .ok files => visitAll disk root files
  | .error fault => { stop := some ⟨some (.walk root), .visit root fault⟩ }

def read (disk : Disk) (root : Path) (hidden : Bool) : Except Report FileSet :=
  (survey disk root hidden).result

end Assets.Tree
