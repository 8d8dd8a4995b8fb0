import Assets.Archive
import Assets.Report
import Assets.Tree.Read
import Assets.Tree.Write

/-!
# The console

A command works on a disk, prints to its output, and tells the user what it does, until it is done
or gives up.  Whatever it did before it gave up stays done.
-/

namespace Assets

inductive Sign where
  | success
  | info
  | warning
  deriving DecidableEq, Repr

def Sign.symbol : Sign → String
  | success => "✔"
  | info => "ℹ"
  | warning => "⚠"

/-- What the user is told beside the output. -/
inductive Notice where
  | diagnostic (diagnostic : Diagnostic)
  | status (sign : Sign) (text : String)
  deriving DecidableEq, Repr

namespace Notice

/-- Whether a notice is shown at a verbosity.  Each step of verbosity shows one more level. -/
def isShown (verbosity : Nat) : Notice → Bool
  | diagnostic d => d.level.rank ≤ verbosity
  | status .. => true

def render : Notice → String
  | diagnostic d => d.render
  | status sign text => sign.symbol ++ " " ++ text

def diagnostic? : Notice → Option Diagnostic
  | diagnostic d => some d
  | status .. => none

end Notice

/-- What a command works on, and what it has said. -/
structure Console where
  disk : Disk
  output : String := ""
  notices : List Notice := []
  deriving DecidableEq, Repr

/-- A computation at the console. -/
abbrev Command := ExceptT Report (StateM Console)

namespace Command

variable {α : Type}

def notify (notice : Notice) : Command Unit :=
  modify fun console => { console with notices := console.notices ++ [notice] }

def report (diagnostic : Diagnostic) : Command Unit := notify (.diagnostic diagnostic)

def reportAll (diagnostics : List Diagnostic) : Command Unit :=
  modify fun console =>
    { console with notices := console.notices ++ diagnostics.map .diagnostic }

def status (sign : Sign) (text : String) : Command Unit := notify (.status sign text)

def print (text : String) : Command Unit :=
  modify fun console => { console with output := console.output ++ text }

/-- Goes on with a value, or gives up with a report. -/
def settle (result : Except Report α) : Command α := ExceptT.mk (pure result)

/-- Goes on with a value, or gives up with the failure in its place. -/
def settleFailure (attempt : Option Attempt) : Except Failure α → Command α
  | .ok a => settle (.ok a)
  | .error e => settle (.error ⟨attempt, .failure e⟩)

/-- Goes on with a value, or gives up with the fault in its place. -/
def settleFault (attempt : Attempt) : Except Disk.Fault α → Command α
  | .ok a => settle (.ok a)
  | .error fault => settle (.error ⟨some attempt, .disk fault⟩)

def disk : Command Disk := return (← get).disk

def setDisk (disk : Disk) : Command Unit := modify fun console => { console with disk }

/-! ## File sets and blobs -/

def readTree (root : Path) (hidden : Bool) : Command FileSet := do
  let survey := Tree.survey (← disk) root hidden
  reportAll survey.warnings
  settle survey.result

def writeTree (root : Path) (files : FileSet) : Command Unit := do
  let written := Tree.write (← disk) root files
  setDisk written.disk
  reportAll written.diagnostics
  settle written.result

def readBlob (path : Path) : Command String := do
  settleFault (.readBlob path) ((← disk).readText path)

def writeBlob (target : Option Path) (blob : String) : Command Unit := do
  match target with
  | none => print blob
  | some path =>
    setDisk (← settleFault (.writeBlob path) ((← disk).write path (Text.bytes blob)))

def droppedRecord (record : List Char) : Diagnostic :=
  ⟨.trace, "Dropping malformed record",
    [("len", toString (Text.bytes (String.ofList record)).length)]⟩

/-- Reads a blob, and reports the malformed records that are dropped. -/
def decode (blob : String) : Command Archive := do
  reportAll ((Blob.malformed blob).map droppedRecord)
  return Archive.ofBlob blob

end Command

end Assets
