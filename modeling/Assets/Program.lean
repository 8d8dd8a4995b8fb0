import Assets.CommandLine.Usage

/-!
# The program

One run of the program: from the arguments and the disk it finds to the disk it leaves, what it
prints, and its exit code.  The code is 0 if all went well, 1 if a command gave up, and 2 if the
arguments are not understood.
-/

namespace Assets.Program

open CommandLine

/-- What a run finds around it. -/
structure Environment where
  /-- The user's directory for configuration. -/
  userDirectory : Option Path := none
  /-- The name of a log file that is started now. -/
  logName : Name

/-- The user's directory for configuration: the one that is set, if its path is absolute, and
otherwise the usual one in the home directory. -/
def userDirectory? (configHome home : Option Path) : Option Path :=
  match configHome.filter Path.isAbsolute with
  | some directory => some directory
  | none => (home.filter fun path => !path.isEmpty).map fun path =>
      path.join (Path.ofString ".config")

structure Exit where
  code : Nat
  output : String := ""
  /-- The lines told to the user beside the output. -/
  messages : List String := []
  disk : Disk
  deriving DecidableEq, Repr

def perform (environment : Environment) : Request → Command Unit
  | .pack directory output hidden => Command.pack directory output hidden
  | .unpack blob directory => Command.unpack blob directory
  | .hash blob => Command.hash blob
  | .compile input target config hidden =>
    Command.compile environment.userDirectory input target config hidden
  | .install name version => Command.install name version

/-! ## The log file -/

/-- Where the log file of a run lies. -/
def logPath (environment : Environment) (directory : Path) : Path :=
  directory.join environment.logName

/-- Starts a log file.  Its directory is made if it is missing. -/
def startLog (disk : Disk) (path : Path) : Except Disk.Fault Disk :=
  match disk.write path [] with
  | .ok disk => .ok disk
  | .error _ =>
    match disk.makeDirectories (path.parent?.getD []) with
    | (.error fault, _) => .error fault
    | (.ok (), disk) => disk.write path []

/-- The lines of a text, each ended by a newline. -/
def unlines (lines : List String) : String := String.join (lines.map (· ++ "\n"))

/-- Writes every diagnostic into the log file. -/
def finishLog (disk : Disk) (path : Path) (notices : List Notice) : Disk :=
  let text := unlines ((notices.filterMap Notice.diagnostic?).map Diagnostic.render)
  match disk.write path (Text.bytes text) with
  | .ok disk => disk
  | .error _ => disk

/-- What is said of a log file that has been started. -/
def logStarted (directory : Path) : Notice :=
  .diagnostic ⟨.debug, "Logging initialized. Log file in: " ++ directory.toShown, []⟩

/-! ## Runs -/

/-- The lines of the notices that are shown. -/
def shownLines (verbosity : Nat) (notices : List Notice) : List String :=
  (notices.filter (·.isShown verbosity)).flatMap fun notice => Report.lines notice.render

def performAt (environment : Environment) (request : Request) (console : Console) :
    Except Report Unit × Console :=
  (perform environment request).run.run console

/-- The end of a run whose command is done, or gave up with a report. -/
def exit (verbosity : Nat) (result : Except Report Unit) (console : Console) : Exit :=
  let shown := shownLines verbosity console.notices
  match result with
  | .ok () => ⟨0, console.output, shown, console.disk⟩
  | .error report => ⟨1, console.output, shown ++ report.render, console.disk⟩

/-- Does what is asked for, with a log file if one is asked for. -/
def runInvocation (environment : Environment) (disk : Disk) (invocation : Invocation) : Exit :=
  match invocation.logDirectory with
  | none =>
    let (result, console) := performAt environment invocation.request { disk }
    exit invocation.verbosity result console
  | some directory =>
    let path := logPath environment directory
    match startLog disk path with
    | .error fault =>
      { code := 101, messages := ["initializing rolling file appender failed: " ++ fault.message],
        disk }
    | .ok disk =>
      let (result, console) := performAt environment invocation.request
        { disk, notices := [logStarted directory] }
      exit invocation.verbosity result
        { console with disk := finishLog console.disk path console.notices }

def run (environment : Environment) (disk : Disk) (arguments : List String) : Exit :=
  match Reading.ofLine arguments with
  | .invocation invocation => runInvocation environment disk invocation
  | .misuse misuse =>
    match misuse.message with
    | [] => { code := 2, disk }
    | first :: rest =>
      { code := 2, messages := ("error: " ++ first) :: rest ++
          ["", "For more information, try '--help'."], disk }
  | .help verb => { code := 0, output := unlines (usage verb), disk }
  | .version => { code := 0, output := versionLine ++ "\n", disk }
  | .nothing => { code := 2, messages := usage none, disk }

end Assets.Program
