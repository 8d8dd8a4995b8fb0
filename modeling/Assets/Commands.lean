import Assets.Batch
import Assets.Config.Locate
import Assets.Console
import Assets.Install

/-!
# The commands

Packing a directory into a blob, unpacking a blob into a directory, hashing a blob, compiling a
directory or a blob, and installing a package.
-/

namespace Assets.Command

/-- How many files there are, and their digest. -/
def summary (archive : Archive) : String :=
  toString archive.files.length ++ " files (" ++ archive.hash ++ ")"

def pack (directory : Path) (output : Option Path) (hidden : Bool) : Command Unit := do
  let files ← readTree directory hidden
  settleFailure none (Blob.validate files)
  let archive := Archive.ofFiles files
  writeBlob output archive.content
  status .success ("Packed " ++ summary archive)

def unpack (blob directory : Path) : Command Unit := do
  let archive ← decode (← readBlob blob)
  writeTree directory archive.files
  status .success ("Unpacked " ++ toString archive.files.length ++ " files into " ++
    directory.toShown ++ " (" ++ archive.hash ++ ")")

/-- Prints the digest of a blob.  It is taken over the canonical blob, so neither the order of
records nor dropped records count. -/
def hash (blob : Path) : Command Unit := do
  let archive ← decode (← readBlob blob)
  print (archive.hash ++ "\n")

/-- Where the result of a compilation goes. -/
inductive Target where
  | output
  | blob (path : Path)
  | directory (path : Path)
  deriving DecidableEq, Repr

/-- The file set to compile: that of a directory, or that of a blob. -/
def source (input : Path) (hidden : Bool) : Command Archive := do
  if (← disk).isDirectory input then return Archive.ofFiles (← readTree input hidden)
  else decode (← readBlob input)

/-- The file set of a finished batch.  The plugins at hand neither break off nor wait for ever. -/
def compiledFiles (input : Path) : Outcome FileSet → Command FileSet
  | .value files => pure files
  | .failure e => settleFailure (some (.compile input)) (.error e)
  | .panic => settleFailure (some (.compile input)) (.error Batch.unfinished)
  | .hang => settleFailure (some (.compile input)) (.error Batch.unfinished)

def registeredPlugins (plugins : List Plugin) : Diagnostic :=
  ⟨.debug, "Registered plugins",
    [("plugins", "[" ++ String.intercalate ", " (plugins.map fun p => Text.quoted p.name) ++ "]")]⟩

/-- Hands over the result of a compilation.  A directory holds one file of a name; a blob holds
files that can be read back. -/
def deliver (archive : Archive) : Target → Command Unit
  | .directory path => do
    settleFailure none archive.files.ensureUniqueNames
    writeTree path archive.files
  | .blob path => do
    settleFailure none (Blob.validate archive.files)
    writeBlob (some path) archive.content
  | .output => do
    settleFailure none (Blob.validate archive.files)
    writeBlob none archive.content

/-- Compiles a directory or a blob.  `userDirectory` is the user's directory for configuration. -/
def compile (userDirectory : Option Path) (input : Path) (target : Target) (config : Option Path)
    (hidden : Bool) : Command Unit := do
  let (remarks, config) := Config.locate (← disk) userDirectory config
  reportAll remarks
  let config ← settle config
  let overrides ← settleFailure none ((config.overridesOn (← disk)).mapError .config)
  let plugins := config.standardPlugins
  report (registeredPlugins plugins)
  let source ← source input hidden
  status .info ("Compiling " ++ summary source)
  let compilation := Batch.compile plugins overrides source.files
  reportAll (Event.diagnostics compilation.events)
  let archive := Archive.ofFiles (← compiledFiles input compilation.outcome)
  deliver archive target
  status .success ("Compiled " ++ summary archive)

def install (name version : String) : Command Unit := do
  reportAll (Assets.install name version)
  status .warning ("Installing " ++ name ++ "@" ++ version ++
    " is not supported yet, nothing was done")

end Assets.Command
