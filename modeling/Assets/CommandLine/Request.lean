import Assets.Commands
import Assets.CommandLine.Arguments

/-!
# Requests

The command lines that are understood, and what each of them asks for.  The flags that hold for
every command may stand before its name or after it; those after it count.
-/

namespace Assets.CommandLine

inductive Request where
  | pack (directory : Path) (output : Option Path) (hidden : Bool)
  | unpack (blob directory : Path)
  | hash (blob : Path)
  | compile (input : Path) (target : Command.Target) (config : Option Path) (hidden : Bool)
  | install (name version : String)
  deriving DecidableEq, Repr

/-- What a command line asks to be done, and how it is to be reported. -/
structure Invocation where
  verbosity : Nat := 0
  logDirectory : Option Path := none
  request : Request
  deriving DecidableEq, Repr

/-! ## Grammars -/

def verboseFlag : Flag := ⟨"verbose", some 'v', .counter, false⟩

def logFlag : Flag := ⟨"log-dir", none, .path, false⟩

def helpFlag : Flag := ⟨"help", some 'h', .help, false⟩

def versionFlag : Flag := ⟨"version", some 'V', .version, false⟩

def hiddenFlag : Flag := ⟨"hidden", none, .switch, false⟩

def outputFlag : Flag := ⟨"output", some 'o', .path, false⟩

def outDirFlag : Flag := ⟨"out-dir", none, .path, false⟩

/-- The directory that a blob is unpacked into. -/
def unpackDirFlag : Flag := ⟨"out-dir", some 'o', .path, true⟩

def configFlag : Flag := ⟨"config", some 'c', .path, false⟩

def dirSlot : Slot := ⟨"DIR", true, true⟩

def blobSlot : Slot := ⟨"BLOB", true, true⟩

def inputSlot : Slot := ⟨"INPUT", true, true⟩

def nameSlot : Slot := ⟨"NAME", true, false⟩

def versionSlot : Slot := ⟨"VERSION", false, false⟩

/-- The flags that hold for every command. -/
def commonFlags : List Flag := [verboseFlag, logFlag, helpFlag]

inductive Verb where
  | pack
  | unpack
  | hash
  | compile
  | install
  deriving DecidableEq, Repr

namespace Verb

def all : List Verb := [pack, unpack, hash, compile, install]

def name : Verb → String
  | pack => "pack"
  | unpack => "unpack"
  | hash => "hash"
  | compile => "compile"
  | install => "install"

def ofName? (name : String) : Option Verb := all.find? (·.name = name)

/-- What may follow the name of a command. -/
def grammar : Verb → Grammar
  | pack => ⟨outputFlag :: hiddenFlag :: commonFlags, [dirSlot], [], []⟩
  | unpack => ⟨unpackDirFlag :: commonFlags, [blobSlot], [], []⟩
  | hash => ⟨commonFlags, [blobSlot], [], []⟩
  | compile =>
    ⟨outputFlag :: outDirFlag :: configFlag :: hiddenFlag :: commonFlags, [inputSlot], [],
      [("output", "out-dir")]⟩
  | install => ⟨commonFlags, [nameSlot, versionSlot], [], []⟩

end Verb

def helpCommand : String := "help"

/-- What may stand before the name of a command. -/
def mainGrammar : Grammar :=
  ⟨versionFlag :: commonFlags, [], Verb.all.map Verb.name ++ [helpCommand], []⟩

/-! ## Requests from arguments -/

namespace Arguments

def path? (arguments : Arguments) (flag : Flag) : Option Path :=
  (arguments.flagValue? flag).map Path.ofString

/-- The text that fills a slot; a slot that was left out has none. -/
def text (arguments : Arguments) (slot : Slot) : String := (arguments.slotValue? slot).getD ""

def path (arguments : Arguments) (slot : Slot) : Path := Path.ofString (arguments.text slot)

def target (arguments : Arguments) : Command.Target :=
  match arguments.path? outDirFlag, arguments.path? outputFlag with
  | some directory, _ => .directory directory
  | none, some path => .blob path
  | none, none => .output

end Arguments

def Verb.request (arguments : Arguments) : Verb → Request
  | pack => .pack (arguments.path dirSlot) (arguments.path? outputFlag)
      (arguments.isGiven (.flag hiddenFlag))
  | unpack => .unpack (arguments.path blobSlot) ((arguments.path? unpackDirFlag).getD [])
  | hash => .hash (arguments.path blobSlot)
  | compile => .compile (arguments.path inputSlot) arguments.target (arguments.path? configFlag)
      (arguments.isGiven (.flag hiddenFlag))
  | install => .install (arguments.text nameSlot)
      ((arguments.slotValue? versionSlot).getD "latest")

/-- What a command line comes to. -/
inductive Reading where
  | invocation (invocation : Invocation)
  | misuse (misuse : Misuse)
  /-- Usage is asked for, of one command or of all. -/
  | help (verb : Option Verb)
  | version
  /-- Nothing at all is asked for. -/
  | nothing
  deriving DecidableEq, Repr

namespace Reading

def ofStop (verb : Option Verb) : Stop → Reading
  | .misuse m => .misuse m
  | .help => .help verb
  | .version => .version

def ofHelp : List String → Reading
  | [] => .help none
  | name :: rest =>
    match Verb.ofName? name, rest with
    | some verb, [] => .help (some verb)
    | some _, next :: _ => .misuse (.unknownCommand next)
    | none, _ =>
      if name = helpCommand then
        match rest with
        | [] => .help none
        | next :: _ => .misuse (.unknownCommand next)
      else .misuse (.unknownCommand name)

/-- What a command comes to with its arguments, after those before its name. -/
def ofArguments (verb : Verb) (before arguments : Arguments) : Reading :=
  let deeper := arguments.count verboseFlag
  .invocation
    { verbosity := if deeper = 0 then before.count verboseFlag else deeper
      logDirectory := (arguments.path? logFlag).or (before.path? logFlag)
      request := verb.request arguments }

/-- Reads a command line.  Mistakes after the name of a command come before those ahead of it. -/
def ofLine (line : List String) : Reading :=
  match Progress.scan mainGrammar {} line with
  | .error stop => ofStop none stop
  | .ok (progress, some (name, rest)) =>
    match Verb.ofName? name with
    | none => ofHelp rest
    | some verb =>
      match Arguments.read verb.grammar rest with
      | .error stop => ofStop (some verb) stop
      | .ok arguments =>
        match progress.settle with
        | .error stop => ofStop none stop
        | .ok progress => ofArguments verb progress.settled arguments
  | .ok (progress, none) =>
    match progress.settle with
    | .error stop => ofStop none stop
    | .ok progress => if progress.settled.isEmpty then .nothing else .misuse .missingCommand

end Reading

end Assets.CommandLine
