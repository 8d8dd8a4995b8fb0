/-!
# Command line grammars

What a command accepts on its line: flags, which are named, and slots, which are filled by the
remaining arguments in order.  This module also holds the ways in which a line can miss its
grammar, with their wording.
-/

namespace Assets.CommandLine

inductive Role where
  | switch
  /-- Counts how often it is given. -/
  | counter
  /-- Takes a path, which is not empty. -/
  | path
  | help
  | version
  deriving DecidableEq, Repr

/-- A named parameter: `--long`, and perhaps a letter as well. -/
structure Flag where
  long : String
  short : Option Char := none
  role : Role
  required : Bool := false
  deriving DecidableEq, Repr

/-- A parameter that takes the next argument that is no flag. -/
structure Slot where
  name : String
  required : Bool := true
  /-- Whether the argument is a path, which is not empty. -/
  isPath : Bool := true
  deriving DecidableEq, Repr

inductive Parameter where
  | flag (flag : Flag)
  | slot (slot : Slot)
  deriving DecidableEq, Repr

namespace Parameter

/-- The name that stands for the value of a flag. -/
def valueName (long : String) : String :=
  String.ofList (long.toList.map fun c => if c = '-' then '_' else c.toUpper)

/-- A parameter as messages show it. -/
def shown : Parameter → String
  | flag f =>
    "--" ++ f.long ++ match f.role with
      | .path => " <" ++ valueName f.long ++ ">"
      | .counter => "..."
      | _ => ""
  | slot s => if s.required then "<" ++ s.name ++ ">" else "[" ++ s.name ++ "]"

def takesValue : Parameter → Bool
  | flag f => f.role == .path
  | slot _ => true

def acceptsEmpty : Parameter → Bool
  | flag _ => false
  | slot s => !s.isPath

def isRepeatable : Parameter → Bool
  | flag f => f.role == .counter
  | slot _ => false

def isRequired : Parameter → Bool
  | flag f => f.required
  | slot s => s.required

end Parameter

/-- What may stand on a line. -/
structure Grammar where
  flags : List Flag
  slots : List Slot := []
  commands : List String := []
  /-- Flags that exclude each other. -/
  conflicts : List (String × String) := []
  deriving DecidableEq, Repr

namespace Grammar

def flagNamed? (grammar : Grammar) (long : String) : Option Flag :=
  grammar.flags.find? (·.long = long)

def flagLettered? (grammar : Grammar) (letter : Char) : Option Flag :=
  grammar.flags.find? (·.short = some letter)

def required (grammar : Grammar) : List Parameter :=
  (grammar.slots.map Parameter.slot ++ grammar.flags.map Parameter.flag).filter
    Parameter.isRequired

/-- Whether two parameters exclude each other. -/
def excludes (grammar : Grammar) : Parameter → Parameter → Bool
  | .flag f, .flag g =>
    grammar.conflicts.contains (f.long, g.long) || grammar.conflicts.contains (g.long, f.long)
  | _, _ => false

end Grammar

inductive Misuse where
  | unexpectedArgument (argument : String)
  | unknownCommand (name : String)
  | missingCommand
  | missingParameters (parameters : List Parameter)
  | missingValue (parameter : Parameter)
  | unexpectedValue (value : String) (parameter : Parameter)
  | repeated (parameter : Parameter)
  | conflict (first second : Parameter)
  deriving DecidableEq, Repr

def Misuse.message : Misuse → List String
  | unexpectedArgument argument => ["unexpected argument '" ++ argument ++ "' found"]
  | unknownCommand name => ["unrecognized subcommand '" ++ name ++ "'"]
  | missingCommand => ["'bundle' requires a subcommand but one was not provided"]
  | missingParameters parameters =>
    "the following required arguments were not provided:" ::
      parameters.map fun p => "  " ++ p.shown
  | missingValue parameter =>
    ["a value is required for '" ++ parameter.shown ++ "' but none was supplied"]
  | unexpectedValue value parameter =>
    ["unexpected value '" ++ value ++ "' for '" ++ parameter.shown ++
      "' found; no more were expected"]
  | repeated parameter =>
    ["the argument '" ++ parameter.shown ++ "' cannot be used multiple times"]
  | conflict first second =>
    ["the argument '" ++ first.shown ++ "' cannot be used with '" ++ second.shown ++ "'"]

end Assets.CommandLine
