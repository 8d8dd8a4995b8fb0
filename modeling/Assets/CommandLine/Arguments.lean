import Assets.CommandLine.Grammar

/-!
# Arguments

Reading a line against its grammar.  A flag that takes a path takes it from behind `=`, from the
rest of a group of letters, or from the next argument that does not look like a flag.  After `--`
every argument fills a slot.  A parameter is settled only when the next one begins or the line
ends, so that of two mistakes the earlier one need not be the one reported.
-/

namespace Assets.CommandLine

inductive Stop where
  | misuse (misuse : Misuse)
  | help
  | version
  deriving DecidableEq, Repr

/-- The parameters of a line with their values, in the order in which they were settled. -/
abbrev Arguments := List (Parameter × Option String)

namespace Arguments

def isGiven (arguments : Arguments) (parameter : Parameter) : Bool :=
  arguments.any (·.1 = parameter)

def count (arguments : Arguments) (flag : Flag) : Nat :=
  arguments.countP (·.1 = .flag flag)

def flagValue? (arguments : Arguments) (flag : Flag) : Option String :=
  (arguments.lookup (.flag flag)).join

def slotValue? (arguments : Arguments) (slot : Slot) : Option String :=
  (arguments.lookup (.slot slot)).join

/-- Adds a parameter.  A value that is missing comes before a repetition, and that before an empty
value. -/
def add (arguments : Arguments) (parameter : Parameter) (value : Option String) :
    Except Stop Arguments :=
  match parameter with
  | .flag ⟨_, _, .help, _⟩ => .error .help
  | .flag ⟨_, _, .version, _⟩ => .error .version
  | _ =>
    if parameter.takesValue && value.isNone then .error (.misuse (.missingValue parameter))
    else if arguments.isGiven parameter && !parameter.isRepeatable then
      .error (.misuse (.repeated parameter))
    else if value == some "" && !parameter.acceptsEmpty then
      .error (.misuse (.missingValue parameter))
    else .ok (arguments ++ [(parameter, value)])

/-- The first parameter that excludes another one, with that one. -/
def conflict? (grammar : Grammar) (arguments : Arguments) : Option (Parameter × Parameter) :=
  arguments.findSome? fun first =>
    (arguments.find? fun second => grammar.excludes first.1 second.1).map fun second =>
      (first.1, second.1)

def check (grammar : Grammar) (arguments : Arguments) : Except Stop Arguments :=
  match arguments.conflict? grammar with
  | some (first, second) => .error (.misuse (.conflict first second))
  | none =>
    match grammar.required.filter fun p => !arguments.isGiven p with
    | [] => .ok arguments
    | missing => .error (.misuse (.missingParameters missing))

end Arguments

/-- A line that has been read up to some argument. -/
structure Progress where
  settled : Arguments := []
  /-- The latest parameter that takes a value, with the value if it is there. -/
  pending : Option (Parameter × Option String) := none
  filled : Nat := 0
  /-- Whether `--` has been met. -/
  trailing : Bool := false
  deriving DecidableEq, Repr

namespace Progress

/-- Whether the next argument is the value of a flag, unless it looks like a flag itself. -/
def awaits (progress : Progress) : Option Parameter :=
  match progress.pending with
  | some (parameter, none) => some parameter
  | _ => none

/-- Settles the parameter that is pending. -/
def settle (progress : Progress) : Except Stop Progress :=
  match progress.pending with
  | none => .ok progress
  | some (parameter, value) => do
    return { progress with settled := ← progress.settled.add parameter value, pending := none }

def give (progress : Progress) (parameter : Parameter) (value : Option String) :
    Except Stop Progress := do
  let progress ← progress.settle
  return { progress with settled := ← progress.settled.add parameter value }

def await (progress : Progress) (parameter : Parameter) (value : Option String) :
    Except Stop Progress := do
  return { ← progress.settle with pending := some (parameter, value) }

/-- Reads what stands behind `--`: a name, and perhaps a value behind `=`. -/
def long (grammar : Grammar) (progress : Progress) (body : List Char) : Except Stop Progress :=
  let name := String.ofList (body.takeWhile (· ≠ '='))
  let value := match body.dropWhile (· ≠ '=') with
    | [] => none
    | _ :: value => some (String.ofList value)
  match grammar.flagNamed? name with
  | none => .error (.misuse (.unexpectedArgument ("--" ++ name)))
  | some flag =>
    let parameter := Parameter.flag flag
    match parameter.takesValue, value with
    | true, none => progress.await parameter none
    | true, some value => progress.give parameter (some value)
    | false, none => progress.give parameter none
    | false, some value => .error (.misuse (.unexpectedValue value parameter))

/-- Reads a group of letters behind `-`.  The first that takes a value takes the rest of the
group for it. -/
def letters (grammar : Grammar) (progress : Progress) : List Char → Except Stop Progress
  | [] => .ok progress
  | letter :: rest =>
    match grammar.flagLettered? letter with
    | none => .error (.misuse (.unexpectedArgument (String.ofList ['-', letter])))
    | some flag =>
      let parameter := Parameter.flag flag
      if parameter.takesValue then
        match rest with
        | [] => progress.await parameter none
        | '=' :: value => progress.give parameter (some (String.ofList value))
        | value => progress.give parameter (some (String.ofList value))
      else do letters grammar (← progress.give parameter none) rest

def fill (grammar : Grammar) (progress : Progress) (argument : String) : Except Stop Progress :=
  match grammar.slots[progress.filled]? with
  | some slot => do
    let progress ← progress.await (.slot slot) (some argument)
    return { progress with filled := progress.filled + 1 }
  | none =>
    if grammar.commands.isEmpty || (progress.trailing && argument ∈ grammar.commands) then
      .error (.misuse (.unexpectedArgument argument))
    else .error (.misuse (.unknownCommand argument))

def take (grammar : Grammar) (progress : Progress) (argument : String) : Except Stop Progress :=
  if progress.trailing then progress.fill grammar argument
  else match argument.toList with
    | ['-', '-'] => .ok { progress with trailing := true }
    | '-' :: '-' :: body => progress.long grammar body
    | '-' :: letter :: rest => progress.letters grammar (letter :: rest)
    | _ =>
      match progress.awaits with
      | some parameter => .ok { progress with pending := some (parameter, some argument) }
      | none => progress.fill grammar argument

/-- Reads a line up to its end, or to a command: its name, and the arguments after it. -/
def scan (grammar : Grammar) : Progress → List String →
    Except Stop (Progress × Option (String × List String))
  | progress, [] => .ok (progress, none)
  | progress, argument :: rest =>
    if !progress.trailing && progress.awaits.isNone && argument ∈ grammar.commands then
      .ok (progress, some (argument, rest))
    else do scan grammar (← progress.take grammar argument) rest

end Progress

/-- Reads a whole line of a grammar without commands. -/
def Arguments.read (grammar : Grammar) (line : List String) : Except Stop Arguments := do
  let (progress, _) ← Progress.scan grammar {} line
  (← progress.settle).settled.check grammar

end Assets.CommandLine
