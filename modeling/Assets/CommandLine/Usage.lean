import Assets.CommandLine.Request

/-!
# Usage

The text that tells how a command is used.
-/

namespace Assets.CommandLine

def about : String := "virtual file set compiler"

def versionLine : String := "bundle-cli 0.1.0-alpha"

def Verb.about : Verb → String
  | pack => "Serialize a directory into a blob"
  | unpack => "Write the files of a blob into a directory"
  | hash => "Print the canonical hash of a blob"
  | compile => "Compile a directory or blob through the plugin chain"
  | install => "Install a package (not implemented)"

def padded (width : Nat) (text : String) : String :=
  text ++ String.ofList (List.replicate (width - text.length) ' ')

def Flag.usage (flag : Flag) : String :=
  (match flag.short with
    | some letter => "  " ++ String.ofList ['-', letter] ++ ", "
    | none => "      ") ++ (Parameter.flag flag).shown

def optionLines (flags : List Flag) : List String := "" :: "Options:" :: flags.map Flag.usage

/-- How the program is used, or one of its commands. -/
def usage : Option Verb → List String
  | none =>
    [about, "", "Usage: bundle [OPTIONS] <COMMAND>", "", "Commands:"] ++
      (Verb.all.map fun verb => "  " ++ padded 9 verb.name ++ verb.about) ++
      ["  " ++ padded 9 helpCommand ++
        "Print this message or the help of the given subcommand(s)"] ++
      optionLines mainGrammar.flags
  | some verb =>
    let grammar := verb.grammar
    let needed := (grammar.flags.filter (·.required)).map fun f => " " ++ (Parameter.flag f).shown
    let slots := grammar.slots.map fun s => " " ++ (Parameter.slot s).shown
    [verb.about, "",
      "Usage: bundle " ++ verb.name ++ " [OPTIONS]" ++ String.join (needed ++ slots)] ++
      optionLines grammar.flags

end Assets.CommandLine
