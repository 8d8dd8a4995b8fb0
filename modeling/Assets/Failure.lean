import Assets.Disk.Fault
import Assets.Json.Fault

/-!
# Failures

The causes for which encoding or compiling a file set fails, with their wording.
-/

namespace Assets

/-- The capabilities of a plugin, in the order in which a file meets them. -/
inductive Step where
  | resolve
  | load
  | transform
  deriving DecidableEq, Repr

def Step.name : Step → String
  | resolve => "resolve_id"
  | load => "load"
  | transform => "transform"

inductive ConfigFault where
  /-- The configuration text is malformed, or its structure is not that of a configuration. -/
  | malformed (mismatch : Option Mismatch)
  /-- Contents are given both inline and by a directory. -/
  | loadConflict
  | custom (message : String)
  deriving DecidableEq, Repr

/-- The wording of a configuration fault; what the format itself has to say is left out. -/
def ConfigFault.message : ConfigFault → String
  | malformed _ => "Failed to parse config TOML:"
  | loadConflict => "`defaults.load` and `defaults.load_dir` cannot be used together"
  | custom message => message

inductive Failure where
  | plugin (plugin : String) (step : Step) (file : String) (source : Failure)
  /-- A name or content holds the character that separates fields. -/
  | separator (name : String)
  | emptyName
  | emptyContent (name : String)
  | duplicateName (name : String)
  | config (fault : ConfigFault)
  | json (fault : Json.Fault)
  | disk (fault : Disk.Fault)
  | other (message : String)
  deriving DecidableEq, Repr

def Failure.message : Failure → String
  | plugin p step file _ =>
    "Plugin `" ++ p ++ "` failed during " ++ step.name ++ " of `" ++ file ++ "`"
  | separator name => "File `" ++ name ++ "` contains a reserved separator and cannot be encoded"
  | emptyName => "File set contains a file with an empty name"
  | emptyContent name => "File `" ++ name ++ "` has no content and would be dropped when decoded"
  | duplicateName name => "File set contains `" ++ name ++ "` more than once"
  | config fault => "Error in configuration: " ++ fault.message
  | json fault => fault.message
  | disk fault => fault.message
  | other message => message

end Assets
