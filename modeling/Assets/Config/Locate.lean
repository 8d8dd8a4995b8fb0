import Assets.Config
import Assets.Disk.Operations
import Assets.Log
import Assets.Plugin.Directory
import Assets.Report

/-!
# Finding the configuration

A configuration file that is asked for must exist.  Otherwise the one in the working directory is
taken, then the one in the user's directory for configuration, then the default configuration.
-/

namespace Assets.Config

def localPath : Path := Path.ofString "bundle.toml"

def userPath (directory : Path) : Path :=
  (directory.join (Path.ofString "bundle")).join (Path.ofString "config.toml")

def accept (path : Path) (text : String) : Except Report Config :=
  match parse text with
  | .ok config => .ok config
  | .error fault => .error ⟨some (.acceptConfig path), .failure (.config fault)⟩

def load (disk : Disk) (path : Path) : Except Report Config :=
  match disk.readText path with
  | .ok text => accept path text
  | .error fault => .error ⟨some (.readConfig path), .disk fault⟩

def usingDefault (reason : String) : Diagnostic :=
  ⟨.info, reason ++ " Using default config.", []⟩

/-- Reads the configuration of a user, which need not exist. -/
def loadUser (disk : Disk) (directory : Option Path) : List Diagnostic × Except Report Config :=
  match directory with
  | none =>
    ([usingDefault "Could not determine OS-specific config directory."], .ok {})
  | some directory =>
    let path := userPath directory
    match disk.readText path with
    | .error .notFound =>
      ([usingDefault ("No config file found at " ++ path.toShown ++ ".")], .ok {})
    | .ok text => ([], accept path text)
    | .error fault => ([], .error ⟨some (.readConfig path), .disk fault⟩)

/-- Finds the configuration, and says where none was found.  `directory` is the user's directory
for configuration, if there is one. -/
def locate (disk : Disk) (directory explicit : Option Path) :
    List Diagnostic × Except Report Config :=
  match explicit with
  | some path => ([], load disk path)
  | none =>
    if disk.contains localPath then ([], load disk localPath) else loadUser disk directory

/-- The overrides of a configuration whose contents come from a disk. -/
def overridesOn (config : Config) (disk : Disk) : Except ConfigFault Overrides :=
  config.overrides fun directory => Loader.ofDirectory disk (Path.ofString directory)

end Assets.Config
