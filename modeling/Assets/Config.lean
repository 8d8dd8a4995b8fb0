import Assets.Plugin.Options
import Assets.Toml.Document

/-!
# Configuration

A configuration holds the options of the standard plugins and the defaults: renames of ids, and
content for renamed ids, either inline or by a directory.
-/

namespace Assets

/-- Overrides that a configuration asks for. -/
structure Defaults where
  /-- New ids by old ones. -/
  resolve : Dictionary String := []
  load : Dictionary String := []
  /-- The directory that contents are read from. -/
  loadDir : Option String := none
  deriving DecidableEq, Repr, Inhabited

structure Config where
  plugins : PluginOptions := {}
  defaults : Defaults := {}
  deriving DecidableEq, Repr, Inhabited

def Defaults.ofData (bounded : Bool) : Data → Except Mismatch Defaults :=
  Data.asRecord "Defaults" ["resolve", "load", "load_dir"] bounded {} fun defaults field value => do
    if field = "resolve" then return { defaults with resolve := ← value.asDictionary }
    else if field = "load" then return { defaults with load := ← value.asDictionary }
    else return { defaults with loadDir := some (← value.asText "path string") }

namespace Config

def ofData (bounded : Bool) : Data → Except Mismatch Config :=
  Data.asRecord "Config" ["plugins", "defaults"] bounded {} fun config field value => do
    if field = "plugins" then return { config with plugins := ← PluginOptions.ofData bounded value }
    else return { config with defaults := ← Defaults.ofData bounded value }

def parse (text : String) : Except ConfigFault Config :=
  match Toml.parse? text with
  | none => .error (.malformed none)
  | some data =>
    match ofData false data with
    | .ok config => .ok config
    | .error mismatch => .error (.malformed (some mismatch))

def standardPlugins (config : Config) : List Plugin := Assets.standardPlugins config.plugins

/-- The overrides of a configuration; `loadFrom` loads from a directory.  Contents cannot be given
both inline and by a directory. -/
def overrides (config : Config) (loadFrom : String → Loader) : Except ConfigFault Overrides :=
  let defaults := config.defaults
  let resolver := if defaults.resolve.isEmpty then none
    else some (Resolver.ofDictionary defaults.resolve)
  match defaults.load.isEmpty, defaults.loadDir with
  | false, some _ => .error .loadConflict
  | false, none => .ok ⟨resolver, some (Loader.ofDictionary defaults.load)⟩
  | true, some dir => .ok ⟨resolver, some (loadFrom dir)⟩
  | true, none => .ok ⟨resolver, none⟩

end Config

end Assets
