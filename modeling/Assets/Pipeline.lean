import Assets.Plugin.Basic

/-!
# The plugin chain

A file is threaded once through the overrides and then through every registered plugin, in order.
Each plugin sees the file as the plugins before it left it.  A plugin that does not resolve the
name of the file leaves the file alone; there is no second pass.
-/

namespace Assets

/-- An empty text counts as no text. -/
def nonEmpty? : Option String → Option String
  | some text => if text.isEmpty then none else some text
  | none => none

namespace Pipeline

variable {α : Type}

def scope : String := "compile_file"

/-- Calls a capability.  A failure is reported with the plugin, the step and the id. -/
def call (plugin : String) (request : Call) (answer : Answer α) : Run α :=
  ⟨.call plugin request :: answer.effects.map .effect,
    answer.outcome.map (fun a => a) (.plugin plugin request.step request.id)⟩

/-- Resolves a file to an id, if the plugin claims the file. -/
def resolve (plugin : Plugin) (file : File) : Run (Option String) := do
  match plugin.resolver with
  | none => return none
  | some resolver =>
    match nonEmpty? (← call plugin.name (.resolve file.name) (resolver file.name)) with
    | none => return none
    | some id =>
      Run.log scope "resolve_id" (file.name ++ " -> " ++ id ++ " (" ++ plugin.name ++ ")")
      return some id

def load (plugin : Plugin) (id : String) : Run (Option String) := do
  match plugin.loader with
  | none => return none
  | some loader =>
    match nonEmpty? (← call plugin.name (.load id) (loader id)) with
    | none => return none
    | some content =>
      Run.log scope "load" id
      return some content

def transform (plugin : Plugin) (file : File) : Run File := do
  match plugin.transformer with
  | none => return file
  | some transformer =>
    match ← call plugin.name (.transform file) (transformer file) with
    | none => return file
    | some result =>
      Run.log scope "transform" (file.name ++ " -> " ++ result.name ++ " (" ++ plugin.name ++ ")")
      return result

/-- Takes a file through one plugin. -/
def apply (plugin : Plugin) (file : File) : Run File := do
  match ← resolve plugin file with
  | none => return file
  | some id =>
    let content ← load plugin id
    transform plugin ⟨id, content.getD file.content⟩

/-- Takes a file through plugins in order. -/
def applyAll : List Plugin → File → Run File
  | [], file => pure file
  | plugin :: plugins, file => do applyAll plugins (← apply plugin file)

/-- What a file leaves before it meets its plugins. -/
def opening (file : File) : Run Unit := do
  Run.log scope "start" file.name
  Run.emit (.report ⟨.trace, "Compiling file", [("file", file.name), ("content", file.content)]⟩)

/-- What a file leaves when it has met them all. -/
def closing (result : File) : Run Unit := do
  Run.log scope "done" result.name
  Run.emit (.report
    ⟨.trace, "Compiled file", [("file", result.name), ("content", result.content)]⟩)

/-- Compiles one file. -/
def run (plugins : List Plugin) (overrides : Overrides) (file : File) : Run File := do
  opening file
  let result ← applyAll (overrides.plugin :: plugins) file
  closing result
  return result

end Pipeline

end Assets
