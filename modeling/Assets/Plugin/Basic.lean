import Assets.File
import Assets.Run

/-!
# Plugins

A plugin has up to three capabilities: it resolves the id of a file, loads content for a resolved
id, and transforms a file.  A capability answers with what it does and how it ends.  A plugin
without a resolver never runs.

A capability sees its argument only, and it cannot write to the compile log.  The real capabilities
are handed the context of the run, with the log in it, but none of the plugins logs anything: all
records in the log are those of the chain and of the batch.
-/

namespace Assets

/-- What a capability does, and how it ends. -/
structure Answer (α : Type) where
  effects : List Effect
  outcome : Outcome α
  deriving DecidableEq, Repr

namespace Answer

variable {α : Type}

/-- Answers at once. -/
def value (a : α) : Answer α := ⟨[], .value a⟩

/-- Fails at once. -/
def failure (e : Failure) : Answer α := ⟨[], .failure e⟩

end Answer

/-- The id under which a file goes on, if the plugin claims the file. -/
abbrev Resolver := String → Answer (Option String)

/-- Content for a resolved id, if there is any. -/
abbrev Loader := String → Answer (Option String)

/-- The file in place of the given one, if there is one. -/
abbrev Transformer := File → Answer (Option File)

/-- A named set of capabilities. -/
structure Plugin where
  name : String
  resolver : Option Resolver := none
  loader : Option Loader := none
  transformer : Option Transformer := none

/-- Capabilities that run ahead of every registered plugin; the loader counts only beside a
resolver. -/
structure Overrides where
  resolver : Option Resolver := none
  loader : Option Loader := none

/-- The plugin made of the overrides.  It never transforms. -/
def Overrides.plugin (overrides : Overrides) : Plugin :=
  ⟨"default", overrides.resolver, overrides.loader, none⟩

end Assets
