import Assets.Plugin.Basic

/-!
# Staged capabilities

A capability can be staged: on the ids that a script names it takes its time, hangs, panics or
fails, and on every call it leaves a mark when it is entered and another when it has answered.
-/

namespace Assets

/-- An ending in place of an answer. -/
inductive Interruption where
  | hang
  | panic
  deriving DecidableEq, Repr

/-- What happens on which id. -/
structure Script where
  delays : List (String × Nat) := []
  interruptions : List (String × Interruption) := []
  /-- Failures by id; the id `*` stands for every id that has no failure of its own. -/
  failures : List (String × Failure) := []

namespace Script

variable {α : Type}

def failure? (script : Script) (id : String) : Option Failure :=
  (script.failures.lookup id).or (script.failures.lookup "*")

/-- Stages an answer.  The delay comes first, then a hang or a panic, then a failure; only an
answer that gets past them is marked as done. -/
def stage (script : Script) (mark id : String) (answer : Answer α) : Answer α :=
  let entry := Effect.mark mark :: ((script.delays.lookup id).map Effect.wait).toList
  match script.interruptions.lookup id with
  | some .hang => ⟨entry, .hang⟩
  | some .panic => ⟨entry, .panic⟩
  | none =>
    match script.failure? id with
    | some failure => ⟨entry, .failure failure⟩
    | none => ⟨entry ++ answer.effects ++ [.mark (mark ++ " done")], answer.outcome⟩

def callMark (plugin : String) (step : Step) (id : String) : String :=
  plugin ++ "." ++ step.name ++ "(" ++ id ++ ")"

def resolver (script : Script) (plugin : String) (resolve : Resolver) : Resolver :=
  fun id => script.stage (callMark plugin .resolve id) id (resolve id)

def loader (script : Script) (plugin : String) (load : Loader) : Loader :=
  fun id => script.stage (callMark plugin .load id) id (load id)

/-- Stages a transformer, by the name of the file. -/
def transformer (script : Script) (plugin : String) (transform : Transformer) : Transformer :=
  fun file => script.stage (callMark plugin .transform file.name) file.name (transform file)

end Script

end Assets
