import Assets.Archive
import Assets.Pipeline

/-!
# Batches

A batch compiles every file of a set at once, one run a file.  The runs share nothing but the
compile log, and all of them start at time zero.  Results are taken in the order in which the runs
end, runs that end at one instant in the order of their files.  The first failure is the outcome
of the batch, and it is known as soon as that run ends: a run that takes longer or hangs is not
waited for, but goes on to its own end.
-/

namespace Assets

/-- An event of a batch: when it happens, and in the run of which file, if of any. -/
structure Moment where
  time : Nat
  file : Option Nat
  event : Event
  deriving DecidableEq, Repr

/-- The events of a run with their times, from a given time on. -/
def Moment.stamp (file : Option Nat) : (time : Nat) → List Event → List Moment
  | _, [] => []
  | time, event :: events =>
    let time := time + event.duration
    ⟨time, file, event⟩ :: stamp file time events

namespace Batch

/-- The scope of the records that a batch leaves. -/
def scope : String := "compile"

/-- The failure of a batch in which a run broke off. -/
def unfinished : Failure := .other "Compile task did not finish"

/-- The runs that end, in the order in which they end. -/
def finished {α : Type} (runs : List (Run α)) : List (Run α) :=
  (runs.filter Run.ends).mergeSort fun a b => a.duration ≤ b.duration

/-- The values of runs in order, or the first failure among them. -/
def collect {α : Type} : List (Run α) → Except Failure (List α)
  | [] => .ok []
  | run :: runs =>
    match run.outcome with
    | .value a => (collect runs).map (a :: ·)
    | .failure e => .error e
    | .panic => .error unfinished
    | .hang => collect runs

/-- How a batch ends.  Without a failure it waits for every run. -/
def outcome {α : Type} (runs : List (Run α)) : Outcome (List α) :=
  match collect (finished runs) with
  | .error e => .failure e
  | .ok values => if runs.all Run.ends then .value values else .hang

/-- The run whose failure ends the batch. -/
def culprit? {α : Type} (runs : List (Run α)) : Option (Run α) :=
  (finished runs).find? fun run => !run.outcome.succeeded

/-- When a batch ends. -/
def elapsed {α : Type} (runs : List (Run α)) : Nat :=
  match culprit? runs with
  | some run => run.duration
  | none => (runs.map Run.duration).foldl max 0

/-- How many runs are not waited for once a failure is known. -/
def abandoned {α : Type} (runs : List (Run α)) : Nat :=
  runs.length - 1 - ((finished runs).takeWhile (·.outcome.succeeded)).length

/-- The events of all runs, in the order of time. -/
def moments {α : Type} (runs : List (Run α)) : List Moment :=
  (runs.zipIdx.flatMap fun (run, i) => Moment.stamp (some i) 0 run.events).mergeSort
    fun a b => a.time ≤ b.time

end Batch

/-- A compiled batch: its outcome, when it was known, and every event through the end of the last
run. -/
structure Compilation where
  outcome : Outcome FileSet
  elapsed : Nat
  moments : List Moment
  deriving DecidableEq, Repr

namespace Compilation

def events (compilation : Compilation) : List Event := compilation.moments.map (·.event)

/-- The compiled files, sealed. -/
def archive (compilation : Compilation) : Outcome Archive :=
  compilation.outcome.map Archive.ofFiles fun e => e

/-- The events up to the instant at which the outcome was known. -/
def eventsAtReturn (compilation : Compilation) : List Event :=
  (compilation.moments.filter (·.time ≤ compilation.elapsed)).map (·.event)

end Compilation

namespace Batch

/-- A record of the batch itself. -/
def record (time : Nat) (tag : String) (count : Nat) : Moment :=
  ⟨time, none, .log ⟨scope, tag, toString count ++ " files"⟩⟩

/-- The batch that the given runs make. -/
def ofRuns (runs : List (Run File)) : Compilation :=
  let elapsed := elapsed runs
  let outcome := outcome runs
  let start := record 0 "start" runs.length
  let during := moments runs
  let all := match outcome with
    | .value compiled => during ++ [record elapsed "done" compiled.length]
    | .failure e =>
      during.filter (·.time ≤ elapsed) ++
        ⟨elapsed, none, .report ⟨.debug, "File failed, detaching the rest of the batch",
          [("error", e.message), ("remaining", toString (abandoned runs))]⟩⟩ ::
        during.filter (elapsed < ·.time)
    | _ => during
  ⟨outcome, elapsed, start :: all⟩

def compile (plugins : List Plugin) (overrides : Overrides) (files : FileSet) : Compilation :=
  ofRuns (files.map (Pipeline.run plugins overrides))

/-- Compiles the files of a blob. -/
def compileBlob (plugins : List Plugin) (overrides : Overrides) (blob : String) : Compilation :=
  compile plugins overrides (Archive.ofBlob blob).files

end Batch

end Assets
