import Assets.File
import Assets.Log

/-!
# Runs

A run is what happens when one file goes through its plugins: the events in order, and how it
ends.  Time passes only where a capability waits, so the duration of a run is the sum of its
waits, and a run that hangs has no end at all.
-/

namespace Assets

inductive Outcome (α : Type) where
  | value (value : α)
  | failure (failure : Failure)
  /-- The computation broke off. -/
  | panic
  /-- The computation never ends. -/
  | hang
  deriving DecidableEq, Repr

namespace Outcome

variable {α β : Type}

/-- Changes the value, and how a failure reads. -/
def map (f : α → β) (wrap : Failure → Failure) : Outcome α → Outcome β
  | value a => .value (f a)
  | failure e => .failure (wrap e)
  | panic => .panic
  | hang => .hang

def succeeded : Outcome α → Bool
  | value _ => true
  | _ => false

end Outcome

/-- What a capability does before it ends. -/
inductive Effect where
  /-- Lets virtual time pass, in milliseconds. -/
  | wait (duration : Nat)
  | report (diagnostic : Diagnostic)
  /-- Leaves a mark for whoever watches the plugin. -/
  | mark (text : String)
  deriving DecidableEq, Repr

/-- What a capability is asked: an id to resolve, an id to load, or a file to transform. -/
inductive Call where
  | resolve (id : String)
  | load (id : String)
  | transform (file : File)
  deriving DecidableEq, Repr

namespace Call

def step : Call → Step
  | resolve _ => .resolve
  | load _ => .load
  | transform _ => .transform

def id : Call → String
  | resolve id => id
  | load id => id
  | transform file => file.name

end Call

/-- One thing that happens in a run. -/
inductive Event where
  | call (plugin : String) (request : Call)
  /-- A capability does something. -/
  | effect (effect : Effect)
  | log (record : LogRecord)
  | report (diagnostic : Diagnostic)
  deriving DecidableEq, Repr

namespace Event

/-- The time that an event takes. -/
def duration : Event → Nat
  | effect (.wait duration) => duration
  | _ => 0

/-- The compile log records among events. -/
def records (events : List Event) : List LogRecord :=
  events.filterMap fun
    | log record => some record
    | _ => none

def marks (events : List Event) : List String :=
  events.filterMap fun
    | effect (.mark text) => some text
    | _ => none

/-- The capability calls among events, each with the plugin that is called. -/
def calls (events : List Event) : List (String × Call) :=
  events.filterMap fun
    | call plugin request => some (plugin, request)
    | _ => none

/-- The diagnostics that events show, the compile log included. -/
def diagnostics (events : List Event) : List Diagnostic :=
  events.filterMap fun
    | log record => some record.toDiagnostic
    | report diagnostic => some diagnostic
    | effect (.report diagnostic) => some diagnostic
    | _ => none

end Event

/-- Events in order, and how they end. -/
structure Run (α : Type) where
  events : List Event
  outcome : Outcome α
  deriving DecidableEq, Repr

namespace Run

variable {α β : Type}

/-- Goes on with the value of a run, if it reaches one. -/
def andThen (run : Run α) (next : α → Run β) : Run β :=
  match run.outcome with
  | .value a => ⟨run.events ++ (next a).events, (next a).outcome⟩
  | .failure e => ⟨run.events, .failure e⟩
  | .panic => ⟨run.events, .panic⟩
  | .hang => ⟨run.events, .hang⟩

instance : Monad Run where
  pure a := ⟨[], .value a⟩
  bind := andThen

@[simp] theorem pure_events (a : α) : (pure a : Run α).events = [] := rfl

@[simp] theorem pure_outcome (a : α) : (pure a : Run α).outcome = .value a := rfl

theorem bind_def (run : Run α) (next : α → Run β) : run >>= next = run.andThen next := rfl

instance : LawfulMonad Run := LawfulMonad.mk' Run
  (by
    intro α run
    rcases run with ⟨events, _ | _ | _ | _⟩ <;> simp [Functor.map, andThen])
  (by
    intro α β a next
    simp [bind, andThen, pure])
  (by
    intro α β γ run next last
    rcases run with ⟨events, a | _ | _ | _⟩ <;> simp only [bind, andThen]
    rcases next a with ⟨more, b | _ | _ | _⟩ <;> simp [List.append_assoc])

def emit (event : Event) : Run Unit := ⟨[event], .value ()⟩

def log (scope tag message : String) : Run Unit := emit (.log ⟨scope, tag, message⟩)

/-- How long a run takes, if it ends. -/
def duration (run : Run α) : Nat := run.events.foldr (fun event time => event.duration + time) 0

def ends (run : Run α) : Bool :=
  match run.outcome with
  | .hang => false
  | _ => true

end Run

end Assets
