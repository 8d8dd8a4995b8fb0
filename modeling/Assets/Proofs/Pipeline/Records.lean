import Assets.Pipeline

/-!
# The records of a file

All that the plugin chain leaves in the compile log it leaves in its own scope, whatever the
plugins are and however the run ends.
-/

namespace Assets

@[simp] theorem Event.records_append (events more : List Event) :
    records (events ++ more) = records events ++ records more :=
  List.filterMap_append

namespace Run

variable {α β : Type}

/-- Every record of a run has the given scope. -/
def LogsIn (scope : String) (run : Run α) : Prop :=
  ∀ record ∈ Event.records run.events, record.scope = scope

variable {scope : String}

theorem LogsIn.pure (a : α) : LogsIn scope (pure a : Run α) := by
  simp [LogsIn, Event.records]

theorem LogsIn.log (tag message : String) : LogsIn scope (log scope tag message) := by
  simp [LogsIn, Event.records, Run.log, emit]

theorem LogsIn.report (diagnostic : Diagnostic) : LogsIn scope (emit (.report diagnostic)) := by
  simp [LogsIn, Event.records, emit]

theorem LogsIn.bind {run : Run α} {next : α → Run β} (hrun : LogsIn scope run)
    (hnext : ∀ a, LogsIn scope (next a)) : LogsIn scope (run >>= next) := by
  rcases run with ⟨events, a | _ | _ | _⟩
  case value =>
    intro record hrecord
    simp only [bind_def, andThen, Event.records_append, List.mem_append] at hrecord
    exact hrecord.elim (hrun record) (hnext a record)
  all_goals exact hrun

end Run

namespace Pipeline

theorem logsIn_call {α : Type} (plugin : String) (request : Call) (answer : Answer α) :
    (call plugin request answer).LogsIn scope := by
  simp [Run.LogsIn, call, Event.records]

theorem logsIn_resolve (plugin : Plugin) (file : File) :
    (resolve plugin file).LogsIn scope := by
  unfold resolve
  cases plugin.resolver with
  | none => exact .pure none
  | some resolver =>
      refine .bind (logsIn_call _ _ _) fun answer => ?_
      cases nonEmpty? answer with
      | none => exact .pure none
      | some id => exact .bind (.log _ _) fun _ => .pure _

theorem logsIn_load (plugin : Plugin) (id : String) : (load plugin id).LogsIn scope := by
  unfold load
  cases plugin.loader with
  | none => exact .pure none
  | some loader =>
      refine .bind (logsIn_call _ _ _) fun answer => ?_
      cases nonEmpty? answer with
      | none => exact .pure none
      | some content => exact .bind (.log _ _) fun _ => .pure _

theorem logsIn_transform (plugin : Plugin) (file : File) :
    (transform plugin file).LogsIn scope := by
  unfold transform
  cases plugin.transformer with
  | none => exact .pure file
  | some transformer =>
      refine .bind (logsIn_call _ _ _) fun answer => ?_
      cases answer with
      | none => exact .pure file
      | some result => exact .bind (.log _ _) fun _ => .pure _

theorem logsIn_apply (plugin : Plugin) (file : File) : (apply plugin file).LogsIn scope := by
  refine .bind (logsIn_resolve plugin file) fun id? => ?_
  cases id? with
  | none => exact .pure file
  | some id => exact .bind (logsIn_load plugin id) fun content => logsIn_transform plugin _

theorem logsIn_applyAll (plugins : List Plugin) (file : File) :
    (applyAll plugins file).LogsIn scope := by
  induction plugins generalizing file with
  | nil => exact .pure file
  | cons plugin plugins ih => exact .bind (logsIn_apply plugin file) ih

/-- The records of a file all have the scope of the chain. -/
theorem logsIn_run (plugins : List Plugin) (overrides : Overrides) (file : File) :
    (run plugins overrides file).LogsIn scope := by
  refine .bind (.bind (.log _ _) fun _ => .report _) fun _ => ?_
  refine .bind (logsIn_applyAll _ file) fun result => ?_
  exact .bind (.bind (.log _ _) fun _ => .report _) fun _ => .pure result

end Pipeline

end Assets
