import Assets.Proofs.Pipeline.Outcome

/-!
# Tasks, one step at a time

`Pipeline.run` takes a file through its plugins in one go.  Among other tasks a file gets there in
steps, between which anything may happen elsewhere.  `Control` says what a task is about to do: it
begins, meets the next plugin, lets that plugin load content, lets it transform the file, or is
over.  An action calls one capability at most, and its answer decides where the task goes on.  What
an action does is not done at once either: its events wait in the queue of the task and happen one
by one.

The two accounts agree.  `remaining` is the run that is still ahead of a task, and no action
changes what a task does altogether (`remaining_eq`, `rest_step`):

```text
rest of the task = events of the step, followed by the rest afterwards
```

Left to itself a task gets to its next event (`runs_emit`), and when no event is left it gets to
its end (`runs_stop`); `Control.size` counts how many actions can be ahead of it.
-/

namespace Assets.Batch

/-- What a task is about to do. -/
inductive Control where
  | begin (file : File)
  /-- The file meets the plugins that are left. -/
  | meet (left : List Plugin) (file : File)
  /-- The plugin has resolved the file to an id, and may load content for it. -/
  | load (plugin : Plugin) (id : String) (left : List Plugin) (file : File)
  /-- The plugin may transform the file that it has resolved. -/
  | transform (plugin : Plugin) (left : List Plugin) (file : File)
  | stop (outcome : Outcome File)

namespace Control

/-- Where a task goes on after an action.  An action without a value is the last one. -/
def after : Outcome Control → Control
  | .value control => control
  | .failure e => stop (.failure e)
  | .panic => stop .panic
  | .hang => stop .hang

variable (plugins : List Plugin) (overrides : Overrides)

/-- What a task does next, and where it goes on. -/
def action : Control → Run Control
  | begin file => do
    Pipeline.opening file
    return meet (overrides.plugin :: plugins) file
  | meet [] file => do
    Pipeline.closing file
    return stop (.value file)
  | meet (plugin :: left) file => do
    match ← Pipeline.resolve plugin file with
    | none => return meet left file
    | some id => return load plugin id left file
  | load plugin id left file => do
    let content ← Pipeline.load plugin id
    return transform plugin left ⟨id, content.getD file.content⟩
  | transform plugin left file => do
    let result ← Pipeline.transform plugin file
    return meet left result
  | stop outcome => pure (stop outcome)

/-- The end of a run, from the plugins that are left. -/
def finish (left : List Plugin) (file : File) : Run File := do
  let result ← Pipeline.applyAll left file
  Pipeline.closing result
  return result

/-- The run that is still ahead of a task. -/
def remaining : Control → Run File
  | begin file => Pipeline.run plugins overrides file
  | meet left file => finish left file
  | load plugin id left file => do
    let content ← Pipeline.load plugin id
    let result ← Pipeline.transform plugin ⟨id, content.getD file.content⟩
    finish left result
  | transform plugin left file => do
    let result ← Pipeline.transform plugin file
    finish left result
  | stop outcome => ⟨[], outcome⟩

variable {plugins overrides}

/-- Meeting a plugin ahead of others: the actions of resolving, loading and transforming. -/
theorem finish_cons (plugin : Plugin) (left : List Plugin) (file : File) :
    finish (plugin :: left) file =
      action plugins overrides (meet (plugin :: left) file) >>= remaining plugins overrides := by
  simp only [finish, Pipeline.applyAll, Pipeline.apply, action, bind_assoc]
  refine bind_congr fun id? => ?_
  cases id? with
  | none => simp [remaining, finish]
  | some id => simp [remaining, finish]

variable (plugins overrides) in
/-- An action is the beginning of what was ahead. -/
theorem remaining_eq (control : Control) :
    remaining plugins overrides control =
      control.action plugins overrides >>= remaining plugins overrides := by
  cases control with
  | begin file => simp [remaining, action, Pipeline.run, finish]
  | meet left file =>
      cases left with
      | nil =>
          simp only [remaining, action, finish, Pipeline.applyAll, pure_bind, bind_assoc]
          rfl
      | cons plugin left => exact finish_cons plugin left file
  | load plugin id left file => simp [remaining, action]
  | transform plugin left file => simp [remaining, action]
  | stop outcome => simp [remaining, action]

/-- Going on from an action is what is left of its run. -/
theorem bind_remaining (run : Run Control) :
    run >>= remaining plugins overrides =
      ⟨run.events ++ (remaining plugins overrides (after run.outcome)).events,
        (remaining plugins overrides (after run.outcome)).outcome⟩ := by
  rcases run with ⟨events, control | e | _ | _⟩ <;>
    simp [Run.bind_def, Run.andThen, after, remaining]

/-! ## How many actions can be ahead -/

/-- A bound on the actions that are ahead of a task: three for a plugin. -/
def size (plugins : List Plugin) : Control → Nat
  | begin _ => 3 * (plugins.length + 1) + 2
  | meet left _ => 3 * left.length + 1
  | load _ _ left _ => 3 * left.length + 3
  | transform _ left _ => 3 * left.length + 2
  | stop _ => 0

theorem size_after_bind_lt {α : Type} {n : Nat} {run : Run α} {next : α → Run Control}
    (hn : 0 < n) (h : ∀ a, size plugins (after (next a).outcome) < n) :
    size plugins (after (run >>= next).outcome) < n := by
  rw [Run.outcome_bind]
  cases run.outcome with
  | value a => exact h a
  | failure e => exact hn
  | panic => exact hn
  | hang => exact hn

/-- Every action leaves fewer actions ahead. -/
theorem size_after_action_lt {control : Control} (h : ∀ outcome, control ≠ stop outcome) :
    size plugins (after (control.action plugins overrides).outcome) < size plugins control := by
  cases control with
  | stop outcome => exact absurd rfl (h outcome)
  | begin file => exact size_after_bind_lt (by simp [size]) fun _ => by simp [after, size]
  | load plugin id left file =>
      exact size_after_bind_lt (by simp [size]) fun content => by simp [after, size]
  | transform plugin left file =>
      exact size_after_bind_lt (by simp [size]) fun result => by simp [after, size]
  | meet left file =>
      cases left with
      | nil => exact size_after_bind_lt (by simp [size]) fun _ => by simp [after, size]
      | cons plugin left =>
          refine size_after_bind_lt (by simp [size]) fun id? => ?_
          cases id? with
          | none => simp [after, size]
          | some id =>
              show 3 * left.length + 3 < 3 * (left.length + 1) + 1
              omega

end Control

/-! ## Steps of a task -/

/-- A task: the events that it has still to show, and what it does after them. -/
structure Task where
  queue : List Event
  control : Control

namespace Task

/-- How a task ended, once it has. -/
def outcome? : Task → Option (Outcome File)
  | ⟨[], .stop outcome⟩ => some outcome
  | _ => none

variable (plugins : List Plugin) (overrides : Overrides)

/-- One step: the first event of the queue happens, or else the next action fills the queue. -/
def step : Task → List Event × Task
  | ⟨event :: queue, control⟩ => ([event], ⟨queue, control⟩)
  | ⟨[], control⟩ =>
    let run := control.action plugins overrides
    ([], ⟨run.events, .after run.outcome⟩)

/-- The run that is still ahead of a task. -/
def rest (task : Task) : Run File :=
  let run := task.control.remaining plugins overrides
  ⟨task.queue ++ run.events, run.outcome⟩

/-- What a task does when nothing holds it up: the events of its steps. -/
inductive Runs : Task → List Event → Task → Prop
  | refl (task : Task) : Runs task [] task
  | step {task last : Task} {events : List Event} (hgo : task.outcome? = none)
      (hrest : Runs (task.step plugins overrides).2 events last) :
      Runs task ((task.step plugins overrides).1 ++ events) last

variable {plugins overrides}

theorem rest_of_outcome {task : Task} {outcome : Outcome File}
    (h : task.outcome? = some outcome) : task.rest plugins overrides = ⟨[], outcome⟩ := by
  rcases task with ⟨_ | ⟨event, queue⟩, control⟩
  · cases control <;> simp_all [outcome?, rest, Control.remaining]
  · simp [outcome?] at h

/-- What a task does altogether does not change with its steps. -/
theorem rest_step (task : Task) :
    task.rest plugins overrides =
      ⟨(task.step plugins overrides).1 ++
          ((task.step plugins overrides).2.rest plugins overrides).events,
        ((task.step plugins overrides).2.rest plugins overrides).outcome⟩ := by
  rcases task with ⟨_ | ⟨event, queue⟩, control⟩
  · have hrest := control.remaining_eq plugins overrides
    rw [Control.bind_remaining] at hrest
    simp only [rest, step, List.nil_append]
    rw [hrest]
  · simp [rest, step]

theorem control_ne_stop {control : Control} (h : outcome? ⟨[], control⟩ = none) :
    ∀ outcome, control ≠ .stop outcome := by
  rintro outcome rfl
  simp [outcome?] at h

theorem Runs.trans {first second third : Task} {events more : List Event}
    (hfirst : Runs plugins overrides first events second)
    (hsecond : Runs plugins overrides second more third) :
    Runs plugins overrides first (events ++ more) third := by
  induction hfirst with
  | refl => exact hsecond
  | step hgo _ ih =>
      rw [List.append_assoc]
      exact .step hgo (ih hsecond)

/-- What a task had ahead is what it has shown since and what it has ahead now. -/
theorem Runs.rest_eq {task last : Task} {events : List Event}
    (hruns : Runs plugins overrides task events last) :
    task.rest plugins overrides =
      ⟨events ++ (last.rest plugins overrides).events, (last.rest plugins overrides).outcome⟩ := by
  induction hruns with
  | refl => rfl
  | step _ _ ih => rw [rest_step, ih, List.append_assoc]

variable (plugins overrides) in
/-- Without showing anything a task gets to its next event or to its end. -/
theorem runs_silent (task : Task) :
    ∃ next, Runs plugins overrides task [] next ∧
      (next.queue ≠ [] ∨ ∃ outcome, next.outcome? = some outcome) := by
  -- an empty queue is filled by an action, of which there can be `size` many
  obtain ⟨queue, control⟩ := task
  induction hsize : control.size plugins using Nat.strongRecOn generalizing queue control with
  | ind n ih =>
      cases queue with
      | cons event queue => exact ⟨_, .refl _, .inl (by simp)⟩
      | nil =>
          cases hgo : outcome? ⟨[], control⟩ with
          | some outcome => exact ⟨_, .refl _, .inr ⟨outcome, hgo⟩⟩
          | none =>
              have hlt :
                  (Control.after (control.action plugins overrides).outcome).size plugins < n :=
                hsize ▸ Control.size_after_action_lt (control_ne_stop hgo)
              obtain ⟨next, hruns, hnext⟩ := ih _ hlt _ _ rfl
              exact ⟨next, .step hgo hruns, hnext⟩

/-- A task that has an event ahead gets to it. -/
theorem runs_emit {task : Task} {event : Event} {events : List Event}
    (h : (task.rest plugins overrides).events = event :: events) :
    ∃ next, Runs plugins overrides task [event] next ∧
      next.rest plugins overrides = ⟨events, (task.rest plugins overrides).outcome⟩ := by
  obtain ⟨⟨queue, control⟩, hruns, hnext⟩ := runs_silent plugins overrides task
  rw [hruns.rest_eq] at h ⊢
  cases queue with
  | nil =>
      obtain ⟨outcome, hended⟩ := hnext.resolve_left (by simp)
      simp [rest_of_outcome hended] at h
  | cons shown queue =>
      obtain ⟨rfl, hevents⟩ : shown = event ∧
          queue ++ (control.remaining plugins overrides).events = events := by
        simpa [rest] using h
      refine ⟨⟨queue, control⟩, hruns.trans (.step rfl (.refl _)), ?_⟩
      simp [rest, hevents]

/-- A task that has no event ahead gets to its end. -/
theorem runs_stop {task : Task} (h : (task.rest plugins overrides).events = []) :
    ∃ next, Runs plugins overrides task [] next ∧
      next.outcome? = some (task.rest plugins overrides).outcome := by
  obtain ⟨next, hruns, hnext⟩ := runs_silent plugins overrides task
  have hqueue : next.queue = [] := by
    rw [hruns.rest_eq, List.nil_append] at h
    exact (List.append_eq_nil_iff.mp h).1
  obtain ⟨outcome, hended⟩ := hnext.resolve_left (absurd hqueue)
  refine ⟨next, hruns, ?_⟩
  rw [hruns.rest_eq, rest_of_outcome hended, hended]

variable (plugins overrides) in
/-- Nothing but its own steps is needed for a task to come to its end. -/
theorem runs_rest (task : Task) :
    ∃ last, Runs plugins overrides task (task.rest plugins overrides).events last ∧
      last.outcome? = some (task.rest plugins overrides).outcome := by
  induction hevents : (task.rest plugins overrides).events generalizing task with
  | nil => exact runs_stop hevents
  | cons event events ih =>
      obtain ⟨next, hnext, hrest⟩ := runs_emit hevents
      obtain ⟨last, hlast, hended⟩ := ih next (by rw [hrest])
      refine ⟨last, hnext.trans hlast, ?_⟩
      rw [hended, hrest]

end Task

end Assets.Batch
