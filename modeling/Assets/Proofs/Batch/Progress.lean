import Mathlib.Logic.Relation
import Assets.Proofs.Batch.Outcome
import Assets.Proofs.Batch.Task
import Assets.Proofs.Pipeline.Records

/-!
# A batch, one step at a time

The tasks of a batch run beside one another and share the compile log.  `Step` lets any task take
its next step at any time, also after the batch has returned.  A task that has ended is put up for
collection, and the collector takes the results in the order in which the tasks ended: it keeps a
value, returns the first error and leaves the other tasks to themselves, or returns what it has
kept when no task is left.

Two invariants carry the statements about reachable states.  `Isolated` is about the tasks: what a
task has shown, followed by what is ahead of it, is the run of its file alone.  `Collecting` is
about the collector: a task that it no longer waits for has ended, and its own records are `start`
at the head of the log and `done` after everything else.  What the collector has taken, and that a
batch comes to what `ofRuns` says of it, is left to `Collected` and `ending_eq_outcome`.
-/

namespace Assets.Batch

/-- A batch between two steps. -/
structure Progress where
  tasks : List Task
  /-- The tasks whose results have not been collected. -/
  waiting : List Nat
  /-- Those among them that have ended, in the order in which they did. -/
  ready : List Nat := []
  compiled : FileSet := []
  returned : Option (Except Failure FileSet) := none
  /-- All that has happened, with the task in which it did. -/
  history : List (Option Nat × Event)

/-- A record of the batch itself. -/
def note (tag : String) (count : Nat) : LogRecord := ⟨scope, tag, toString count ++ " files"⟩

/-- What has happened in one task, or in the collector. -/
def eventsOf (history : List (Option Nat × Event)) (owner : Option Nat) : List Event :=
  (history.filter (·.1 = owner)).map (·.2)

/-- What the collector reports when it returns an error. -/
def detaching (e : Failure) (remaining : Nat) : Event :=
  .report ⟨.debug, "File failed, detaching the rest of the batch",
    [("error", e.message), ("remaining", toString remaining)]⟩

@[simp] theorem eventsOf_nil (owner : Option Nat) : eventsOf [] owner = [] := rfl

@[simp] theorem eventsOf_append (history more : List (Option Nat × Event)) (owner : Option Nat) :
    eventsOf (history ++ more) owner = eventsOf history owner ++ eventsOf more owner := by
  simp [eventsOf]

@[simp] theorem eventsOf_map_self (owner : Option Nat) (events : List Event) :
    eventsOf (events.map fun event => (owner, event)) owner = events := by
  simp [eventsOf, List.filter_map, Function.comp_def]

theorem eventsOf_map_other {owner other : Option Nat} (hne : owner ≠ other) (events : List Event) :
    eventsOf (events.map fun event => (owner, event)) other = [] := by
  simp [eventsOf, List.filter_map, hne]

namespace Progress

/-- A batch that has spawned its tasks. -/
def start (files : FileSet) : Progress where
  tasks := files.map fun file => ⟨[], .begin file⟩
  waiting := List.range files.length
  history := [(none, .log (note "start" files.length))]

/-- The compile log. -/
def sink (s : Progress) : List LogRecord := Event.records (s.history.map (·.2))

/-- Every task has come to its end, were it that it hangs. -/
def Settled (s : Progress) : Prop := ∀ task ∈ s.tasks, ∃ outcome, task.outcome? = some outcome

variable (plugins : List Plugin) (overrides : Overrides)

/-- One step of a batch. -/
inductive Step : Progress → Progress → Prop
  /-- A task goes on. -/
  | act {s : Progress} {i : Nat} {task : Task} (htask : s.tasks[i]? = some task)
      (hgo : task.outcome? = none) :
      Step s { s with
        tasks := s.tasks.set i (task.step plugins overrides).2
        history := s.history ++ (task.step plugins overrides).1.map fun event => (some i, event) }
  /-- A task that has ended is put up for collection. -/
  | complete {s : Progress} {i : Nat} {task : Task} {outcome : Outcome File}
      (htask : s.tasks[i]? = some task) (hended : task.outcome? = some outcome)
      (hends : outcome ≠ .hang) (hwaiting : i ∈ s.waiting) (hready : i ∉ s.ready) :
      Step s { s with ready := s.ready ++ [i] }
  /-- The collector takes a value. -/
  | collect {s : Progress} {i : Nat} {ready : List Nat} {task : Task} {result : File}
      (hreturned : s.returned = none) (hready : s.ready = i :: ready)
      (htask : s.tasks[i]? = some task) (hended : task.outcome? = some (.value result)) :
      Step s { s with
        waiting := s.waiting.erase i
        ready := ready
        compiled := s.compiled ++ [result] }
  /-- The collector takes an error and returns it; the other tasks are not waited for. -/
  | fail {s : Progress} {i : Nat} {ready : List Nat} {task : Task} {outcome : Outcome File}
      {e : Failure} (hreturned : s.returned = none) (hready : s.ready = i :: ready)
      (htask : s.tasks[i]? = some task) (hended : task.outcome? = some outcome)
      (herror : error? outcome = some e) :
      Step s { s with
        waiting := []
        ready := []
        returned := some (.error e)
        history := s.history ++ [(none, detaching e (s.waiting.erase i).length)] }
  /-- The collector has no task left. -/
  | finish {s : Progress} (hreturned : s.returned = none) (hwaiting : s.waiting = []) :
      Step s { s with
        returned := some (.ok s.compiled)
        history := s.history ++ [(none, .log (note "done" s.compiled.length))] }

/-- Any number of steps. -/
abbrev Reaches : Progress → Progress → Prop :=
  Relation.ReflTransGen (Step plugins overrides)

variable {plugins overrides} {files : FileSet} {s t : Progress}

/-! ## Tasks keep to themselves -/

variable (plugins overrides files) in
/-- What a task has shown, followed by what is ahead of it, is the run of its file alone. -/
structure Isolated (s : Progress) : Prop where
  length_eq : s.tasks.length = files.length
  account : ∀ i file task, files[i]? = some file → s.tasks[i]? = some task →
    Pipeline.run plugins overrides file =
      ⟨eventsOf s.history (some i) ++ (task.rest plugins overrides).events,
        (task.rest plugins overrides).outcome⟩
  owner_lt : ∀ i event, (some i, event) ∈ s.history → i < files.length

theorem isolated_start (files : FileSet) : Isolated plugins overrides files (start files) where
  length_eq := by simp [start]
  account i file task hfile htask := by
    obtain rfl : task = ⟨[], .begin file⟩ := by simpa [start, hfile] using htask.symm
    simp [start, eventsOf, Task.rest, Control.remaining]
  owner_lt := by simp [start]

/-- Whatever the collector does, the tasks do not notice. -/
theorem Isolated.frame (h : Isolated plugins overrides files s) (events : List Event)
    (htasks : t.tasks = s.tasks)
    (hhistory : t.history = s.history ++ events.map fun event => (none, event)) :
    Isolated plugins overrides files t where
  length_eq := htasks ▸ h.length_eq
  account i file task hfile htask := by
    rw [hhistory, eventsOf_append, eventsOf_map_other (by simp), List.append_nil]
    exact h.account i file task hfile (htasks ▸ htask)
  owner_lt i event hmem := by
    rw [hhistory, List.mem_append] at hmem
    exact hmem.elim (h.owner_lt i event) (by simp)

theorem Isolated.step (h : Isolated plugins overrides files s)
    (hstep : Step plugins overrides s t) : Isolated plugins overrides files t := by
  cases hstep with
  | @act i task htask hgo =>
      have hlt : i < s.tasks.length := (List.getElem?_eq_some_iff.mp htask).1
      refine ⟨by simpa using h.length_eq, ?_, ?_⟩
      · intro j file other hfile hother
        by_cases hij : i = j
        · subst hij
          -- what the step shows is taken from the front of what was ahead
          obtain rfl : (task.step plugins overrides).2 = other := by
            simpa [hlt] using hother
          rw [h.account i file task hfile htask, Task.rest_step task]
          simp
        · rw [List.getElem?_set_ne hij] at hother
          rw [h.account j file other hfile hother, eventsOf_append,
            eventsOf_map_other (by simpa using hij), List.append_nil]
      · intro j event hmem
        rcases List.mem_append.mp hmem with hmem | hmem
        · exact h.owner_lt j event hmem
        · obtain ⟨_, -, hentry⟩ := List.mem_map.mp hmem
          obtain rfl : i = j := Option.some.inj (Prod.ext_iff.mp hentry).1
          exact h.length_eq ▸ hlt
  | complete => exact h.frame [] rfl (by simp)
  | collect => exact h.frame [] rfl (by simp)
  | fail => exact h.frame [_] rfl rfl
  | finish => exact h.frame [_] rfl rfl

theorem Isolated.of_reaches (h : Reaches plugins overrides (start files) s) :
    Isolated plugins overrides files s := by
  induction h with
  | refl => exact isolated_start files
  | tail _ hstep ih => exact ih.step hstep

/-- Once a task has come to its end it has shown the events of its file alone. -/
theorem Isolated.eventsOf_eq (h : Isolated plugins overrides files s) (hsettled : s.Settled)
    {i : Nat} {file : File} (hfile : files[i]? = some file) :
    eventsOf s.history (some i) = (Pipeline.run plugins overrides file).events := by
  have hlt : i < s.tasks.length := by
    rw [h.length_eq]
    exact (List.getElem?_eq_some_iff.mp hfile).1
  obtain ⟨outcome, hended⟩ := hsettled _ (List.getElem_mem hlt)
  rw [h.account i file _ hfile (List.getElem?_eq_getElem hlt), Task.rest_of_outcome hended]
  simp

/-! ## The collector -/

/-- What the collector of `n` tasks knows and has logged. -/
structure Collecting (n : Nat) (s : Progress) : Prop where
  nodup_ready : s.ready.Nodup
  waiting_of_ready : ∀ i ∈ s.ready, i ∈ s.waiting
  ended_of_not_waiting : (∀ e, s.returned ≠ some (.error e)) →
    ∀ i task, s.tasks[i]? = some task → i ∉ s.waiting → ∃ outcome, task.outcome? = some outcome
  count : s.returned = none → s.compiled.length + s.waiting.length = n
  start_first : ∃ later, s.history = (none, .log (note "start" n)) :: later
  no_done : (∀ compiled, s.returned ≠ some (.ok compiled)) →
    ∀ record, (none, .log record) ∈ s.history → record.tag ≠ "done"
  done_last : ∀ compiled, s.returned = some (.ok compiled) →
    s.waiting = [] ∧ compiled.length = n ∧
      ∃ before, s.history = before ++ [(none, .log (note "done" n))] ∧
        ∀ record, (none, .log record) ∈ before → record.tag ≠ "done"

theorem collecting_start (files : FileSet) : Collecting files.length (start files) where
  nodup_ready := List.nodup_nil
  waiting_of_ready := by simp [start]
  ended_of_not_waiting _ i task htask hwaiting := by
    have hlt := (List.getElem?_eq_some_iff.mp htask).1
    simp only [start, List.length_map, List.mem_range] at hlt hwaiting
    exact absurd hlt hwaiting
  count := by simp [start]
  start_first := ⟨[], rfl⟩
  no_done := by simp [start, note]
  done_last := by simp [start]

/-- The task whose result is taken is not waited for any more, and it has ended. -/
theorem Collecting.ended_of_erase {n i : Nat} {task : Task} {outcome : Outcome File}
    (h : Collecting n s) (hreturned : s.returned = none) (htask : s.tasks[i]? = some task)
    (hended : task.outcome? = some outcome) (j : Nat) (other : Task)
    (hother : s.tasks[j]? = some other) (hj : j ∉ s.waiting.erase i) :
    ∃ outcome, other.outcome? = some outcome := by
  by_cases hij : j = i
  · subst hij
    obtain rfl : task = other := Option.some.inj (htask.symm.trans hother)
    exact ⟨outcome, hended⟩
  · rw [List.mem_erase_of_ne hij] at hj
    exact h.ended_of_not_waiting (by simp [hreturned]) j other hother hj

/-- A task that can still go on is waited for, unless the batch has failed. -/
theorem Collecting.waiting_of_going {n i : Nat} {task : Task} (h : Collecting n s)
    (hreturned : ∀ e, s.returned ≠ some (.error e)) (htask : s.tasks[i]? = some task)
    (hgo : task.outcome? = none) : i ∈ s.waiting := by
  by_cases hi : i ∈ s.waiting
  · exact hi
  · obtain ⟨outcome, hended⟩ := h.ended_of_not_waiting hreturned i task htask hi
    simp [hended] at hgo

theorem Collecting.step {n : Nat} (h : Collecting n s) (hstep : Step plugins overrides s t) :
    Collecting n t := by
  cases hstep with
  | @act i task htask hgo =>
      obtain ⟨later, hlater⟩ := h.start_first
      refine ⟨h.nodup_ready, h.waiting_of_ready, ?_, h.count, ⟨_, by rw [hlater]; rfl⟩, ?_, ?_⟩
      · intro hreturned j other hother hj
        have hij : i ≠ j := fun heq => hj (heq ▸ h.waiting_of_going hreturned htask hgo)
        rw [List.getElem?_set_ne hij] at hother
        exact h.ended_of_not_waiting hreturned j other hother hj
      · intro hreturned record hrecord
        exact h.no_done hreturned record (by simpa using hrecord)
      · intro compiled hcompiled
        -- after `done` every task has ended, so that no step of a task can follow it
        have hok : s.returned = some (.ok compiled) := hcompiled
        have hwaiting := h.waiting_of_going (by simp [hok]) htask hgo
        simp [(h.done_last compiled hok).1] at hwaiting
  | @complete i task outcome htask hended hends hwaiting hready =>
      refine ⟨?_, ?_, h.ended_of_not_waiting, h.count, h.start_first, h.no_done, h.done_last⟩
      · have := h.nodup_ready
        grind
      · simpa [or_imp, forall_and] using ⟨h.waiting_of_ready, hwaiting⟩
  | @collect i ready task result hreturned hready htask hended =>
      have hmem := h.waiting_of_ready i (by simp [hready])
      have hnodup := h.nodup_ready
      rw [hready, List.nodup_cons] at hnodup
      refine ⟨hnodup.2, ?_, fun _ => h.ended_of_erase hreturned htask hended, ?_, h.start_first,
        h.no_done, ?_⟩
      · intro j hj
        have hne : j ≠ i := fun heq => hnodup.1 (heq ▸ hj)
        exact (List.mem_erase_of_ne hne).mpr (h.waiting_of_ready j (by simp [hready, hj]))
      · intro _
        have hcount := h.count hreturned
        have hpos := List.length_pos_of_mem hmem
        simp only [List.length_append, List.length_singleton, List.length_erase_of_mem hmem]
        omega
      · intro compiled hcompiled
        simp [hreturned] at hcompiled
  | @fail i ready task outcome e hreturned hready htask hended herror =>
      -- nobody is waited for any more, and nothing is said of the tasks that are left to themselves
      obtain ⟨later, hlater⟩ := h.start_first
      refine ⟨List.nodup_nil, by simp, fun hne => absurd rfl (hne e), by simp,
        ⟨_, by rw [hlater]; rfl⟩, ?_, by simp⟩
      intro _ record hrecord
      exact h.no_done (by simp [hreturned]) record (by simpa [detaching] using hrecord)
  | finish hreturned hwaiting =>
      have hcount := h.count hreturned
      rw [hwaiting, List.length_nil, Nat.add_zero] at hcount
      obtain ⟨later, hlater⟩ := h.start_first
      refine ⟨h.nodup_ready, h.waiting_of_ready,
        fun _ => h.ended_of_not_waiting (by simp [hreturned]), by simp,
        ⟨_, by rw [hlater]; rfl⟩, fun hne => absurd rfl (hne s.compiled), ?_⟩
      intro compiled hcompiled
      obtain rfl : s.compiled = compiled := by simpa using hcompiled
      exact ⟨hwaiting, hcount, s.history, by rw [hcount], h.no_done (by simp [hreturned])⟩

theorem Collecting.of_reaches (h : Reaches plugins overrides (start files) s) :
    Collecting files.length s := by
  induction h with
  | refl => exact collecting_start files
  | tail _ hstep ih => exact ih.step hstep

/-! ## The compile log -/

theorem mem_records_iff {history : List (Option Nat × Event)} {record : LogRecord} :
    record ∈ Event.records (history.map (·.2)) ↔ ∃ owner, (owner, .log record) ∈ history := by
  constructor
  · intro hrecord
    obtain ⟨event, hevent, hlog⟩ := List.mem_filterMap.mp hrecord
    obtain ⟨⟨owner, event⟩, hentry, rfl⟩ := List.mem_map.mp hevent
    obtain rfl : event = .log record := by cases event <;> simp_all
    exact ⟨owner, hentry⟩
  · rintro ⟨owner, hentry⟩
    exact List.mem_filterMap.mpr ⟨.log record, List.mem_map.mpr ⟨_, hentry, rfl⟩, rfl⟩

/-- Tasks log in the scope of the chain; a record in the scope of the batch is the collector's. -/
theorem Isolated.owner_eq_none (h : Isolated plugins overrides files s) {owner : Option Nat}
    {record : LogRecord} (hentry : (owner, .log record) ∈ s.history)
    (hscope : record.scope = scope) : owner = none := by
  cases owner with
  | none => rfl
  | some i =>
      have hlt := h.owner_lt i _ hentry
      obtain ⟨task, htask⟩ : ∃ task, s.tasks[i]? = some task :=
        ⟨_, List.getElem?_eq_getElem (h.length_eq ▸ hlt)⟩
      have haccount := h.account i files[i] task (List.getElem?_eq_getElem hlt) htask
      -- what the task has logged is in the run of its file, and there the scope is the chain's
      have hown : Event.log record ∈ eventsOf s.history (some i) :=
        List.mem_map.mpr ⟨_, List.mem_filter.mpr ⟨hentry, by simp⟩, rfl⟩
      have hchain : record.scope = Pipeline.scope := by
        refine Pipeline.logsIn_run plugins overrides files[i] record ?_
        rw [haccount]
        exact List.mem_filterMap.mpr ⟨_, List.mem_append_left _ hown, rfl⟩
      exact absurd (hscope.symm.trans hchain) (by decide)

/-- The order of the compile log of a batch of `n` files. -/
structure LogOrder (n : Nat) (s : Progress) : Prop where
  start_first : ∃ later, s.sink = note "start" n :: later
  done_iff : (∃ record ∈ s.sink, record.scope = scope ∧ record.tag = "done") ↔
    ∃ compiled, s.returned = some (.ok compiled)
  done_last : ∀ compiled, s.returned = some (.ok compiled) →
    ∃ before, s.sink = before ++ [note "done" n] ∧
      ∀ record ∈ before, ¬(record.scope = scope ∧ record.tag = "done")

theorem logOrder_of_reaches (h : Reaches plugins overrides (start files) s) :
    LogOrder files.length s := by
  have hisolated := Isolated.of_reaches h
  have hcollecting := Collecting.of_reaches h
  have hlast : ∀ compiled, s.returned = some (.ok compiled) →
      ∃ before, s.sink = before ++ [note "done" files.length] ∧
        ∀ record ∈ before, ¬(record.scope = scope ∧ record.tag = "done") := by
    intro compiled hcompiled
    obtain ⟨-, -, before, hhistory, hbefore⟩ := hcollecting.done_last compiled hcompiled
    refine ⟨Event.records (before.map (·.2)), by simp [sink, hhistory, Event.records], ?_⟩
    rintro record hrecord ⟨hscope, htag⟩
    obtain ⟨owner, hentry⟩ := mem_records_iff.mp hrecord
    have hmem : (owner, .log record) ∈ s.history := by simp [hhistory, hentry]
    rw [hisolated.owner_eq_none hmem hscope] at hentry
    exact hbefore record hentry htag
  refine ⟨?_, ⟨?_, ?_⟩, hlast⟩
  · obtain ⟨later, hlater⟩ := hcollecting.start_first
    exact ⟨Event.records (later.map (·.2)), by simp [sink, hlater, Event.records]⟩
  · rintro ⟨record, hrecord, hscope, htag⟩
    obtain ⟨owner, hentry⟩ := mem_records_iff.mp hrecord
    rw [hisolated.owner_eq_none hentry hscope] at hentry
    by_cases hreturned : ∃ compiled, s.returned = some (.ok compiled)
    · exact hreturned
    · exact absurd htag (hcollecting.no_done (not_exists.mp hreturned) record hentry)
  · rintro ⟨compiled, hcompiled⟩
    obtain ⟨before, hbefore, -⟩ := hlast compiled hcompiled
    exact ⟨note "done" files.length, by simp [hbefore], rfl, rfl⟩

end Progress

end Assets.Batch
