import Assets.Proofs.Batch.Isolation

/-!
# What the collector takes

`ofRuns` goes through the tasks that end as through a list: it collects them in the order in which
they complete.  Here the same is shown of the collector that works beside the tasks.  An
`Execution` carries the order in which its steps put tasks up for collection; every reachable state
has one (`exists_order_of_reaches`).  `Collected` is the invariant of the collector: what it has
taken is the front of that order, every task in it had a value, and the first one that had not is
the error that it has returned.

* `ending_eq_outcome`: a batch that takes no more steps has come to the outcome of every schedule
  whose tasks complete in the order of the execution.

A batch that has failed leaves tasks to themselves, which end without being put up.  So the order
of the execution is only the beginning of an order of completion; what comes after it has no part
in the outcome (`FirstError.extend`).
-/

namespace Assets.Batch.Progress

variable {plugins : List Plugin} {overrides : Overrides} {files : FileSet} {s t : Progress}
  {order completed : List Nat}

/-! ## Executions -/

/-- The tasks that a step puts up for collection: what is new at the end of `ready`. -/
def putUp (s t : Progress) : List Nat := t.ready.drop s.ready.length

variable (plugins overrides) in
/-- Any number of steps, with the tasks that they put up for collection, in their order. -/
inductive Execution : Progress → List Nat → Progress → Prop
  | refl (s : Progress) : Execution s [] s
  | tail {s t u : Progress} {order : List Nat} (hexecution : Execution s order t)
      (hstep : Step plugins overrides t u) : Execution s (order ++ putUp t u) u

theorem Execution.reaches (h : Execution plugins overrides s order t) :
    Reaches plugins overrides s t := by
  induction h with
  | refl => exact .refl
  | tail _ hstep ih => exact ih.tail hstep

theorem exists_order_of_reaches (h : Reaches plugins overrides s t) :
    ∃ order, Execution plugins overrides s order t := by
  induction h with
  | refl => exact ⟨[], .refl s⟩
  | tail _ hstep ih =>
      obtain ⟨order, hexecution⟩ := ih
      exact ⟨_, hexecution.tail hstep⟩

/-! ## The invariant of the collector -/

/-- A task that has come to its end ended as its file does alone. -/
theorem Isolated.fileOutcomes_eq (h : Isolated plugins overrides files s) {i : Nat} {task : Task}
    {outcome : Outcome File} (htask : s.tasks[i]? = some task)
    (hended : task.outcome? = some outcome) :
    (fileOutcomes plugins overrides files)[i]? = some outcome := by
  have hlt : i < files.length := by
    rw [← h.length_eq]
    exact (List.getElem?_eq_some_iff.mp htask).1
  have hfile : files[i]? = some files[i] := List.getElem?_eq_getElem hlt
  rw [fileOutcomes, List.getElem?_map, hfile, Option.map_some,
    h.account i files[i] task hfile htask, Task.rest_of_outcome hended]

/-- What a collector has come to that takes tasks with given outcomes in a given order. -/
structure Collected (outcomes : List (Outcome File)) (order : List Nat) (s : Progress) : Prop where
  nodup : order.Nodup
  ended : ∀ i ∈ order, ∃ outcome, outcomes[i]? = some outcome ∧ outcome ≠ .hang
  nodup_waiting : s.waiting.Nodup
  taken : (∀ e, s.returned ≠ some (.error e)) → ∃ taken, order = taken ++ s.ready ∧
    (∀ i, i ∈ s.waiting ↔ i < outcomes.length ∧ i ∉ taken) ∧
      taken.map (outcomes[·]?) = s.compiled.map fun result => some (.value result)
  of_ok : ∀ compiled, s.returned = some (.ok compiled) → s.waiting = [] ∧ compiled = s.compiled
  of_error : ∀ e, s.returned = some (.error e) →
    s.waiting = [] ∧ ∃ i, FirstError outcomes order i e

theorem collected_start (plugins : List Plugin) (overrides : Overrides) (files : FileSet) :
    Collected (fileOutcomes plugins overrides files) [] (start files) where
  nodup := List.nodup_nil
  ended := by simp
  nodup_waiting := List.nodup_range
  taken _ := ⟨[], rfl, by simp [start, fileOutcomes], rfl⟩
  of_ok := by simp [start]
  of_error := by simp [start]

/-- The values of some tasks are found at their positions. -/
theorem exists_value_of_mem {α : Type} {outcomes : List (Outcome α)} {taken : List Nat}
    {values : List α}
    (h : taken.map (outcomes[·]?) = values.map fun value => some (.value value)) :
    ∀ i ∈ taken, ∃ value, outcomes[i]? = some (.value value) := by
  intro i hi
  have hmem : outcomes[i]? ∈ values.map fun value => some (Outcome.value value) :=
    h ▸ List.mem_map_of_mem hi
  obtain ⟨value, -, hvalue⟩ := List.mem_map.mp hmem
  exact ⟨value, hvalue.symm⟩

theorem Collected.step {outcomes : List (Outcome File)} (h : Collected outcomes order s)
    (houtcomes : ∀ (i : Nat) (task : Task) (outcome : Outcome File), s.tasks[i]? = some task →
      task.outcome? = some outcome → outcomes[i]? = some outcome)
    (hstep : Step plugins overrides s t) : Collected outcomes (order ++ putUp s t) t := by
  cases hstep with
  | act htask hgo =>
      simp only [putUp, List.drop_length, List.append_nil]
      exact ⟨h.nodup, h.ended, h.nodup_waiting, h.taken, h.of_ok, h.of_error⟩
  | @complete i task outcome htask hended hends hwaiting hready =>
      -- a batch that has failed waits for nobody
      have hgoing : ∀ e, s.returned ≠ some (.error e) := by
        intro e he
        simp [(h.of_error e he).1] at hwaiting
      obtain ⟨taken, horder, hmem, hvalues⟩ := h.taken hgoing
      have hnew : i ∉ order := by
        rw [horder, List.mem_append, not_or]
        exact ⟨((hmem i).mp hwaiting).2, hready⟩
      simp only [putUp, List.drop_left]
      refine ⟨?_, ?_, h.nodup_waiting, fun _ => ⟨taken, ?_, hmem, hvalues⟩, h.of_ok, ?_⟩
      · simpa [List.nodup_append, h.nodup] using fun j hj => ne_of_mem_of_not_mem hj hnew
      · intro j hj
        rcases List.mem_append.mp hj with hj | hj
        · exact h.ended j hj
        · obtain rfl := List.mem_singleton.mp hj
          exact ⟨outcome, houtcomes j task outcome htask hended, hends⟩
      · rw [horder, List.append_assoc]
      · exact fun e he => absurd he (hgoing e)
  | @collect i ready task result hreturned hready htask hended =>
      have hnone : ready.drop s.ready.length = [] := by simp [hready]
      obtain ⟨taken, horder, hmem, hvalues⟩ := h.taken (by simp [hreturned])
      simp only [putUp, hnone, List.append_nil]
      refine ⟨h.nodup, h.ended, h.nodup_waiting.erase i, fun _ => ⟨taken ++ [i], ?_, ?_, ?_⟩,
        by simp [hreturned], by simp [hreturned]⟩
      · rw [horder, hready, List.append_assoc]
        rfl
      · intro j
        rw [h.nodup_waiting.mem_erase_iff, hmem]
        grind
      · simp [hvalues, houtcomes i task _ htask hended]
  | @fail i ready task outcome e hreturned hready htask hended herror =>
      obtain ⟨taken, horder, -, hvalues⟩ := h.taken (by simp [hreturned])
      have hfirst : FirstError outcomes order i e := by
        refine ⟨⟨taken, ready, by rw [horder, hready], exists_value_of_mem hvalues⟩, ?_⟩
        rw [houtcomes i task outcome htask hended]
        exact herror
      simp only [putUp, List.drop_nil, List.append_nil]
      refine ⟨h.nodup, h.ended, List.nodup_nil, fun hne => absurd rfl (hne e), by simp, ?_⟩
      rintro other hother
      obtain rfl : e = other := by simpa using hother
      exact ⟨rfl, i, hfirst⟩
  | finish hreturned hwaiting =>
      simp only [putUp, List.drop_length, List.append_nil]
      refine ⟨h.nodup, h.ended, h.nodup_waiting, fun _ => h.taken (by simp [hreturned]), ?_,
        by simp⟩
      intro compiled hcompiled
      exact ⟨hwaiting, by simpa using hcompiled.symm⟩

theorem Collected.of_execution (h : Execution plugins overrides (start files) order s) :
    Collected (fileOutcomes plugins overrides files) order s := by
  induction h with
  | refl => exact collected_start plugins overrides files
  | tail hexecution hstep ih =>
      refine ih.step ?_ hstep
      intro i task outcome htask hended
      exact (Isolated.of_reaches hexecution.reaches).fileOutcomes_eq htask hended

/-! ## What a batch has come to -/

section Schedule

variable {tasks : List (Run File)} {compiled : FileSet} {e : Failure}

theorem Collected.outcome_of_error (h : Collected (tasks.map Run.outcome) order s)
    (horder : CompletionOrder tasks completed) (hbegins : order <+: completed)
    (hreturned : s.returned = some (.error e)) : outcome tasks = .failure e := by
  obtain ⟨-, i, hfirst⟩ := h.of_error e hreturned
  exact outcome_of_firstError horder (hfirst.extend hbegins)

/-- A collector that has returned files has taken every task. -/
theorem Collected.outcome_of_ok (h : Collected (tasks.map Run.outcome) order s)
    (horder : CompletionOrder tasks completed) (hbegins : order <+: completed)
    (hreturned : s.returned = some (.ok compiled)) : outcome tasks = .value compiled := by
  obtain ⟨hwaiting, rfl⟩ := h.of_ok compiled hreturned
  obtain ⟨taken, rfl, hmem, hvalues⟩ := h.taken (by simp [hreturned])
  obtain ⟨later, rfl⟩ := hbegins
  have hall : ∀ i < tasks.length, i ∈ taken := by
    intro i hi
    by_contra hnot
    have hi : i ∈ s.waiting := (hmem i).mpr ⟨by simpa using hi, hnot⟩
    simp [hwaiting] at hi
  have hends : ∀ task ∈ tasks, task.ends = true := by
    intro task htask
    obtain ⟨i, hi⟩ := List.mem_iff_getElem?.mp htask
    have htaken := hall i (List.getElem?_eq_some_iff.mp hi).1
    obtain ⟨value, hvalue⟩ := exists_value_of_mem hvalues i htaken
    have houtcome : task.outcome = .value value := by simpa [hi] using hvalue
    simp [Run.ends, houtcome]
  have hperm := horder.perm_range hends
  -- so there is no position left that could come after those taken
  have hnone : s.ready ++ later = [] := by
    rw [List.eq_nil_iff_forall_not_mem]
    intro i hi
    have hnodup := horder.nodup
    rw [List.append_assoc] at hnodup hperm
    have hlt := List.mem_range.mp (hperm.mem_iff.mp (List.mem_append_right taken hi))
    exact (List.nodup_append.mp hnodup).2.2 i (hall i hlt) i hi rfl
  rw [List.append_assoc, hnone, List.append_nil] at horder hperm
  exact outcome_of_values horder hperm hvalues

/-- A collector that can only wait for tasks that hang waits forever. -/
theorem Collected.outcome_of_waiting (h : Collected (tasks.map Run.outcome) order s)
    (horder : CompletionOrder tasks completed) (hreturned : s.returned = none)
    (hwaiting : s.waiting ≠ [])
    (hhang : ∀ i ∈ s.waiting, (tasks.map Run.outcome)[i]? = some .hang) :
    outcome tasks = .hang := by
  obtain ⟨taken, -, hmem, hvalues⟩ := h.taken (by simp [hreturned])
  refine outcome_of_hang horder ?_ ?_
  · intro task htask
    obtain ⟨i, hi⟩ := List.mem_iff_getElem?.mp htask
    have hlt := (List.getElem?_eq_some_iff.mp hi).1
    by_cases htaken : i ∈ taken
    · obtain ⟨value, hvalue⟩ := exists_value_of_mem hvalues i htaken
      have houtcome : task.outcome = .value value := by simpa [hi] using hvalue
      rw [houtcome]
      rfl
    · have hhangs := hhang i ((hmem i).mpr ⟨by simpa using hlt, htaken⟩)
      have houtcome : task.outcome = .hang := by simpa [hi] using hhangs
      rw [houtcome]
      rfl
  · obtain ⟨i, hi⟩ := List.exists_mem_of_ne_nil _ hwaiting
    obtain ⟨task, htask, houtcome⟩ := List.mem_map.mp (List.mem_of_getElem? (hhang i hi))
    exact ⟨task, htask, houtcome⟩

end Schedule

section Final

variable (hlast : ∀ t, ¬Step plugins overrides s t)
include hlast

/-- No task can go on in a batch that takes no more steps. -/
theorem settled_of_final : s.Settled := by
  intro task htask
  obtain ⟨i, hi⟩ := List.mem_iff_getElem?.mp htask
  cases hended : task.outcome? with
  | some outcome => exact ⟨outcome, rfl⟩
  | none => exact absurd (.act hi hended) (hlast _)

theorem Isolated.exists_ended (h : Isolated plugins overrides files s) {i : Nat}
    {outcome : Outcome File}
    (houtcome : (fileOutcomes plugins overrides files)[i]? = some outcome) :
    ∃ task, s.tasks[i]? = some task ∧ task.outcome? = some outcome := by
  have hlt : i < s.tasks.length := by
    have hi := (List.getElem?_eq_some_iff.mp houtcome).1
    rwa [fileOutcomes, List.length_map, ← h.length_eq] at hi
  have htask : s.tasks[i]? = some s.tasks[i] := List.getElem?_eq_getElem hlt
  obtain ⟨other, hended⟩ := settled_of_final hlast _ (List.getElem_mem hlt)
  obtain rfl : outcome = other :=
    Option.some.inj (houtcome.symm.trans (h.fileOutcomes_eq htask hended))
  exact ⟨_, htask, hended⟩

/-- If such a batch has not returned, then everything that was put up is collected. -/
theorem Collected.ready_eq_nil (h : Collected (fileOutcomes plugins overrides files) order s)
    (hisolated : Isolated plugins overrides files s) (hreturned : s.returned = none) :
    s.ready = [] := by
  obtain ⟨taken, horder, -, -⟩ := h.taken (by simp [hreturned])
  cases hready : s.ready with
  | nil => rfl
  | cons i ready =>
      obtain ⟨outcome, houtcome, hends⟩ := h.ended i (by simp [horder, hready])
      obtain ⟨task, htask, hended⟩ := hisolated.exists_ended hlast houtcome
      cases outcome with
      | value result => exact absurd (.collect hreturned hready htask hended) (hlast _)
      | failure e => exact absurd (.fail hreturned hready htask hended rfl) (hlast _)
      | panic => exact absurd (.fail hreturned hready htask hended rfl) (hlast _)
      | hang => exact absurd rfl hends

/-- It waits for tasks that hang, and only for those. -/
theorem Collected.hang_of_waiting (h : Collected (fileOutcomes plugins overrides files) order s)
    (hisolated : Isolated plugins overrides files s) (hreturned : s.returned = none) :
    s.waiting ≠ [] ∧ ∀ i ∈ s.waiting, (fileOutcomes plugins overrides files)[i]? = some .hang := by
  refine ⟨fun hnone => hlast _ (.finish hreturned hnone), fun i hi => ?_⟩
  obtain ⟨taken, -, hmem, -⟩ := h.taken (by simp [hreturned])
  have houtcome := List.getElem?_eq_getElem ((hmem i).mp hi).1
  obtain ⟨task, htask, hended⟩ := hisolated.exists_ended hlast houtcome
  have hready : i ∉ s.ready := by simp [h.ready_eq_nil hlast hisolated hreturned]
  by_contra hends
  rw [houtcome, Option.some.injEq] at hends
  exact hlast _ (.complete htask hended hends hi hready)

end Final

/-- The tasks that end but have not been put up, in the order of their files. -/
def leftover (outcomes : List (Outcome File)) (order : List Nat) : List Nat :=
  (List.range outcomes.length).filter fun i => i ∉ order ∧ outcomes[i]? ≠ some .hang

theorem mem_leftover {outcomes : List (Outcome File)} {i : Nat} :
    i ∈ leftover outcomes order ↔ i ∉ order ∧ ∃ outcome, outcomes[i]? = some outcome ∧
      outcome ≠ .hang := by
  simp only [leftover, List.mem_filter, List.mem_range, decide_eq_true_eq]
  constructor
  · rintro ⟨hlt, hi, hends⟩
    exact ⟨hi, _, List.getElem?_eq_getElem hlt, by simpa [hlt] using hends⟩
  · rintro ⟨hi, outcome, houtcome, hends⟩
    exact ⟨(List.getElem?_eq_some_iff.mp houtcome).1, hi, by simpa [houtcome] using hends⟩

/-- Some schedule goes on from the order of an execution: the tasks that were never put up end after
all others. -/
theorem Collected.exists_schedule {outcomes : List (Outcome File)}
    (h : Collected outcomes order s) :
    ∃ tasks completed, tasks.map Run.outcome = outcomes ∧ CompletionOrder tasks completed ∧
      order <+: completed := by
  refine ⟨_, order ++ leftover outcomes order, map_outcome_staggered outcomes _,
    completionOrder_staggered ?_ ?_, List.prefix_append ..⟩
  · refine List.nodup_append.mpr ⟨h.nodup, List.nodup_range.filter _, ?_⟩
    rintro i hi j hj rfl
    exact (mem_leftover.mp hj).1 hi
  · intro i
    rw [List.mem_append, mem_leftover]
    by_cases hi : i ∈ order
    · simpa [hi] using h.ended i hi
    · simp [hi]

/-- **The collector.**  However the steps of a batch are interleaved, once none is left the batch
has come to the outcome of every schedule of its files whose tasks complete in the order in which
the execution has put them up; and such schedules there are. -/
theorem ending_eq_outcome (h : Execution plugins overrides (start files) order s)
    (hlast : ∀ t, ¬Step plugins overrides s t) :
    (∀ tasks completed, tasks.map Run.outcome = fileOutcomes plugins overrides files →
      CompletionOrder tasks completed → order <+: completed →
        s.ending = (ofRuns tasks).outcome) ∧
    ∃ tasks completed, tasks.map Run.outcome = fileOutcomes plugins overrides files ∧
      CompletionOrder tasks completed ∧ order <+: completed := by
  have hcollected := Collected.of_execution h
  refine ⟨?_, hcollected.exists_schedule⟩
  intro tasks completed htasks horder hbegins
  show s.ending = outcome tasks
  have hisolated := Isolated.of_reaches h.reaches
  cases hreturned : s.returned with
  | none =>
      obtain ⟨hwaiting, hhang⟩ := hcollected.hang_of_waiting hlast hisolated hreturned
      rw [← htasks] at hcollected hhang
      simp [ending, hreturned, hcollected.outcome_of_waiting horder hreturned hwaiting hhang]
  | some result =>
      rw [← htasks] at hcollected
      cases result with
      | ok compiled => simp [ending, hreturned, hcollected.outcome_of_ok horder hbegins hreturned]
      | error e => simp [ending, hreturned, hcollected.outcome_of_error horder hbegins hreturned]

end Assets.Batch.Progress
