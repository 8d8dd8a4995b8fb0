import Assets.Proofs.Batch.Completion

/-!
# How a batch ends

The tasks of a batch are its files' own runs under some schedule: each ends as the file does when
it is compiled alone, at whatever instant.  `ofRuns_outcome` says how the batch ends under every
schedule, in terms of the order in which the tasks complete:

```text
every file compiles          the results, in completion order
some file fails or panics    the error of the first such task, at the instant at which it ends
otherwise some file hangs    no end
```

Collecting goes through the tasks that end, in completion order.  Either all of them have values,
or the list splits at the first one that has not (`values_or_error`); in the second case nothing
after that task is looked at, so neither later tasks nor tasks that hang have a part in the
outcome.
-/

namespace Assets.Batch

variable {α : Type}

/-- The error with which the end of a task ends its batch, if it does. -/
def error? : Outcome α → Option Failure
  | .value _ => none
  | .failure e => some e
  | .panic => some unfinished
  | .hang => none

/-! ## Collecting -/

theorem collect_of_values {tasks : List (Run α)} {values : List α}
    (h : tasks.map Run.outcome = values.map .value) : collect tasks = .ok values := by
  induction tasks generalizing values with
  | nil =>
      obtain rfl : values = [] := by simpa using h.symm
      rfl
  | cons task tasks ih =>
      cases values with
      | nil => simp at h
      | cons value values =>
          simp only [List.map_cons, List.cons.injEq] at h
          simp [collect, h.1, ih h.2, Except.map]

theorem collect_of_finishedAt {tasks : List (Run α)} {values : List α}
    (hvalues : (finishedAt tasks).map (fun entry => entry.1.outcome) = values.map .value) :
    collect (finished tasks) = .ok values := by
  refine collect_of_values ?_
  rw [← map_fst_finishedAt, List.map_map]
  exact hvalues

/-- The first error ends the collection. -/
theorem collect_of_error {before after : List (Run α)} {task : Run α} {e : Failure}
    (hbefore : ∀ other ∈ before, ∃ value, other.outcome = .value value)
    (herror : error? task.outcome = some e) : collect (before ++ task :: after) = .error e := by
  induction before with
  | nil =>
      -- a task that has an error has failed or panicked
      simp only [List.nil_append, collect]
      cases h : task.outcome <;> simp_all [error?]
  | cons other before ih =>
      obtain ⟨value, hvalue⟩ := hbefore other (List.mem_cons_self ..)
      have hrest := ih fun task htask => hbefore task (List.mem_cons_of_mem _ htask)
      simp [collect, hvalue, hrest, Except.map]

theorem find?_of_error {before after : List (Run α)} {task : Run α} {e : Failure}
    (hbefore : ∀ other ∈ before, ∃ value, other.outcome = .value value)
    (herror : error? task.outcome = some e) :
    (before ++ task :: after).find? (fun run => !run.outcome.succeeded) = some task := by
  have hnone : before.find? (fun run => !run.outcome.succeeded) = none := by
    rw [List.find?_eq_none]
    intro other hother
    obtain ⟨value, hvalue⟩ := hbefore other hother
    simp [hvalue, Outcome.succeeded]
  have htask : task.outcome.succeeded = false := by
    cases h : task.outcome <;> simp_all [error?, Outcome.succeeded]
  rw [List.find?_append, hnone, Option.none_or, List.find?_cons_of_pos (by simp [htask])]

/-- Tasks that end all have values, or there is a first one among them that has not. -/
theorem values_or_error (entries : List (Run α × Nat))
    (hends : ∀ entry ∈ entries, entry.1.ends = true) :
    (∃ values : List α, entries.map (fun entry => entry.1.outcome) = values.map .value) ∨
      ∃ before task i after e, entries = before ++ (task, i) :: after ∧
        (∀ entry ∈ before, ∃ value, entry.1.outcome = .value value) ∧
          error? task.outcome = some e := by
  induction entries with
  | nil => exact .inl ⟨[], rfl⟩
  | cons entry entries ih =>
      obtain ⟨task, i⟩ := entry
      have htask : task.ends = true := hends (task, i) (List.mem_cons_self ..)
      have herror (e : Failure) (he : error? task.outcome = some e) :
          ∃ before first i' after e, (task, i) :: entries = before ++ (first, i') :: after ∧
            (∀ entry ∈ before, ∃ value, entry.1.outcome = .value value) ∧
              error? first.outcome = some e :=
        ⟨[], task, i, entries, e, rfl, by simp, he⟩
      cases h : task.outcome with
      | failure e => exact .inr (herror e (by rw [h]; rfl))
      | panic => exact .inr (herror unfinished (by rw [h]; rfl))
      | hang => simp [Run.ends, h] at htask
      | value a =>
          rcases ih fun entry hentry => hends entry (List.mem_cons_of_mem _ hentry) with
            ⟨values, hvalues⟩ | ⟨before, first, i', after, e, rfl, hbefore, he⟩
          · exact .inl ⟨a :: values, by simp [h, hvalues]⟩
          · refine .inr ⟨(task, i) :: before, first, i', after, e, rfl, ?_, he⟩
            intro entry hentry
            rcases List.mem_cons.mp hentry with rfl | hentry
            · exact ⟨a, h⟩
            · exact hbefore entry hentry

/-! ## The outcome of a schedule -/

theorem ends_of_mem_finishedAt {tasks : List (Run α)} {entry : Run α × Nat}
    (h : entry ∈ finishedAt tasks) : entry.1.ends = true :=
  (mem_finishedAt.mp h).2

/-- The position at which an order first comes to an error, and the error. -/
structure FirstError (outcomes : List (Outcome α)) (order : List Nat) (i : Nat) (e : Failure) :
    Prop where
  first : ∃ before after, order = before ++ i :: after ∧
    ∀ j ∈ before, ∃ value, outcomes[j]? = some (.value value)
  error : outcomes[i]?.bind error? = some e

namespace FirstError

variable {outcomes : List (Outcome α)} {order : List Nat} {i j : Nat} {e other : Failure}

/-- What comes after the first error does not matter. -/
theorem extend {longer : List Nat} (h : FirstError outcomes order i e)
    (hbegins : order <+: longer) : FirstError outcomes longer i e := by
  obtain ⟨before, after, rfl, hbefore⟩ := h.first
  obtain ⟨later, rfl⟩ := hbegins
  exact ⟨⟨before, after ++ later, by simp, hbefore⟩, h.error⟩

theorem notMem_of_values (h : FirstError outcomes order i e) {before : List Nat}
    (hbefore : ∀ j ∈ before, ∃ value, outcomes[j]? = some (.value value)) : i ∉ before := by
  intro hi
  obtain ⟨value, hvalue⟩ := hbefore i hi
  have herror := h.error
  simp [hvalue, error?] at herror

/-- An order comes to one error first. -/
theorem unique (h : FirstError outcomes order i e) (hother : FirstError outcomes order j other) :
    e = other := by
  obtain ⟨before, after, rfl, hbefore⟩ := h.first
  obtain ⟨front, back, hsplit, hfront⟩ := hother.first
  -- neither of the two stands among the values in front of the other
  have hij : i = j := by
    rcases List.append_eq_append_iff.mp hsplit with ⟨mid, rfl, hmid⟩ | ⟨mid, rfl, hmid⟩
    · cases mid with
      | nil => simpa using (List.cons.inj hmid).1
      | cons k mid =>
          obtain rfl : i = k := (List.cons.inj hmid).1
          exact absurd (by simp) (h.notMem_of_values hfront)
    · cases mid with
      | nil => simpa using (List.cons.inj hmid).1.symm
      | cons k mid =>
          obtain rfl : j = k := (List.cons.inj hmid).1
          exact absurd (by simp) (hother.notMem_of_values hbefore)
  subst hij
  exact Option.some.inj (h.error.symm.trans hother.error)

end FirstError

/-- The first error among the tasks that end is the outcome, at the instant at which its task ends;
all tasks but those before it are left to themselves. -/
theorem failed_of_finishedAt {tasks : List (Run α)} {before after : List (Run α × Nat)}
    {task : Run α} {i : Nat} {e : Failure}
    (hsplit : finishedAt tasks = before ++ (task, i) :: after)
    (hbefore : ∀ entry ∈ before, ∃ value, entry.1.outcome = .value value)
    (herror : error? task.outcome = some e) :
    outcome tasks = .failure e ∧ elapsed tasks = task.duration ∧
      abandoned tasks = tasks.length - 1 - before.length := by
  have hfinished : finished tasks = before.map Prod.fst ++ task :: after.map Prod.fst := by
    simp [← map_fst_finishedAt, hsplit]
  have hvalues : ∀ other ∈ before.map Prod.fst, ∃ value, other.outcome = .value value := by
    simpa using fun other j hother => hbefore (other, j) hother
  have htaken : (finished tasks).takeWhile (·.outcome.succeeded) = before.map Prod.fst := by
    rw [hfinished, List.takeWhile_append_of_pos, List.takeWhile_cons_of_neg, List.append_nil]
    · cases h : task.outcome <;> simp_all [error?, Outcome.succeeded]
    · intro other hother
      obtain ⟨value, hvalue⟩ := hvalues other hother
      simp [hvalue, Outcome.succeeded]
  refine ⟨?_, ?_, ?_⟩
  · simp [outcome, hfinished, collect_of_error hvalues herror]
  · simp [elapsed, culprit?, hfinished, find?_of_error hvalues herror]
  · rw [abandoned, htaken, List.length_map]

/-- What is found at the position of a task that ends is its outcome. -/
theorem outcome_of_mem_finishedAt {tasks : List (Run α)} {entry : Run α × Nat}
    (h : entry ∈ finishedAt tasks) : (tasks.map Run.outcome)[entry.2]? = some entry.1.outcome := by
  rw [List.getElem?_map, (mem_finishedAt.mp h).1, Option.map_some]

/-- Either the tasks that end have the collected values, or the first error among them ends the
batch at the instant at which its task ends. -/
theorem collected_or_failed {tasks : List (Run α)} {order : List Nat}
    (horder : CompletionOrder tasks order) :
    (∃ values : List α, order.map ((tasks.map Run.outcome)[·]?) =
        values.map (fun value => some (.value value)) ∧ collect (finished tasks) = .ok values) ∨
      ∃ i e, FirstError (tasks.map Run.outcome) order i e ∧ outcome tasks = .failure e ∧
        ∀ task ∈ tasks[i]?, elapsed tasks = task.duration := by
  rw [horder.eq_map_finishedAt]
  rcases values_or_error (finishedAt tasks) fun _ => ends_of_mem_finishedAt with
    ⟨values, hvalues⟩ | ⟨before, task, i, after, e, hsplit, hbefore, herror⟩
  · left
    refine ⟨values, ?_, collect_of_finishedAt hvalues⟩
    calc ((finishedAt tasks).map Prod.snd).map ((tasks.map Run.outcome)[·]?)
        = ((finishedAt tasks).map fun entry => entry.1.outcome).map some := by
          rw [List.map_map, List.map_map]
          exact List.map_congr_left fun entry hentry => outcome_of_mem_finishedAt hentry
      _ = values.map fun value => some (.value value) := by simp [hvalues]
  · right
    have hmem : (task, i) ∈ finishedAt tasks := by simp [hsplit]
    obtain ⟨houtcome, helapsed, -⟩ := failed_of_finishedAt hsplit hbefore herror
    refine ⟨i, e, ⟨⟨before.map Prod.snd, after.map Prod.snd, by simp [hsplit], ?_⟩, ?_⟩,
      houtcome, ?_⟩
    · intro j hj
      obtain ⟨entry, hentry, rfl⟩ := List.mem_map.mp hj
      obtain ⟨value, hvalue⟩ := hbefore entry hentry
      have hmem : entry ∈ finishedAt tasks := by simp [hsplit, hentry]
      exact ⟨value, by rw [outcome_of_mem_finishedAt hmem, hvalue]⟩
    · rw [outcome_of_mem_finishedAt hmem]
      exact herror
    · intro other hother
      obtain rfl : task = other :=
        Option.some.inj ((mem_finishedAt.mp hmem).1.symm.trans hother)
      exact helapsed

theorem exists_error_of_firstError {tasks : List (Run α)} {order : List Nat} {i : Nat}
    {e : Failure} (h : FirstError (tasks.map Run.outcome) order i e) :
    ∃ task ∈ tasks, error? task.outcome = some e := by
  obtain ⟨outcome, houtcome, he⟩ := Option.bind_eq_some_iff.mp h.error
  obtain ⟨task, htask, rfl⟩ := List.mem_map.mp (List.mem_of_getElem? houtcome)
  exact ⟨task, htask, he⟩

theorem not_error_of_collected {tasks : List (Run α)} {order : List Nat} {values : List α}
    (horder : CompletionOrder tasks order)
    (h : order.map ((tasks.map Run.outcome)[·]?) = values.map fun value => some (.value value)) :
    ∀ task ∈ tasks, error? task.outcome = none := by
  intro task htask
  obtain ⟨i, hi⟩ := List.mem_iff_getElem?.mp htask
  cases hends : task.ends with
  | false =>
      rw [not_ends_iff.mp (by simp [hends])]
      rfl
  | true =>
      have hmem : some task.outcome ∈ order.map ((tasks.map Run.outcome)[·]?) :=
        List.mem_map.mpr ⟨i, (horder.mem_iff i).mpr ⟨task, hi, hends⟩, by simp [hi]⟩
      rw [h, List.mem_map] at hmem
      obtain ⟨value, -, hvalue⟩ := hmem
      rw [← Option.some.inj hvalue]
      rfl

theorem value_or_hang {outcome : Outcome α} (h : error? outcome = none) :
    (∃ value, outcome = .value value) ∨ outcome = .hang := by
  cases outcome with
  | value a => exact .inl ⟨a, rfl⟩
  | failure e => simp [error?] at h
  | panic => simp [error?] at h
  | hang => exact .inr rfl

/-- Without an error a batch waits for every task. -/
theorem outcome_of_collected {tasks : List (Run α)} {values : List α}
    (h : collect (finished tasks) = .ok values) :
    outcome tasks = if tasks.all Run.ends then .value values else .hang := by
  simp [outcome, h]

section Schedule

variable {tasks : List (Run α)} {order : List Nat}

/-- A batch has a value exactly if all of its tasks have. -/
theorem exists_outcome_eq_value_iff (horder : CompletionOrder tasks order) :
    (∃ values, outcome tasks = .value values) ↔
      ∀ task ∈ tasks, ∃ value, task.outcome = .value value := by
  rcases collected_or_failed horder with ⟨values, hvalues, hcollect⟩ | ⟨i, e, hfirst, hfail, -⟩
  · have hnone := not_error_of_collected horder hvalues
    rw [outcome_of_collected hcollect]
    constructor
    · intro hvalue task htask
      rcases value_or_hang (hnone task htask) with hreached | hhang
      · exact hreached
      · have hall : tasks.all Run.ends = false :=
          List.all_eq_false.mpr ⟨task, htask, by simp [Run.ends, hhang]⟩
        simp [hall] at hvalue
    · intro hreached
      have hall : tasks.all Run.ends = true := by
        refine List.all_eq_true.mpr fun task htask => ?_
        obtain ⟨value, hvalue⟩ := hreached task htask
        simp [Run.ends, hvalue]
      exact ⟨values, if_pos hall⟩
  · obtain ⟨task, htask, he⟩ := exists_error_of_firstError hfirst
    rw [hfail]
    constructor
    · rintro ⟨values, hvalues⟩
      cases hvalues
    · intro hreached
      obtain ⟨value, hvalue⟩ := hreached task htask
      simp [hvalue, error?] at he

/-- The values of a batch are those of its tasks, each once, in the order of completion. -/
theorem values_in_completion_order (horder : CompletionOrder tasks order) {values : List α}
    (h : outcome tasks = .value values) :
    order.Perm (List.range tasks.length) ∧
      order.map ((tasks.map Run.outcome)[·]?) = values.map fun value => some (.value value) := by
  have hends : ∀ task ∈ tasks, task.ends = true := by
    intro task htask
    obtain ⟨value, hvalue⟩ := (exists_outcome_eq_value_iff horder).mp ⟨values, h⟩ task htask
    simp [Run.ends, hvalue]
  refine ⟨horder.perm_range hends, ?_⟩
  rcases collected_or_failed horder with ⟨collected, hcollected, hcollect⟩ | ⟨i, e, -, hfail, -⟩
  · rw [outcome_of_collected hcollect, if_pos (List.all_eq_true.mpr hends)] at h
    obtain rfl : collected = values := by simpa using h
    exact hcollected
  · rw [hfail] at h
    cases h

/-- If all tasks have values, the batch has them in the order in which the tasks complete. -/
theorem outcome_of_values (horder : CompletionOrder tasks order)
    (hperm : order.Perm (List.range tasks.length)) {values : List α}
    (hvalues : order.map ((tasks.map Run.outcome)[·]?) =
      values.map fun value => some (.value value)) : outcome tasks = .value values := by
  have hreached : ∀ task ∈ tasks, ∃ value, task.outcome = .value value := by
    intro task htask
    obtain ⟨i, hi⟩ := List.mem_iff_getElem?.mp htask
    have hmem : i ∈ order := by
      rw [hperm.mem_iff, List.mem_range]
      exact (List.getElem?_eq_some_iff.mp hi).1
    have hfound : some task.outcome ∈ order.map ((tasks.map Run.outcome)[·]?) :=
      List.mem_map.mpr ⟨i, hmem, by simp [hi]⟩
    rw [hvalues, List.mem_map] at hfound
    obtain ⟨value, -, hvalue⟩ := hfound
    exact ⟨value, (Option.some.inj hvalue).symm⟩
  obtain ⟨collected, hcollected⟩ := (exists_outcome_eq_value_iff horder).mpr hreached
  have hsame := (values_in_completion_order horder hcollected).2.symm.trans hvalues
  have hinj : Function.Injective fun value : α => some (Outcome.value value) :=
    fun _ _ h => Outcome.value.inj (Option.some.inj h)
  rw [hcollected, List.map_injective_iff.mpr hinj hsame]

/-- A batch with an error among its tasks ends with the first one, and at once. -/
theorem outcome_of_exists_error (horder : CompletionOrder tasks order)
    (h : ∃ task ∈ tasks, ∃ e, error? task.outcome = some e) :
    ∃ i e, FirstError (tasks.map Run.outcome) order i e ∧ outcome tasks = .failure e ∧
      ∀ task ∈ tasks[i]?, elapsed tasks = task.duration := by
  obtain ⟨task, htask, e, he⟩ := h
  rcases collected_or_failed horder with ⟨values, hvalues, -⟩ | hfirst
  · simp [not_error_of_collected horder hvalues task htask] at he
  · exact hfirst

theorem outcome_of_firstError (horder : CompletionOrder tasks order) {i : Nat} {e : Failure}
    (h : FirstError (tasks.map Run.outcome) order i e) : outcome tasks = .failure e := by
  obtain ⟨task, htask, herror⟩ := exists_error_of_firstError h
  obtain ⟨j, other, hfirst, houtcome, -⟩ := outcome_of_exists_error horder ⟨task, htask, e, herror⟩
  rw [houtcome, h.unique hfirst]

/-- A batch fails exactly if one of its tasks has an error. -/
theorem exists_outcome_eq_failure_iff (horder : CompletionOrder tasks order) :
    (∃ e, outcome tasks = .failure e) ↔ ∃ task ∈ tasks, ∃ e, error? task.outcome = some e := by
  constructor
  · rintro ⟨e, he⟩
    rcases collected_or_failed horder with ⟨values, -, hcollect⟩ | ⟨i, e, hfirst, -, -⟩
    · rw [outcome_of_collected hcollect] at he
      split at he <;> cases he
    · obtain ⟨task, htask, herror⟩ := exists_error_of_firstError hfirst
      exact ⟨task, htask, e, herror⟩
  · intro h
    obtain ⟨i, e, -, hfail, -⟩ := outcome_of_exists_error horder h
    exact ⟨e, hfail⟩

/-- A batch without an error hangs with any of its tasks. -/
theorem outcome_of_hang (horder : CompletionOrder tasks order)
    (hnone : ∀ task ∈ tasks, error? task.outcome = none)
    (hhang : ∃ task ∈ tasks, task.outcome = .hang) : outcome tasks = .hang := by
  rcases collected_or_failed horder with ⟨values, -, hcollect⟩ | ⟨i, e, hfirst, -, -⟩
  · obtain ⟨task, htask, hhang⟩ := hhang
    have hall : tasks.all Run.ends = false :=
      List.all_eq_false.mpr ⟨task, htask, by simp [Run.ends, hhang]⟩
    simp [outcome_of_collected hcollect, hall]
  · obtain ⟨task, htask, he⟩ := exists_error_of_firstError hfirst
    simp [hnone task htask] at he

end Schedule

/-! ## The outcome of a file set -/

/-- How the files of a set end when each is compiled alone. -/
def fileOutcomes (plugins : List Plugin) (overrides : Overrides) (files : FileSet) :
    List (Outcome File) :=
  files.map fun file => (Pipeline.run plugins overrides file).outcome

/-- The files' own runs, with the waits of their capabilities, are a schedule of the files. -/
theorem map_outcome_run (plugins : List Plugin) (overrides : Overrides) (files : FileSet) :
    (files.map (Pipeline.run plugins overrides)).map Run.outcome =
      fileOutcomes plugins overrides files := by
  rw [List.map_map]
  rfl

/-- A schedule of a file set ends the files as each ends alone; then all that is said about the
tasks of the schedule can be said about the files. -/
theorem forall_task_iff {plugins : List Plugin} {overrides : Overrides} {files : FileSet}
    {tasks : List (Run File)}
    (htasks : tasks.map Run.outcome = fileOutcomes plugins overrides files)
    (p : Outcome File → Prop) :
    (∀ task ∈ tasks, p task.outcome) ↔
      ∀ file ∈ files, p (Pipeline.run plugins overrides file).outcome := by
  have h := congrArg (fun outcomes => ∀ outcome ∈ outcomes, p outcome) htasks
  simpa [fileOutcomes] using h

theorem exists_task_iff {plugins : List Plugin} {overrides : Overrides} {files : FileSet}
    {tasks : List (Run File)}
    (htasks : tasks.map Run.outcome = fileOutcomes plugins overrides files)
    (p : Outcome File → Prop) :
    (∃ task ∈ tasks, p task.outcome) ↔
      ∃ file ∈ files, p (Pipeline.run plugins overrides file).outcome := by
  simpa using not_congr (forall_task_iff htasks fun outcome => ¬p outcome)

/-- How a batch ends, whatever the schedule of its tasks.  `compile` is `ofRuns` under the
schedule that the waits of the capabilities give. -/
theorem ofRuns_outcome (plugins : List Plugin) (overrides : Overrides) (files : FileSet)
    {tasks : List (Run File)} {order : List Nat}
    (htasks : tasks.map Run.outcome = fileOutcomes plugins overrides files)
    (horder : CompletionOrder tasks order) :
    ((∃ compiled, (ofRuns tasks).outcome = .value compiled) ↔
      ∀ file ∈ files, ∃ result, (Pipeline.run plugins overrides file).outcome = .value result) ∧
    (∀ compiled, (ofRuns tasks).outcome = .value compiled →
      order.Perm (List.range files.length) ∧
        order.map ((fileOutcomes plugins overrides files)[·]?) =
          compiled.map fun result => some (.value result)) ∧
    ((∃ file ∈ files, ∃ e, error? (Pipeline.run plugins overrides file).outcome = some e) →
      ∃ i e, FirstError (fileOutcomes plugins overrides files) order i e ∧
        (ofRuns tasks).outcome = .failure e ∧
          ∀ task ∈ tasks[i]?, (ofRuns tasks).elapsed = task.duration) ∧
    ((∀ file ∈ files, error? (Pipeline.run plugins overrides file).outcome = none) →
      (∃ file ∈ files, (Pipeline.run plugins overrides file).outcome = .hang) →
        (ofRuns tasks).outcome = .hang) := by
  have hlength : tasks.length = files.length := by
    simpa [fileOutcomes] using congrArg List.length htasks
  refine ⟨?_, ?_, ?_, ?_⟩
  · rw [← forall_task_iff htasks fun outcome => ∃ result, outcome = .value result]
    exact exists_outcome_eq_value_iff horder
  · intro compiled hcompiled
    rw [← htasks, ← hlength]
    exact values_in_completion_order horder hcompiled
  · intro hfailed
    rw [← exists_task_iff htasks fun outcome => ∃ e, error? outcome = some e] at hfailed
    rw [← htasks]
    exact outcome_of_exists_error horder hfailed
  · intro hnone hhang
    rw [← forall_task_iff htasks fun outcome => error? outcome = none] at hnone
    rw [← exists_task_iff htasks fun outcome => outcome = .hang] at hhang
    exact outcome_of_hang horder hnone hhang

/-- A plugin that fails on one name and hangs on another. -/
def moody : Plugin where
  name := "moody"
  resolver := some fun id =>
    if id = "bad" then .failure .emptyName
    else if id = "hang" then ⟨[], .hang⟩
    else .value none

/-- A file hangs, another fails while the third is still at work. -/
def moodyTasks : List (Run File) :=
  [⟨[], .hang⟩, ⟨[.effect (.wait 5)], .value ⟨"a", "x"⟩⟩,
    ⟨[.effect (.wait 3)], .failure (.plugin "moody" .resolve "bad" .emptyName)⟩]

theorem completionOrder_moodyTasks : CompletionOrder moodyTasks [2, 1] where
  mem_iff i := by
    rcases i with _ | _ | _ | i <;> simp [moodyTasks, Run.ends]
  sorted := by
    simp [EndsBefore, moodyTasks, Run.duration, Event.duration]

theorem ofRuns_outcome_moody :
    ∃ i e, FirstError
        (fileOutcomes [moody] {} [⟨"hang", "x"⟩, ⟨"a", "x"⟩, ⟨"bad", "x"⟩]) [2, 1] i e ∧
      (ofRuns moodyTasks).outcome = .failure e ∧
        ∀ task ∈ moodyTasks[i]?, (ofRuns moodyTasks).elapsed = task.duration := by
  refine (ofRuns_outcome [moody] {} [⟨"hang", "x"⟩, ⟨"a", "x"⟩, ⟨"bad", "x"⟩] ?_
    completionOrder_moodyTasks).2.2.1 ⟨⟨"bad", "x"⟩, by simp, ?_⟩
  · decide +kernel
  · exact ⟨.plugin "moody" .resolve "bad" .emptyName, by decide +kernel⟩

end Assets.Batch
