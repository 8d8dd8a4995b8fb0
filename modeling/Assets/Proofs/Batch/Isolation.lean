import Assets.Proofs.Batch.Schedule
import Assets.Proofs.Batch.Timeline

/-!
# The files of a batch do not meet

The main result of the step-by-step account, `isolation`: however the steps of the tasks are
interleaved, a task that has come to its end has called what its file alone calls and logged what
its file alone logs, in that order, and this holds for the siblings of a failed file too, since
nothing keeps them from going on.  The log begins with the `start` record of the batch, and has its
`done` record, after all others, exactly if the batch has returned its files.

The second part of the result is that `compile` is one of these executions: its moments are the
history of a batch that takes its steps in the order of time, up to a point where no step is left.
Up to the instant of its outcome the batch shows the moments that are due; then it collects the
tasks that have ended; then it shows the moments that remain.
-/

namespace Assets.Batch

/-- What happens at some moments, with the task in which it does. -/
def timeline (moments : List Moment) : List (Option Nat × Event) :=
  moments.map fun moment => (moment.file, moment.event)

theorem eventsOf_timeline (moments : List Moment) (owner : Option Nat) :
    eventsOf (timeline moments) owner =
      (moments.filter (·.file = owner)).map (·.event) := by
  simp [eventsOf, timeline, List.filter_map, Function.comp_def]

namespace Progress

variable {plugins : List Plugin} {overrides : Overrides} {files : FileSet} {s : Progress}

/-- What a batch has come to when it takes no more steps. -/
def ending (s : Progress) : Outcome FileSet :=
  match s.returned with
  | some (.ok compiled) => .value compiled
  | some (.error e) => .failure e
  | none => .hang

/-! ## Showing a part of the timeline -/

/-- Runs of which no more is ahead than what happens at given moments. -/
def leftOf (runs : List (Run File)) (moments : List Moment) : List (Run File) :=
  runs.mapIdx fun i run => ⟨eventsOf (timeline moments) (some i), run.outcome⟩

theorem getElem?_leftOf {runs : List (Run File)} {i : Nat} {run : Run File}
    (h : runs[i]? = some run) (moments : List Moment) :
    (leftOf runs moments)[i]? = some ⟨eventsOf (timeline moments) (some i), run.outcome⟩ := by
  rw [leftOf, List.getElem?_mapIdx, h, Option.map_some]

theorem leftOf_moments (runs : List (Run File)) : leftOf runs (moments runs) = runs := by
  refine List.ext_getElem? fun i => ?_
  cases hrun : runs[i]? with
  | none => rw [leftOf, List.getElem?_mapIdx, hrun, Option.map_none]
  | some run =>
      rw [getElem?_leftOf hrun, eventsOf_timeline, filter_file_moments hrun,
        Moment.map_event_stamp]

/-- When the moments that come first are shown, the later ones are still ahead. -/
theorem reaches_part {runs : List (Run File)} {part later : List Moment}
    (hmem : ∀ moment ∈ part, moment ∈ moments runs)
    (hahead : s.ahead plugins overrides = leftOf runs (part ++ later)) :
    ∃ tasks, Reaches plugins overrides s
        { s with tasks := tasks, history := s.history ++ timeline part } ∧
      tasks.map (Task.rest plugins overrides) = leftOf runs later := by
  have hlength : s.tasks.length = runs.length := by
    simpa [ahead, leftOf] using congrArg List.length hahead
  have howner : ∀ entry ∈ timeline part, ∃ i < s.tasks.length, entry.1 = some i := by
    intro entry hentry
    obtain ⟨moment, hmoment, rfl⟩ := List.mem_map.mp hentry
    obtain ⟨run, i, hrun, hstamp⟩ := mem_moments.mp (hmem moment hmoment)
    have hlt := (List.getElem?_eq_some_iff.mp hrun).1
    exact ⟨i, hlength ▸ hlt, Moment.file_of_mem_stamp hstamp⟩
  have hevents : ∀ (i : Nat) (run : Run File), (s.ahead plugins overrides)[i]? = some run →
      run.events = eventsOf (timeline part) (some i) ++ eventsOf (timeline later) (some i) := by
    intro i run hrun
    simp only [hahead, leftOf, List.getElem?_mapIdx, Option.map_eq_some_iff] at hrun
    obtain ⟨alone, -, rfl⟩ := hrun
    simp [timeline]
  obtain ⟨tasks, hreaches, htasks⟩ := reaches_shown (timeline part) _ howner hevents
  refine ⟨tasks, hreaches, htasks.trans ?_⟩
  rw [hahead, leftOf, List.mapIdx_mapIdx]
  rfl

/-- When the whole timeline is shown a batch takes its last steps unseen.  None is left after them
if the collector has returned, or waits only for tasks that hang. -/
theorem reaches_last {runs : List (Run File)} (hahead : s.ahead plugins overrides = leftOf runs [])
    (hready : s.ready = [])
    (hwaiting : ∀ i ∈ s.waiting, ∃ run, runs[i]? = some run ∧ run.outcome = .hang)
    (hreturned : s.returned = none → s.waiting ≠ []) :
    ∃ tasks, Reaches plugins overrides s { s with tasks := tasks } ∧
      ∀ t, ¬Step plugins overrides { s with tasks := tasks } t := by
  obtain ⟨tasks, more, hreaches, houtcomes, hmore⟩ := reaches_settled plugins overrides s
  have hnothing : ∀ run ∈ s.ahead plugins overrides, run.events = [] := by
    intro run hrun
    rw [hahead] at hrun
    obtain ⟨i, hlt, rfl⟩ := List.mem_mapIdx.mp hrun
    rfl
  rw [hmore hnothing, List.append_nil] at hreaches
  have hended (i : Nat) (task : Task) (htask : tasks[i]? = some task) :
      ((leftOf runs []).map fun run => some run.outcome)[i]? = some task.outcome? := by
    rw [← hahead, ← houtcomes, List.getElem?_map, htask, Option.map_some]
  -- no task can go on; those that are waited for hang, so that nothing more is put up or taken
  refine ⟨tasks, hreaches, fun t hstep => ?_⟩
  cases hstep with
  | @act i task htask hgo =>
      have hnone := hended i task htask
      rw [hgo, List.getElem?_map] at hnone
      simp at hnone
  | @complete i task outcome htask hstopped hends hmem =>
      obtain ⟨run, hrun, hhang⟩ := hwaiting i hmem
      have hsome := hended i task htask
      rw [List.getElem?_map, getElem?_leftOf hrun, hstopped] at hsome
      simp only [Option.map_some, Option.some.injEq] at hsome
      exact hends (hsome.symm.trans hhang)
  | collect _ htaken => simp [hready] at htaken
  | fail _ htaken => simp [hready] at htaken
  | finish hnone hempty => exact hreturned hnone hempty

/-! ## Collecting after a part of the timeline -/

/-- The values to be collected, as they stand ahead of the tasks. -/
theorem ahead_of_values {entries : List (Run File × Nat)} {values : List File}
    (hvalues : entries.map (fun entry => entry.1.outcome) = values.map .value)
    {ahead : List (Run File)}
    (hahead : ∀ entry ∈ entries, ahead[entry.2]? = some ⟨[], entry.1.outcome⟩) :
    (entries.map Prod.snd).map (ahead[·]?) = values.map fun value => some ⟨[], .value value⟩ := by
  calc (entries.map Prod.snd).map (ahead[·]?)
      = (entries.map fun entry => entry.1.outcome).map fun outcome => some ⟨[], outcome⟩ := by
        rw [List.map_map, List.map_map]
        exact List.map_congr_left hahead
    _ = values.map fun value => some ⟨[], .value value⟩ := by simp [hvalues]

/-- The tasks of a file set but for some. -/
def uncollected (files : FileSet) (order : List Nat) : List Nat :=
  (List.range files.length).filter (· ∉ order)

theorem mem_uncollected {order : List Nat} {i : Nat} :
    i ∈ uncollected files order ↔ i < files.length ∧ i ∉ order := by
  simp [uncollected]

theorem length_uncollected {order : List Nat} (hnodup : order.Nodup)
    (hlt : ∀ i ∈ order, i < files.length) :
    (uncollected files order).length + order.length = files.length := by
  have hperm : ((List.range files.length).filter (· ∈ order)).Perm order := by
    refine (List.perm_ext_iff_of_nodup (List.nodup_range.filter _) hnodup).mpr fun i => ?_
    simpa using hlt i
  have hsplit := List.length_eq_countP_add_countP (fun i => decide (i ∈ order))
    (l := List.range files.length)
  rw [List.countP_eq_length_filter, List.countP_eq_length_filter, hperm.length_eq,
    List.length_range] at hsplit
  simp only [decide_eq_true_eq] at hsplit
  rw [uncollected]
  omega

/-- A batch that has shown some moments and collected some tasks. -/
def collecting (files : FileSet) (tasks : List Task) (order : List Nat) (values : FileSet)
    (shown : List Moment) : Progress :=
  { start files with
    tasks := tasks
    waiting := uncollected files order
    compiled := values
    history := (start files).history ++ timeline shown }

/-- After the first part of the timeline a batch can collect tasks to which nothing happens in the
second part. -/
theorem reaches_collecting {runs : List (Run File)}
    (hruns : runs = files.map (Pipeline.run plugins overrides)) {early late : List Moment}
    (hcut : early ++ late = moments runs) {entries : List (Run File × Nat)} {values : FileSet}
    (hfound : ∀ entry ∈ entries, runs[entry.2]? = some entry.1)
    (hover : ∀ entry ∈ entries, eventsOf (timeline late) (some entry.2) = [])
    (hnodup : (entries.map Prod.snd).Nodup)
    (hvalues : entries.map (fun entry => entry.1.outcome) = values.map .value) :
    ∃ tasks, Reaches plugins overrides (start files)
        (collecting files tasks (entries.map Prod.snd) values early) ∧
      tasks.map (Task.rest plugins overrides) = leftOf runs late := by
  have hstart : (start files).ahead plugins overrides = leftOf runs (early ++ late) := by
    rw [hcut, leftOf_moments, ahead_start, hruns]
  obtain ⟨shown, hshown, hahead⟩ :=
    reaches_part (fun moment h => hcut ▸ List.mem_append_left late h) hstart
  have hready : ∀ entry ∈ entries,
      (shown.map (Task.rest plugins overrides))[entry.2]? = some ⟨[], entry.1.outcome⟩ := by
    intro entry hentry
    rw [hahead, getElem?_leftOf (hfound entry hentry), hover entry hentry]
  have hmem : ∀ i ∈ entries.map Prod.snd, i ∈ (start files).waiting := by
    intro i hi
    obtain ⟨entry, hentry, rfl⟩ := List.mem_map.mp hi
    have hlt := (List.getElem?_eq_some_iff.mp (hfound entry hentry)).1
    simpa [start, hruns] using hlt
  obtain ⟨tasks, htasks, hsame⟩ := reaches_collected (s := { start files with
      tasks := shown
      history := (start files).history ++ timeline early }) rfl rfl List.nodup_range
    hnodup hmem (ahead_of_values hvalues hready)
  exact ⟨tasks, hshown.trans htasks, hsame.trans hahead⟩

/-! ## Batches without an error -/

section Values

variable {runs : List (Run File)} {values : FileSet}

/-- Without an error the whole timeline is shown first, and the values are collected after it. -/
theorem reaches_values (hruns : runs = files.map (Pipeline.run plugins overrides))
    (hvalues : (finishedAt runs).map (fun entry => entry.1.outcome) = values.map .value) :
    ∃ tasks, Reaches plugins overrides (start files)
        (collecting files tasks ((finishedAt runs).map Prod.snd) values (moments runs)) ∧
      tasks.map (Task.rest plugins overrides) = leftOf runs [] :=
  reaches_collecting hruns (List.append_nil _) (fun _ h => (mem_finishedAt.mp h).1)
    (fun _ _ => rfl) (completionOrder_finishedAt runs).nodup hvalues

/-- The tasks that are never collected are those that hang. -/
theorem mem_uncollected_iff_hang (hruns : runs = files.map (Pipeline.run plugins overrides))
    (i : Nat) :
    i ∈ uncollected files ((finishedAt runs).map Prod.snd) ↔
      ∃ run, runs[i]? = some run ∧ run.outcome = .hang := by
  have hlength : files.length = runs.length := by simp [hruns]
  rw [mem_uncollected, hlength, (completionOrder_finishedAt runs).mem_iff]
  constructor
  · rintro ⟨hlt, hnever⟩
    have hrun : runs[i]? = some runs[i] := List.getElem?_eq_getElem hlt
    exact ⟨runs[i], hrun, not_ends_iff.mp fun h => hnever ⟨runs[i], hrun, h⟩⟩
  · rintro ⟨run, hrun, hhang⟩
    refine ⟨(List.getElem?_eq_some_iff.mp hrun).1, ?_⟩
    rintro ⟨other, hother, h⟩
    obtain rfl : run = other := Option.some.inj (hrun.symm.trans hother)
    exact not_ends_iff.mpr hhang h

/-- If every task ends, the batch ends with all of the values. -/
theorem exists_execution_of_ends (hruns : runs = files.map (Pipeline.run plugins overrides))
    (hvalues : (finishedAt runs).map (fun entry => entry.1.outcome) = values.map .value)
    (hall : runs.all Run.ends = true) :
    ∃ s, Reaches plugins overrides (start files) s ∧ (∀ t, ¬Step plugins overrides s t) ∧
      s.history = timeline (ofRuns runs).moments ∧ s.ending = (ofRuns runs).outcome := by
  have houtcome : outcome runs = .value values := by
    rw [outcome_of_collected (collect_of_finishedAt hvalues), if_pos hall]
  have hnone : uncollected files ((finishedAt runs).map Prod.snd) = [] := by
    rw [List.eq_nil_iff_forall_not_mem]
    intro i hi
    obtain ⟨run, hrun, hhang⟩ := (mem_uncollected_iff_hang hruns i).mp hi
    have hends := List.all_eq_true.mp hall run (List.mem_of_getElem? hrun)
    simp [Run.ends, hhang] at hends
  obtain ⟨tasks, hreaches, hahead⟩ := reaches_values hruns hvalues
  have hfinish : Step plugins overrides _ _ := .finish (s := collecting files tasks
    ((finishedAt runs).map Prod.snd) values (moments runs)) rfl hnone
  obtain ⟨last, hlast, hfinal⟩ := reaches_last (s := { collecting files tasks
      ((finishedAt runs).map Prod.snd) values (moments runs) with
        returned := some (.ok values)
        history := (start files).history ++ timeline (moments runs) ++
          [(none, .log (note "done" values.length))] })
    hahead rfl (by simp [collecting, hnone]) (by simp)
  refine ⟨_, (hreaches.tail hfinish).trans hlast, hfinal, ?_, ?_⟩
  · have hlength : runs.length = files.length := by simp [hruns]
    simp [ofRuns, houtcome, timeline, start, hlength, record, note]
  · simp [ending, ofRuns, houtcome]

/-- If a task hangs, the batch waits for it when all others are collected. -/
theorem exists_execution_of_hang (hruns : runs = files.map (Pipeline.run plugins overrides))
    (hvalues : (finishedAt runs).map (fun entry => entry.1.outcome) = values.map .value)
    (hall : ¬runs.all Run.ends = true) :
    ∃ s, Reaches plugins overrides (start files) s ∧ (∀ t, ¬Step plugins overrides s t) ∧
      s.history = timeline (ofRuns runs).moments ∧ s.ending = (ofRuns runs).outcome := by
  have houtcome : outcome runs = .hang := by
    rw [outcome_of_collected (collect_of_finishedAt hvalues), if_neg hall]
  have hsome : uncollected files ((finishedAt runs).map Prod.snd) ≠ [] := by
    obtain ⟨run, hmem, hends⟩ := List.all_eq_false.mp (Bool.eq_false_iff.mpr hall)
    obtain ⟨i, hi⟩ := List.mem_iff_getElem?.mp hmem
    have hhang : run.outcome = .hang := not_ends_iff.mp hends
    exact List.ne_nil_of_mem ((mem_uncollected_iff_hang hruns i).mpr ⟨run, hi, hhang⟩)
  obtain ⟨tasks, hreaches, hahead⟩ := reaches_values hruns hvalues
  obtain ⟨last, hlast, hfinal⟩ := reaches_last (s := collecting files tasks
      ((finishedAt runs).map Prod.snd) values (moments runs))
    hahead rfl (fun i hi => (mem_uncollected_iff_hang hruns i).mp hi) fun _ => hsome
  refine ⟨_, hreaches.trans hlast, hfinal, ?_, ?_⟩
  · have hlength : runs.length = files.length := by simp [hruns]
    simp [collecting, ofRuns, houtcome, timeline, start, hlength, record, note]
  · simp [collecting, ending, ofRuns, houtcome, start]

end Values

/-! ## Batches with an error -/

section Error

variable {runs : List (Run File)} {before after : List (Run File × Nat)} {run : Run File}
  {i : Nat} {e : Failure}

theorem exists_values (h : ∀ entry ∈ before, ∃ value, entry.1.outcome = .value value) :
    ∃ values : List File, before.map (fun entry => entry.1.outcome) = values.map .value := by
  induction before with
  | nil => exact ⟨[], rfl⟩
  | cons entry before ih =>
      obtain ⟨value, hvalue⟩ := h entry (List.mem_cons_self ..)
      obtain ⟨values, hvalues⟩ := ih fun other hother => h other (List.mem_cons_of_mem _ hother)
      exact ⟨value :: values, by simp [hvalue, hvalues]⟩

/-- Nothing happens to a run after an instant by which it is over. -/
theorem eventsOf_late {time : Nat} (hrun : runs[i]? = some run) (hle : run.duration ≤ time) :
    eventsOf (timeline ((moments runs).filter (time < ·.time))) (some i) = [] := by
  rw [eventsOf_timeline, List.filter_filter, List.map_eq_nil_iff, List.filter_eq_nil_iff]
  intro moment hmoment
  simp only [Bool.and_eq_true, decide_eq_true_eq, not_and]
  intro hfile hlt
  have hstamp : moment ∈ Moment.stamp (some i) 0 run.events := by
    rw [← filter_file_moments hrun]
    exact List.mem_filter.mpr ⟨hmoment, by simpa using hfile⟩
  have := (Moment.time_of_mem_stamp hstamp).2
  rw [Run.duration] at hle
  omega

/-- The tasks up to the one that fails are over by its end. -/
theorem finished_by_split (hsplit : finishedAt runs = before ++ (run, i) :: after)
    {entry : Run File × Nat} (h : entry ∈ before ++ [(run, i)]) :
    runs[entry.2]? = some entry.1 ∧ entry.1.duration ≤ run.duration := by
  have hsorted : (finishedAt runs).Pairwise fun a b => a.1.duration ≤ b.1.duration :=
    Order.pairwise_sortByKey (fun entry : Run File × Nat => entry.1.duration) _
  rw [hsplit, List.pairwise_append] at hsorted
  rcases List.mem_append.mp h with hbefore | hself
  · have hmem : entry ∈ finishedAt runs := by simp [hsplit, hbefore]
    exact ⟨(mem_finishedAt.mp hmem).1, hsorted.2.2 entry hbefore (run, i) (by simp)⟩
  · obtain rfl := List.mem_singleton.mp hself
    have hmem : (run, i) ∈ finishedAt runs := by simp [hsplit]
    exact ⟨(mem_finishedAt.mp hmem).1, Nat.le_refl _⟩

/-- A batch in which a task fails shows what is due by the end of that task, collects up to its
error, and returns it. -/
theorem reaches_error (hruns : runs = files.map (Pipeline.run plugins overrides))
    (hsplit : finishedAt runs = before ++ (run, i) :: after)
    (hbefore : ∀ entry ∈ before, ∃ value, entry.1.outcome = .value value)
    (herror : error? run.outcome = some e) :
    ∃ s, Reaches plugins overrides (start files) s ∧
      s.ahead plugins overrides = leftOf runs ((moments runs).filter (run.duration < ·.time)) ∧
      s.ready = [] ∧ s.waiting = [] ∧ s.returned = some (.error e) ∧
      s.history = (start files).history ++
        timeline ((moments runs).filter (·.time ≤ run.duration)) ++
          [(none, detaching e (files.length - before.length - 1))] := by
  have hcut := filter_le_append_filter_gt run.duration (pairwise_moments runs)
  -- the tasks that are collected have nothing left to show at that instant
  have hover : ∀ entry ∈ before ++ [(run, i)],
      eventsOf (timeline ((moments runs).filter (run.duration < ·.time))) (some entry.2) = [] := by
    intro entry hentry
    obtain ⟨hfound, hle⟩ := finished_by_split hsplit hentry
    exact eventsOf_late hfound hle
  have hlt : ∀ entry ∈ before ++ [(run, i)], entry.2 < files.length := by
    intro entry hentry
    simpa [hruns] using (List.getElem?_eq_some_iff.mp (finished_by_split hsplit hentry).1).1
  have hnodup : (before.map Prod.snd ++ i :: after.map Prod.snd).Nodup := by
    simpa [hsplit] using (completionOrder_finishedAt runs).nodup
  rw [List.nodup_append] at hnodup
  obtain ⟨values, hvalues⟩ := exists_values hbefore
  obtain ⟨collected, hcollected, hahead⟩ := reaches_collecting hruns hcut
    (fun entry h => (finished_by_split hsplit (List.mem_append_left _ h)).1)
    (fun entry h => hover entry (List.mem_append_left _ h)) hnodup.1 hvalues
  have hwaiting : i ∈ uncollected files (before.map Prod.snd) :=
    mem_uncollected.mpr
      ⟨hlt (run, i) (by simp), fun hi => hnodup.2.2 i hi i (by simp) rfl⟩
  have hfailing : (collected.map (Task.rest plugins overrides))[i]? = some ⟨[], run.outcome⟩ := by
    have hself : (run, i) ∈ before ++ [(run, i)] := by simp
    rw [hahead, getElem?_leftOf (finished_by_split hsplit hself).1, hover _ hself]
  obtain ⟨tasks, hfailed, hsame⟩ := reaches_failed (s := collecting files collected
      (before.map Prod.snd) values ((moments runs).filter (·.time ≤ run.duration)))
    rfl rfl hwaiting hfailing herror
  have hltBefore : ∀ j ∈ before.map Prod.snd, j < files.length := by
    intro j hj
    obtain ⟨entry, hentry, rfl⟩ := List.mem_map.mp hj
    exact hlt entry (List.mem_append_left _ hentry)
  have hremaining : (uncollected files (before.map Prod.snd)).length - 1 =
      files.length - before.length - 1 := by
    have hcount := length_uncollected hnodup.1 hltBefore
    rw [List.length_map] at hcount
    omega
  exact ⟨_, hcollected.trans hfailed, hsame.trans hahead, rfl, rfl, rfl, by rw [← hremaining]; rfl⟩

/-- If a task fails, the batch ends with its error, and the other tasks go on. -/
theorem exists_execution_of_error (hruns : runs = files.map (Pipeline.run plugins overrides))
    (hsplit : finishedAt runs = before ++ (run, i) :: after)
    (hbefore : ∀ entry ∈ before, ∃ value, entry.1.outcome = .value value)
    (herror : error? run.outcome = some e) :
    ∃ s, Reaches plugins overrides (start files) s ∧ (∀ t, ¬Step plugins overrides s t) ∧
      s.history = timeline (ofRuns runs).moments ∧ s.ending = (ofRuns runs).outcome := by
  obtain ⟨houtcome, helapsed, habandoned⟩ := failed_of_finishedAt hsplit hbefore herror
  -- after the error the others go on until all of the timeline is shown, but are not collected
  obtain ⟨s, hreaches, hahead, hready, hwaiting, hreturned, hhistory⟩ :=
    reaches_error hruns hsplit hbefore herror
  rw [← List.append_nil ((moments runs).filter _)] at hahead
  obtain ⟨tasks, hshown, hnone⟩ := reaches_part (fun moment h => (List.mem_filter.mp h).1) hahead
  obtain ⟨last, hlast, hfinal⟩ := reaches_last (s := { s with
      tasks := tasks
      history := s.history ++ timeline ((moments runs).filter (run.duration < ·.time)) })
    hnone hready (by simp [hwaiting]) (by simp [hreturned])
  refine ⟨_, hreaches.trans (hshown.trans hlast), hfinal, ?_, ?_⟩
  · have hlength : runs.length = files.length := by simp [hruns]
    have hremaining : abandoned runs = files.length - before.length - 1 := by omega
    simp [hhistory, ofRuns, houtcome, helapsed, hremaining, timeline, start, hlength, record, note,
      detaching]
  · simp [ending, hreturned, ofRuns, houtcome]

end Error

/-! ## The main result -/

variable (plugins overrides files) in
theorem exists_execution :
    ∃ s, Reaches plugins overrides (start files) s ∧ (∀ t, ¬Step plugins overrides s t) ∧
      s.history = timeline (compile plugins overrides files).moments ∧
      s.ending = (compile plugins overrides files).outcome := by
  rcases values_or_error (finishedAt (files.map (Pipeline.run plugins overrides)))
    fun _ => ends_of_mem_finishedAt with
    ⟨values, hvalues⟩ | ⟨before, run, i, after, e, hsplit, hbefore, herror⟩
  · by_cases hall : (files.map (Pipeline.run plugins overrides)).all Run.ends = true
    · exact exists_execution_of_ends rfl hvalues hall
    · exact exists_execution_of_hang rfl hvalues hall
  · exact exists_execution_of_error rfl hsplit hbefore herror

end Progress

open Progress in
/-- The tasks of a batch do not meet, however their steps are interleaved.  At any time a batch can
go on until every task has come to its end; then each task has made the calls and left the records
of its file alone.  The log of the batch is in order all the while.  `compile` describes one of
the executions. -/
theorem isolation (plugins : List Plugin) (overrides : Overrides) (files : FileSet) :
    (∀ s, Reaches plugins overrides (start files) s →
      (∃ t, Reaches plugins overrides s t ∧ t.Settled) ∧
      (s.Settled → ∀ i file, files[i]? = some file →
        Event.calls (eventsOf s.history (some i)) =
            Event.calls (Pipeline.run plugins overrides file).events ∧
          Event.records (eventsOf s.history (some i)) =
            Event.records (Pipeline.run plugins overrides file).events) ∧
      LogOrder files.length s) ∧
    ∃ s, Reaches plugins overrides (start files) s ∧ (∀ t, ¬Progress.Step plugins overrides s t) ∧
      s.history = timeline (compile plugins overrides files).moments ∧
      s.ending = (compile plugins overrides files).outcome := by
  refine ⟨fun s hs => ⟨?_, ?_, logOrder_of_reaches hs⟩, exists_execution plugins overrides files⟩
  · obtain ⟨tasks, more, hreaches, houtcomes, -⟩ :=
      reaches_settled plugins overrides s
    refine ⟨_, hreaches, fun task htask => ?_⟩
    have hmem : task.outcome? ∈ tasks.map Task.outcome? := List.mem_map_of_mem htask
    rw [houtcomes] at hmem
    obtain ⟨run, -, hrun⟩ := List.mem_map.mp hmem
    exact ⟨run.outcome, hrun.symm⟩
  · intro hsettled i file hfile
    rw [(Isolated.of_reaches hs).eventsOf_eq hsettled hfile]
    exact ⟨rfl, rfl⟩

end Assets.Batch
