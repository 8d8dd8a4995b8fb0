import Assets.Proofs.Batch.Progress

/-!
# What a batch can come to

Nothing holds a task up, so a batch can always go on until every task has come to its end
(`reaches_settled`).  And nothing orders the tasks among one another: whatever list of events has
the events of each task in the order of that task, the batch can show them in just that order
(`reaches_shown`).  In between, the collector can take the values of tasks that have ended, in any
order (`reaches_collected`).
-/

namespace Assets.Batch.Progress

variable {plugins : List Plugin} {overrides : Overrides} {s : Progress}

/-- The steps of a task are steps of the batch. -/
theorem reaches_of_runs {task last : Task} {events : List Event}
    (hruns : Task.Runs plugins overrides task events last) {i : Nat}
    (htask : s.tasks[i]? = some task) :
    Reaches plugins overrides s { s with
      tasks := s.tasks.set i last
      history := s.history ++ events.map fun event => (some i, event) } := by
  induction hruns generalizing s with
  | refl task =>
      obtain ⟨hlt, rfl⟩ := List.getElem?_eq_some_iff.mp htask
      simpa using .refl
  | @step task last events hgo hrest ih =>
      obtain ⟨hlt, -⟩ := List.getElem?_eq_some_iff.mp htask
      refine .head (.act htask hgo) ?_
      have := ih (s := { s with
        tasks := s.tasks.set i (task.step plugins overrides).2
        history := s.history ++ (task.step plugins overrides).1.map fun event => (some i, event) })
        (by simp [hlt])
      simpa [List.set_set] using this

variable (plugins overrides) in
/-- The runs that are still ahead of the tasks. -/
def ahead (s : Progress) : List (Run File) := s.tasks.map (Task.rest plugins overrides)

theorem ahead_start (files : FileSet) :
    (start files).ahead plugins overrides = files.map (Pipeline.run plugins overrides) := by
  simp [ahead, start, Task.rest, Control.remaining]

theorem exists_task_of_ahead {i : Nat} {run : Run File}
    (h : (s.ahead plugins overrides)[i]? = some run) :
    ∃ task, s.tasks[i]? = some task ∧ task.rest plugins overrides = run := by
  simpa [ahead] using h

/-! ## Coming to the end -/

/-- All of some tasks come to their ends, one after the other. -/
theorem reaches_ended (todo done : List Task) (hs : s.tasks = done ++ todo) :
    ∃ ended more, Reaches plugins overrides s
        { s with tasks := done ++ ended, history := s.history ++ more } ∧
      ended.map Task.outcome? =
        todo.map (fun task => some (task.rest plugins overrides).outcome) ∧
      ((∀ task ∈ todo, (task.rest plugins overrides).events = []) → more = []) := by
  induction todo generalizing s done with
  | nil =>
      refine ⟨[], [], ?_, rfl, fun _ => rfl⟩
      rw [← hs, List.append_nil]
  | cons task todo ih =>
      obtain ⟨last, hruns, hended⟩ := task.runs_rest plugins overrides
      have hfirst := reaches_of_runs (s := s) hruns (i := done.length) (by simp [hs])
      obtain ⟨ended, more, hreaches, houtcomes, hmore⟩ := ih (s := { s with
        tasks := s.tasks.set done.length last
        history := s.history ++
          (task.rest plugins overrides).events.map fun event => (some done.length, event) })
        (done ++ [last]) (by simp [hs])
      refine ⟨last :: ended, _, hfirst.trans (by simpa using hreaches),
        by simp [hended, houtcomes], ?_⟩
      intro hnone
      simp [hnone task (by simp), hmore fun other hother => hnone other (by simp [hother])]

variable (plugins overrides) in
/-- A batch can always go on until every task has come to its end; if nothing is ahead of any task,
then without showing anything. -/
theorem reaches_settled (s : Progress) :
    ∃ tasks more, Reaches plugins overrides s
        { s with tasks := tasks, history := s.history ++ more } ∧
      tasks.map Task.outcome? =
        (s.ahead plugins overrides).map (fun run => some run.outcome) ∧
      ((∀ run ∈ s.ahead plugins overrides, run.events = []) → more = []) := by
  simpa [ahead, Function.comp_def] using reaches_ended s.tasks [] rfl

/-! ## Showing events in a given order -/

/-- The tasks can show their next events in any order that is the right one for each of them. -/
theorem reaches_shown (shown : List (Option Nat × Event)) (left : Nat → List Event)
    (howner : ∀ entry ∈ shown, ∃ i < s.tasks.length, entry.1 = some i)
    (hevents : ∀ (i : Nat) (run : Run File), (s.ahead plugins overrides)[i]? = some run →
      run.events = eventsOf shown (some i) ++ left i) :
    ∃ tasks, Reaches plugins overrides s
        { s with tasks := tasks, history := s.history ++ shown } ∧
      tasks.map (Task.rest plugins overrides) =
        (s.ahead plugins overrides).mapIdx fun i run => ⟨left i, run.outcome⟩ := by
  induction shown generalizing s with
  | nil =>
      refine ⟨s.tasks, by simpa using .refl, List.ext_getElem? fun i => ?_⟩
      rw [← ahead, List.getElem?_mapIdx]
      cases hrun : (s.ahead plugins overrides)[i]? with
      | none => rfl
      | some run =>
          have hleft : run.events = left i := by simpa using hevents i run hrun
          rw [Option.map_some, ← hleft]
  | cons entry shown ih =>
      obtain ⟨owner, event⟩ := entry
      obtain ⟨i, hlt, rfl⟩ : ∃ i < s.tasks.length, owner = some i :=
        howner _ (List.mem_cons_self ..)
      obtain ⟨task, htask⟩ : ∃ task, s.tasks[i]? = some task := ⟨_, List.getElem?_eq_getElem hlt⟩
      have hhead : (task.rest plugins overrides).events =
          event :: (eventsOf shown (some i) ++ left i) := by
        simpa [eventsOf] using hevents i _ (by simp [ahead, htask])
      obtain ⟨next, hruns, hrest⟩ := Task.runs_emit hhead
      -- the state after the first event, from which the others are shown
      let s' : Progress := { s with
        tasks := s.tasks.set i next
        history := s.history ++ [(some i, event)] }
      have hfirst : Reaches plugins overrides s s' := reaches_of_runs hruns htask
      have hself : (s'.ahead plugins overrides)[i]? =
          some ⟨eventsOf shown (some i) ++ left i, (task.rest plugins overrides).outcome⟩ := by
        simp [s', ahead, hlt, hrest]
      have hother (j : Nat) (hij : i ≠ j) :
          (s'.ahead plugins overrides)[j]? = (s.ahead plugins overrides)[j]? := by
        simp [s', ahead, List.getElem?_set_ne hij]
      have hevents' : ∀ (j : Nat) (run : Run File), (s'.ahead plugins overrides)[j]? = some run →
          run.events = eventsOf shown (some j) ++ left j := by
        intro j run hrun
        by_cases hij : i = j
        · subst hij
          rw [hself] at hrun
          rw [← Option.some.inj hrun]
        · rw [hother j hij] at hrun
          simpa [eventsOf, hij] using hevents j run hrun
      have howner' : ∀ entry ∈ shown, ∃ j < s'.tasks.length, entry.1 = some j := by
        simpa [s'] using fun owner event hentry =>
          howner (owner, event) (List.mem_cons_of_mem _ hentry)
      obtain ⟨tasks, hreaches, htasks⟩ := ih howner' hevents'
      refine ⟨tasks, hfirst.trans (by simpa [s'] using hreaches), ?_⟩
      refine htasks.trans (List.ext_getElem? fun j => ?_)
      rw [List.getElem?_mapIdx, List.getElem?_mapIdx]
      by_cases hij : i = j
      · subst hij
        rw [hself]
        simp [ahead, htask]
      · rw [hother j hij]

/-! ## Collecting -/

/-- A task with nothing ahead of it can be put up for collection. -/
theorem reaches_ready {i : Nat} {outcome : Outcome File} (hready : s.ready = [])
    (hwaiting : i ∈ s.waiting) (hahead : (s.ahead plugins overrides)[i]? = some ⟨[], outcome⟩)
    (hends : outcome ≠ .hang) :
    ∃ tasks task, Reaches plugins overrides s { s with tasks := tasks, ready := [i] } ∧
      tasks.map (Task.rest plugins overrides) = s.ahead plugins overrides ∧
      tasks[i]? = some task ∧ task.outcome? = some outcome := by
  obtain ⟨task, htask, hrest⟩ := exists_task_of_ahead hahead
  obtain ⟨hlt, -⟩ := List.getElem?_eq_some_iff.mp htask
  have hnone : (task.rest plugins overrides).events = [] := by rw [hrest]
  obtain ⟨last, hruns, hended⟩ := Task.runs_stop hnone
  rw [hrest] at hended
  have hlast : (s.tasks.set i last)[i]? = some last := by simp [hlt]
  have hstop := reaches_of_runs hruns htask
  have hcomplete : Step plugins overrides { s with tasks := s.tasks.set i last } _ :=
    .complete hlast hended hends hwaiting (by simp [hready])
  refine ⟨s.tasks.set i last, last, ?_, ?_, hlast, hended⟩
  · refine .tail (by simpa using hstop) ?_
    simpa [hready] using hcomplete
  · have hsame : (s.ahead plugins overrides)[i]? = some (last.rest plugins overrides) := by
      rw [hahead, Task.rest_of_outcome hended]
    rw [List.map_set, ← ahead]
    obtain ⟨hlt, hget⟩ := List.getElem?_eq_some_iff.mp hsame
    rw [← hget, List.set_getElem_self]

/-- The error of a task that has nothing ahead of it can be returned. -/
theorem reaches_failed {i : Nat} {outcome : Outcome File} {e : Failure}
    (hreturned : s.returned = none) (hready : s.ready = []) (hwaiting : i ∈ s.waiting)
    (hahead : (s.ahead plugins overrides)[i]? = some ⟨[], outcome⟩)
    (herror : error? outcome = some e) :
    ∃ tasks, Reaches plugins overrides s { s with
        tasks := tasks
        waiting := []
        returned := some (.error e)
        history := s.history ++ [(none, detaching e (s.waiting.length - 1))] } ∧
      tasks.map (Task.rest plugins overrides) = s.ahead plugins overrides := by
  have hends : outcome ≠ .hang := by
    rintro rfl
    simp [error?] at herror
  obtain ⟨tasks, task, hreaches, hsame, htask, hended⟩ :=
    reaches_ready hready hwaiting hahead hends
  have hfail : Step plugins overrides { s with tasks := tasks, ready := [i] } _ :=
    .fail hreturned rfl htask hended herror
  refine ⟨tasks, hreaches.tail ?_, hsame⟩
  simpa [hready, List.length_erase_of_mem hwaiting] using hfail

/-- The values of tasks that have nothing ahead of them can be collected in any order. -/
theorem reaches_collected {order : List Nat} {values : List File} (hreturned : s.returned = none)
    (hready : s.ready = []) (hwaiting : s.waiting.Nodup) (horder : order.Nodup)
    (hmem : ∀ i ∈ order, i ∈ s.waiting)
    (hvalues : order.map ((s.ahead plugins overrides)[·]?) =
      values.map fun value => some ⟨[], .value value⟩) :
    ∃ tasks, Reaches plugins overrides s { s with
        tasks := tasks
        waiting := s.waiting.filter (· ∉ order)
        compiled := s.compiled ++ values } ∧
      tasks.map (Task.rest plugins overrides) = s.ahead plugins overrides := by
  induction order generalizing s values with
  | nil =>
      obtain rfl : values = [] := by simpa using hvalues.symm
      have hfilter : s.waiting.filter (· ∉ ([] : List Nat)) = s.waiting :=
        List.filter_eq_self.mpr (by simp)
      refine ⟨s.tasks, ?_, rfl⟩
      rw [hfilter, List.append_nil]
  | cons i order ih =>
      cases values with
      | nil => simp at hvalues
      | cons value values =>
          simp only [List.map_cons, List.cons.injEq] at hvalues
          obtain ⟨hahead, hvalues⟩ := hvalues
          rw [List.nodup_cons] at horder
          obtain ⟨tasks, task, hreaches, hsame, htask, hended⟩ :=
            reaches_ready hready (hmem i (by simp)) hahead (by simp)
          have hcollect : Step plugins overrides { s with tasks := tasks, ready := [i] } _ :=
            .collect hreturned rfl htask hended
          -- the state from which the others are collected
          let s' : Progress := { s with
            tasks := tasks
            waiting := s.waiting.erase i
            compiled := s.compiled ++ [value] }
          have hfirst : Reaches plugins overrides s s' := by
            refine hreaches.tail ?_
            simpa [s', hready] using hcollect
          have hstill (j : Nat) (hj : j ∈ order) : j ∈ s'.waiting := by
            have hne : j ≠ i := fun heq => horder.1 (heq ▸ hj)
            exact (List.mem_erase_of_ne hne).mpr (hmem j (by simp [hj]))
          obtain ⟨last, hrest, hlast⟩ := ih (s := s') hreturned hready (hwaiting.erase i) horder.2
            hstill (by rw [ahead, hsame]; exact hvalues)
          refine ⟨last, hfirst.trans ?_, hlast.trans hsame⟩
          have hfilter : (s.waiting.erase i).filter (· ∉ order) =
              s.waiting.filter (· ∉ i :: order) := by
            rw [hwaiting.erase_eq_filter, List.filter_filter]
            refine List.filter_congr fun j _ => ?_
            by_cases hj : j = i <;> simp [hj]
          rw [← hfilter, List.append_cons]
          exact hrest

end Assets.Batch.Progress
