import Assets.Batch
import Assets.Proofs.Order.SortByKey

/-!
# The order in which tasks complete

A batch runs one task a file.  Its outcome depends on when the tasks end, and nothing but their
waits decides that; so a schedule of a batch is a list of runs that may take any time they like.

`CompletionOrder` says of a list of positions that it is the order in which the tasks of a
schedule complete: it lists exactly the tasks that end, by the instant at which they end, and at
one instant by the order of their files.  There is always one such order
(`exists_completionOrder`) and never a second one (`CompletionOrder.unique`).  The runs that a
batch collects are the tasks in this order: both come from `finishedAt`, by
`map_fst_finishedAt` and `CompletionOrder.eq_map_finishedAt`.  And whatever tasks end, they can
complete in any order: `staggered` is a schedule in which they do (`completionOrder_staggered`).
-/

namespace Assets.Batch

variable {α : Type}

/-- Only a task that hangs does not end. -/
theorem not_ends_iff {task : Run α} : ¬task.ends = true ↔ task.outcome = .hang := by
  cases h : task.outcome <;> simp [Run.ends, h]

/-- The first task ends before the second: at an earlier instant, or at the same one and its file
comes first. -/
def EndsBefore (tasks : List (Run α)) (i j : Nat) : Prop :=
  ∀ first ∈ tasks[i]?, ∀ second ∈ tasks[j]?,
    first.duration < second.duration ∨ first.duration = second.duration ∧ i < j

/-- The tasks that end, by their positions, in the order in which they end. -/
structure CompletionOrder (tasks : List (Run α)) (order : List Nat) : Prop where
  mem_iff : ∀ i, i ∈ order ↔ ∃ task, tasks[i]? = some task ∧ task.ends = true
  sorted : order.Pairwise (EndsBefore tasks)

/-- The tasks that end, with their positions, in the order in which they end. -/
def finishedAt (tasks : List (Run α)) : List (Run α × Nat) :=
  (tasks.zipIdx.filter fun entry => entry.1.ends).mergeSort fun a b =>
    a.1.duration ≤ b.1.duration

theorem map_fst_finishedAt (tasks : List (Run α)) :
    (finishedAt tasks).map Prod.fst = finished tasks := by
  have hfilter : (tasks.zipIdx.filter fun entry => entry.1.ends).map Prod.fst =
      tasks.filter Run.ends := by
    calc (tasks.zipIdx.filter fun entry => entry.1.ends).map Prod.fst
        = (tasks.zipIdx.map Prod.fst).filter Run.ends := by
          rw [List.filter_map]
          rfl
      _ = tasks.filter Run.ends := by rw [List.zipIdx_map_fst]
  rw [finishedAt, finished, ← hfilter]
  exact List.map_mergeSort fun _ _ _ _ => rfl

theorem mem_finishedAt {tasks : List (Run α)} {task : Run α} {i : Nat} :
    (task, i) ∈ finishedAt tasks ↔ tasks[i]? = some task ∧ task.ends = true := by
  rw [finishedAt, List.mem_mergeSort, List.mem_filter, List.mk_mem_zipIdx_iff_getElem?]

theorem pairwise_snd_zipIdx (tasks : List (Run α)) :
    tasks.zipIdx.Pairwise fun a b => a.2 < b.2 := by
  have hpositions : (tasks.zipIdx.map Prod.snd).Pairwise (· < ·) := by
    rw [List.zipIdx_map_snd]
    exact List.pairwise_lt_range'
  exact List.pairwise_map.mp hpositions

theorem completionOrder_finishedAt (tasks : List (Run α)) :
    CompletionOrder tasks ((finishedAt tasks).map Prod.snd) where
  mem_iff i := by
    simp only [List.mem_map, Prod.exists, exists_eq_right, mem_finishedAt]
  sorted := by
    have hstable := Order.pairwise_sortByKey_of_pairwise
      (fun entry : Run α × Nat => entry.1.duration)
      ((pairwise_snd_zipIdx tasks).filter fun entry => entry.1.ends)
    rw [List.pairwise_map]
    refine List.Pairwise.imp_of_mem ?_ hstable
    rintro ⟨task, i⟩ ⟨other, j⟩ htask hother ⟨hle, htie⟩ first hfirst second hsecond
    obtain ⟨htask, -⟩ := mem_finishedAt.mp htask
    obtain ⟨hother, -⟩ := mem_finishedAt.mp hother
    obtain rfl : task = first := Option.some.inj (htask.symm.trans hfirst)
    obtain rfl : other = second := Option.some.inj (hother.symm.trans hsecond)
    dsimp only at hle htie
    omega

/-- Every schedule has an order of completion. -/
theorem exists_completionOrder (tasks : List (Run α)) : ∃ order, CompletionOrder tasks order :=
  ⟨_, completionOrder_finishedAt tasks⟩

namespace CompletionOrder

variable {tasks : List (Run α)} {order other : List Nat}

theorem getElem?_of_mem (h : CompletionOrder tasks order) {i : Nat} (hi : i ∈ order) :
    ∃ task, tasks[i]? = some task ∧ task.ends = true :=
  (h.mem_iff i).mp hi

theorem nodup (h : CompletionOrder tasks order) : order.Nodup := by
  refine List.Pairwise.imp_of_mem ?_ h.sorted
  rintro i j hi - hbefore rfl
  obtain ⟨task, htask, -⟩ := h.getElem?_of_mem hi
  have := hbefore task htask task htask
  omega

/-- Tasks complete in one order only. -/
theorem unique (h : CompletionOrder tasks order) (hother : CompletionOrder tasks other) :
    order = other := by
  have hperm : order.Perm other := (List.perm_ext_iff_of_nodup h.nodup hother.nodup).mpr
    fun i => (h.mem_iff i).trans (hother.mem_iff i).symm
  refine List.Perm.eq_of_pairwise ?_ h.sorted hother.sorted hperm
  intro i j hi hj hij hji
  obtain ⟨first, hfirst, -⟩ := h.getElem?_of_mem hi
  obtain ⟨second, hsecond, -⟩ := hother.getElem?_of_mem hj
  have := hij first hfirst second hsecond
  have := hji second hsecond first hfirst
  omega

theorem eq_map_finishedAt (h : CompletionOrder tasks order) :
    order = (finishedAt tasks).map Prod.snd :=
  h.unique (completionOrder_finishedAt tasks)

/-- If every task ends, each stands in the order once. -/
theorem perm_range (h : CompletionOrder tasks order) (hall : ∀ task ∈ tasks, task.ends = true) :
    order.Perm (List.range tasks.length) := by
  refine (List.perm_ext_iff_of_nodup h.nodup List.nodup_range).mpr fun i => ?_
  rw [h.mem_iff, List.mem_range]
  constructor
  · rintro ⟨task, htask, -⟩
    exact (List.getElem?_eq_some_iff.mp htask).1
  · intro hi
    exact ⟨tasks[i], List.getElem?_eq_getElem hi, hall _ (List.getElem_mem hi)⟩

end CompletionOrder

/-! ## Every completion order occurs -/

section Staggered

variable {outcomes : List (Outcome α)} {order : List Nat} {i : Nat}

/-- The tasks of which each waits as long as its place in an order says. -/
def staggered (outcomes : List (Outcome α)) (order : List Nat) : List (Run α) :=
  outcomes.mapIdx fun i outcome => ⟨[.effect (.wait (order.idxOf i))], outcome⟩

theorem getElem?_staggered :
    (staggered outcomes order)[i]? =
      outcomes[i]?.map fun outcome => ⟨[.effect (.wait (order.idxOf i))], outcome⟩ :=
  List.getElem?_mapIdx

theorem map_outcome_staggered (outcomes : List (Outcome α)) (order : List Nat) :
    (staggered outcomes order).map Run.outcome = outcomes := by
  refine List.ext_getElem? fun i => ?_
  rw [List.getElem?_map, getElem?_staggered]
  cases outcomes[i]? <;> rfl

theorem duration_of_mem_staggered {task : Run α} (h : task ∈ (staggered outcomes order)[i]?) :
    task.duration = order.idxOf i := by
  rw [getElem?_staggered] at h
  obtain ⟨outcome, -, rfl⟩ := Option.map_eq_some_iff.mp h
  simp [Run.duration, Event.duration]

/-- The tasks that end can complete in any order. -/
theorem completionOrder_staggered (hnodup : order.Nodup)
    (hends : ∀ i, i ∈ order ↔ ∃ outcome, outcomes[i]? = some outcome ∧ outcome ≠ .hang) :
    CompletionOrder (staggered outcomes order) order where
  mem_iff i := by
    rw [hends, getElem?_staggered]
    cases outcomes[i]? with
    | none => simp
    | some outcome => cases outcome <;> simp [Run.ends]
  sorted := by
    rw [List.pairwise_iff_getElem]
    intro i j hi hj hij first hfirst second hsecond
    rw [duration_of_mem_staggered hfirst, duration_of_mem_staggered hsecond,
      hnodup.idxOf_getElem i hi, hnodup.idxOf_getElem j hj]
    exact .inl hij

theorem completionOrder_staggered_of_perm (hends : ∀ outcome ∈ outcomes, outcome ≠ .hang)
    (horder : order.Perm (List.range outcomes.length)) :
    CompletionOrder (staggered outcomes order) order := by
  refine completionOrder_staggered (horder.nodup_iff.mpr List.nodup_range) fun i => ?_
  rw [horder.mem_iff, List.mem_range]
  constructor
  · exact fun hi => ⟨_, List.getElem?_eq_getElem hi, hends _ (List.getElem_mem hi)⟩
  · rintro ⟨outcome, houtcome, -⟩
    exact (List.getElem?_eq_some_iff.mp houtcome).1

end Staggered

end Assets.Batch
