import Assets.Proofs.Batch.Completion

/-!
# The timeline of a batch

`moments` puts the events of all runs in the order of time.  Each run keeps its own events in
their order (`filter_file_moments`): its moments are in the order of time to begin with, and the
sort is stable.  An instant cuts the timeline in two parts, and with it the events of each run.
-/

namespace Assets

namespace Moment

variable {file : Option Nat} {time : Nat} {events : List Event} {moment : Moment}

@[simp] theorem map_event_stamp (file : Option Nat) (time : Nat) (events : List Event) :
    (stamp file time events).map (·.event) = events := by
  induction events generalizing time with
  | nil => rfl
  | cons event events ih => simp [stamp, ih]

theorem file_of_mem_stamp (h : moment ∈ stamp file time events) : moment.file = file := by
  induction events generalizing time with
  | nil => simp [stamp] at h
  | cons event events ih =>
      rcases List.mem_cons.mp h with rfl | h
      · rfl
      · exact ih h

/-- The moments of a run lie between its beginning and its end. -/
theorem time_of_mem_stamp (h : moment ∈ stamp file time events) :
    time ≤ moment.time ∧
      moment.time ≤ time + events.foldr (fun event time => event.duration + time) 0 := by
  induction events generalizing time with
  | nil => simp [stamp] at h
  | cons event events ih =>
      simp only [List.foldr_cons]
      rcases List.mem_cons.mp h with rfl | h
      · simp only
        omega
      · obtain ⟨hfirst, hlast⟩ := ih h
        omega

theorem pairwise_stamp (file : Option Nat) (time : Nat) (events : List Event) :
    (stamp file time events).Pairwise fun a b => a.time ≤ b.time := by
  induction events generalizing time with
  | nil => exact .nil
  | cons event events ih =>
      exact .cons (fun moment hmoment => (time_of_mem_stamp hmoment).1) (ih _)

end Moment

namespace Batch

variable {α : Type} {runs : List (Run α)}

theorem mem_moments {moment : Moment} :
    moment ∈ moments runs ↔ ∃ run i, runs[i]? = some run ∧
      moment ∈ Moment.stamp (some i) 0 run.events := by
  simp [moments, List.mem_mergeSort, List.mk_mem_zipIdx_iff_getElem?]

theorem pairwise_moments (runs : List (Run α)) :
    (moments runs).Pairwise fun a b => a.time ≤ b.time :=
  Order.pairwise_sortByKey Moment.time _

theorem filter_file_of_others {i : Nat} {entries : List (Run α × Nat)}
    (h : ∀ entry ∈ entries, entry.2 ≠ i) :
    (entries.flatMap fun (run, j) => Moment.stamp (some j) 0 run.events).filter
        (·.file = some i) = [] := by
  rw [List.filter_eq_nil_iff]
  intro moment hmoment
  obtain ⟨⟨run, j⟩, hentry, hstamp⟩ := List.mem_flatMap.mp hmoment
  simpa [Moment.file_of_mem_stamp hstamp] using h (run, j) hentry

/-- Before the moments of all runs are sorted, those of one run stand together. -/
theorem filter_file_stamps {i : Nat} {run : Run α} (h : runs[i]? = some run) :
    (runs.zipIdx.flatMap fun (run, j) => Moment.stamp (some j) 0 run.events).filter
        (·.file = some i) = Moment.stamp (some i) 0 run.events := by
  obtain ⟨hlt, rfl⟩ := List.getElem?_eq_some_iff.mp h
  have hlength : (runs.take i).length = i := List.length_take_of_le (Nat.le_of_lt hlt)
  have hsplit : runs.zipIdx =
      (runs.take i).zipIdx ++ (runs[i], i) :: (runs.drop (i + 1)).zipIdx (i + 1) := by
    conv => lhs; rw [← List.take_append_drop i runs, List.drop_eq_getElem_cons hlt]
    rw [List.zipIdx_append, List.zipIdx_cons, hlength, Nat.zero_add]
  have hbefore : ∀ entry ∈ (runs.take i).zipIdx, entry.2 ≠ i := by
    intro entry hentry
    have := List.snd_lt_of_mem_zipIdx hentry
    omega
  have hafter : ∀ entry ∈ (runs.drop (i + 1)).zipIdx (i + 1), entry.2 ≠ i := by
    intro entry hentry
    have := List.le_snd_of_mem_zipIdx hentry
    omega
  have hself : (Moment.stamp (some i) 0 runs[i].events).filter (·.file = some i) =
      Moment.stamp (some i) 0 runs[i].events :=
    List.filter_eq_self.mpr fun moment hmoment => by simp [Moment.file_of_mem_stamp hmoment]
  rw [hsplit, List.flatMap_append, List.flatMap_cons, List.filter_append, List.filter_append,
    filter_file_of_others hbefore, filter_file_of_others hafter, hself, List.nil_append,
    List.append_nil]

/-- The timeline has the moments of each run in their order. -/
theorem filter_file_moments {i : Nat} {run : Run α} (h : runs[i]? = some run) :
    (moments runs).filter (·.file = some i) = Moment.stamp (some i) 0 run.events := by
  rw [moments, Order.filter_sortByKey Moment.time, filter_file_stamps h]
  rw [filter_file_stamps h]
  exact Moment.pairwise_stamp ..

/-- An instant cuts what is in the order of time in two. -/
theorem filter_le_append_filter_gt {l : List Moment} (time : Nat)
    (h : l.Pairwise fun a b => a.time ≤ b.time) :
    l.filter (·.time ≤ time) ++ l.filter (time < ·.time) = l := by
  induction l with
  | nil => rfl
  | cons moment l ih =>
      rw [List.pairwise_cons] at h
      by_cases hle : moment.time ≤ time
      · simp [hle, Nat.not_lt.mpr hle, ih h.2]
      · have hnone : l.filter (·.time ≤ time) = [] := by
          rw [List.filter_eq_nil_iff]
          intro later hlater
          have := h.1 later hlater
          simp only [decide_eq_true_eq]
          omega
        have hall : l.filter (time < ·.time) = l := by
          rw [List.filter_eq_self]
          intro later hlater
          have := h.1 later hlater
          simp only [decide_eq_true_eq]
          omega
        simp [hle, Nat.not_le.mp hle, hnone, hall]

end Batch

end Assets
