import Mathlib.Data.List.Perm.Basic
import Assets.Plugin.Capability
import Assets.Proofs.Batch.Outcome
import Assets.Proofs.FileSet.Names

/-!
# What a batch seals

A batch hands over its results in the order in which the tasks complete, and that order follows
neither from the files nor from the plugins: every order is the completion order of some schedule
(`completionOrder_staggered_of_perm`).  What is sealed is canonical all the same.  Whatever the
schedule, the results are those of the files, each once (`perm_fileOutcomes`), and an archive of
files with different names does not tell in which order they came.

* `archive_independent_of_order`: a file set has one archive, up to the order of its files.

The names that must differ are those of the results.  Files of different names can be compiled to
one name, and then the order of completion shows in the archive.
-/

namespace Assets

/-- Both batches come to an archive, with one content and one digest. -/
def Compilation.SealsAs (first second : Compilation) : Prop :=
  ∃ archive other, first.archive = .value archive ∧ second.archive = .value other ∧
    archive.content = other.content ∧ archive.hash = other.hash

theorem Compilation.archive_of_outcome {compilation : Compilation} {compiled : FileSet}
    (h : compilation.outcome = .value compiled) :
    compilation.archive = .value (Archive.ofFiles compiled) := by
  rw [archive, h]
  rfl

theorem Compilation.exists_of_archive_eq {compilation : Compilation} {archive : Archive}
    (h : compilation.archive = .value archive) :
    ∃ compiled, compilation.outcome = .value compiled ∧ archive = Archive.ofFiles compiled := by
  unfold Compilation.archive at h
  cases houtcome : compilation.outcome with
  | value compiled =>
      rw [houtcome] at h
      cases h
      exact ⟨compiled, rfl, rfl⟩
  | failure e => simp [houtcome, Outcome.map] at h
  | panic => simp [houtcome, Outcome.map] at h
  | hang => simp [houtcome, Outcome.map] at h

namespace Batch

/-! ## The results -/

theorem map_getElem?_range {α : Type} (l : List α) :
    (List.range l.length).map (l[·]?) = l.map some := by
  refine List.ext_getElem (by simp) fun i hi _ => ?_
  rw [List.length_map, List.length_range] at hi
  simp [hi]

/-- Tasks that take no time complete in the order of their files. -/
theorem outcome_of_instant {α : Type} {tasks : List (Run α)} {values : List α}
    (hvalues : tasks.map Run.outcome = values.map .value)
    (hinstant : ∀ task ∈ tasks, task.duration = 0) : outcome tasks = .value values := by
  have hends : ∀ task ∈ tasks, task.ends = true := by
    intro task htask
    have hmem : task.outcome ∈ values.map .value := hvalues ▸ List.mem_map_of_mem htask
    obtain ⟨value, -, hvalue⟩ := List.mem_map.mp hmem
    simp [Run.ends, ← hvalue]
  have horder : CompletionOrder tasks (List.range tasks.length) := by
    constructor
    case mem_iff =>
      intro i
      rw [List.mem_range]
      constructor
      · exact fun hi => ⟨tasks[i], List.getElem?_eq_getElem hi, hends _ (List.getElem_mem hi)⟩
      · rintro ⟨task, htask, -⟩
        exact (List.getElem?_eq_some_iff.mp htask).1
    case sorted =>
      refine List.pairwise_lt_range.imp fun hij first hfirst second hsecond => .inr ⟨?_, hij⟩
      rw [hinstant first (List.mem_of_getElem? hfirst),
        hinstant second (List.mem_of_getElem? hsecond)]
  refine outcome_of_values horder (.refl _) ?_
  have hlength : tasks.length = (tasks.map Run.outcome).length := by simp
  rw [hlength, map_getElem?_range, hvalues, List.map_map]
  rfl

/-- What staggered tasks come to, if each of them has a value. -/
theorem outcome_staggered {α : Type} {values collected : List α} {order : List Nat}
    (horder : order.Perm (List.range values.length))
    (hcollected : order.map (values[·]?) = collected.map some) :
    outcome (staggered (values.map .value) order) = .value collected := by
  have hends : ∀ ending ∈ values.map Outcome.value, ending ≠ .hang := by simp
  have hlength : (staggered (values.map .value) order).length = values.length := by
    simp [staggered]
  refine outcome_of_values (completionOrder_staggered_of_perm hends (by simpa using horder))
    (by rwa [hlength]) ?_
  have hmap := congrArg (List.map (Option.map Outcome.value)) hcollected
  simpa [map_outcome_staggered, Function.comp_def] using hmap

section Results

variable {plugins : List Plugin} {overrides : Overrides} {files results compiled : FileSet}
  {tasks : List (Run File)}

theorem map_value_perm_iff {results compiled : FileSet} :
    (compiled.map Outcome.value).Perm (results.map Outcome.value) ↔ compiled.Perm results :=
  List.map_perm_map_iff fun _ _ => Outcome.value.inj

/-- The results of a batch are those of its files, each once. -/
theorem perm_fileOutcomes
    (htasks : tasks.map Run.outcome = fileOutcomes plugins overrides files)
    (hcompiled : (ofRuns tasks).outcome = .value compiled) :
    (compiled.map .value).Perm (fileOutcomes plugins overrides files) := by
  obtain ⟨order, horder⟩ := exists_completionOrder tasks
  obtain ⟨hperm, hvalues⟩ := values_in_completion_order horder hcompiled
  have hlength : tasks.length = (tasks.map Run.outcome).length := by simp
  have hsome : ((compiled.map .value).map some).Perm
      ((fileOutcomes plugins overrides files).map some) := by
    have hmap := hperm.map ((tasks.map Run.outcome)[·]?)
    rw [hvalues, hlength, map_getElem?_range, htasks] at hmap
    simpa [Function.comp_def] using hmap
  exact (List.map_perm_map_iff fun _ _ => Option.some.inj).mp hsome

theorem exists_file_of_mem_compiled
    (htasks : tasks.map Run.outcome = fileOutcomes plugins overrides files)
    (hcompiled : (ofRuns tasks).outcome = .value compiled) {result : File}
    (hresult : result ∈ compiled) :
    ∃ file ∈ files, (Pipeline.run plugins overrides file).outcome = .value result :=
  List.mem_map.mp ((perm_fileOutcomes htasks hcompiled).mem_iff.mp (List.mem_map_of_mem hresult))

/-- Files that all compile give their results under every schedule. -/
theorem exists_outcome_perm
    (htasks : tasks.map Run.outcome = fileOutcomes plugins overrides files)
    (hresults : (results.map .value).Perm (fileOutcomes plugins overrides files)) :
    ∃ compiled, (ofRuns tasks).outcome = .value compiled ∧ compiled.Perm results := by
  obtain ⟨order, horder⟩ := exists_completionOrder tasks
  have hvalue : ∀ task ∈ tasks, ∃ value, task.outcome = .value value := by
    intro task htask
    have hmem : task.outcome ∈ results.map Outcome.value := by
      rw [hresults.mem_iff, ← htasks]
      exact List.mem_map_of_mem htask
    obtain ⟨result, -, hresult⟩ := List.mem_map.mp hmem
    exact ⟨result, hresult.symm⟩
  obtain ⟨compiled, hcompiled⟩ := (exists_outcome_eq_value_iff horder).mpr hvalue
  have hperm := (perm_fileOutcomes htasks hcompiled).trans hresults.symm
  exact ⟨compiled, hcompiled, map_value_perm_iff.mp hperm⟩

/-- Two schedules of one file set, given in any order, seal the same archive. -/
theorem sealsAs_of_perm {other : FileSet} {others : List (Run File)} (hfiles : files.Perm other)
    (hresults : fileOutcomes plugins overrides files = results.map .value)
    (hnames : results.names.Nodup)
    (htasks : tasks.map Run.outcome = fileOutcomes plugins overrides files)
    (hothers : others.map Run.outcome = fileOutcomes plugins overrides other) :
    (ofRuns tasks).SealsAs (ofRuns others) := by
  have hsame : (results.map .value).Perm (fileOutcomes plugins overrides other) := by
    rw [← hresults]
    exact hfiles.map _
  obtain ⟨compiled, hcompiled, hperm⟩ := exists_outcome_perm htasks (.of_eq hresults.symm)
  obtain ⟨recompiled, hrecompiled, hreperm⟩ := exists_outcome_perm hothers hsame
  have hdistinct : compiled.names.Nodup := (hperm.map File.name).nodup_iff.mpr hnames
  obtain ⟨hcontent, hhash⟩ := Archive.ofFiles_eq_of_perm (hperm.trans hreperm.symm) hdistinct
  exact ⟨_, _, Compilation.archive_of_outcome hcompiled, Compilation.archive_of_outcome hrecompiled,
    hcontent, hhash⟩

end Results

/-- **The archive of a file set.**  Files that all compile, to results of different names, are
sealed with one content and one digest, in whatever order they are given and in whatever order
their tasks complete; and any order is the completion order of some schedule.  So blobs of such
files are compiled to one content and one digest as well. -/
theorem archive_independent_of_order (plugins : List Plugin) (overrides : Overrides)
    {files other results : FileSet} (hfiles : files.Perm other)
    (hresults : fileOutcomes plugins overrides files = results.map .value)
    (hnames : results.names.Nodup) :
    (∀ tasks others, tasks.map Run.outcome = fileOutcomes plugins overrides files →
      others.map Run.outcome = fileOutcomes plugins overrides other →
        (ofRuns tasks).SealsAs (ofRuns others)) ∧
    (∀ order, order.Perm (List.range files.length) →
      ∃ tasks, tasks.map Run.outcome = fileOutcomes plugins overrides files ∧
        CompletionOrder tasks order) ∧
    ∀ blob otherBlob, (Archive.ofBlob blob).files = files →
      (Archive.ofBlob otherBlob).files = other →
        (compileBlob plugins overrides blob).SealsAs (compileBlob plugins overrides otherBlob) := by
  refine ⟨fun tasks others => sealsAs_of_perm hfiles hresults hnames, ?_, ?_⟩
  · intro order horder
    refine ⟨_, map_outcome_staggered _ order, completionOrder_staggered_of_perm ?_ ?_⟩
    · simp [hresults]
    · simpa [fileOutcomes] using horder
  · rintro blob otherBlob rfl rfl
    exact sealsAs_of_perm hfiles hresults hnames (by simp [fileOutcomes])
      (by simp [fileOutcomes])

/-- Takes sources for scripts. -/
def scripts : Plugin where
  name := "scripts"
  resolver := some (.suffix ".ts" ".js")

/-- Two sources are sealed alike in both orders, and also if the second is done first. -/
theorem archive_independent_of_order_scripts :
    let sources : FileSet := [⟨"b.ts", "2"⟩, ⟨"a.ts", "1"⟩]
    let results : FileSet := [⟨"b.js", "2"⟩, ⟨"a.js", "1"⟩]
    fileOutcomes [scripts] {} sources = results.map .value ∧ results.names.Nodup ∧
      (compileBlob [scripts] {} "b.ts\x002\x00\x00a.ts\x001").SealsAs
        (compileBlob [scripts] {} "a.ts\x001\x00\x00b.ts\x002") ∧
      (ofRuns (staggered (fileOutcomes [scripts] {} sources) [1, 0])).SealsAs
        (ofRuns (staggered (fileOutcomes [scripts] {} sources.reverse) [1, 0])) := by
  intro sources results
  have hresults : fileOutcomes [scripts] {} sources = results.map .value := by decide +kernel
  have hnames : results.names.Nodup := by decide
  have hfiles : sources.Perm sources.reverse := (List.reverse_perm sources).symm
  obtain ⟨hschedules, -, hblobs⟩ :=
    archive_independent_of_order [scripts] {} hfiles hresults hnames
  exact ⟨hresults, hnames, hblobs _ _ (by decide +kernel) (by decide +kernel),
    hschedules _ _ (map_outcome_staggered ..) (map_outcome_staggered ..)⟩

end Batch

end Assets
