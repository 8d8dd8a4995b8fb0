import Assets.Proofs.Batch.Canonical
import Assets.Proofs.Plugin.Standard

/-!
# The names that the standard chain gives

A sheet or a document leaves the standard chain under its name with `.js` behind it, and every other
file under its own (`name_of_outcome_run`).  So two files of different names leave it under one
name in just one case: a module and a file that has the name of the module already
(`compiledName_eq_iff`).

* `ensureUniqueNames_compiled_iff`: a file set is compiled to a file set if and only if no sheet or
  document of it stands beside a file with the name of its module.
* `compiled_names_repeat`: a document beside such a file.  Both are compiled, and what is sealed
  depends on which of them is done first.
-/

namespace Assets

open Batch Pipeline

/-! ## One name -/

/-- Whether the standard chain makes a module of a file: of sheets and documents it does. -/
def becomesModule (name : String) : Bool := hasSuffix ".css" name || hasSuffix ".json" name

/-- The name under which a file leaves the standard chain. -/
def compiledName (name : String) : String := if becomesModule name then name ++ ".js" else name

/-- The name of a module is not that of a sheet or a document. -/
theorem becomesModule_append_js (name : String) : becomesModule (name ++ ".js") = false := by
  have hjs : hasSuffix ".js" (name ++ ".js") = true := hasSuffix_append name ".js"
  have hcss : hasSuffix ".css" (name ++ ".js") = false :=
    hasSuffix_eq_false hjs (by decide) (by decide)
  have hjson : hasSuffix ".json" (name ++ ".js") = false :=
    hasSuffix_eq_false hjs (by decide) (by decide)
  rw [becomesModule, hcss, hjson]
  rfl

theorem compiledName_of_module {name : String} (h : becomesModule name = true) :
    compiledName name = name ++ ".js" := if_pos h

theorem compiledName_of_other {name : String} (h : becomesModule name = false) :
    compiledName name = name := if_neg (by simp [h])

theorem append_right_injective (suffix : String) :
    Function.Injective fun text : String => text ++ suffix := by
  intro text other h
  have hchars := congrArg String.toList h
  simp only [String.toList_append] at hchars
  exact String.toList_inj.mp (List.append_cancel_right hchars)

/-- Different names are compiled to one name exactly if one of them is that of the other's
module. -/
theorem compiledName_eq_iff {name other : String} (hne : name ≠ other) :
    compiledName name = compiledName other ↔
      becomesModule name = true ∧ other = name ++ ".js" ∨
        becomesModule other = true ∧ name = other ++ ".js" := by
  have hself (text : String) (h : becomesModule text = true) (stem : String) :
      text ≠ stem ++ ".js" := by
    rintro rfl
    simp [becomesModule_append_js] at h
  cases hname : becomesModule name with
  | true =>
      cases hother : becomesModule other with
      | true =>
          have happend : name ++ ".js" ≠ other ++ ".js" :=
            fun h => hne (append_right_injective ".js" h)
          rw [compiledName_of_module hname, compiledName_of_module hother]
          simp [happend, hself name hname, hself other hother]
      | false =>
          rw [compiledName_of_module hname, compiledName_of_other hother]
          simp [eq_comm]
  | false =>
      cases hother : becomesModule other with
      | true =>
          rw [compiledName_of_other hname, compiledName_of_module hother]
          simp
      | false =>
          rw [compiledName_of_other hname, compiledName_of_other hother]
          simp [hne]

/-- The name of a compiled file does not depend on what is in the file. -/
theorem name_of_outcome_run (options : PluginOptions) {file result : File}
    (h : (run (standardPlugins options) {} file).outcome = .value result) :
    result.name = compiledName file.name := by
  obtain ⟨name, content⟩ := file
  by_cases hcss : hasSuffix ".css" name = true
  · rw [outcome_run_css options hcss] at h
    cases h
    exact (compiledName_of_module (by simp [becomesModule, hcss])).symm
  by_cases hjson : hasSuffix ".json" name = true
  · rcases json_transformer_cases ⟨name ++ ".js", content⟩ with ⟨module, hmodule⟩ | ⟨e, he⟩
    · rw [outcome_run_json options hjson hmodule] at h
      cases h
      exact (compiledName_of_module (by simp [becomesModule, hjson])).symm
    · rw [outcome_run_json_of_fault options hjson he] at h
      cases h
  · rw [Bool.not_eq_true] at hcss hjson
    rw [outcome_run_other options hcss hjson] at h
    cases h
    exact (compiledName_of_other (by simp [becomesModule, hcss, hjson])).symm

/-! ## The names of a set -/

theorem nodup_map_compiledName_iff {names : List String} (h : names.Nodup) :
    (names.map compiledName).Nodup ↔
      ∀ name ∈ names, becomesModule name = true → name ++ ".js" ∉ names := by
  rw [List.nodup_map_iff_inj_on h]
  constructor
  · intro hinj name hname hmodule hmem
    have hne : name ≠ name ++ ".js" := by
      intro heq
      rw [heq, becomesModule_append_js] at hmodule
      cases hmodule
    exact hne (hinj name hname _ hmem ((compiledName_eq_iff hne).mpr (.inl ⟨hmodule, rfl⟩)))
  · intro hclear name hname other hother heq
    by_contra hne
    rcases (compiledName_eq_iff hne).mp heq with ⟨hmodule, rfl⟩ | ⟨hmodule, rfl⟩
    · exact hclear name hname hmodule hother
    · exact hclear other hother hmodule hname

/-- Under every schedule the compiled files have the names that the chain gives to the files. -/
theorem names_compiled_perm (options : PluginOptions) {files compiled : FileSet}
    {tasks : List (Run File)}
    (htasks : tasks.map Run.outcome = fileOutcomes (standardPlugins options) {} files)
    (hcompiled : (ofRuns tasks).outcome = .value compiled) :
    compiled.names.Perm (files.names.map compiledName) := by
  have hperm := perm_fileOutcomes htasks hcompiled
  have hname : ∀ file ∈ files,
      (run (standardPlugins options) {} file).outcome.value?.map File.name =
        some (compiledName file.name) := by
    intro file hfile
    have hmem : (run (standardPlugins options) {} file).outcome ∈ compiled.map .value :=
      hperm.mem_iff.mpr (List.mem_map_of_mem hfile)
    obtain ⟨result, -, hresult⟩ := List.mem_map.mp hmem
    rw [← hresult, Outcome.value?_value, Option.map_some,
      name_of_outcome_run options hresult.symm]
  have hnames : (compiled.names.map some).Perm ((files.names.map compiledName).map some) := by
    have hmap := hperm.map fun outcome => outcome.value?.map File.name
    have hfiles : (fileOutcomes (standardPlugins options) {} files).map
        (fun outcome => outcome.value?.map File.name) =
          (files.names.map compiledName).map some := by
      simpa [fileOutcomes, FileSet.names] using hname
    rw [hfiles] at hmap
    simpa [FileSet.names, Function.comp_def] using hmap
  exact (List.map_perm_map_iff fun _ _ => Option.some.inj).mp hnames

/-- **The names of a compiled set.**  If a file set is compiled by the standard chain, under
whatever schedule, then the result is a file set exactly if no sheet or document of the set stands
beside a file with the name of its module. -/
theorem ensureUniqueNames_compiled_iff (options : PluginOptions) {files compiled : FileSet}
    {tasks : List (Run File)} (hunique : files.ensureUniqueNames = .ok ())
    (htasks : tasks.map Run.outcome = fileOutcomes (standardPlugins options) {} files)
    (hcompiled : (ofRuns tasks).outcome = .value compiled) :
    compiled.ensureUniqueNames = .ok () ↔
      ∀ name ∈ files.names, becomesModule name = true → name ++ ".js" ∉ files.names := by
  rw [FileSet.ensureUniqueNames_eq_ok_iff] at hunique ⊢
  rw [(names_compiled_perm options htasks hcompiled).nodup_iff]
  exact nodup_map_compiledName_iff hunique

/-- A document and a script that does not have the name of its module. -/
theorem ensureUniqueNames_compiled_iff_pair :
    let files : FileSet := [⟨"a.json", "1"⟩, ⟨"b.js", "2"⟩]
    files.ensureUniqueNames = .ok () ∧
      ∃ compiled, (compile (standardPlugins {}) {} files).outcome = .value compiled ∧
        (compiled.ensureUniqueNames = .ok () ↔
          ∀ name ∈ files.names, becomesModule name = true → name ++ ".js" ∉ files.names) := by
  intro files
  have hunique : files.ensureUniqueNames = .ok () := by decide
  have htasks : (files.map (run (standardPlugins {}) {})).map Run.outcome =
      fileOutcomes (standardPlugins {}) {} files := by simp [fileOutcomes]
  have hresults : fileOutcomes (standardPlugins {}) {} files =
      [⟨"a.json.js", "export default 1;\n"⟩, ⟨"b.js", "2"⟩].map .value := by decide +kernel
  obtain ⟨compiled, hcompiled, -⟩ := exists_outcome_perm htasks (.of_eq hresults.symm)
  exact ⟨hunique, compiled, hcompiled,
    ensureUniqueNames_compiled_iff {} hunique htasks hcompiled⟩

/-- A document beside a file with the name of its module: both are compiled to that name.  What is
sealed has the module first if the document is done first, and otherwise the other file. -/
theorem compiled_names_repeat :
    let files : FileSet := [⟨"a.json", "1"⟩, ⟨"a.json.js", "2"⟩]
    files.ensureUniqueNames = .ok () ∧
      (∃ compiled, (compile (standardPlugins {}) {} files).outcome = .value compiled ∧
        compiled.ensureUniqueNames ≠ .ok ()) ∧
      ∃ tasks others : List (Run File),
        tasks.map Run.outcome = fileOutcomes (standardPlugins {}) {} files ∧
          others.map Run.outcome = fileOutcomes (standardPlugins {}) {} files ∧
            ¬(ofRuns tasks).SealsAs (ofRuns others) := by
  intro files
  let results : FileSet := [⟨"a.json.js", "export default 1;\n"⟩, ⟨"a.json.js", "2"⟩]
  have hresults : fileOutcomes (standardPlugins {}) {} files = results.map .value := by
    decide +kernel
  refine ⟨by decide, ?_, ?_⟩
  · have htasks : (files.map (run (standardPlugins {}) {})).map Run.outcome =
        fileOutcomes (standardPlugins {}) {} files := by simp [fileOutcomes]
    obtain ⟨compiled, hcompiled, hperm⟩ := exists_outcome_perm htasks (.of_eq hresults.symm)
    refine ⟨compiled, hcompiled, ?_⟩
    have hrepeat : ¬results.names.Nodup := by decide
    rw [ne_eq, FileSet.ensureUniqueNames_eq_ok_iff]
    exact fun h => hrepeat ((hperm.map File.name).nodup_iff.mp h)
  · have hfirst : (ofRuns (staggered (results.map .value) [0, 1])).outcome = .value results :=
      outcome_staggered (by decide) rfl
    have hsecond : (ofRuns (staggered (results.map .value) [1, 0])).outcome =
        .value results.reverse :=
      outcome_staggered (by decide) rfl
    refine ⟨_, _, (map_outcome_staggered _ [0, 1]).trans hresults.symm,
      (map_outcome_staggered _ [1, 0]).trans hresults.symm, ?_⟩
    rintro ⟨archive, other, harchive, hother, hcontent, -⟩
    rw [Compilation.archive_of_outcome hfirst] at harchive
    rw [Compilation.archive_of_outcome hsecond] at hother
    cases harchive
    cases hother
    -- both orders are canonical, because the names are the same
    have hne : Blob.encode results ≠ Blob.encode results.reverse := by
      rw [Blob.encode, Blob.encode, FileSet.sorted_eq_self (by decide),
        FileSet.sorted_eq_self (by decide)]
      decide
    exact hne hcontent

end Assets
