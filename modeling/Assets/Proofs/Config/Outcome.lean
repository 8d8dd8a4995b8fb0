import Assets.Config
import Assets.Proofs.Batch.Outcome
import Assets.Proofs.Plugin.Overrides
import Assets.Proofs.Plugin.Result

/-!
# What a configuration makes of a file

A configuration without a load directory leaves nothing open: its defaults put another file in the
place of the given one, and the standard plugins turn that into its result.  `configured_outcome`
puts the two together, for single files and for batches.

The file that decides is the redirected one.  A file that is no document can be redirected to one,
and a faulty document can be redirected away from its fault.
-/

namespace Assets

open Batch Pipeline

namespace Config

/-- The overrides that the dictionaries of a configuration make. -/
def inlineOverrides (config : Config) : Overrides :=
  .ofDictionaries (Dictionary.given? config.defaults.resolve)
    (Dictionary.given? config.defaults.load)

theorem overrides_of_inline (config : Config) (loadFrom : String → Loader)
    (h : config.defaults.loadDir = none) :
    config.overrides loadFrom = .ok config.inlineOverrides := by
  obtain ⟨plugins, resolve, load, loadDir⟩ := config
  cases h
  cases resolve <;> cases load <;> rfl

/-- The file that a configuration hands to the plugins in place of a given one. -/
def redirect (config : Config) (file : File) : File :=
  file.redirect config.defaults.resolve config.defaults.load

theorem outcome_run_inline (config : Config) (file : File) :
    (run config.standardPlugins config.inlineOverrides file).outcome =
      standardOutcome (config.redirect file)
        (standardResult config.plugins.esm (config.redirect file)) := by
  rw [inlineOverrides, outcome_run_ofDictionaries, Dictionary.getD_given?, Dictionary.getD_given?]
  exact outcome_run_standard config.plugins (config.redirect file)

end Config

/-- The only errors of the standard chain are failures. -/
theorem error?_standardOutcome {file : File} {result : Except Json.Fault File} {e : Failure} :
    error? (standardOutcome file result) = some e ↔ standardOutcome file result = .failure e := by
  cases result <;> simp [standardOutcome, error?]

/-- **The outcome of a configuration.**  A configuration without a load directory is valid.  It
compiles a file to the standard result of the file that it redirects the given one to, and fails
exactly if that is a faulty document.  A batch fails exactly if some file of it does, under every
schedule of its tasks; `compile` is `ofRuns` under the schedule that the waits of the capabilities
give. -/
theorem configured_outcome (config : Config) (loadFrom : String → Loader)
    (hinline : config.defaults.loadDir = none) :
    ∃ overrides, config.overrides loadFrom = .ok overrides ∧
      (∀ file,
        ((∃ e, (run config.standardPlugins overrides file).outcome = .failure e) ↔
          (config.redirect file).IsFaulty) ∧
        (run config.standardPlugins overrides file).outcome =
          standardOutcome (config.redirect file)
            (standardResult config.plugins.esm (config.redirect file))) ∧
      ∀ (files : FileSet) (tasks : List (Run File)),
        tasks.map Run.outcome = fileOutcomes config.standardPlugins overrides files →
          ((∃ e, (ofRuns tasks).outcome = .failure e) ↔
            ∃ file ∈ files, (config.redirect file).IsFaulty) := by
  have hfile (file : File) :
      (∃ e, (run config.standardPlugins config.inlineOverrides file).outcome = .failure e) ↔
        (config.redirect file).IsFaulty := by
    rw [config.outcome_run_inline, exists_standardOutcome_failure_iff,
      exists_standardResult_error_iff]
  refine ⟨config.inlineOverrides, config.overrides_of_inline loadFrom hinline,
    fun file => ⟨hfile file, config.outcome_run_inline file⟩, fun files tasks htasks => ?_⟩
  obtain ⟨order, horder⟩ := exists_completionOrder tasks
  calc (∃ e, (ofRuns tasks).outcome = .failure e)
      ↔ ∃ task ∈ tasks, ∃ e, error? task.outcome = some e := exists_outcome_eq_failure_iff horder
    _ ↔ ∃ file ∈ files, ∃ e,
          error? (run config.standardPlugins config.inlineOverrides file).outcome = some e :=
        exists_task_iff htasks fun outcome => ∃ e, error? outcome = some e
    _ ↔ ∃ file ∈ files, ∃ e,
          (run config.standardPlugins config.inlineOverrides file).outcome = .failure e := by
        simp only [config.outcome_run_inline, error?_standardOutcome]
    _ ↔ ∃ file ∈ files, (config.redirect file).IsFaulty := by simp only [hfile]

/-- A text that is redirected to a faulty document fails, and with it its batch, and a faulty
document that is redirected to a script does not. -/
theorem configured_outcome_crossed :
    let config : Config :=
      ⟨{}, ⟨[("a.txt", "b.json"), ("c.json", "d.mjs")],
        [("b.json", "[1"), ("d.mjs", "import 'vue'")], none⟩⟩
    let loadFrom : String → Loader := fun _ => .never
    config.defaults.loadDir = none ∧ ∃ overrides, config.overrides loadFrom = .ok overrides ∧
      (run config.standardPlugins overrides ⟨"a.txt", "x"⟩).outcome =
        .failure (.plugin "json" .transform "b.json.js" (.json ⟨.eofInList, some ⟨1, 2⟩⟩)) ∧
      (run config.standardPlugins overrides ⟨"c.json", "["⟩).outcome =
        .value ⟨"d.mjs", "import 'https://esm.sh/vue'"⟩ ∧
      ∃ e, (compile config.standardPlugins overrides
        [⟨"c.json", "["⟩, ⟨"a.txt", "x"⟩]).outcome = .failure e := by
  intro config loadFrom
  have hinline : config.defaults.loadDir = none := rfl
  obtain ⟨overrides, hoverrides, hfile, hbatch⟩ := configured_outcome config loadFrom hinline
  have hfailed : (run config.standardPlugins overrides ⟨"a.txt", "x"⟩).outcome =
      .failure (.plugin "json" .transform "b.json.js" (.json ⟨.eofInList, some ⟨1, 2⟩⟩)) := by
    rw [(hfile _).2]
    decide +kernel
  refine ⟨hinline, overrides, hoverrides, hfailed, ?_, ?_⟩
  · rw [(hfile _).2]
    decide +kernel
  · rw [compile, hbatch _ _ (map_outcome_run ..)]
    exact ⟨⟨"a.txt", "x"⟩, by simp, (hfile _).1.mp ⟨_, hfailed⟩⟩

end Assets
