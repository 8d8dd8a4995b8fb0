import Assets.Proofs.Plugin.Standard

/-!
# What the standard chain makes of a file

The standard plugins see what the ones before them leave, but each file is taken by one kind of
plugin only: sheets and documents become modules, scripts stay, and of both the imports are
rewritten.  `standardResult` says this in one case distinction on the name, without plugins, and
`outcome_run_standard` that it is what the chain does.

```text
name of the file      name of the result    content of the result
*.css, *.json         with `.js` behind it  the module of the file, rewritten
*.js, *.mjs           the same              the content, rewritten
any other             the same              the content
```

A file can only fail as a document that is not accepted (`exists_standardResult_error_iff`).
-/

namespace Assets

open Pipeline

/-- The file that a file is compiled to, or the fault of a document that is not accepted. -/
def standardResult (options : Esm.Options) (file : File) : Except Json.Fault File :=
  let named : File := ⟨file.name ++ ".js", file.content⟩
  if hasSuffix ".css" file.name then
    .ok ⟨named.name, Esm.rewriteScript options (Css.toModule named).content⟩
  else if hasSuffix ".json" file.name then
    (Json.toModule named).map fun module =>
      ⟨named.name, Esm.rewriteScript options module.content⟩
  else if hasSuffix ".js" file.name || hasSuffix ".mjs" file.name then
    .ok ⟨file.name, Esm.rewriteScript options file.content⟩
  else .ok file

/-- A document that is not accepted. -/
def File.IsFaulty (file : File) : Prop :=
  hasSuffix ".json" file.name = true ∧ ∃ fault, Json.parse file.content = .error fault

/-- How the chain ends with a result.  A fault is reported by the document plugin, under the name
of the module that the document was to become. -/
def standardOutcome (file : File) : Except Json.Fault File → Outcome File
  | .ok compiled => .value compiled
  | .error fault => .failure (.plugin "json" .transform (file.name ++ ".js") (.json fault))

theorem outcome_run_standard (options : PluginOptions) (file : File) :
    (run (standardPlugins options) {} file).outcome =
      standardOutcome file (standardResult options.esm file) := by
  obtain ⟨name, content⟩ := file
  by_cases hcss : hasSuffix ".css" name = true
  · rw [outcome_run_css options hcss, standardResult, if_pos hcss]
    rfl
  by_cases hjson : hasSuffix ".json" name = true
  · rw [standardResult, if_neg hcss, if_pos hjson]
    cases hmodule : Json.toModule ⟨name ++ ".js", content⟩ with
    | ok module =>
        have hresult : (Json.transformer ⟨name ++ ".js", content⟩).outcome =
            .value (some module) := by
          rw [Json.transformer, hmodule]
          rfl
        rw [outcome_run_json options hjson hresult]
        rfl
    | error fault =>
        have hfault : (Json.transformer ⟨name ++ ".js", content⟩).outcome =
            .failure (.json fault) := by
          rw [Json.transformer, hmodule]
          rfl
        rw [outcome_run_json_of_fault options hjson hfault]
        rfl
  rw [Bool.not_eq_true] at hcss hjson
  rw [outcome_run_other options hcss hjson, standardResult]
  simp only [hcss, hjson]
  cases hasSuffix ".js" name || hasSuffix ".mjs" name <;> rfl

theorem exists_standardOutcome_failure_iff {file : File} {result : Except Json.Fault File} :
    (∃ e, standardOutcome file result = .failure e) ↔ ∃ fault, result = .error fault := by
  cases result <;> simp [standardOutcome]

theorem standardOutcome_eq_value_iff {file compiled : File} {result : Except Json.Fault File} :
    standardOutcome file result = .value compiled ↔ result = .ok compiled := by
  cases result <;> simp [standardOutcome]

theorem exists_toModule_error_iff (name content : String) :
    (∃ fault, Json.toModule ⟨name, content⟩ = .error fault) ↔
      ∃ fault, Json.parse content = .error fault := by
  rw [Json.toModule]
  cases Json.parse content <;> simp [Except.map]

/-- Nothing but a document can be faulty, and nothing but its text makes it so. -/
theorem exists_standardResult_error_iff (options : Esm.Options) (file : File) :
    (∃ fault, standardResult options file = .error fault) ↔ file.IsFaulty := by
  obtain ⟨name, content⟩ := file
  unfold standardResult File.IsFaulty
  by_cases hcss : hasSuffix ".css" name = true
  · have hjson : hasSuffix ".json" name = false := hasSuffix_eq_false hcss (by decide) (by decide)
    simp [hcss, hjson]
  by_cases hjson : hasSuffix ".json" name = true
  · rw [← exists_toModule_error_iff (name ++ ".js")]
    simp only [hcss, hjson]
    cases Json.toModule ⟨name ++ ".js", content⟩ <;> simp [Except.map]
  · rw [Bool.not_eq_true] at hcss hjson
    simp only [hcss, hjson]
    cases hasSuffix ".js" name || hasSuffix ".mjs" name <;> simp

end Assets
