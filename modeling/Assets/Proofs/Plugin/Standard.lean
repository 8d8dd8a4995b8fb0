import Assets.Plugin.Standard
import Assets.Proofs.Esm.Rewriting
import Assets.Proofs.Pipeline.Outcome

/-!
# The standard chain on sheets and documents

The stylesheet and the document plugin turn data into a script, and the script plugin after them
cannot tell such a script from one that was written by hand.  So the data come through unchanged
only as long as nothing in the script they became looks like an import.

* `outcome_css`, `outcome_json`, `outcome_esm`: what each plugin makes of the files it takes, and
  that the others pass.  A name has at most one of the suffixes, because none of them is a suffix
  of another (`hasSuffix_eq_false`).
* `outcome_run_css`, `outcome_run_json`, `outcome_run_json_of_fault`, `outcome_run_other`: what the
  chain makes of a file, by the name of the file.
* `data_module_unchanged_iff`: the module of a sheet or document leaves the chain as it entered
  it if and only if none of its import sites is bare.
* `data_module_rewritten`: a list of two strings for which this fails, and the text that comes
  out is no script any more.
-/

namespace Assets

/-! ## Suffixes -/

theorem hasSuffix_iff {suffix text : String} :
    hasSuffix suffix text = true ↔ suffix.toList <:+ text.toList :=
  List.isSuffixOf_iff_suffix

theorem hasSuffix_append (text suffix : String) : hasSuffix suffix (text ++ suffix) = true := by
  rw [hasSuffix_iff, String.toList_append]
  exact List.suffix_append ..

/-- Two suffixes of one text are suffixes of one another. -/
theorem hasSuffix_eq_false {first second text : String} (h : hasSuffix first text = true)
    (hfirst : ¬ first.toList <:+ second.toList) (hsecond : ¬ second.toList <:+ first.toList) :
    hasSuffix second text = false := by
  rw [hasSuffix_iff] at h
  rw [← Bool.not_eq_true, hasSuffix_iff]
  intro hother
  rcases List.suffix_or_suffix_of_suffix h hother with hle | hle
  · exact hfirst hle
  · exact hsecond hle

theorem append_ne_empty {text suffix : String} (h : suffix ≠ "") : text ++ suffix ≠ "" := by
  intro hempty
  exact h (String.append_eq_empty_iff.mp hempty).2

open Pipeline

/-! ## One plugin at a time -/

theorem outcome_css {name : String} (h : hasSuffix ".css" name = true) (content : String) :
    (apply Css.plugin ⟨name, content⟩).outcome =
      .value (Css.toModule ⟨name ++ ".js", content⟩) := by
  have hid : (Css.resolver name).outcome = .value (some (name ++ ".js")) := by
    simp [Css.resolver, Answer.value, h]
  rw [outcome_apply_of_resolved rfl rfl rfl hid (append_ne_empty (by decide))]
  rfl

theorem outcome_css_of_not {name : String} (h : hasSuffix ".css" name = false)
    (content : String) :
    (apply Css.plugin ⟨name, content⟩).outcome = .value ⟨name, content⟩ := by
  apply outcome_apply_of_unresolved rfl
  simp [Css.resolver, Answer.value, h]

theorem outcome_json {name content : String} (h : hasSuffix ".json" name = true) {result : File}
    (hresult : (Json.transformer ⟨name ++ ".js", content⟩).outcome = .value (some result)) :
    (apply Json.plugin ⟨name, content⟩).outcome = .value result := by
  have hid : (Json.resolver name).outcome = .value (some (name ++ ".js")) := by
    simp [Json.resolver, Answer.value, h]
  rw [outcome_apply_of_resolved rfl rfl rfl hid (append_ne_empty (by decide)), hresult]
  rfl

theorem outcome_json_of_not {name : String} (h : hasSuffix ".json" name = false)
    (content : String) :
    (apply Json.plugin ⟨name, content⟩).outcome = .value ⟨name, content⟩ := by
  apply outcome_apply_of_unresolved rfl
  simp [Json.resolver, Answer.value, h]

theorem name_of_json_transformer {file result : File}
    (h : (Json.transformer file).outcome = .value (some result)) : result.name = file.name := by
  unfold Json.transformer Json.toModule at h
  cases hparse : Json.parse file.content with
  | error fault => simp [hparse, Except.map, Answer.failure] at h
  | ok document =>
      simp only [hparse, Except.map, Answer.value, Outcome.value.injEq, Option.some.injEq] at h
      rw [← h]

/-- A document is taken for a module, or it is refused. -/
theorem json_transformer_cases (file : File) :
    (∃ module, (Json.transformer file).outcome = .value (some module)) ∨
      ∃ e, (Json.transformer file).outcome = .failure e := by
  unfold Json.transformer
  cases Json.toModule file with
  | ok module => exact .inl ⟨module, rfl⟩
  | error fault => exact .inr ⟨.json fault, rfl⟩

theorem outcome_esm_of_script (options : Esm.Options) {name : String}
    (h : (hasSuffix ".js" name || hasSuffix ".mjs" name) = true) (content : String) :
    (apply (Esm.plugin options) ⟨name, content⟩).outcome =
      .value ⟨name, Esm.rewriteScript options content⟩ := by
  have hid : (Esm.resolver name).outcome = .value (some name) := by
    simp only [Esm.resolver, Answer.value, if_pos h]
  have hne : name ≠ "" := by
    rintro rfl
    simp [hasSuffix_iff] at h
  rw [outcome_apply_of_resolved rfl rfl rfl hid hne]
  unfold Esm.transformer Esm.rewriteScript
  cases Esm.rewrite? options content <;> rfl

theorem outcome_esm (options : Esm.Options) {name : String} (h : hasSuffix ".js" name = true)
    (content : String) :
    (apply (Esm.plugin options) ⟨name, content⟩).outcome =
      .value ⟨name, Esm.rewriteScript options content⟩ :=
  outcome_esm_of_script options (by simp [h]) content

theorem outcome_esm_of_not (options : Esm.Options) {name : String}
    (h : (hasSuffix ".js" name || hasSuffix ".mjs" name) = false) (content : String) :
    (apply (Esm.plugin options) ⟨name, content⟩).outcome = .value ⟨name, content⟩ := by
  apply outcome_apply_of_unresolved rfl
  simp [Esm.resolver, Answer.value, h]

/-! ## The chain -/

/-- A script goes through the script plugin alone. -/
theorem outcome_json_esm (options : Esm.Options) (name content : String) :
    (applyAll [Json.plugin, Esm.plugin options] ⟨name ++ ".js", content⟩).outcome =
      .value ⟨name ++ ".js", Esm.rewriteScript options content⟩ := by
  have hjs : hasSuffix ".js" (name ++ ".js") = true := hasSuffix_append name ".js"
  have hjson : hasSuffix ".json" (name ++ ".js") = false :=
    hasSuffix_eq_false hjs (by decide) (by decide)
  simp [outcome_applyAll_cons, outcome_json_of_not hjson, outcome_esm options hjs]

/-- A sheet becomes its module, and then the imports of that are rewritten. -/
theorem outcome_run_css (options : PluginOptions) {name : String}
    (h : hasSuffix ".css" name = true) (content : String) :
    (run (standardPlugins options) {} ⟨name, content⟩).outcome =
      .value ⟨name ++ ".js",
        Esm.rewriteScript options.esm (Css.toModule ⟨name ++ ".js", content⟩).content⟩ := by
  rw [outcome_run_empty, standardPlugins, outcome_applyAll_cons, outcome_css h,
    Outcome.bind_value]
  exact outcome_json_esm options.esm name _

/-- A document becomes its module, and then the imports of that are rewritten. -/
theorem outcome_run_json (options : PluginOptions) {name content : String}
    (h : hasSuffix ".json" name = true) {result : File}
    (hresult : (Json.transformer ⟨name ++ ".js", content⟩).outcome = .value (some result)) :
    (run (standardPlugins options) {} ⟨name, content⟩).outcome =
      .value ⟨name ++ ".js", Esm.rewriteScript options.esm result.content⟩ := by
  have hcss : hasSuffix ".css" name = false := hasSuffix_eq_false h (by decide) (by decide)
  have hname : result.name = name ++ ".js" := name_of_json_transformer hresult
  have hjs : hasSuffix ".js" result.name = true := by rw [hname, hasSuffix_append]
  rw [outcome_run_empty, standardPlugins, outcome_applyAll_cons, outcome_css_of_not hcss,
    Outcome.bind_value, outcome_applyAll_cons, outcome_json h hresult, Outcome.bind_value,
    outcome_applyAll_cons, outcome_esm options.esm hjs, hname]
  rfl

/-- A document that is not accepted fails in its own plugin, under the name of its module. -/
theorem outcome_run_json_of_fault (options : PluginOptions) {name content : String}
    (h : hasSuffix ".json" name = true) {e : Failure}
    (hfault : (Json.transformer ⟨name ++ ".js", content⟩).outcome = .failure e) :
    (run (standardPlugins options) {} ⟨name, content⟩).outcome =
      .failure (.plugin "json" .transform (name ++ ".js") e) := by
  have hcss : hasSuffix ".css" name = false := hasSuffix_eq_false h (by decide) (by decide)
  have hid : (Json.resolver name).outcome = .value (some (name ++ ".js")) := by
    simp [Json.resolver, Answer.value, h]
  have hjson : (apply Json.plugin ⟨name, content⟩).outcome =
      .failure (.plugin "json" .transform (name ++ ".js") e) := by
    rw [outcome_apply_of_resolved rfl rfl rfl hid (append_ne_empty (by decide)), hfault]
    rfl
  rw [outcome_run_empty, standardPlugins, outcome_applyAll_cons, outcome_css_of_not hcss,
    Outcome.bind_value, outcome_applyAll_cons, hjson, Outcome.bind_failure]

/-- Of all other files only the scripts are changed, and none is renamed. -/
theorem outcome_run_other (options : PluginOptions) {name : String}
    (hcss : hasSuffix ".css" name = false) (hjson : hasSuffix ".json" name = false)
    (content : String) :
    (run (standardPlugins options) {} ⟨name, content⟩).outcome =
      .value ⟨name, if hasSuffix ".js" name || hasSuffix ".mjs" name then
        Esm.rewriteScript options.esm content else content⟩ := by
  have hesm : (apply (Esm.plugin options.esm) ⟨name, content⟩).outcome =
      .value ⟨name, if hasSuffix ".js" name || hasSuffix ".mjs" name then
        Esm.rewriteScript options.esm content else content⟩ := by
    by_cases h : (hasSuffix ".js" name || hasSuffix ".mjs" name) = true
    · rw [outcome_esm_of_script options.esm h, if_pos h]
    · rw [outcome_esm_of_not options.esm (Bool.eq_false_iff.mpr h), if_neg h]
  simp [outcome_run_empty, standardPlugins, outcome_applyAll_cons, outcome_css_of_not hcss,
    outcome_json_of_not hjson, hesm]

/-- No import site of a script names a package. -/
def ImportsNoPackage (script : String) : Prop :=
  ∀ site, Esm.Piece.site site ∈ Esm.pieces none script.toList →
    Esm.isBare site.specifier = false

theorem rewriteScript_eq_iff_importsNoPackage (options : Esm.Options) (script : String) :
    Esm.rewriteScript options script = script ↔ ImportsNoPackage script := by
  rw [Esm.rewriteScript_eq_iff, List.any_eq_false]
  constructor
  · intro h site hsite
    simpa [Esm.Piece.isBareSite] using h (.site site) hsite
  · intro h piece hpiece
    cases piece with
    | text c => simp [Esm.Piece.isBareSite]
    | site site => simpa [Esm.Piece.isBareSite] using h site hpiece

/-- **Data in the standard chain.**  A document and a sheet leave the chain as the module that
their own plugin makes of them exactly when no import site of that module names a package. -/
theorem data_module_unchanged_iff (options : PluginOptions) (name content : String) :
    (hasSuffix ".json" name = true → ∀ module : File,
      (Json.transformer ⟨name ++ ".js", content⟩).outcome = .value (some module) →
        ∃ compiled : File,
          (run (standardPlugins options) {} ⟨name, content⟩).outcome = .value compiled ∧
            (compiled.content = module.content ↔ ImportsNoPackage module.content)) ∧
      (hasSuffix ".css" name = true → ∃ module compiled : File,
        (Css.transformer ⟨name ++ ".js", content⟩).outcome = .value (some module) ∧
          (run (standardPlugins options) {} ⟨name, content⟩).outcome = .value compiled ∧
            (compiled.content = module.content ↔ ImportsNoPackage module.content)) := by
  constructor
  · intro h module hmodule
    exact ⟨_, outcome_run_json options h hmodule,
      rewriteScript_eq_iff_importsNoPackage options.esm _⟩
  · intro h
    refine ⟨_, _, rfl, outcome_run_css options h content, ?_⟩
    dsimp only
    exact rewriteScript_eq_iff_importsNoPackage options.esm _

/-- A list of two texts, the first of which ends like a keyword: the quote that closes it and the
one that opens the other enclose a comma, which is taken for a package. -/
theorem data_module_rewritten :
    (Json.transformer ⟨"a.json.js", "[\"from\",\"to\"]"⟩).outcome =
        .value (some ⟨"a.json.js", "export default [\"from\",\"to\"];\n"⟩) ∧
      (run (standardPlugins {}) {} ⟨"a.json", "[\"from\",\"to\"]"⟩).outcome =
        .value ⟨"a.json.js", "export default [\"from\"https://esm.sh/,\"to\"];\n"⟩ := by
  decide +kernel

end Assets
