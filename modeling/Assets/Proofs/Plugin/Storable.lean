import Assets.Proofs.Batch.Canonical
import Assets.Proofs.Blob.Canonical
import Assets.Proofs.Json.ControlFree
import Assets.Proofs.Plugin.Overrides
import Assets.Proofs.Plugin.Result

/-!
# Compiled archives can be read again

Only storable files come back from a blob, and nothing checks the files of a compiled archive.  They
are storable all the same, because every stage that a file goes through keeps it so:

```text
reading a blob      every file is storable                         storable_of_mem_decode
the overrides       empty ids and contents do not count            Storable.redirect
sheets              all text goes into string literals             Storable.css
documents           written without control characters             Storable.json
scripts             only base and pins are put in, none removed    Storable.script
```

The overrides and the options are where a NUL could come in from outside, so the statements ask
that there is none in them.  `archive_reads_back` puts the stages together, under every schedule of
the tasks.
-/

namespace Assets

open Batch Blob Pipeline

/-- No value of a dictionary holds the separator of blobs. -/
def Dictionary.SeparatorFree (entries : Dictionary String) : Prop :=
  ∀ name, ∀ value ∈ entries.find? name, separator ∉ value.toList

theorem Dictionary.separatorFree_of_forall {entries : Dictionary String}
    (h : ∀ entry ∈ entries, separator ∉ entry.2.toList) : entries.SeparatorFree := by
  intro name value hvalue
  obtain ⟨before, after, rfl, -⟩ := List.lookup_eq_some_iff.mp hvalue
  exact h (name, value) (by simp)

/-- Neither the base nor a pin holds the separator of blobs. -/
structure Esm.Options.SeparatorFree (options : Esm.Options) : Prop where
  cdn : separator ∉ options.cdn.toList
  dependencies : options.dependencies.SeparatorFree

theorem Esm.Options.SeparatorFree.not_supplies {options : Esm.Options}
    (h : options.SeparatorFree) : ¬options.Supplies separator := by
  rintro (hslash | hat | hcdn | ⟨package, version, hversion, hmem⟩)
  · exact absurd hslash (by decide)
  · exact absurd hat (by decide)
  · exact h.cdn hcdn
  · exact h.dependencies _ version hversion hmem

theorem separator_notMem_of_controlFree {cs : List Char} (h : Json.ControlFree cs) :
    separator ∉ cs := h.notMem (by decide)

/-! ## The texts of modules -/

theorem Css.moduleText_ne_nil (css source result : List Char) :
    moduleText css source result ≠ [] := by
  unfold moduleText
  intro h
  exact absurd (List.append_eq_nil_iff.mp h).2 (by decide)

theorem Css.separator_notMem_moduleText {css source result : List Char} (hcss : separator ∉ css)
    (hsource : separator ∉ source) (hresult : separator ∉ result) :
    separator ∉ moduleText css source result := by
  unfold moduleText
  simp only [List.mem_append, not_or, hcss, hsource, hresult, not_false_eq_true, and_true]
  decide

theorem Json.moduleText_ne_nil (document : Value) : moduleText document ≠ [] := by
  unfold moduleText
  intro h
  exact absurd (List.append_eq_nil_iff.mp h).2 (by decide)

theorem Json.separator_notMem_moduleText (document : Value) : separator ∉ moduleText document := by
  have hdocument := separator_notMem_of_controlFree (controlFree_write document)
  unfold moduleText
  simp only [List.mem_append, not_or, hdocument, not_false_eq_true, and_true]
  decide

/-- The module of a sheet holds two literals and, as its result, a name or a document. -/
theorem Css.exists_toModule_eq (file : File) :
    ∃ sheet result, Json.ControlFree result ∧ toModule file = ⟨file.name, String.ofList
      (moduleText (Json.literal sheet) (Json.literal (sourceName file.name).toList) result)⟩ := by
  unfold toModule
  dsimp only
  split
  · exact ⟨_, _, Json.controlFree_write _, rfl⟩
  · exact ⟨_, _, by simp, rfl⟩

/-- The module of a document holds the document as it is written. -/
theorem Json.exists_of_toModule_eq_ok {file module : File} (h : toModule file = .ok module) :
    ∃ document, module = ⟨file.name, String.ofList (moduleText document)⟩ := by
  unfold toModule at h
  cases hparse : parse file.content with
  | error fault =>
      rw [hparse] at h
      cases h
  | ok document =>
      rw [hparse] at h
      cases h
      exact ⟨document, rfl⟩

namespace Blob.Storable

/-! ## One stage at a time -/

theorem redirect {ids contents : Dictionary String} (hids : ids.SeparatorFree)
    (hcontents : contents.SeparatorFree) {file : File} (h : Storable file) :
    Storable (file.redirect ids contents) := by
  unfold File.redirect
  -- an id or a content that counts is a value of its dictionary and not empty
  split
  · exact h
  · rename_i id hid
    obtain ⟨hid, hidne⟩ := nonEmpty?_eq_some_iff.mp hid
    cases hcontent : nonEmpty? (contents.find? id) with
    | none => exact ⟨hidne, h.content_ne, hids _ id hid, h.content_clean⟩
    | some content =>
        obtain ⟨hcontent, hne⟩ := nonEmpty?_eq_some_iff.mp hcontent
        exact ⟨hidne, hne, hids _ id hid, hcontents _ content hcontent⟩

/-- The file under the name of its module. -/
theorem named {file : File} (h : Storable file) : Storable ⟨file.name ++ ".js", file.content⟩ where
  name_ne := append_ne_empty (by decide)
  content_ne := h.content_ne
  name_clean := by
    rw [String.toList_append, List.mem_append, not_or]
    exact ⟨h.name_clean, by decide⟩
  content_clean := h.content_clean

/-- The file with another text in place of its content. -/
theorem withText {file : File} (h : Storable file) {text : List Char} (hne : text ≠ [])
    (hclean : separator ∉ text) : Storable ⟨file.name, String.ofList text⟩ where
  name_ne := h.name_ne
  content_ne := by simpa [← String.toList_inj] using hne
  name_clean := h.name_clean
  content_clean := by simpa using hclean

theorem css {file : File} (h : Storable file) : Storable (Css.toModule file) := by
  -- whatever the sheet holds, and whatever scoping does to it, goes into a literal
  obtain ⟨sheet, result, hresult, hmodule⟩ := Css.exists_toModule_eq file
  rw [hmodule]
  refine h.withText (Css.moduleText_ne_nil _ _ _) (Css.separator_notMem_moduleText ?_ ?_ ?_)
  · exact separator_notMem_of_controlFree (Json.controlFree_literal _)
  · exact separator_notMem_of_controlFree (Json.controlFree_literal _)
  · exact separator_notMem_of_controlFree hresult

theorem json {file module : File} (h : Storable file) (hmodule : Json.toModule file = .ok module) :
    Storable module := by
  obtain ⟨document, rfl⟩ := Json.exists_of_toModule_eq_ok hmodule
  exact h.withText (Json.moduleText_ne_nil document) (Json.separator_notMem_moduleText document)

theorem script {options : Esm.Options} (hoptions : options.SeparatorFree) {file : File}
    (h : Storable file) : Storable ⟨file.name, Esm.rewriteScript options file.content⟩ where
  name_ne := h.name_ne
  content_ne := by
    have hle := Esm.length_le_rewriteScript options file.content
    intro (hempty : Esm.rewriteScript options file.content = "")
    rw [hempty] at hle
    exact h.content_ne (by simpa using hle)
  name_clean := h.name_clean
  content_clean := fun hmem =>
    (Esm.mem_rewriteScript hmem).elim h.content_clean hoptions.not_supplies

/-! ## The chain -/

theorem standardResult {options : Esm.Options} (hoptions : options.SeparatorFree)
    {file compiled : File} (h : Storable file)
    (hcompiled : standardResult options file = .ok compiled) : Storable compiled := by
  unfold Assets.standardResult at hcompiled
  dsimp only at hcompiled
  split at hcompiled
  · cases hcompiled
    exact h.named.css.script hoptions
  split at hcompiled
  · cases hmodule : Json.toModule ⟨file.name ++ ".js", file.content⟩ with
    | error fault =>
        rw [hmodule] at hcompiled
        cases hcompiled
    | ok module =>
        rw [hmodule] at hcompiled
        cases hcompiled
        have hstorable := (h.named.json hmodule).script hoptions
        obtain ⟨document, rfl⟩ := Json.exists_of_toModule_eq_ok hmodule
        exact hstorable
  split at hcompiled
  · cases hcompiled
    exact h.script hoptions
  · cases hcompiled
    exact h

end Blob.Storable

section Archive

variable {options : PluginOptions} {ids contents : Option (Dictionary String)}

/-- What a storable file is compiled to is storable. -/
theorem storable_of_outcome_run (hoptions : options.esm.SeparatorFree)
    (hids : (ids.getD []).SeparatorFree) (hcontents : (contents.getD []).SeparatorFree)
    {file compiled : File} (h : Storable file)
    (hcompiled : (run (standardPlugins options) (.ofDictionaries ids contents) file).outcome =
      .value compiled) : Storable compiled := by
  rw [outcome_run_ofDictionaries, outcome_run_standard, standardOutcome_eq_value_iff] at hcompiled
  exact (h.redirect hids hcontents).standardResult hoptions hcompiled

/-- **Compiled archives.**  Whatever text is compiled as a blob, with the standard plugins and with
overrides from dictionaries or none: if no value of the options and the dictionaries holds a NUL,
then the compiled files are accepted, and the archive gives them back in canonical order and under
the same digest.  This is so under every schedule of the tasks; `compileBlob` is `ofRuns` under the
schedule that the waits of the capabilities give. -/
theorem archive_reads_back (blob : String) (hoptions : options.esm.SeparatorFree)
    (hids : (ids.getD []).SeparatorFree) (hcontents : (contents.getD []).SeparatorFree)
    {tasks : List (Run File)} {archive : Archive}
    (htasks : tasks.map Run.outcome = fileOutcomes (standardPlugins options)
      (.ofDictionaries ids contents) (Archive.ofBlob blob).files)
    (harchive : (ofRuns tasks).archive = .value archive) :
    validate archive.files = .ok () ∧
      (Archive.ofBlob archive.content).files = archive.files.sorted ∧
      (Archive.ofBlob archive.content).hash = archive.hash := by
  obtain ⟨compiled, hcompiled, rfl⟩ := Compilation.exists_of_archive_eq harchive
  have hstorable : ∀ result ∈ compiled, Storable result := by
    intro result hresult
    obtain ⟨file, hfile, houtcome⟩ := exists_file_of_mem_compiled htasks hcompiled hresult
    exact storable_of_outcome_run hoptions hids hcontents (storable_of_mem_decode hfile) houtcome
  have hread : Archive.ofBlob (Archive.ofFiles compiled).content =
      ⟨compiled.sorted, encode compiled, digest (encode compiled)⟩ := ofBlob_encode hstorable
  rw [hread]
  exact ⟨validate_eq_ok_iff.mpr hstorable, rfl, rfl⟩

/-- A document with an escaped NUL, under another name, and a script with a pinned import; an empty
id and an empty content do not count. -/
theorem archive_reads_back_escaped :
    let options : PluginOptions := ⟨⟨"https://cdn", [("vue", "3")]⟩⟩
    let ids : Dictionary String := [("a.txt", "a.json"), ("b.mjs", "")]
    let contents : Dictionary String := [("a.json", "")]
    let blob := "a.txt\x00\"\\u0000\"\x00\x00b.mjs\x00import 'vue'"
    options.esm.SeparatorFree ∧ ids.SeparatorFree ∧ contents.SeparatorFree ∧
      ∃ archive, (compileBlob (standardPlugins options)
          (.ofDictionaries (some ids) (some contents)) blob).archive = .value archive ∧
        archive.files.Perm
          [⟨"a.json.js", "export default \"\\u0000\";\n"⟩,
            ⟨"b.mjs", "import 'https://cdn/vue@3'"⟩] ∧
        validate archive.files = .ok () ∧
        (Archive.ofBlob archive.content).files = archive.files.sorted ∧
        (Archive.ofBlob archive.content).hash = archive.hash := by
  intro options ids contents blob
  have hoptions : options.esm.SeparatorFree :=
    ⟨by decide, Dictionary.separatorFree_of_forall (by decide)⟩
  have hids : (Option.getD (some ids) []).SeparatorFree :=
    Dictionary.separatorFree_of_forall (by decide)
  have hcontents : (Option.getD (some contents) []).SeparatorFree :=
    Dictionary.separatorFree_of_forall (by decide)
  have htasks := map_outcome_run (standardPlugins options)
    (.ofDictionaries (some ids) (some contents)) (Archive.ofBlob blob).files
  have hresults : fileOutcomes (standardPlugins options)
      (.ofDictionaries (some ids) (some contents)) (Archive.ofBlob blob).files =
        [⟨"a.json.js", "export default \"\\u0000\";\n"⟩,
          ⟨"b.mjs", "import 'https://cdn/vue@3'"⟩].map .value := by decide +kernel
  obtain ⟨compiled, hcompiled, hperm⟩ := exists_outcome_perm htasks (.of_eq hresults.symm)
  have harchive := Compilation.archive_of_outcome hcompiled
  exact ⟨hoptions, hids, hcontents, _, harchive, hperm,
    archive_reads_back blob hoptions hids hcontents htasks harchive⟩

end Archive

end Assets
