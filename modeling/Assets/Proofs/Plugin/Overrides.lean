import Assets.Plugin.Capability
import Assets.Proofs.Pipeline.Outcome

/-!
# Overrides from dictionaries

Overrides can be given as two dictionaries, of new ids by old ones and of contents by new ids.  They
never fail and never wait, so all they do is to put another file in the place of the given one:
`outcome_run_ofDictionaries` says that a file goes through the registered plugins as the file that
`File.redirect` makes of it.

An empty entry counts as no entry.  This holds for ids and for contents alike, and the contents are
looked up under the new id, so that they have no effect on a file without one.
-/

namespace Assets

/-- The dictionary, if it has entries. -/
def Dictionary.given? (entries : Dictionary String) : Option (Dictionary String) :=
  if entries.isEmpty then none else some entries

@[simp] theorem Dictionary.getD_given? (entries : Dictionary String) :
    entries.given?.getD [] = entries := by
  cases entries <;> rfl

/-- Overrides that look ids and contents up.  A capability without a dictionary is absent. -/
def Overrides.ofDictionaries (ids contents : Option (Dictionary String)) : Overrides :=
  ⟨ids.map Resolver.ofDictionary, contents.map Loader.ofDictionary⟩

theorem Overrides.ofDictionaries_none : ofDictionaries none none = {} := rfl

/-- The file in place of a given one: under the id that its name stands for, with the content that
is kept for that id.  Empty entries do not count. -/
def File.redirect (ids contents : Dictionary String) (file : File) : File :=
  match nonEmpty? (ids.find? file.name) with
  | none => file
  | some id => ⟨id, (nonEmpty? (contents.find? id)).getD file.content⟩

namespace Pipeline

/-- The overrides hand every file on, redirected. -/
theorem outcome_apply_ofDictionaries (ids contents : Option (Dictionary String)) (file : File) :
    (apply (Overrides.ofDictionaries ids contents).plugin file).outcome =
      .value (file.redirect (ids.getD []) (contents.getD [])) := by
  cases ids with
  | none => exact outcome_apply_of_no_resolver rfl file
  | some ids =>
      -- the contents are only asked for an id that counts, so both steps are taken apart first
      let plugin := (Overrides.ofDictionaries (some ids) contents).plugin
      have hresolve : (resolve plugin file).outcome = .value (nonEmpty? (ids.find? file.name)) :=
        outcome_resolve_of_value rfl rfl
      have hload (id : String) :
          (load plugin id).outcome = .value (nonEmpty? ((contents.getD []).find? id)) := by
        cases contents with
        | none => rfl
        | some contents => exact outcome_load_of_value rfl rfl
      rw [Option.getD_some, File.redirect]
      cases hid : nonEmpty? (ids.find? file.name) with
      | none =>
          rw [hid] at hresolve
          exact outcome_apply_of_unclaimed hresolve
      | some id =>
          rw [apply, Run.outcome_bind, hresolve, hid, Outcome.bind_value, Run.outcome_bind, hload,
            Outcome.bind_value]
          rfl

/-- A file meets the registered plugins as its overrides leave it. -/
theorem outcome_run_ofDictionaries (plugins : List Plugin)
    (ids contents : Option (Dictionary String)) (file : File) :
    (run plugins (Overrides.ofDictionaries ids contents) file).outcome =
      (run plugins {} (file.redirect (ids.getD []) (contents.getD []))).outcome := by
  rw [outcome_run, outcome_applyAll_cons, outcome_apply_ofDictionaries, Outcome.bind_value,
    outcome_run_empty]

end Pipeline

end Assets
