import Assets.Pipeline

/-!
# How the plugin chain ends

What a file becomes does not depend on what is logged or how long capabilities take.  Here a run
is followed through its outcome alone: `Outcome.bind` goes on from a value, `outcome_bind` carries
it over to runs, and one lemma per way through a plugin says what the plugin makes of a file.
-/

namespace Assets

namespace Outcome

variable {α β : Type}

/-- The value that is reached, if one is. -/
def value? : Outcome α → Option α
  | value a => some a
  | _ => none

@[simp] theorem value?_value (a : α) : (value a).value? = some a := rfl

/-- Goes on from a value; every other outcome is final. -/
def bind (outcome : Outcome α) (next : α → Outcome β) : Outcome β :=
  match outcome with
  | value a => next a
  | failure e => .failure e
  | panic => .panic
  | hang => .hang

@[simp] theorem bind_value (a : α) (next : α → Outcome β) : (value a).bind next = next a := rfl

@[simp] theorem bind_failure (e : Failure) (next : α → Outcome β) :
    (failure e).bind next = .failure e := rfl

@[simp] theorem bind_panic (next : α → Outcome β) : (panic : Outcome α).bind next = .panic := rfl

@[simp] theorem bind_hang (next : α → Outcome β) : (hang : Outcome α).bind next = .hang := rfl

theorem bind_assoc {γ : Type} (outcome : Outcome α) (next : α → Outcome β) (last : β → Outcome γ) :
    (outcome.bind next).bind last = outcome.bind fun a => (next a).bind last := by
  cases outcome <;> rfl

end Outcome

@[simp] theorem Run.outcome_bind {α β : Type} (run : Run α) (next : α → Run β) :
    (run >>= next).outcome = run.outcome.bind fun a => (next a).outcome := by
  rcases run with ⟨events, _ | _ | _ | _⟩ <;> rfl

@[simp] theorem Run.outcome_map {α β : Type} (f : α → β) (run : Run α) :
    (f <$> run).outcome = run.outcome.bind fun a => .value (f a) := by
  rw [map_eq_pure_bind, outcome_bind]
  rfl

@[simp] theorem Run.outcome_emit (event : Event) : (Run.emit event).outcome = .value () := rfl

@[simp] theorem Run.outcome_log (scope tag message : String) :
    (Run.log scope tag message).outcome = .value () := rfl

theorem nonEmpty?_of_ne {text : String} (h : text ≠ "") : nonEmpty? (some text) = some text := by
  simp [nonEmpty?, h]

theorem nonEmpty?_eq_some_iff {given : Option String} {text : String} :
    nonEmpty? given = some text ↔ given = some text ∧ text ≠ "" := by
  cases given with
  | none => simp [nonEmpty?]
  | some other =>
      simp only [nonEmpty?, String.isEmpty_iff, Option.some.injEq]
      by_cases hempty : other = ""
      · simp only [hempty, if_true, reduceCtorEq, false_iff, not_and]
        exact fun h => by simp [← h]
      · simp only [if_neg hempty, Option.some.injEq, iff_self_and]
        exact fun h => h ▸ hempty

namespace Pipeline

@[simp] theorem outcome_call {α : Type} (plugin : String) (request : Call) (answer : Answer α) :
    (call plugin request answer).outcome =
      answer.outcome.map (fun a => a) (.plugin plugin request.step request.id) := rfl

/-! ## One plugin -/

/-- An answered resolver takes the file, unless its id is empty. -/
theorem outcome_resolve_of_value {plugin : Plugin} {resolver : Resolver}
    (hresolver : plugin.resolver = some resolver) {file : File} {id : Option String}
    (h : (resolver file.name).outcome = .value id) :
    (resolve plugin file).outcome = .value (nonEmpty? id) := by
  simp only [resolve, hresolver, Run.outcome_bind, outcome_call, h, Outcome.map,
    Outcome.bind_value]
  cases nonEmpty? id <;> rfl

/-- An answered loader has content, unless the content is empty. -/
theorem outcome_load_of_value {plugin : Plugin} {loader : Loader}
    (hloader : plugin.loader = some loader) {id : String} {content : Option String}
    (h : (loader id).outcome = .value content) :
    (load plugin id).outcome = .value (nonEmpty? content) := by
  simp only [load, hloader, Run.outcome_bind, outcome_call, h, Outcome.map, Outcome.bind_value]
  cases nonEmpty? content <;> rfl

theorem outcome_apply_of_unclaimed {plugin : Plugin} {file : File}
    (h : (resolve plugin file).outcome = .value none) :
    (apply plugin file).outcome = .value file := by
  simp [apply, h]

/-- A plugin without a resolver leaves every file alone. -/
theorem outcome_apply_of_no_resolver {plugin : Plugin} (h : plugin.resolver = none) (file : File) :
    (apply plugin file).outcome = .value file := by
  refine outcome_apply_of_unclaimed ?_
  simp [resolve, h]

/-- A plugin leaves the files alone that it does not resolve. -/
theorem outcome_apply_of_unresolved {plugin : Plugin} {resolver : Resolver}
    (hresolver : plugin.resolver = some resolver) {file : File}
    (h : (resolver file.name).outcome = .value none) :
    (apply plugin file).outcome = .value file := by
  refine outcome_apply_of_unclaimed ?_
  simp [resolve, hresolver, h, Outcome.map, nonEmpty?]

/-- A plugin without a loader transforms the files that it resolves. -/
theorem outcome_apply_of_resolved {plugin : Plugin} {resolver : Resolver}
    {transformer : Transformer} (hresolver : plugin.resolver = some resolver)
    (hloader : plugin.loader = none) (htransformer : plugin.transformer = some transformer)
    {file : File} {id : String} (hid : (resolver file.name).outcome = .value (some id))
    (hne : id ≠ "") :
    (apply plugin file).outcome =
      (transformer ⟨id, file.content⟩).outcome.map (fun result => result.getD ⟨id, file.content⟩)
        (.plugin plugin.name .transform id) := by
  have hresolve : (resolve plugin file).outcome = .value (some id) := by
    simp [resolve, hresolver, hid, Outcome.map, nonEmpty?_of_ne hne]
  have hload : (load plugin id).outcome = .value none := by simp [load, hloader]
  have htransform : (transform plugin ⟨id, file.content⟩).outcome =
      (transformer ⟨id, file.content⟩).outcome.map
        (fun result => result.getD ⟨id, file.content⟩) (.plugin plugin.name .transform id) := by
    simp only [transform, htransformer, Run.outcome_bind, outcome_call]
    cases (transformer ⟨id, file.content⟩).outcome with
    | value result => cases result <;> simp [Outcome.map]
    | failure e => rfl
    | panic => rfl
    | hang => rfl
  simp [apply, hresolve, hload, htransform]

/-! ## The chain -/

@[simp] theorem outcome_applyAll_nil (file : File) : (applyAll [] file).outcome = .value file := rfl

theorem outcome_applyAll_cons (plugin : Plugin) (plugins : List Plugin) (file : File) :
    (applyAll (plugin :: plugins) file).outcome =
      (apply plugin file).outcome.bind fun result => (applyAll plugins result).outcome := by
  rw [applyAll, Run.outcome_bind]

/-- Compiling a file ends as its way through the chain does. -/
theorem outcome_run (plugins : List Plugin) (overrides : Overrides) (file : File) :
    (run plugins overrides file).outcome =
      (applyAll (overrides.plugin :: plugins) file).outcome := by
  simp only [run, opening, closing, Run.outcome_bind, Run.outcome_log, Run.outcome_emit,
    Outcome.bind_value]
  cases (applyAll (overrides.plugin :: plugins) file).outcome <;> rfl

/-- Without overrides a file meets the registered plugins as it is. -/
theorem outcome_run_empty (plugins : List Plugin) (file : File) :
    (run plugins {} file).outcome = (applyAll plugins file).outcome := by
  rw [outcome_run, outcome_applyAll_cons, outcome_apply_of_no_resolver rfl, Outcome.bind_value]

end Pipeline

end Assets
