import Assets.Plugin.Capability
import Assets.Proofs.Pipeline.Calls
import Assets.Proofs.Pipeline.Records

/-!
# Chains put together

A chain is one pass over its plugins, so it can be cut at any place: the second part goes on from
the file that the first one leaves (`applyAll_append`).  The overrides belong to the first part
alone.

A plugin passes a file over if it has no resolver, or if its resolver answers with no id or with an
empty one.  It is called all the same, so that the events of a run show it.  But neither the end of
the run nor its log does: `Run.Alike` compares runs up to what else they show, and it is closed
under going on (`Alike.bind`).
-/

namespace Assets

/-- The plugin does not take the files of a name: it has no resolver, or the resolver has no id for
them. -/
def Plugin.PassesOver (plugin : Plugin) (name : String) : Prop :=
  ∀ resolver, plugin.resolver = some resolver →
    ∃ id, (resolver name).outcome = .value id ∧ (id = none ∨ id = some "")

namespace Run

variable {α β : Type}

/-- The runs end in the same way and leave the same log. -/
structure Alike (run other : Run α) : Prop where
  outcome : run.outcome = other.outcome
  records : Event.records run.events = Event.records other.events

namespace Alike

theorem refl (run : Run α) : run.Alike run := ⟨rfl, rfl⟩

theorem trans {run other last : Run α} (h : run.Alike other) (h' : other.Alike last) :
    run.Alike last := ⟨h.outcome.trans h'.outcome, h.records.trans h'.records⟩

theorem symm {run other : Run α} (h : run.Alike other) : other.Alike run :=
  ⟨h.outcome.symm, h.records.symm⟩

/-- Runs that go on in the same way stay alike. -/
theorem bind {run other : Run α} {next next' : α → Run β} (h : run.Alike other)
    (hnext : ∀ a, run.outcome = .value a → (next a).Alike (next' a)) :
    (run >>= next).Alike (other >>= next') := by
  cases houtcome : run.outcome with
  | value a =>
      have hother : other.outcome = .value a := h.outcome ▸ houtcome
      have halike := hnext a houtcome
      constructor
      · rw [outcome_bind, outcome_bind, houtcome, hother]
        exact halike.outcome
      · rw [events_bind_of_value houtcome, events_bind_of_value hother, Event.records_append,
          Event.records_append, h.records, halike.records]
  | _ =>
      have hother := h.outcome ▸ houtcome
      constructor
      · rw [outcome_bind, outcome_bind, houtcome, hother]
        rfl
      · rw [events_bind_of_none (by rw [houtcome]; rfl), events_bind_of_none (by rw [hother]; rfl),
          h.records]

end Alike

end Run

namespace Pipeline

/-! ## Cutting a chain -/

/-- The second part of a chain goes on from what the first part leaves. -/
theorem applyAll_append (plugins more : List Plugin) (file : File) :
    applyAll (plugins ++ more) file = applyAll plugins file >>= applyAll more := by
  induction plugins generalizing file with
  | nil => exact (pure_bind file (applyAll more)).symm
  | cons plugin plugins ih =>
      calc applyAll (plugin :: plugins ++ more) file
          = apply plugin file >>= fun result => applyAll plugins result >>= applyAll more :=
            congrArg (apply plugin file >>= ·) (funext ih)
        _ = applyAll (plugin :: plugins) file >>= applyAll more := (bind_assoc ..).symm

/-! ## Plugins that pass a file over -/

section PassesOver

variable {plugin : Plugin} {file : File}

theorem alike_resolve (h : plugin.PassesOver file.name) :
    (resolve plugin file).Alike (pure none) := by
  unfold resolve
  cases hresolver : plugin.resolver with
  | none => exact .refl _
  | some resolver =>
      obtain ⟨id, hid, hnone⟩ := h resolver hresolver
      have hempty : nonEmpty? id = none := by rcases hnone with rfl | rfl <;> rfl
      have houtcome : (call plugin.name (.resolve file.name) (resolver file.name)).outcome =
          .value id := by rw [outcome_call, hid]; rfl
      constructor
      · rw [Run.outcome_bind, houtcome, Outcome.bind_value, hempty]
      · rw [Run.events_bind_of_value houtcome, Event.records_append, hempty]
        simp [call, Event.records]

theorem alike_apply (h : plugin.PassesOver file.name) : (apply plugin file).Alike (pure file) := by
  have hresolve := alike_resolve h
  have hpass : (apply plugin file).Alike (pure none >>= fun _ : Option String => pure file) :=
    .bind hresolve fun id hid => by
      rw [hresolve.outcome] at hid
      cases hid
      exact .refl _
  rwa [pure_bind] at hpass

/-- A plugin may be left out of a chain if it passes over the file that it meets. -/
theorem alike_applyAll (before after : List Plugin)
    (h : ∀ current, (applyAll before file).outcome = .value current →
      plugin.PassesOver current.name) :
    (applyAll (before ++ plugin :: after) file).Alike (applyAll (before ++ after) file) := by
  rw [applyAll_append, applyAll_append]
  refine .bind (.refl _) fun current hcurrent => ?_
  have hafter : (apply plugin current >>= applyAll after).Alike (pure current >>= applyAll after) :=
    .bind (alike_apply (h current hcurrent)) fun _ _ => .refl _
  rwa [pure_bind] at hafter

end PassesOver

/-- Chains that are alike make runs that are. -/
theorem alike_run {plugins others : List Plugin} {overrides overrides' : Overrides} {file : File}
    (h : (applyAll (overrides.plugin :: plugins) file).Alike
      (applyAll (overrides'.plugin :: others) file)) :
    (run plugins overrides file).Alike (run others overrides' file) :=
  .bind (.refl _) fun _ _ => .bind h fun _ _ => .refl _

/-! ## One pass -/

/-- **One linear pass.**  A chain does to a file what its first part does, with the overrides, and
then its second part, without them, to the file that comes out; it fails as the first of them that
fails.  A plugin may be left out, wherever it stands, if it passes over the file that it meets, and
so may the overrides: the run ends in the same way and leaves the same log.  Capabilities are
functions of the id or the file, so that it makes no difference when they are called. -/
theorem linear_pass (plugins more : List Plugin) (overrides : Overrides) (file : File) :
    (run (plugins ++ more) overrides file).outcome =
        ((run plugins overrides file).outcome.bind fun result => (run more {} result).outcome) ∧
      (∀ plugin : Plugin,
        (∀ current, (run plugins overrides file).outcome = .value current →
          plugin.PassesOver current.name) →
        (run (plugins ++ plugin :: more) overrides file).outcome =
            (run (plugins ++ more) overrides file).outcome ∧
          Event.records (run (plugins ++ plugin :: more) overrides file).events =
            Event.records (run (plugins ++ more) overrides file).events) ∧
      (overrides.plugin.PassesOver file.name →
        (run plugins overrides file).outcome = (run plugins {} file).outcome ∧
          Event.records (run plugins overrides file).events =
            Event.records (run plugins {} file).events) := by
  refine ⟨?_, fun plugin hpasses => ?_, fun hpasses => ?_⟩
  · have hmore (result : File) : (applyAll more result).outcome = (run more {} result).outcome :=
      (outcome_run_empty more result).symm
    rw [outcome_run, outcome_run, ← List.cons_append, applyAll_append, Run.outcome_bind]
    exact congrArg _ (funext hmore)
  · rw [outcome_run] at hpasses
    have halike := alike_run (alike_applyAll (overrides.plugin :: plugins) more hpasses)
    exact ⟨halike.outcome, halike.records⟩
  · -- both runs are alike to one in which nothing stands in front
    have hfirst : (applyAll (overrides.plugin :: plugins) file).Alike (applyAll plugins file) :=
      alike_applyAll [] plugins fun current hcurrent => by
        cases hcurrent
        exact hpasses
    have hempty : (applyAll (Overrides.plugin {} :: plugins) file).Alike (applyAll plugins file) :=
      alike_applyAll [] plugins fun current _ resolver hresolver => by cases hresolver
    have halike : (run plugins overrides file).Alike (run plugins {} file) :=
      alike_run (hfirst.trans hempty.symm)
    exact ⟨halike.outcome, halike.records⟩

/-- Takes texts as scripts, with another content. -/
def textOverrides : Overrides := ⟨some (.suffix ".txt" ".ts"), some (.fixed "let a")⟩

def scriptPlugin : Plugin := ⟨"ts", some (.suffix ".ts" ".js"), none, some (.append ";")⟩

def modulePlugin : Plugin := ⟨"js", some (.suffix ".js" ".mjs"), none, none⟩

/-- Would take texts, but there are none any more when it is called. -/
def latePlugin : Plugin := ⟨"late", some (.suffix ".txt" ".md"), none, some (.append "!")⟩

theorem linear_pass_renamed :
    (run [scriptPlugin] textOverrides ⟨"a.txt", "x"⟩).outcome = .value ⟨"a.js", "let a;"⟩ ∧
    latePlugin.PassesOver "a.js" ∧
    (run [scriptPlugin, latePlugin, modulePlugin] textOverrides ⟨"a.txt", "x"⟩).outcome =
      .value ⟨"a.mjs", "let a;"⟩ ∧
    Event.records
        (run [scriptPlugin, latePlugin, modulePlugin] textOverrides ⟨"a.txt", "x"⟩).events =
      Event.records (run [scriptPlugin, modulePlugin] textOverrides ⟨"a.txt", "x"⟩).events ∧
    textOverrides.plugin.PassesOver "b.ts" ∧
    (run [scriptPlugin] textOverrides ⟨"b.ts", "x"⟩).outcome = .value ⟨"b.js", "x;"⟩ := by
  have hfirst : (run [scriptPlugin] textOverrides ⟨"a.txt", "x"⟩).outcome =
      .value ⟨"a.js", "let a;"⟩ := by decide
  have hsecond : (run [modulePlugin] {} ⟨"a.js", "let a;"⟩).outcome =
      .value ⟨"a.mjs", "let a;"⟩ := by decide
  have hlate : latePlugin.PassesOver "a.js" := by
    intro resolver hresolver
    cases hresolver
    exact ⟨none, by decide, .inl rfl⟩
  have hplain : textOverrides.plugin.PassesOver "b.ts" := by
    intro resolver hresolver
    cases hresolver
    exact ⟨none, by decide, .inl rfl⟩
  have hbare : (run [scriptPlugin] {} ⟨"b.ts", "x"⟩).outcome = .value ⟨"b.js", "x;"⟩ := by decide
  obtain ⟨hcut, hout, -⟩ :=
    linear_pass [scriptPlugin] [modulePlugin] textOverrides ⟨"a.txt", "x"⟩
  obtain ⟨houtcome, hrecords⟩ := hout latePlugin fun current hcurrent => by
    rw [hfirst] at hcurrent
    cases hcurrent
    exact hlate
  obtain ⟨hsame, -⟩ := (linear_pass [scriptPlugin] [] textOverrides ⟨"b.ts", "x"⟩).2.2 hplain
  refine ⟨hfirst, hlate, houtcome.trans ?_, hrecords, hplain, hsame.trans hbare⟩
  rw [hcut, hfirst, Outcome.bind_value, hsecond]

end Pipeline

end Assets
