import Assets.Proofs.Pipeline.Calls
import Assets.Proofs.Pipeline.Records

/-!
# The log of a run

The log says which plugins took a file and what they made of it.  A question leaves one note at most
(`Question.note?`), and which one follows from the answer alone: an id that is not empty, a content
that is not empty, or a file.  So the log can be written down beside the questions of a chain, just
as the calls of a run can.

`Run.Leaves` says that the calls and records of a run are those of some questions, as far as they
are asked.  It is closed under going on (`Leaves.bind`), with one lemma a function, as `Run.Asks`
is.

* `trail_questionsOf`: the notes lead from the name of the file to the name that the chain leaves.
  Each note starts from the name where the one before it ends, and a content is noted right behind
  the id that it is loaded for.  A run that breaks off has a front part of these notes, which leads
  somewhere as well (`Trail.exists_of_prefix`).
* `log_run`: the log of a run.
-/

namespace Assets

/-- What the log says about a plugin. -/
inductive Note where
  | resolved (name id plugin : String)
  | loaded (id : String)
  | transformed (name result plugin : String)
  deriving DecidableEq, Repr

namespace Note

def record : Note → LogRecord
  | resolved name id plugin =>
    ⟨Pipeline.scope, "resolve_id", name ++ " -> " ++ id ++ " (" ++ plugin ++ ")"⟩
  | loaded id => ⟨Pipeline.scope, "load", id⟩
  | transformed name result plugin =>
    ⟨Pipeline.scope, "transform", name ++ " -> " ++ result ++ " (" ++ plugin ++ ")"⟩

/-- The record with which a file comes to its chain. -/
def started (name : String) : LogRecord := ⟨Pipeline.scope, "start", name⟩

/-- The record with which a file leaves its chain. -/
def done (name : String) : LogRecord := ⟨Pipeline.scope, "done", name⟩

end Note

/-- The notes lead from one name to another: each pair of names starts where the one before it ends,
and a load stands right behind the id that it is for. -/
inductive Trail : String → List Note → String → Prop
  | stop (name : String) : Trail name [] name
  | resolved {name id plugin last : String} {notes : List Note} (h : Trail id notes last) :
      Trail name (.resolved name id plugin :: notes) last
  | loaded {name id plugin last : String} {notes : List Note} (h : Trail id notes last) :
      Trail name (.resolved name id plugin :: .loaded id :: notes) last
  | transformed {name result plugin last : String} {notes : List Note}
      (h : Trail result notes last) : Trail name (.transformed name result plugin :: notes) last

/-- The file that the plugin puts in place of another one, if it does. -/
def Plugin.result? (plugin : Plugin) (file : File) : Option File :=
  plugin.transformer.bind fun transformer => (transformer file).outcome.value?.join

/-- What the log says about the answer to a question, if anything. -/
def Question.note? (question : Question) : Option Note :=
  match question.call with
  | .resolve name =>
    (question.plugin.id? name).map fun id => .resolved name id question.plugin.name
  | .load id => (question.plugin.content? id).map fun _ => .loaded id
  | .transform file =>
    (question.plugin.result? file).map fun result =>
      .transformed file.name result.name question.plugin.name

/-- A question and its note, as a run shows them. -/
def Question.trace (question : Question) : List Event :=
  .call question.plugin.name question.call ::
    (question.note?.map fun note => Event.log note.record).toList

/-- The calls and the log records among events. -/
def Event.audit (events : List Event) : List Event :=
  events.filter fun
    | call _ _ => true
    | log _ => true
    | _ => false

@[simp] theorem Event.audit_append (events more : List Event) :
    audit (events ++ more) = audit events ++ audit more :=
  List.filter_append ..

theorem Event.records_audit (events : List Event) : records (audit events) = records events := by
  rw [records, audit, List.filterMap_filter]
  congr 1
  funext event
  cases event <;> rfl

theorem Question.records_flatMap_trace (questions : List Question) :
    Event.records (questions.flatMap trace) = (questions.filterMap note?).map Note.record := by
  induction questions with
  | nil => rfl
  | cons question questions ih =>
      rw [List.flatMap_cons, Event.records_append, ih, trace]
      cases hnote : question.note? with
      | none => rw [List.filterMap_cons_none hnote]; rfl
      | some note => rw [List.filterMap_cons_some hnote]; rfl

/-! ## Trails -/

namespace Trail

theorem append {first middle last : String} {notes more : List Note}
    (h : Trail first notes middle) (hmore : Trail middle more last) :
    Trail first (notes ++ more) last := by
  induction h with
  | stop name => exact hmore
  | resolved h ih => exact .resolved (ih hmore)
  | loaded h ih => exact .loaded (ih hmore)
  | transformed h ih => exact .transformed (ih hmore)

/-- A trail may break off anywhere, also in front of a load. -/
theorem exists_of_prefix {first last : String} {notes front : List Note}
    (h : Trail first notes last) (hfront : front <+: notes) :
    ∃ middle, Trail first front middle := by
  induction h generalizing front with
  | stop name =>
      obtain rfl := List.prefix_nil.mp hfront
      exact ⟨name, .stop name⟩
  | @resolved name id plugin last notes h ih =>
      obtain rfl | ⟨rest, rfl, hrest⟩ := List.prefix_cons_iff.mp hfront
      · exact ⟨name, .stop name⟩
      · obtain ⟨middle, hmiddle⟩ := ih hrest
        exact ⟨middle, .resolved hmiddle⟩
  | @loaded name id plugin last notes h ih =>
      obtain rfl | ⟨rest, rfl, hrest⟩ := List.prefix_cons_iff.mp hfront
      · exact ⟨name, .stop name⟩
      obtain rfl | ⟨more, rfl, hmore⟩ := List.prefix_cons_iff.mp hrest
      · exact ⟨id, .resolved (.stop id)⟩
      · obtain ⟨middle, hmiddle⟩ := ih hmore
        exact ⟨middle, .loaded hmiddle⟩
  | @transformed name result plugin last notes h ih =>
      obtain rfl | ⟨rest, rfl, hrest⟩ := List.prefix_cons_iff.mp hfront
      · exact ⟨name, .stop name⟩
      · obtain ⟨middle, hmiddle⟩ := ih hrest
        exact ⟨middle, .transformed hmiddle⟩

end Trail

/-! ## What questions leave -/

namespace Run

open Pipeline

variable {α β : Type}

/-- The run leaves the calls and records of questions, as far as they are asked. -/
def Leaves (run : Run α) (questions : List Question) : Prop :=
  Event.audit run.events = (asked questions).flatMap Question.trace

theorem Leaves.pure (a : α) : (pure a : Run α).Leaves [] := rfl

theorem Leaves.bind {run : Run α} {next : α → Run β} {questions more : List Question} {a : α}
    (hasks : run.Asks questions a) (hrun : run.Leaves questions) (hnext : (next a).Leaves more) :
    (run >>= next).Leaves (questions ++ more) :=
  shown_bind Event.audit_append (fun _ _ => List.flatMap_append) hasks.outcome_eq hrun hnext

end Run

namespace Pipeline

theorem asked_singleton (question : Question) : asked [question] = [question] := by
  rw [asked]
  split <;> rfl

theorem audit_call {α : Type} (plugin : String) (request : Call) (answer : Answer α) :
    Event.audit (call plugin request answer).events = [.call plugin request] := by
  simp [Event.audit, call]

/-- A call leaves its question, and whoever goes on from its answer leaves the note. -/
theorem leaves_call_bind {α β : Type} {plugin : Plugin} {request : Call} {answer : Answer α}
    {next : α → Run β}
    (hnone : answer.outcome.value? = none → (⟨plugin, request⟩ : Question).note? = none)
    (hnext : ∀ a, answer.outcome = .value a → Event.audit (next a).events =
      ((⟨plugin, request⟩ : Question).note?.map fun note => Event.log note.record).toList) :
    (call plugin.name request answer >>= next).Leaves [⟨plugin, request⟩] := by
  have houtcome := outcome_call plugin.name request answer
  rw [Run.Leaves, asked_singleton, List.flatMap_singleton, Question.trace]
  cases hanswer : answer.outcome
  case value a =>
      rw [hanswer] at houtcome
      rw [Run.events_bind_of_value houtcome, Event.audit_append, audit_call, hnext a hanswer]
      rfl
  all_goals
    rw [hanswer] at hnone houtcome
    rw [Run.events_bind_of_none (by rw [houtcome]; rfl), audit_call, hnone rfl]
    rfl

theorem leaves_resolve (plugin : Plugin) (file : File) :
    (resolve plugin file).Leaves (plugin.ask (.resolve file.name)) := by
  unfold resolve
  cases hresolver : plugin.resolver with
  | none =>
      rw [Plugin.ask_of_not_can (by simp [Plugin.can, Call.step, hresolver])]
      exact .pure none
  | some resolver =>
      rw [Plugin.ask_of_can (by simp [Plugin.can, Call.step, hresolver])]
      refine leaves_call_bind (fun hvalue => ?_) fun answer hanswer => ?_
      · simp [Question.note?, Plugin.id?, hresolver, hvalue, nonEmpty?]
      · simp only [Question.note?, Plugin.id?, hresolver, hanswer, Option.bind_some,
          Outcome.value?_value, Option.join_some]
        cases nonEmpty? answer with
        | none => rfl
        | some id => rfl

theorem leaves_load (plugin : Plugin) (id : String) :
    (load plugin id).Leaves (plugin.ask (.load id)) := by
  unfold load
  cases hloader : plugin.loader with
  | none =>
      rw [Plugin.ask_of_not_can (by simp [Plugin.can, Call.step, hloader])]
      exact .pure none
  | some loader =>
      rw [Plugin.ask_of_can (by simp [Plugin.can, Call.step, hloader])]
      refine leaves_call_bind (fun hvalue => ?_) fun answer hanswer => ?_
      · simp [Question.note?, Plugin.content?, hloader, hvalue, nonEmpty?]
      · simp only [Question.note?, Plugin.content?, hloader, hanswer, Option.bind_some,
          Outcome.value?_value, Option.join_some]
        cases nonEmpty? answer with
        | none => rfl
        | some content => rfl

theorem leaves_transform (plugin : Plugin) (file : File) :
    (transform plugin file).Leaves (plugin.ask (.transform file)) := by
  unfold transform
  cases htransformer : plugin.transformer with
  | none =>
      rw [Plugin.ask_of_not_can (by simp [Plugin.can, Call.step, htransformer])]
      exact .pure file
  | some transformer =>
      rw [Plugin.ask_of_can (by simp [Plugin.can, Call.step, htransformer])]
      refine leaves_call_bind (fun hvalue => ?_) fun answer hanswer => ?_
      · simp [Question.note?, Plugin.result?, htransformer, hvalue]
      · simp only [Question.note?, Plugin.result?, htransformer, hanswer, Option.bind_some,
          Outcome.value?_value, Option.join_some]
        cases answer with
        | none => rfl
        | some result => rfl

theorem leaves_apply (plugin : Plugin) (file : File) :
    (apply plugin file).Leaves (plugin.questions file) := by
  refine .bind (asks_resolve plugin file) (leaves_resolve plugin file) ?_
  cases plugin.id? file.name with
  | none => exact .pure file
  | some id =>
      exact .bind (asks_load plugin id) (leaves_load plugin id) (leaves_transform plugin _)

theorem leaves_applyAll (plugins : List Plugin) (file : File) :
    (applyAll plugins file).Leaves (questionsOf plugins file) := by
  induction plugins generalizing file with
  | nil => exact .pure file
  | cons plugin plugins ih =>
      exact .bind (asks_apply plugin file) (leaves_apply plugin file) (ih (plugin.pass file))

/-! ## The trail of a chain -/

/-- A capability that a plugin does not have leaves no note. -/
theorem filterMap_note?_ask (plugin : Plugin) (call : Call) :
    (plugin.ask call).filterMap Question.note? = (⟨plugin, call⟩ : Question).note?.toList := by
  cases hcan : plugin.can call.step with
  | true =>
      rw [Plugin.ask_of_can hcan]
      cases hnote : (⟨plugin, call⟩ : Question).note? with
      | none => rw [List.filterMap_cons_none hnote]; rfl
      | some note => rw [List.filterMap_cons_some hnote]; rfl
  | false =>
      rw [Plugin.ask_of_not_can hcan]
      cases call <;> simp only [Plugin.can, Call.step, Option.isSome_eq_false_iff,
        Option.isNone_iff_eq_none] at hcan <;>
        simp [Question.note?, Plugin.id?, Plugin.content?, Plugin.result?, hcan, nonEmpty?]

/-- The notes of a plugin lead from the name of the file that it meets to that of the file that it
leaves. -/
theorem trail_questions (plugin : Plugin) (file : File) :
    Trail file.name ((plugin.questions file).filterMap Question.note?) (plugin.pass file).name := by
  rw [Plugin.questions, Plugin.pass, List.filterMap_append, filterMap_note?_ask]
  cases hid : plugin.id? file.name with
  | none =>
      simp only [Question.note?, hid]
      exact .stop file.name
  | some id =>
      have hmade : Trail id ((plugin.ask (.transform (plugin.taken id file))).filterMap
          Question.note?) (plugin.made (plugin.taken id file)).name := by
        rw [filterMap_note?_ask]
        have hmade : plugin.made (plugin.taken id file) =
            (plugin.result? (plugin.taken id file)).getD (plugin.taken id file) := rfl
        rw [hmade]
        cases hresult : plugin.result? (plugin.taken id file) with
        | none =>
            simp only [Question.note?, hresult]
            exact .stop id
        | some result =>
            simp only [Question.note?, hresult]
            exact .transformed (.stop result.name)
      rw [List.filterMap_append, filterMap_note?_ask]
      simp only [Question.note?, hid]
      cases plugin.content? id with
      | none => exact .resolved hmade
      | some content => exact .loaded hmade

theorem trail_questionsOf (plugins : List Plugin) (file : File) :
    Trail file.name ((questionsOf plugins file).filterMap Question.note?)
      (passAll plugins file).name := by
  induction plugins generalizing file with
  | nil => exact .stop file.name
  | cons plugin plugins ih =>
      rw [questionsOf_cons, List.filterMap_append]
      exact (trail_questions plugin file).append (ih (plugin.pass file))

/-! ## The log -/

theorem audit_opening (file : File) :
    Event.audit (opening file).events = [.log (Note.started file.name)] := rfl

theorem audit_closing (file : File) :
    Event.audit (closing file >>= fun _ => (pure file : Run File)).events =
      [.log (Note.done file.name)] := rfl

/-- A run leaves its questions behind the record of its start, and the record of its end if it comes
to an end. -/
theorem audit_run (plugins : List Plugin) (overrides : Overrides) (file : File) :
    Event.audit (run plugins overrides file).events =
      .log (Note.started file.name) ::
        ((asked (questionsOf (overrides.plugin :: plugins) file)).flatMap Question.trace ++
          ((run plugins overrides file).outcome.value?.map fun result =>
            Event.log (Note.done result.name)).toList) := by
  have hleaves := leaves_applyAll (overrides.plugin :: plugins) file
  unfold Run.Leaves at hleaves
  rw [outcome_run, run, Run.events_bind_of_value rfl, Event.audit_append, audit_opening, ← hleaves,
    List.singleton_append]
  congr 1
  cases houtcome : (applyAll (overrides.plugin :: plugins) file).outcome
  case value result =>
      rw [Run.events_bind_of_value houtcome, Event.audit_append, audit_closing]
      rfl
  all_goals
    rw [Run.events_bind_of_none (by rw [houtcome]; rfl)]
    exact (List.append_nil _).symm

theorem succeeded_eq {α : Type} (outcome : Outcome α) :
    outcome.succeeded = outcome.value?.isSome := by
  cases outcome <;> rfl

theorem records_run (plugins : List Plugin) (overrides : Overrides) (file : File) :
    Event.records (run plugins overrides file).events =
      Note.started file.name ::
        (((asked (questionsOf (overrides.plugin :: plugins) file)).filterMap
            Question.note?).map Note.record ++
          ((run plugins overrides file).outcome.value?.map fun result =>
            Note.done result.name).toList) := by
  have hdone : Event.records ((run plugins overrides file).outcome.value?.map fun result =>
      Event.log (Note.done result.name)).toList =
        ((run plugins overrides file).outcome.value?.map fun result =>
          Note.done result.name).toList := by
    cases (run plugins overrides file).outcome.value? <;> rfl
  rw [← Event.records_audit, audit_run, ← Question.records_flatMap_trace, ← hdone,
    ← Event.records_append]
  rfl

/-- A capability without an answer gives nothing. -/
theorem given_of_not_answered {α β : Type} {capability : Option (β → Answer (Option α))} {b : β}
    (h : Plugin.ending.ofAnswer (capability.map (· b)) ≠ .value ()) :
    (capability.bind fun f => (f b).outcome.value?.join) = none := by
  cases capability with
  | none => rfl
  | some f =>
      rw [Option.map_some, Plugin.ending.ofAnswer] at h
      show (f b).outcome.value?.join = none
      cases houtcome : (f b).outcome with
      | value a => exact absurd (by rw [houtcome]; rfl) h
      | failure e => rfl
      | panic => rfl
      | hang => rfl

theorem note?_of_not_answered {question : Question} (h : ¬question.Answered) :
    question.note? = none := by
  obtain ⟨plugin, request⟩ := question
  cases request with
  | resolve name =>
      have hid : plugin.id? name = none := congrArg nonEmpty? (given_of_not_answered h)
      exact Option.map_eq_none_iff.mpr hid
  | load id =>
      have hcontent : plugin.content? id = none := congrArg nonEmpty? (given_of_not_answered h)
      exact Option.map_eq_none_iff.mpr hcontent
  | transform file =>
      have hresult : plugin.result? file = none := given_of_not_answered h
      exact Option.map_eq_none_iff.mpr hresult

/-- Nothing stands behind a question without an answer. -/
theorem trace_of_not_answered {question : Question} (h : ¬question.Answered) :
    question.trace = [.call question.plugin.name question.call] := by
  rw [Question.trace, note?_of_not_answered h]
  rfl

section

variable {plugins : List Plugin} {overrides : Overrides} {file : File}

theorem answered_of_value {result : File}
    (h : (run plugins overrides file).outcome = .value result) :
    (∀ question ∈ questionsOf (overrides.plugin :: plugins) file, question.Answered) ∧
      result = passAll (overrides.plugin :: plugins) file := by
  rw [(asks_run plugins overrides file).outcome_eq] at h
  rcases answered_or_first (questionsOf (overrides.plugin :: plugins) file) with
    hall | ⟨before, question, after, hquestions, hbefore, hquestion⟩
  · rw [ending_of_answered hall] at h
    exact ⟨hall, (Outcome.value.inj h).symm⟩
  · have hnone : (ending (before ++ question :: after)
        (passAll (overrides.plugin :: plugins) file)).value? = none :=
      value?_ending_of_not_answered hbefore hquestion _
    rw [← hquestions, h] at hnone
    cases hnone

theorem exists_of_not_succeeded (h : (run plugins overrides file).outcome.succeeded = false) :
    ∃ before question,
      asked (questionsOf (overrides.plugin :: plugins) file) = before ++ [question] ∧
        (∀ other ∈ before, other.Answered) ∧ ¬question.Answered := by
  rw [(asks_run plugins overrides file).outcome_eq] at h
  rcases answered_or_first (questionsOf (overrides.plugin :: plugins) file) with
    hall | ⟨before, question, after, hquestions, hbefore, hquestion⟩
  · rw [ending_of_answered hall] at h
    cases h
  · refine ⟨before, question, ?_, hbefore, hquestion⟩
    rw [hquestions, asked_of_not_answered hbefore hquestion]

/-- The notes of a run lead from the name of the file, and if the run has a value, to its name. -/
theorem exists_trail (plugins : List Plugin) (overrides : Overrides) (file : File) :
    ∃ last, Trail file.name ((asked (questionsOf (overrides.plugin :: plugins) file)).filterMap
        Question.note?) last ∧
      ∀ result, (run plugins overrides file).outcome = .value result → result.name = last := by
  have htrail := trail_questionsOf (overrides.plugin :: plugins) file
  by_cases hall : ∀ question ∈ questionsOf (overrides.plugin :: plugins) file, question.Answered
  · rw [asked_of_answered hall]
    exact ⟨_, htrail, fun result h => by rw [(answered_of_value h).2]⟩
  · have hfront := asked_prefix (questionsOf (overrides.plugin :: plugins) file)
    obtain ⟨last, hlast⟩ := htrail.exists_of_prefix (hfront.filterMap Question.note?)
    exact ⟨last, hlast, fun result h => absurd (answered_of_value h).1 hall⟩

end

/-- **The log of a run.**  The log starts with the name of the file.  Then come the notes that the
answers of the plugins leave, one at most for each call and right behind it; they lead from the name
of the file from name to name.  If the run has a value, all calls are answered, the last record is
that of the end, and it has the name of the value, to which the notes lead.  Otherwise nothing
stands behind the last call, which is the one without an answer. -/
theorem log_run (plugins : List Plugin) (overrides : Overrides) (file : File) :
    let questions := asked (questionsOf (overrides.plugin :: plugins) file)
    let compiled := run plugins overrides file
    ∃ last, Trail file.name (questions.filterMap Question.note?) last ∧
      Event.records compiled.events =
        Note.started file.name :: ((questions.filterMap Question.note?).map Note.record ++
          if compiled.outcome.succeeded then [Note.done last] else []) ∧
      (∀ result, compiled.outcome = .value result →
        result.name = last ∧ (∀ question ∈ questions, question.Answered) ∧
          Event.audit compiled.events = .log (Note.started file.name) ::
            (questions.flatMap Question.trace ++ [.log (Note.done last)])) ∧
      (compiled.outcome.succeeded = false →
        ∃ before question, questions = before ++ [question] ∧
          (∀ other ∈ before, other.Answered) ∧ ¬question.Answered ∧
          Event.audit compiled.events = .log (Note.started file.name) ::
            (before.flatMap Question.trace ++ [.call question.plugin.name question.call])) := by
  intro questions compiled
  obtain ⟨last, htrail, hname⟩ := exists_trail plugins overrides file
  have haudit := audit_run plugins overrides file
  refine ⟨last, htrail, ?_, fun result hresult => ⟨hname result hresult, ?_, ?_⟩, fun hfailed => ?_⟩
  · have hdone : (compiled.outcome.value?.map fun result => Note.done result.name).toList =
        if compiled.outcome.succeeded then [Note.done last] else [] := by
      cases houtcome : compiled.outcome with
      | value result => rw [← hname result houtcome]; rfl
      | failure e => rfl
      | panic => rfl
      | hang => rfl
    rw [← hdone]
    exact records_run plugins overrides file
  · intro question hquestion
    have hfront := asked_prefix (questionsOf (overrides.plugin :: plugins) file)
    exact (answered_of_value hresult).1 question (hfront.subset hquestion)
  · rw [hresult] at haudit
    rw [haudit, ← hname result hresult]
    rfl
  · obtain ⟨before, question, hasked, hbefore, hquestion⟩ := exists_of_not_succeeded hfailed
    have hnone : compiled.outcome.value? = none := by
      rwa [succeeded_eq, Option.isSome_eq_false_iff, Option.isNone_iff_eq_none] at hfailed
    refine ⟨before, question, hasked, hbefore, hquestion, ?_⟩
    rw [haudit, hasked, hnone, List.flatMap_append, List.flatMap_singleton,
      trace_of_not_answered hquestion]
    exact congrArg _ (List.append_nil _)

end Pipeline

end Assets
