import Assets.Proofs.Pipeline.Outcome

/-!
# The calls of a run

What a plugin is asked about a file follows from the plugin and the file alone, as long as it
answers: `Plugin.questions` lists it, and `Plugin.pass` is the file that the next plugin meets.  So
the questions of a whole chain can be written down without running it (`questionsOf`), and a run
asks them in order, up to the first one that is not answered (`asked`).

`Run.Asks` ties this to the chain: a run makes the calls of some questions, as far as they are
answered, and has a given value if all of them are.  It is closed under going on (`Asks.bind`), and
one lemma a function leads from `call` to `run`.

* `calls_run`: the calls of a run are the questions of its chain.
* `failure_run`: a run fails exactly if a call of it fails.  That call is its last one, and the
  error names the plugin, the capability and the id of that call.

In a run every capability of every plugin is called once at most.  It is no restriction, then, that
an answer is a function of the call alone: what a capability knows of earlier runs, or of the calls
before it, is part of that function.
-/

namespace Assets

/-! ## Questions and answers -/

/-- A call, with the plugin that it is addressed to. -/
structure Question where
  plugin : Plugin
  call : Call

namespace Plugin

/-- Whether the plugin has the capability for a step. -/
def can (plugin : Plugin) : Step → Bool
  | .resolve => plugin.resolver.isSome
  | .load => plugin.loader.isSome
  | .transform => plugin.transformer.isSome

/-- How the plugin ends a call; there is no call of a capability that it does not have. -/
def ending (plugin : Plugin) : Call → Outcome Unit
  | .resolve id => ofAnswer (plugin.resolver.map (· id))
  | .load id => ofAnswer (plugin.loader.map (· id))
  | .transform file => ofAnswer (plugin.transformer.map (· file))
where
  ofAnswer {α : Type} : Option (Answer α) → Outcome Unit
    | some answer => answer.outcome.map (fun _ => ()) fun e => e
    | none => .value ()

/-- The id under which the plugin takes the files of a name, if it takes them. -/
def id? (plugin : Plugin) (name : String) : Option String :=
  nonEmpty? (plugin.resolver.bind fun resolver => (resolver name).outcome.value?.join)

/-- The content that the plugin loads for an id, if it loads any. -/
def content? (plugin : Plugin) (id : String) : Option String :=
  nonEmpty? (plugin.loader.bind fun loader => (loader id).outcome.value?.join)

/-- A file that the plugin has taken under an id: with the loaded content, or else with its own. -/
def taken (plugin : Plugin) (id : String) (file : File) : File :=
  ⟨id, (plugin.content? id).getD file.content⟩

/-- What the plugin makes of a file that it has taken. -/
def made (plugin : Plugin) (file : File) : File :=
  (plugin.transformer.bind fun transformer => (transformer file).outcome.value?.join).getD file

/-- A call, if the plugin has the capability for it. -/
def ask (plugin : Plugin) (call : Call) : List Question :=
  if plugin.can call.step then [⟨plugin, call⟩] else []

theorem ask_of_can {plugin : Plugin} {call : Call} (h : plugin.can call.step = true) :
    plugin.ask call = [⟨plugin, call⟩] := if_pos h

theorem ask_of_not_can {plugin : Plugin} {call : Call} (h : plugin.can call.step = false) :
    plugin.ask call = [] := if_neg (by simp [h])

/-- What the plugin is asked about a file, in order, if it answers. -/
def questions (plugin : Plugin) (file : File) : List Question :=
  plugin.ask (.resolve file.name) ++
    match plugin.id? file.name with
    | none => []
    | some id => plugin.ask (.load id) ++ plugin.ask (.transform (plugin.taken id file))

/-- The file that the plugin leaves, if it answers. -/
def pass (plugin : Plugin) (file : File) : File :=
  match plugin.id? file.name with
  | none => file
  | some id => plugin.made (plugin.taken id file)

end Plugin

namespace Question

/-- What a run shows of a question. -/
def entry (question : Question) : String × Call := (question.plugin.name, question.call)

def ending (question : Question) : Outcome Unit := question.plugin.ending question.call

def Answered (question : Question) : Prop := question.ending = .value ()

instance (question : Question) : Decidable question.Answered :=
  inferInstanceAs (Decidable (question.ending = .value ()))

/-- The error with which a run reports that a question failed. -/
def failure (question : Question) (source : Failure) : Failure :=
  .plugin question.plugin.name question.call.step question.call.id source

end Question

namespace Pipeline

/-- The plugins of a chain with the files that they meet, each as the plugins before leave it. -/
def meetings : List Plugin → File → List (Plugin × File)
  | [], _ => []
  | plugin :: plugins, file => (plugin, file) :: meetings plugins (plugin.pass file)

/-- What the plugins of a chain are asked about a file, in order, if they answer. -/
def questionsOf (plugins : List Plugin) (file : File) : List Question :=
  (meetings plugins file).flatMap fun meeting => meeting.1.questions meeting.2

theorem questionsOf_cons (plugin : Plugin) (plugins : List Plugin) (file : File) :
    questionsOf (plugin :: plugins) file =
      plugin.questions file ++ questionsOf plugins (plugin.pass file) := rfl

/-- The file that a chain leaves, if its plugins answer. -/
def passAll (plugins : List Plugin) (file : File) : File :=
  plugins.foldl (fun file plugin => plugin.pass file) file

/-- The questions that are asked: none after one without an answer. -/
def asked : List Question → List Question
  | [] => []
  | question :: questions => question :: if question.Answered then asked questions else []

/-- How a run ends that asks questions and has a value at the end. -/
def ending {α : Type} : List Question → α → Outcome α
  | [], a => .value a
  | question :: questions, a =>
    (question.ending.map (fun u => u) question.failure).bind fun _ => ending questions a

/-! ## The questions that are asked -/

section Asked

variable {α β : Type} {questions more before : List Question} {question : Question}

theorem asked_append (h : ∀ question ∈ questions, question.Answered) (more : List Question) :
    asked (questions ++ more) = questions ++ asked more := by
  induction questions with
  | nil => rfl
  | cons question questions ih =>
      rw [List.forall_mem_cons] at h
      simp [asked, h.1, ih h.2]

theorem asked_of_answered (h : ∀ question ∈ questions, question.Answered) :
    asked questions = questions := by
  simpa [asked] using asked_append h []

/-- Nothing is asked behind a question without an answer. -/
theorem asked_of_not_answered (h : ∀ question ∈ before, question.Answered)
    (hquestion : ¬question.Answered) :
    asked (before ++ question :: more) = before ++ [question] := by
  rw [asked_append h, asked, if_neg hquestion]

theorem asked_prefix (questions : List Question) : asked questions <+: questions := by
  induction questions with
  | nil => exact List.nil_prefix
  | cons question questions ih =>
      rw [asked, List.prefix_cons_inj]
      split
      · exact ih
      · exact List.nil_prefix

/-- All questions that are asked but the last one are answered. -/
theorem answered_of_asked (h : asked questions = before ++ question :: more) :
    (∀ other ∈ before, other.Answered) ∧ (¬question.Answered → more = []) := by
  induction questions generalizing before with
  | nil => simp [asked] at h
  | cons first questions ih =>
      rw [asked] at h
      cases before with
      | nil =>
          obtain ⟨rfl, hmore⟩ := List.cons.inj h
          refine ⟨by simp, fun hfirst => ?_⟩
          rw [if_neg hfirst] at hmore
          exact hmore.symm
      | cons other before =>
          obtain ⟨rfl, hmore⟩ := List.cons.inj h
          split at hmore
          · next hfirst =>
              obtain ⟨hbefore, hlast⟩ := ih hmore
              exact ⟨List.forall_mem_cons.mpr ⟨hfirst, hbefore⟩, hlast⟩
          · simp at hmore

theorem ending_append (questions more : List Question) (a : α) (b : β) :
    ending (questions ++ more) b = (ending questions a).bind fun _ => ending more b := by
  induction questions with
  | nil => rfl
  | cons question questions ih => simp only [List.cons_append, ending, ih, Outcome.bind_assoc]

/-- The only value with which questions can end is the one that they lead to. -/
theorem ending_bind (questions : List Question) (a : α) (next : α → Outcome β) :
    (ending questions a).bind next = (ending questions a).bind fun _ => next a := by
  induction questions with
  | nil => rfl
  | cons question questions ih => simp only [ending, Outcome.bind_assoc, ih]

theorem ending_of_answered (h : ∀ question ∈ questions, question.Answered) (a : α) :
    ending questions a = .value a := by
  induction questions with
  | nil => rfl
  | cons question questions ih =>
      rw [List.forall_mem_cons] at h
      have hvalue : question.ending = .value () := h.1
      rw [ending, hvalue]
      exact ih h.2

/-- Questions end as the first one does that has no answer. -/
theorem ending_append_cons (h : ∀ question ∈ before, question.Answered) (a : α) :
    ending (before ++ question :: more) a =
      (question.ending.map (fun u => u) question.failure).bind fun _ => ending more a := by
  rw [ending_append before (question :: more) a a, ending_of_answered h]
  rfl

theorem value?_ending_of_not_answered (h : ∀ question ∈ before, question.Answered)
    (hquestion : ¬question.Answered) (a : α) :
    (ending (before ++ question :: more) a).value? = none := by
  rw [ending_append_cons h]
  cases hending : question.ending with
  | value u => exact absurd hending hquestion
  | failure e => rfl
  | panic => rfl
  | hang => rfl

/-- Either all questions are answered, or there is a first one among them that is not. -/
theorem answered_or_first (questions : List Question) :
    (∀ question ∈ questions, question.Answered) ∨
      ∃ before question after, questions = before ++ question :: after ∧
        (∀ other ∈ before, other.Answered) ∧ ¬question.Answered := by
  induction questions with
  | nil => exact .inl (by simp)
  | cons question questions ih =>
      by_cases hquestion : question.Answered
      · rcases ih with hall | ⟨before, first, after, rfl, hbefore, hfirst⟩
        · exact .inl (List.forall_mem_cons.mpr ⟨hquestion, hall⟩)
        · exact .inr ⟨question :: before, first, after, rfl,
            List.forall_mem_cons.mpr ⟨hquestion, hbefore⟩, hfirst⟩
      · exact .inr ⟨[], question, questions, rfl, by simp, hquestion⟩

/-- An error is that of the last question that is asked, and the questions before are answered. -/
theorem ending_eq_failure_iff {a : α} {e : Failure} :
    ending questions a = .failure e ↔
      ∃ before last source, asked questions = before ++ [last] ∧
        (∀ question ∈ before, question.Answered) ∧ last.ending = .failure source ∧
          e = last.failure source := by
  rcases answered_or_first questions with
    hall | ⟨before, first, after, rfl, hbefore, hfirst⟩
  · rw [ending_of_answered hall, asked_of_answered hall]
    constructor
    · rintro ⟨⟩
    · rintro ⟨before, last, source, rfl, -, hlast, -⟩
      have hanswered : last.ending = .value () := hall last (by simp)
      rw [hanswered] at hlast
      cases hlast
  · rw [ending_append_cons hbefore, asked_of_not_answered hbefore hfirst]
    constructor
    · intro h
      cases hending : first.ending with
      | value u => exact absurd hending hfirst
      | failure source =>
          rw [hending] at h
          cases h
          exact ⟨before, first, source, rfl, hbefore, hending, rfl⟩
      | panic => simp [hending, Outcome.map] at h
      | hang => simp [hending, Outcome.map] at h
    · rintro ⟨others, last, source, heq, -, hlast, rfl⟩
      obtain ⟨-, rfl⟩ := List.append_singleton_inj.mp heq
      rw [hlast]
      rfl

/-- Some question that is asked fails exactly if there is an error at the end. -/
theorem exists_ending_eq_failure_iff {a : α} :
    (∃ e, ending questions a = .failure e) ↔
      ∃ question ∈ asked questions, ∃ source, question.ending = .failure source := by
  constructor
  · rintro ⟨e, he⟩
    obtain ⟨before, last, source, hasked, -, hlast, -⟩ := ending_eq_failure_iff.mp he
    exact ⟨last, by simp [hasked], source, hlast⟩
  · rintro ⟨question, hquestion, source, hsource⟩
    obtain ⟨before, after, hasked⟩ := List.append_of_mem hquestion
    obtain ⟨hbefore, hafter⟩ := answered_of_asked hasked
    have hlast : after = [] := hafter (by simp [Question.Answered, hsource])
    subst hlast
    exact ⟨_, ending_eq_failure_iff.mpr ⟨before, question, source, hasked, hbefore, hsource, rfl⟩⟩

end Asked

end Pipeline

/-! ## Runs that ask questions -/

@[simp] theorem Event.calls_append (events more : List Event) :
    calls (events ++ more) = calls events ++ calls more :=
  List.filterMap_append

namespace Run

open Pipeline

variable {α β : Type}

theorem events_bind_of_value {run : Run α} {a : α} (h : run.outcome = .value a)
    (next : α → Run β) : (run >>= next).events = run.events ++ (next a).events := by
  rw [bind_def, andThen, h]

theorem events_bind_of_none {run : Run α} (h : run.outcome.value? = none) (next : α → Run β) :
    (run >>= next).events = run.events := by
  rcases run with ⟨events, a | _ | _ | _⟩
  case value => simp at h
  all_goals rfl

/-- What a run shows of its questions, it shows of those that are asked. -/
theorem shown_bind {γ : Type} {shown : List Event → List γ} {told : List Question → List γ}
    (hshown : ∀ events more, shown (events ++ more) = shown events ++ shown more)
    (htold : ∀ questions more, told (questions ++ more) = told questions ++ told more)
    {run : Run α} {next : α → Run β} {questions more : List Question} {a : α}
    (houtcome : run.outcome = ending questions a)
    (hrun : shown run.events = told (asked questions))
    (hnext : shown (next a).events = told (asked more)) :
    shown (run >>= next).events = told (asked (questions ++ more)) := by
  rcases answered_or_first questions with
    hall | ⟨before, question, after, rfl, hbefore, hquestion⟩
  · have hvalue : run.outcome = .value a := by rw [houtcome, ending_of_answered hall]
    rw [events_bind_of_value hvalue, hshown, hrun, hnext, asked_append hall,
      asked_of_answered hall, htold]
  · -- the second part is never reached
    have hnone : run.outcome.value? = none := by
      rw [houtcome, value?_ending_of_not_answered hbefore hquestion]
    rw [events_bind_of_none hnone, hrun, List.append_assoc, List.cons_append,
      asked_of_not_answered hbefore hquestion, asked_of_not_answered hbefore hquestion]

/-- The run asks questions in order, and has a value if all of them are answered. -/
structure Asks (run : Run α) (questions : List Question) (a : α) : Prop where
  calls_eq : Event.calls run.events = (asked questions).map Question.entry
  outcome_eq : run.outcome = ending questions a

theorem Asks.pure (a : α) : (pure a : Run α).Asks [] a := ⟨rfl, rfl⟩

theorem Asks.log (scope tag message : String) : (log scope tag message).Asks [] () := ⟨rfl, rfl⟩

theorem Asks.report (diagnostic : Diagnostic) : (emit (.report diagnostic)).Asks [] () :=
  ⟨rfl, rfl⟩

theorem Asks.bind {run : Run α} {next : α → Run β} {questions more : List Question} {a : α}
    {b : β} (hrun : run.Asks questions a) (hnext : (next a).Asks more b) :
    (run >>= next).Asks (questions ++ more) b where
  calls_eq :=
    shown_bind Event.calls_append (fun _ _ => List.map_append) hrun.outcome_eq hrun.calls_eq
      hnext.calls_eq
  outcome_eq := by
    rw [outcome_bind, hrun.outcome_eq, ending_bind, hnext.outcome_eq,
      ending_append questions more a]

end Run

namespace Pipeline

/-! ## From a call to the chain -/

theorem calls_call {α : Type} (plugin : String) (request : Call) (answer : Answer α) :
    Event.calls (call plugin request answer).events = [(plugin, request)] := by
  simp [Event.calls, call]

/-- A call asks its question, and whoever goes on from its answer asks more. -/
theorem asks_call_bind {α β : Type} {plugin : Plugin} {request : Call} {answer : Answer α}
    {next : α → Run β} {more : List Question} {b : β}
    (hending : plugin.ending request = answer.outcome.map (fun _ => ()) fun e => e)
    (hnext : ∀ a, answer.outcome = .value a → (next a).Asks more b) :
    (call plugin.name request answer >>= next).Asks (⟨plugin, request⟩ :: more) b := by
  have houtcome := outcome_call plugin.name request answer
  cases hanswer : answer.outcome
  case value a =>
      rw [hanswer] at hending houtcome
      have hanswered : (⟨plugin, request⟩ : Question).Answered := hending
      have hasks := hnext a hanswer
      refine ⟨?_, ?_⟩
      · rw [Run.events_bind_of_value houtcome, Event.calls_append, calls_call, hasks.calls_eq,
          asked, if_pos hanswered]
        rfl
      · rw [Run.outcome_bind, houtcome, ending, Question.ending, hending]
        exact hasks.outcome_eq
  -- whatever else the answer is, it is the end of the run
  all_goals
    rw [hanswer] at hending houtcome
    have hnot : ¬(⟨plugin, request⟩ : Question).Answered := by
      simp [Question.Answered, Question.ending, hending, Outcome.map]
    refine ⟨?_, ?_⟩
    · rw [Run.events_bind_of_none (by rw [houtcome]; rfl), calls_call, asked, if_neg hnot]
      rfl
    · rw [Run.outcome_bind, houtcome, ending, Question.ending, hending]
      rfl

theorem asks_resolve (plugin : Plugin) (file : File) :
    (resolve plugin file).Asks (plugin.ask (.resolve file.name)) (plugin.id? file.name) := by
  unfold resolve
  cases hresolver : plugin.resolver with
  | none =>
      have hid : plugin.id? file.name = none := by simp [Plugin.id?, nonEmpty?, hresolver]
      rw [Plugin.ask_of_not_can (by simp [Plugin.can, Call.step, hresolver]), hid]
      exact .pure none
  | some resolver =>
      rw [Plugin.ask_of_can (by simp [Plugin.can, Call.step, hresolver])]
      refine asks_call_bind (by simp [Plugin.ending, Plugin.ending.ofAnswer, hresolver])
        fun answer hanswer => ?_
      have hid : plugin.id? file.name = nonEmpty? answer := by
        simp [Plugin.id?, hresolver, hanswer]
      rw [hid]
      cases nonEmpty? answer with
      | none => exact .pure none
      | some id => exact .bind (.log _ _ _) (.pure _)

theorem asks_load (plugin : Plugin) (id : String) :
    (load plugin id).Asks (plugin.ask (.load id)) (plugin.content? id) := by
  unfold load
  cases hloader : plugin.loader with
  | none =>
      have hcontent : plugin.content? id = none := by simp [Plugin.content?, nonEmpty?, hloader]
      rw [Plugin.ask_of_not_can (by simp [Plugin.can, Call.step, hloader]), hcontent]
      exact .pure none
  | some loader =>
      rw [Plugin.ask_of_can (by simp [Plugin.can, Call.step, hloader])]
      refine asks_call_bind (by simp [Plugin.ending, Plugin.ending.ofAnswer, hloader])
        fun answer hanswer => ?_
      have hcontent : plugin.content? id = nonEmpty? answer := by
        simp [Plugin.content?, hloader, hanswer]
      rw [hcontent]
      cases nonEmpty? answer with
      | none => exact .pure none
      | some content => exact .bind (.log _ _ _) (.pure _)

theorem asks_transform (plugin : Plugin) (file : File) :
    (transform plugin file).Asks (plugin.ask (.transform file)) (plugin.made file) := by
  unfold transform
  cases htransformer : plugin.transformer with
  | none =>
      have hmade : plugin.made file = file := by simp [Plugin.made, htransformer]
      rw [Plugin.ask_of_not_can (by simp [Plugin.can, Call.step, htransformer]), hmade]
      exact .pure file
  | some transformer =>
      rw [Plugin.ask_of_can (by simp [Plugin.can, Call.step, htransformer])]
      refine asks_call_bind (by simp [Plugin.ending, Plugin.ending.ofAnswer, htransformer])
        fun answer hanswer => ?_
      have hmade : plugin.made file = answer.getD file := by
        simp [Plugin.made, htransformer, hanswer]
      rw [hmade]
      cases answer with
      | none => exact .pure file
      | some result => exact .bind (.log _ _ _) (.pure _)

theorem asks_apply (plugin : Plugin) (file : File) :
    (apply plugin file).Asks (plugin.questions file) (plugin.pass file) := by
  refine .bind (asks_resolve plugin file) ?_
  unfold Plugin.pass
  cases plugin.id? file.name with
  | none => exact .pure file
  | some id => exact .bind (asks_load plugin id) (asks_transform plugin _)

theorem asks_applyAll (plugins : List Plugin) (file : File) :
    (applyAll plugins file).Asks (questionsOf plugins file) (passAll plugins file) := by
  induction plugins generalizing file with
  | nil => exact .pure file
  | cons plugin plugins ih => exact .bind (asks_apply plugin file) (ih (plugin.pass file))

theorem asks_opening (file : File) : (opening file).Asks [] () :=
  .bind (.log _ _ _) (.report _)

theorem asks_closing (result : File) : (closing result).Asks [] () :=
  .bind (.log _ _ _) (.report _)

/-- A run asks the questions of its chain. -/
theorem asks_run (plugins : List Plugin) (overrides : Overrides) (file : File) :
    (run plugins overrides file).Asks (questionsOf (overrides.plugin :: plugins) file)
      (passAll (overrides.plugin :: plugins) file) := by
  have h : (run plugins overrides file).Asks
      ([] ++ (questionsOf (overrides.plugin :: plugins) file ++ ([] ++ [])))
      (passAll (overrides.plugin :: plugins) file) :=
    .bind (asks_opening file) (.bind (asks_applyAll _ file) (.bind (asks_closing _) (.pure _)))
  simpa using h

/-! ## Where a question comes from -/

/-- The plugin at a place in the chain meets the file that the plugins before it leave. -/
theorem getElem?_meetings (plugins : List Plugin) (file : File) (i : Nat) :
    (meetings plugins file)[i]? =
      plugins[i]?.map fun plugin => (plugin, passAll (plugins.take i) file) := by
  induction plugins generalizing file i with
  | nil => rfl
  | cons plugin plugins ih =>
      cases i with
      | zero => rfl
      | succ i => exact ih (plugin.pass file) i

theorem map_fst_meetings (plugins : List Plugin) (file : File) :
    (meetings plugins file).map Prod.fst = plugins := by
  induction plugins generalizing file with
  | nil => rfl
  | cons plugin plugins ih => simp [meetings, ih]

/-- A chain that answers every question leaves a file. -/
theorem outcome_applyAll_of_answered {plugins : List Plugin} {file : File}
    (h : ∀ question ∈ questionsOf plugins file, question.Answered) :
    (applyAll plugins file).outcome = .value (passAll plugins file) := by
  rw [(asks_applyAll plugins file).outcome_eq, ending_of_answered h]

theorem steps_ask (plugin : Plugin) (call : Call) :
    ((plugin.ask call).map fun question => question.call.step).Sublist [call.step] := by
  cases h : plugin.can call.step with
  | true => simp [Plugin.ask_of_can h]
  | false => simp [Plugin.ask_of_not_can h]

/-- A plugin is asked for each of its capabilities once at most, in the order of the steps. -/
theorem steps_questions (plugin : Plugin) (file : File) :
    ((plugin.questions file).map fun question => question.call.step).Sublist
      [.resolve, .load, .transform] := by
  rw [Plugin.questions, List.map_append]
  show List.Sublist _ ([Step.resolve] ++ ([Step.load] ++ [Step.transform]))
  refine (steps_ask plugin (.resolve file.name)).append ?_
  cases plugin.id? file.name with
  | none => exact List.nil_sublist _
  | some id =>
      rw [List.map_append]
      exact (steps_ask plugin (.load id)).append (steps_ask plugin (.transform _))

theorem id?_ne_empty {plugin : Plugin} {name id : String} (h : plugin.id? name = some id) :
    id ≠ "" := by
  rintro rfl
  unfold Plugin.id? nonEmpty? at h
  split at h
  · split at h
    · cases h
    · rename_i hne
      cases h
      exact hne rfl
  · cases h

theorem eq_of_mem_ask {plugin : Plugin} {call : Call} {question : Question}
    (h : question ∈ plugin.ask call) : question = ⟨plugin, call⟩ := by
  cases hcan : plugin.can call.step with
  | true => simpa [Plugin.ask_of_can hcan] using h
  | false => simp [Plugin.ask_of_not_can hcan] at h

/-- A plugin is asked for the name of the file, or else for the id under which it takes the file. -/
theorem of_mem_questions {plugin : Plugin} {file : File} {question : Question}
    (h : question ∈ plugin.questions file) :
    question.plugin = plugin ∧ (question.call = .resolve file.name ∨
      question.call.step ≠ .resolve ∧ plugin.id? file.name = some question.call.id) := by
  rcases List.mem_append.mp h with hresolve | hmore
  · rw [eq_of_mem_ask hresolve]
    exact ⟨rfl, .inl rfl⟩
  · cases hid : plugin.id? file.name with
    | none => simp [hid] at hmore
    | some id =>
        rw [hid] at hmore
        rcases List.mem_append.mp hmore with hload | htransform
        · rw [eq_of_mem_ask hload]
          exact ⟨rfl, .inr ⟨by simp [Call.step], rfl⟩⟩
        · rw [eq_of_mem_ask htransform]
          exact ⟨rfl, .inr ⟨by simp [Call.step], rfl⟩⟩

/-- A question to a chain is one to a plugin of it about the file that this plugin meets, and every
question to the plugins before comes before it. -/
theorem exists_meeting {plugins : List Plugin} {file : File} {before after : List Question}
    {question : Question} (h : questionsOf plugins file = before ++ question :: after) :
    ∃ passed plugin left, plugins = passed ++ plugin :: left ∧
      question ∈ plugin.questions (passAll passed file) ∧
        ∀ other ∈ questionsOf passed file, other ∈ before := by
  induction plugins generalizing file before with
  | nil => simp [questionsOf, meetings] at h
  | cons plugin plugins ih =>
      rw [questionsOf_cons] at h
      rcases List.append_eq_append_iff.mp h with ⟨more, rfl, hmore⟩ | ⟨rest, hrest, hafter⟩
      · -- the plugin is passed
        obtain ⟨passed, later, left, rfl, hmem, hbefore⟩ := ih hmore
        refine ⟨plugin :: passed, later, left, rfl, hmem, fun other hother => ?_⟩
        rw [questionsOf_cons, List.mem_append] at hother
        exact List.mem_append.mpr (hother.imp_right (hbefore other))
      · cases rest with
        | nil =>
            -- it is passed as well, and the question is the first one behind it
            have hfirst : questionsOf plugins (plugin.pass file) = [] ++ question :: after :=
              hafter.symm
            obtain ⟨passed, later, left, rfl, hmem, hbefore⟩ := ih hfirst
            refine ⟨plugin :: passed, later, left, rfl, hmem, fun other hother => ?_⟩
            rw [questionsOf_cons, hrest, List.append_nil, List.mem_append] at hother
            exact hother.resolve_right fun hlater => by simpa using hbefore other hlater
        | cons first rest =>
            cases hafter
            refine ⟨[], plugin, plugins, rfl, ?_, by simp [questionsOf, meetings]⟩
            show question ∈ plugin.questions file
            simp [hrest]

/-- A question that is asked is one about the file as the plugins before leave it.  It is about the
name of this file, or else about the id under which the plugin takes the file. -/
theorem exists_current_of_asked {plugins : List Plugin} {file : File}
    {before after : List Question} {question : Question}
    (h : asked (questionsOf plugins file) = before ++ question :: after) :
    ∃ passed left current, plugins = passed ++ question.plugin :: left ∧
      (applyAll passed file).outcome = .value current ∧
      (question.call = .resolve current.name ∨
        question.call.step ≠ .resolve ∧
          question.plugin.id? current.name = some question.call.id ∧ question.call.id ≠ "") := by
  obtain ⟨hbefore, -⟩ := answered_of_asked h
  obtain ⟨rest, hquestions⟩ := asked_prefix (questionsOf plugins file)
  rw [h, List.append_assoc, List.cons_append] at hquestions
  obtain ⟨passed, plugin, left, hplugins, hmem, hpassed⟩ := exists_meeting hquestions.symm
  obtain ⟨rfl, hcall⟩ := of_mem_questions hmem
  refine ⟨passed, left, passAll passed file, hplugins, ?_, ?_⟩
  · exact outcome_applyAll_of_answered fun other hother => hbefore other (hpassed other hother)
  · exact hcall.imp_right fun ⟨hstep, hid⟩ => ⟨hstep, hid, id?_ne_empty hid⟩

/-- **The calls of a run.**  A run makes the calls of the questions of its chain, as far as they
are answered.  The chain is the overrides and the registered plugins, in order; each of them meets
the file that those before it leave, and is called once at most for each of its capabilities. -/
theorem calls_run (plugins : List Plugin) (overrides : Overrides) (file : File) :
    let chain := overrides.plugin :: plugins
    Event.calls (run plugins overrides file).events =
        (asked (questionsOf chain file)).map Question.entry ∧
      (meetings chain file).map Prod.fst = chain ∧
      (∀ (i : Nat) (plugin : Plugin) (current : File),
        (meetings chain file)[i]? = some (plugin, current) →
          (∀ question ∈ questionsOf (chain.take i) file, question.Answered) →
            (applyAll (chain.take i) file).outcome = .value current) ∧
      (∀ meeting ∈ meetings chain file,
        ((meeting.1.questions meeting.2).map fun question => question.call.step).Sublist
          [.resolve, .load, .transform]) ∧
      ∀ before question after, asked (questionsOf chain file) = before ++ question :: after →
        ¬question.Answered → after = [] := by
  intro chain
  refine ⟨(asks_run plugins overrides file).calls_eq, map_fst_meetings chain file, ?_, ?_, ?_⟩
  · intro i plugin current hmeeting hanswered
    rw [getElem?_meetings] at hmeeting
    obtain ⟨_, -, rfl, rfl⟩ := Option.map_eq_some_iff.mp hmeeting
    exact outcome_applyAll_of_answered hanswered
  · exact fun meeting _ => steps_questions meeting.1 meeting.2
  · exact fun before question after hasked => (answered_of_asked hasked).2

/-- **The error of a run.**  A run fails if and only if a call of it fails.  That call is the last
one, and all calls before it are answered.  The error names the plugin that is called, the
capability and the id of the call, and carries the error of the plugin as it is.  The id is the name
of the file as the plugin meets it, or else the one under which the plugin takes the file. -/
theorem failure_run (plugins : List Plugin) (overrides : Overrides) (file : File) :
    let chain := overrides.plugin :: plugins
    let questions := asked (questionsOf chain file)
    Event.calls (run plugins overrides file).events = questions.map Question.entry ∧
      ((∃ e, (run plugins overrides file).outcome = .failure e) ↔
        ∃ question ∈ questions, ∃ source, question.ending = .failure source) ∧
      ∀ e, (run plugins overrides file).outcome = .failure e →
        ∃ before last source, questions = before ++ [last] ∧
          (∀ question ∈ before, question.Answered) ∧ last.ending = .failure source ∧
          e = .plugin last.plugin.name last.call.step last.call.id source ∧
          ∃ passed left current, chain = passed ++ last.plugin :: left ∧
            (applyAll passed file).outcome = .value current ∧
            (last.call = .resolve current.name ∨
              last.call.step ≠ .resolve ∧ last.plugin.id? current.name = some last.call.id ∧
                last.call.id ≠ "") := by
  intro chain questions
  have hasks := asks_run plugins overrides file
  refine ⟨hasks.calls_eq, ?_, ?_⟩
  · rw [hasks.outcome_eq]
    exact exists_ending_eq_failure_iff
  · intro e he
    rw [hasks.outcome_eq] at he
    obtain ⟨before, last, source, hasked, hbefore, hlast, rfl⟩ := ending_eq_failure_iff.mp he
    exact ⟨before, last, source, hasked, hbefore, hlast, rfl, exists_current_of_asked hasked⟩

end Pipeline

end Assets
