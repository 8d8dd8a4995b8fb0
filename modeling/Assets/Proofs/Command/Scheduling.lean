import Assets.Proofs.Batch.Canonical
import Assets.Proofs.Command.Ending
import Assets.Program

/-!
# Compilations under any schedule

A compilation runs a batch, and what the batch hands over, and what it says on the way, depends on
the order in which its tasks complete.  The commands fix one such order, that of the waits that the
plugins ask for.  Here they are taken under a `Scheduler`, which may choose the tasks of a batch
freely as long as they come to what their files come to.  Any order of completion occurs
(`Scheduler.exists_completionOrder`), and the commands themselves are the case `Scheduler.own`
(`compileUnder_own`).

A compilation runs its batch and then hands over what the batch has come to.  The schedule matters
in the first part only (`ends_runBatch_iff`), and the second part knows nothing of it
(`ends_handOver_iff`).
-/

namespace Assets

/-! ## Schedulers -/

/-- Chooses the tasks of a batch: how long they take and what they say, but not what they come
to. -/
structure Batch.Scheduler where
  tasks : List Plugin → Overrides → FileSet → List (Run File)
  outcomes (plugins : List Plugin) (overrides : Overrides) (files : FileSet) :
    (tasks plugins overrides files).map Run.outcome = Batch.fileOutcomes plugins overrides files

namespace Batch.Scheduler

variable {plugins : List Plugin} {overrides : Overrides} {files : FileSet}

/-- Every task takes as long as its plugins wait. -/
def own : Scheduler where
  tasks plugins overrides files := files.map (Pipeline.run plugins overrides)
  outcomes := map_outcome_run

/-- Tasks take as long as their places in an order say. -/
def ofOrder (order : List Nat) : Scheduler where
  tasks plugins overrides files := staggered (fileOutcomes plugins overrides files) order
  outcomes _ _ _ := map_outcome_staggered _ order

/-- Every order of completion is that of some scheduler. -/
theorem exists_completionOrder {order : List Nat}
    (hends : ∀ outcome ∈ fileOutcomes plugins overrides files, outcome ≠ .hang)
    (horder : order.Perm (List.range files.length)) :
    ∃ scheduler : Scheduler, CompletionOrder (scheduler.tasks plugins overrides files) order :=
  ⟨ofOrder order, completionOrder_staggered_of_perm hends (by simpa [fileOutcomes] using horder)⟩

/-- What a batch under a scheduler comes to, if it comes to files. -/
def Compiles (scheduler : Scheduler) (plugins : List Plugin) (overrides : Overrides)
    (files compiled : FileSet) : Prop :=
  (ofRuns (scheduler.tasks plugins overrides files)).outcome = .value compiled

variable {scheduler : Scheduler} {compiled reordered : FileSet}

theorem Compiles.unique {other : FileSet} (h : scheduler.Compiles plugins overrides files compiled)
    (h' : scheduler.Compiles plugins overrides files other) : compiled = other :=
  Outcome.value.inj (h.symm.trans h')

/-- A batch comes to the results of its files, each once. -/
theorem Compiles.perm (h : scheduler.Compiles plugins overrides files compiled) :
    (compiled.map .value).Perm (fileOutcomes plugins overrides files) :=
  perm_fileOutcomes (scheduler.outcomes ..) h

/-- Whether a batch comes to files depends neither on the scheduler nor on the order in which its
files are given, and nor do the files, but for their order. -/
theorem Compiles.exists_perm (h : scheduler.Compiles plugins overrides files compiled)
    (hfiles : files.Perm reordered) (other : Scheduler) :
    ∃ recompiled, other.Compiles plugins overrides reordered recompiled ∧
      recompiled.Perm compiled :=
  exists_outcome_perm (other.outcomes ..) (h.perm.trans (hfiles.map _))

end Batch.Scheduler

namespace Command

open Batch (Scheduler)

variable {scheduler : Scheduler} {userDirectory config : Option Path} {input : Path}
  {target : Target} {hidden : Bool} {console after : Console}

/-! ## Compilations -/

/-- The first part of a compilation: the batch is run. -/
def runBatch (scheduler : Scheduler) (userDirectory : Option Path) (input : Path)
    (config : Option Path) (hidden : Bool) : Command Compilation := do
  let (remarks, config) := Config.locate (← disk) userDirectory config
  reportAll remarks
  let config ← settle config
  let overrides ← settleFailure none ((config.overridesOn (← disk)).mapError .config)
  let plugins := config.standardPlugins
  report (registeredPlugins plugins)
  let source ← source input hidden
  status .info ("Compiling " ++ summary source)
  let compilation := Batch.ofRuns (scheduler.tasks plugins overrides source.files)
  reportAll (Event.diagnostics compilation.events)
  return compilation

/-- The last part: what the batch has come to is handed over. -/
def handOver (input : Path) (target : Target) (outcome : Outcome FileSet) : Command Unit := do
  let archive := Archive.ofFiles (← compiledFiles input outcome)
  deliver archive target
  status .success ("Compiled " ++ summary archive)

/-- A compilation whose batch runs under a scheduler. -/
def compileUnder (scheduler : Scheduler) (userDirectory : Option Path) (input : Path)
    (target : Target) (config : Option Path) (hidden : Bool) : Command Unit := do
  let compilation ← runBatch scheduler userDirectory input config hidden
  handOver input target compilation.outcome

theorem compileUnder_own :
    compileUnder .own userDirectory input target config hidden =
      compile userDirectory input target config hidden := by
  simp only [compileUnder, runBatch, bind_assoc, pure_bind]
  rfl

/-- What a batch of a compilation is made of: the configuration, the overrides of that, and the
files of the input. -/
structure Prepares (disk : Disk) (userDirectory config : Option Path) (input : Path)
    (hidden : Bool) (settings : Config) (overrides : Overrides) (archive : Archive) : Prop where
  located : (Config.locate disk userDirectory config).2 = .ok settings
  overridden : settings.overridesOn disk = .ok overrides
  source : SourceOf disk input hidden archive

/-- What has been said when the batch is over. -/
def batchNotices (disk : Disk) (userDirectory config : Option Path) (input : Path) (hidden : Bool)
    (settings : Config) (archive : Archive) (compilation : Compilation) : List Notice :=
  (Config.locate disk userDirectory config).1.map .diagnostic ++
    [.diagnostic (registeredPlugins settings.standardPlugins)] ++
    sourceNotices disk input hidden ++ [.status .info ("Compiling " ++ summary archive)] ++
    (Event.diagnostics compilation.events).map .diagnostic

theorem ends_runBatch_iff {compilation : Compilation} :
    (runBatch scheduler userDirectory input config hidden).Ends console compilation after ↔
      ∃ settings overrides archive,
        Prepares console.disk userDirectory config input hidden settings overrides archive ∧
        Batch.ofRuns (scheduler.tasks settings.standardPlugins overrides archive.files) =
          compilation ∧
        { console with
          notices := console.notices ++ batchNotices console.disk userDirectory config input hidden
            settings archive compilation } = after := by
  simp only [runBatch, batchNotices, reportAll, report, status, notify, ends_bind_iff,
    ends_disk_iff, ends_modify_iff, ends_settle_iff, ends_settleFailure_iff, ends_source_iff,
    ends_pure_iff, mapError_eq_ok_iff, ← List.append_assoc]
  constructor
  · rintro ⟨_, _, ⟨rfl, rfl⟩, _, _, rfl, settings, _, ⟨hsettings, rfl⟩, _, _, ⟨rfl, rfl⟩,
      overrides, _, ⟨hoverrides, rfl⟩, _, _, rfl, archive, _, ⟨hsource, rfl⟩, _, _, rfl, _, _, rfl,
      rfl, rfl⟩
    exact ⟨settings, overrides, archive, ⟨hsettings, hoverrides, hsource⟩, rfl, rfl⟩
  · rintro ⟨settings, overrides, archive, ⟨hsettings, hoverrides, hsource⟩, rfl, rfl⟩
    exact ⟨_, _, ⟨rfl, rfl⟩, (), _, rfl, settings, _, ⟨hsettings, rfl⟩, _, _, ⟨rfl, rfl⟩,
      overrides, _, ⟨hoverrides, rfl⟩, (), _, rfl, archive, _, ⟨hsource, rfl⟩, (), _, rfl, (), _,
      rfl, rfl, rfl⟩

theorem ends_handOver_iff {outcome : Outcome FileSet} :
    (handOver input target outcome).Ends console () after ↔
      ∃ compiled delivered, outcome = .value compiled ∧
        (deliver (Archive.ofFiles compiled) target).Ends console () delivered ∧
        { delivered with notices := delivered.notices ++
            [.status .success ("Compiled " ++ summary (Archive.ofFiles compiled))] } = after := by
  simp only [handOver, status, notify, ends_bind_iff, ends_compiledFiles_iff, ends_modify_iff]
  constructor
  · rintro ⟨compiled, _, ⟨houtcome, rfl⟩, _, delivered, hdeliver, rfl⟩
    exact ⟨compiled, delivered, houtcome, hdeliver, rfl⟩
  · rintro ⟨compiled, delivered, houtcome, hdeliver, rfl⟩
    exact ⟨compiled, _, ⟨houtcome, rfl⟩, (), delivered, hdeliver, rfl⟩

/-- A compilation is done if its batch can be made and comes to files, and these can be
delivered. -/
theorem ends_compileUnder_iff :
    (compileUnder scheduler userDirectory input target config hidden).Ends console () after ↔
      ∃ settings overrides archive compiled delivered,
        Prepares console.disk userDirectory config input hidden settings overrides archive ∧
        scheduler.Compiles settings.standardPlugins overrides archive.files compiled ∧
        (deliver (Archive.ofFiles compiled) target).Ends
          { console with
            notices := console.notices ++ batchNotices console.disk userDirectory config input
              hidden settings archive
              (Batch.ofRuns (scheduler.tasks settings.standardPlugins overrides archive.files)) }
          () delivered ∧
        { delivered with notices := delivered.notices ++
            [.status .success ("Compiled " ++ summary (Archive.ofFiles compiled))] } = after := by
  simp only [compileUnder, ends_bind_iff, ends_runBatch_iff, ends_handOver_iff]
  constructor
  · rintro ⟨_, _, ⟨settings, overrides, archive, hprepares, rfl, rfl⟩, compiled, delivered,
      hcompiled, hdeliver, rfl⟩
    exact ⟨settings, overrides, archive, compiled, delivered, hprepares, hcompiled, hdeliver, rfl⟩
  · rintro ⟨settings, overrides, archive, compiled, delivered, hprepares, hcompiled, hdeliver,
      rfl⟩
    exact ⟨_, _, ⟨settings, overrides, archive, hprepares, rfl, rfl⟩, compiled, delivered,
      hcompiled, hdeliver, rfl⟩

/-! ### Into a directory -/

end Command

/-! ## The program -/

namespace Program

open CommandLine

def performUnder (scheduler : Batch.Scheduler) (environment : Environment) :
    Request → Command Unit
  | .compile input target config hidden =>
    Command.compileUnder scheduler environment.userDirectory input target config hidden
  | request => perform environment request

theorem performUnder_own (environment : Environment) (request : Request) :
    performUnder .own environment request = perform environment request := by
  cases request with
  | compile => exact Command.compileUnder_own
  | _ => rfl

/-- What a request comes to at a console, if batches run under a scheduler. -/
def performAtUnder (scheduler : Batch.Scheduler) (environment : Environment) (request : Request)
    (console : Console) : Except Report Unit × Console :=
  (performUnder scheduler environment request).run.run console

theorem performAtUnder_own (environment : Environment) (request : Request) (console : Console) :
    performAtUnder .own environment request console = performAt environment request console := by
  rw [performAtUnder, performUnder_own, performAt]

end Program

end Assets
