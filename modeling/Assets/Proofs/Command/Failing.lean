import Assets.Proofs.Command.Effects

/-!
# Commands that give up

A command that gives up leaves the disk as it found it, unless what stopped it is the disk itself,
which refused to make a directory or to write a file (`disk_of_failed_run`).  Most of what can go
wrong does so before anything is written, and what happens up to there keeps the disk.  The one
command that writes step by step is that of a file set.  It checks all names before the first step,
and behind that nothing but the disk can stop it (`isWriteFault_of_writeAll`).

`Careful` is the property of a command, and the commands have it step by step: what comes before a
write keeps the disk, and what comes behind it, the announcement, cannot fail.
-/

namespace Assets

/-! ## Writes that the disk refuses -/

/-- Whether what is attempted changes the disk. -/
def Attempt.isWrite : Attempt → Bool
  | createDirectory _ => true
  | writeFile _ => true
  | writeBlob _ => true
  | _ => false

/-- A report of a directory that could not be made or a file that could not be written. -/
def Report.IsWriteFault (report : Report) : Prop :=
  ∃ attempt fault, attempt.isWrite = true ∧ report = ⟨some attempt, .disk fault⟩

namespace Tree

variable {disk after : Disk} {file : File} {path : Path} {report : Report}

theorem isWriteFault_of_makeParent (h : makeParent disk path = (.error report, after)) :
    report.IsWriteFault := by
  unfold makeParent at h
  split at h
  · cases h
  · split at h
    · cases h
    · cases h
      exact ⟨_, _, rfl, rfl⟩

theorem isWriteFault_of_writeFile (h : writeFile disk file path = (.error report, after)) :
    report.IsWriteFault := by
  unfold writeFile at h
  split at h
  · rename_i hparent
    cases h
    exact isWriteFault_of_makeParent hparent
  · split at h
    · cases h
    · cases h
      exact ⟨_, _, rfl, rfl⟩

/-- Once files are being written, only the disk can stop it. -/
theorem isWriteFault_of_writeAll {targets : List (File × Path)}
    (h : (writeAll disk targets).stop = some report) : report.IsWriteFault := by
  induction targets generalizing disk with
  | nil => cases h
  | cons target targets ih =>
      unfold writeAll at h
      split at h
      · exact ih h
      · rename_i hfile
        cases h
        exact isWriteFault_of_writeFile hfile

theorem isWriteFault_or_unchanged {root : Path} {files : FileSet}
    (h : (write disk root files).stop = some report) :
    report.IsWriteFault ∨ (write disk root files).disk = disk := by
  unfold write at h ⊢
  split at h
  · exact .inl (isWriteFault_of_writeAll h)
  · exact .inr rfl

end Tree

namespace Command

variable {α β : Type}

/-! ## Careful commands -/

/-- If a command gives up, then a write has been refused, or the disk is as it was. -/
abbrev Careful (command : Command α) : Prop :=
  command.KeepsOnFailure Report.IsWriteFault Console.disk

/-! ## The commands -/

theorem keepsDisk_reportAll (diagnostics : List Diagnostic) :
    (reportAll diagnostics).Keeps Console.disk := fun _ => rfl

theorem keepsDisk_notify (notice : Notice) : (notify notice).Keeps Console.disk := fun _ => rfl

theorem careful_writeBlob (target : Option Path) (blob : String) :
    (writeBlob target blob).Careful := by
  cases target with
  | none => exact Keeps.onFailure fun _ => rfl
  | some path =>
      refine keeps_disk.bind_onFailure fun found => ?_
      exact (keeps_settleFault _ _).onFailure.bind_modify fun written console =>
        { console with disk := written }

theorem run_writeTree (root : Path) (files : FileSet) (console : Console) :
    (writeTree root files).run.run console =
      ((Tree.write console.disk root files).result,
        { console with
          disk := (Tree.write console.disk root files).disk
          notices := console.notices ++
            (Tree.write console.disk root files).diagnostics.map .diagnostic }) := rfl

theorem careful_writeTree (root : Path) (files : FileSet) : (writeTree root files).Careful := by
  intro console report after hrun
  rw [run_writeTree] at hrun
  obtain ⟨hresult, rfl⟩ := Prod.mk.inj hrun
  have hstop : (Tree.write console.disk root files).stop = some report := by
    unfold Tree.Written.result at hresult
    split at hresult
    · rename_i stop hstop
      cases hresult
      exact hstop
    · cases hresult
  exact Tree.isWriteFault_or_unchanged hstop

theorem careful_pack (directory : Path) (output : Option Path) (hidden : Bool) :
    (pack directory output hidden).Careful := by
  refine (keeps_readTree keepsDisk_reportAll directory hidden).bind_onFailure fun files => ?_
  refine (keeps_settleFailure none _).bind_onFailure fun _ => ?_
  exact (careful_writeBlob output _).bind_modify _

theorem careful_unpack (blob directory : Path) : (unpack blob directory).Careful := by
  refine (keeps_readBlob blob).bind_onFailure fun text => ?_
  refine (keeps_decode keepsDisk_reportAll text).bind_onFailure fun archive => ?_
  exact (careful_writeTree directory archive.files).bind_modify _

theorem careful_deliver (archive : Archive) (target : Target) :
    (deliver archive target).Careful := by
  cases target with
  | output => exact (keeps_settleFailure none _).bind_onFailure fun _ => careful_writeBlob _ _
  | blob path => exact (keeps_settleFailure none _).bind_onFailure fun _ => careful_writeBlob _ _
  | directory path =>
      exact (keeps_settleFailure none _).bind_onFailure fun _ => careful_writeTree _ _

theorem keepsDisk_runBatch (scheduler : Batch.Scheduler) (userDirectory : Option Path)
    (input : Path) (config : Option Path) (hidden : Bool) :
    (runBatch scheduler userDirectory input config hidden).Keeps Console.disk := by
  refine keeps_disk.bind fun found => ?_
  refine (keepsDisk_reportAll _).bind fun _ => ?_
  refine (keeps_settle _).bind fun settings => ?_
  refine keeps_disk.bind fun found => ?_
  refine (keeps_settleFailure none _).bind fun overrides => ?_
  refine (keepsDisk_notify _).bind fun _ => ?_
  refine (keeps_source keepsDisk_reportAll input hidden).bind fun archive => ?_
  refine (keepsDisk_notify _).bind fun _ => ?_
  exact (keepsDisk_reportAll _).bind fun _ => keeps_pure _

theorem careful_compileUnder (scheduler : Batch.Scheduler) (userDirectory : Option Path)
    (input : Path) (target : Target) (config : Option Path) (hidden : Bool) :
    (compileUnder scheduler userDirectory input target config hidden).Careful :=
  (keepsDisk_runBatch scheduler userDirectory input config hidden).bind_onFailure fun _ =>
    keepsOnFailure_handOver (fun archive => careful_deliver archive target) input _

theorem fails_bind {first : Command α} {console : Console} {report : Report}
    (h : (first.run.run console).1 = .error report) (rest : α → Command β) :
    ((first >>= rest).run.run console).1 = .error report := by
  rw [run_bind]
  cases hfirst : first.run.run console with
  | mk result between =>
      rw [hfirst] at h
      obtain rfl : result = .error report := h
      rfl

/-- Unpacking stops at a name that is refused. -/
theorem fails_unpack {console : Console} {path directory : Path} {blob : String} {report : Report}
    (hread : console.disk.readText path = .ok blob)
    (hrefused : Tree.destinations directory (Blob.decode blob) = .error report) :
    ((unpack path directory).run.run console).1 = .error report := by
  have hwrite (disk : Disk) :
      Tree.write disk directory (Blob.decode blob) = { disk, stop := some report } := by
    rw [Tree.write, hrefused]
  unfold unpack
  rw [(ends_readBlob_iff.mpr ⟨hread, rfl⟩).run_bind, (ends_decode_iff.mpr ⟨rfl, rfl⟩).run_bind]
  refine fails_bind ?_ _
  rw [run_writeTree]
  change (Tree.write _ directory (Blob.decode blob)).result = _
  rw [hwrite]
  rfl

end Command

namespace Program

open CommandLine Assets.Path

theorem careful_performUnder (scheduler : Batch.Scheduler) (environment : Environment)
    (request : Request) : (performUnder scheduler environment request).Careful := by
  cases request with
  | pack directory output hidden => exact Command.careful_pack directory output hidden
  | unpack blob directory => exact Command.careful_unpack blob directory
  | hash blob =>
      refine (Command.keeps_readBlob blob).bind (fun text => ?_) |>.onFailure
      exact (Command.keeps_decode Command.keepsDisk_reportAll text).bind fun _ => fun _ => rfl
  | compile input target config hidden =>
      exact Command.careful_compileUnder scheduler _ input target config hidden
  | install => exact Command.Keeps.onFailure fun _ => rfl

theorem disk_eq_of_failed {scheduler : Batch.Scheduler} {environment : Environment}
    {request : Request} {console : Console} {report : Report}
    (hfails : (performAtUnder scheduler environment request console).1 = .error report)
    (hfault : ¬report.IsWriteFault) :
    (performAtUnder scheduler environment request console).2.disk = console.disk :=
  (careful_performUnder scheduler environment request console report _
    (Prod.ext hfails rfl)).resolve_left hfault

/-- A request that is not carried out leaves the disk as it was, whatever stopped it and whatever
the schedule of its batch, unless the disk refused a directory or a file that was to be made.  So a
run of the program that asks for no log file ends with code 1 and the disk that it started with. -/
theorem disk_of_failed_run (environment : Environment) (disk : Disk) :
    (∀ scheduler request report,
      (performAtUnder scheduler environment request { disk }).1 = .error report →
      ¬report.IsWriteFault →
      (performAtUnder scheduler environment request { disk }).2.disk = disk) ∧
    ∀ invocation report, invocation.logDirectory = none →
      (performAt environment invocation.request { disk }).1 = .error report →
      ¬report.IsWriteFault →
      (runInvocation environment disk invocation).code = 1 ∧
        (runInvocation environment disk invocation).disk = disk := by
  refine ⟨fun scheduler request report => disk_eq_of_failed,
    fun invocation report hlog hfails hfault => ?_⟩
  have hexit : runInvocation environment disk invocation =
      exit invocation.verbosity (.error report)
        (performAt environment invocation.request { disk }).2 := by
    rw [← hfails, runInvocation, hlog]
  rw [hexit]
  rw [← performAtUnder_own] at hfails ⊢
  exact ⟨rfl, disk_eq_of_failed hfails hfault⟩

/-- A disk with a blob of the files `ok` and `../x`. -/
def escapingDisk : Disk where
  entries := [([ofString "b"], .file (Text.bytes "ok\x001\x00\x00../x\x002"))]

/-- The first file could be written, but the name of the second one leads out of the directory. -/
theorem disk_of_failed_run_escaping : ∃ report,
    (performAtUnder .own ⟨none, []⟩ (.unpack (ofString "b") (ofString "out"))
      { disk := escapingDisk }).1 = .error report ∧
    ¬report.IsWriteFault ∧
    (performAtUnder .own ⟨none, []⟩ (.unpack (ofString "b") (ofString "out"))
      { disk := escapingDisk }).2.disk = escapingDisk ∧
    (runInvocation ⟨none, []⟩ escapingDisk
      { request := .unpack (ofString "b") (ofString "out") }).code = 1 ∧
    (runInvocation ⟨none, []⟩ escapingDisk
      { request := .unpack (ofString "b") (ofString "out") }).disk = escapingDisk := by
  have htext : escapingDisk.readText (ofString "b") = .ok "ok\x001\x00\x00../x\x002" := by
    decide +kernel
  have hdecode : Blob.decode "ok\x001\x00\x00../x\x002" = [⟨"ok", "1"⟩, ⟨"../x", "2"⟩] := by
    decide +kernel
  have hwritable : Tree.destination? (ofString "out") "ok" = some (ofString "out/ok") := by decide
  have hrefused : Tree.destination? (ofString "out") "../x" = none := by decide
  have hdestinations : Tree.destinations (ofString "out")
      (Blob.decode "ok\x001\x00\x00../x\x002") =
      .error ⟨none, .outside "../x" (ofString "out")⟩ := by
    rw [hdecode, Tree.destinations, hwritable, Tree.destinations, hrefused]
    rfl
  have hfails : (performAt ⟨none, []⟩ (.unpack (ofString "b") (ofString "out"))
      { disk := escapingDisk }).1 = .error ⟨none, .outside "../x" (ofString "out")⟩ :=
    Command.fails_unpack htext hdestinations
  have hfault : ¬(Report.mk none (.outside "../x" (ofString "out"))).IsWriteFault := by
    rintro ⟨attempt, fault, -, h⟩
    cases h
  obtain ⟨hkept, hcode⟩ := disk_of_failed_run ⟨none, []⟩ escapingDisk
  refine ⟨_, ?_, hfault, hkept .own _ _ ?_ hfault, hcode _ _ rfl hfails hfault⟩ <;>
    rwa [performAtUnder_own]

end Program

end Assets
