import Assets.Proofs.Command.Effects
import Assets.Proofs.Command.Emission
import Assets.Proofs.Tree.Frame

/-!
# Compiling a directory and compiling its blob

A directory can be compiled as it is, or packed first and then compiled from the blob.  Both ways
come to the same (`compile_packed`).  They differ in two points.  The files of the directory come
in the order of the walk and have not been accepted, while those of the blob are decoded and
sorted; and the two batches may run under different schedules.

* That the files are the same, and have one digest, is the round trip through the blob
  (`prepares_of_pack`).  The directory is read again for the compilation, when the blob is already
  on the disk, so the blob must lie outside of it.
* Two batches of the same files come to the same files in some order, or neither comes to files.
  If the names of these files differ, the order does not show in the blob (`Writes.exists_perm`).
* A compilation does the same for either input up to its batch, and behind the batch it succeeds
  or gives up with what the batch and the disk make of the files (`run_prepared`).
-/

namespace Assets

open CommandLine Program Assets.Path

/-! ## Announcements -/

def Notice.status? : Notice → Option (Sign × String)
  | status sign text => some (sign, text)
  | diagnostic _ => none

/-- What has been announced, with its signs and in order. -/
def announced (notices : List Notice) : List (Sign × String) := notices.filterMap Notice.status?

@[simp] theorem announced_append (notices more : List Notice) :
    announced (notices ++ more) = announced notices ++ announced more :=
  List.filterMap_append

@[simp] theorem announced_diagnostics (diagnostics : List Diagnostic) :
    announced (diagnostics.map .diagnostic) = [] := by
  simp [announced, Notice.status?]

@[simp] theorem announced_cons_diagnostic (diagnostic : Diagnostic) (notices : List Notice) :
    announced (.diagnostic diagnostic :: notices) = announced notices := rfl

@[simp] theorem announced_cons_status (sign : Sign) (text : String) (notices : List Notice) :
    announced (.status sign text :: notices) = (sign, text) :: announced notices := rfl

namespace Command

variable {console after : Console}

theorem announced_sourceNotices (disk : Disk) (input : Path) (hidden : Bool) :
    announced (sourceNotices disk input hidden) = [] := by
  unfold sourceNotices
  split
  · exact announced_diagnostics _
  · split
    · exact announced_diagnostics _
    · rfl

theorem announced_batchNotices (disk : Disk) (userDirectory config : Option Path) (input : Path)
    (hidden : Bool) (settings : Config) (archive : Archive) (compilation : Compilation) :
    announced (batchNotices disk userDirectory config input hidden settings archive compilation) =
      [(.info, "Compiling " ++ summary archive)] := by
  simp [batchNotices, announced_sourceNotices]

theorem keepsAnnounced_writeBlob (target : Option Path) (blob : String) :
    (writeBlob target blob).Keeps fun console => announced console.notices := by
  cases target with
  | none => exact fun _ => rfl
  | some path =>
      exact keeps_disk.bind fun _ => (keeps_settleFault _ _).bind fun _ => fun _ => rfl

theorem keepsAnnounced_deliver (archive : Archive) (output : Option Path) :
    (deliver archive (.ofOutput output)).Keeps fun console => announced console.notices := by
  cases output <;>
    exact (keeps_settleFailure none _).bind fun _ => keepsAnnounced_writeBlob _ _

/-! ## One compilation -/

section Runs

variable {scheduler other : Batch.Scheduler} {disk written : Disk}
  {userDirectory config : Option Path} {input out : Path} {hidden : Bool}
  {settings : Config} {overrides : Overrides} {archive : Archive}
  {files reordered compiled recompiled : FileSet}

theorem Prepares.unique {settings' : Config} {overrides' : Overrides} {archive' : Archive}
    (h : Prepares disk userDirectory config input hidden settings overrides archive)
    (h' : Prepares disk userDirectory config input hidden settings' overrides' archive') :
    settings = settings' ∧ overrides = overrides' ∧ archive = archive' := by
  obtain rfl := Except.ok.inj (h.located.symm.trans h'.located)
  exact ⟨rfl, Except.ok.inj (h.overridden.symm.trans h'.overridden), h.source.unique h'.source⟩

/-- A batch comes to files, and their blob can be written. -/
structure Writes (scheduler : Batch.Scheduler) (disk : Disk) (out : Path) (settings : Config)
    (overrides : Overrides) (files compiled : FileSet) (written : Disk) : Prop where
  compiles : scheduler.Compiles settings.standardPlugins overrides files compiled
  valid : Blob.validate compiled = .ok ()
  write : disk.write out (Text.bytes (Blob.encode compiled)) = .ok written

/-- A compilation that has been prepared is done if its files can be written. -/
theorem ends_prepared_iff
    (h : Prepares disk userDirectory config input hidden settings overrides archive) :
    (compileUnder scheduler userDirectory input (.ofOutput (some out)) config hidden).Ends
        { disk } () after ↔
      ∃ compiled written,
        Writes scheduler disk out settings overrides archive.files compiled written ∧
        { disk := written
          notices := batchNotices disk userDirectory config input hidden settings archive
            (Batch.ofRuns (scheduler.tasks settings.standardPlugins overrides archive.files)) ++
            [.status .success ("Compiled " ++ summary (Archive.ofFiles compiled))] } = after := by
  simp only [ends_compileUnder_iff, ends_deliver_output_iff, ends_writeBlob_iff]
  constructor
  · rintro ⟨settings', overrides', archive', compiled, _, hprepares, hcompiles,
      ⟨hvalid, written, hwrite, rfl⟩, rfl⟩
    obtain ⟨rfl, rfl, rfl⟩ := h.unique hprepares
    exact ⟨compiled, written, ⟨hcompiles, hvalid, hwrite⟩, rfl⟩
  · rintro ⟨compiled, written, ⟨hcompiles, hvalid, hwrite⟩, rfl⟩
    exact ⟨settings, overrides, archive, compiled, _, h, hcompiles, ⟨hvalid, written, hwrite, rfl⟩,
      rfl⟩

/-- One that gives up behind its batch has announced its files, and nothing more. -/
theorem announced_of_failed {report : Report}
    (h : Prepares disk userDirectory config input hidden settings overrides archive)
    (hrun : (compileUnder scheduler userDirectory input (.ofOutput (some out)) config
      hidden).run.run { disk } = (.error report, after)) :
    announced after.notices = [(.info, "Compiling " ++ summary archive)] := by
  have hbatch : (runBatch scheduler userDirectory input config hidden).Ends { disk } _ _ :=
    ends_runBatch_iff.mpr ⟨settings, overrides, archive, h, rfl, rfl⟩
  rw [compileUnder, hbatch.run_bind] at hrun
  have hkeeps (outcome : Outcome FileSet) : KeepsOnFailure (fun _ => False)
      (fun console => announced console.notices)
      (handOver input (.ofOutput (some out)) outcome) :=
    keepsOnFailure_handOver
      (fun delivered => (keepsAnnounced_deliver delivered (some out)).onFailure) input outcome
  exact ((hkeeps _ _ _ _ hrun).resolve_left id).trans (announced_batchNotices ..)

/-- The two ends of a compilation that has been prepared. -/
theorem run_prepared (scheduler : Batch.Scheduler) (out : Path)
    (h : Prepares disk userDirectory config input hidden settings overrides archive) :
    (∃ compiled written after,
      Writes scheduler disk out settings overrides archive.files compiled written ∧
      (compileUnder scheduler userDirectory input (.ofOutput (some out)) config hidden).run.run
        { disk } = (.ok (), after) ∧
      after.disk = written ∧
      announced after.notices = [(.info, "Compiling " ++ summary archive),
        (.success, "Compiled " ++ summary (Archive.ofFiles compiled))]) ∨
    (∀ compiled written,
      ¬Writes scheduler disk out settings overrides archive.files compiled written) ∧
      ∃ report after,
        (compileUnder scheduler userDirectory input (.ofOutput (some out)) config hidden).run.run
          { disk } = (.error report, after) ∧
        announced after.notices = [(.info, "Compiling " ++ summary archive)] := by
  cases hrun : (compileUnder scheduler userDirectory input (.ofOutput (some out)) config
      hidden).run.run { disk } with
  | mk result after =>
      cases result with
      | ok value =>
          left
          obtain ⟨compiled, written, hwrites, rfl⟩ := (ends_prepared_iff h).mp hrun
          refine ⟨compiled, written, _, hwrites, rfl, rfl, ?_⟩
          rw [announced_append, announced_batchNotices]
          rfl
      | error report =>
          refine .inr ⟨fun compiled written hwrites => ?_, report, after, rfl,
            announced_of_failed h hrun⟩
          have hends := (ends_prepared_iff h).mpr ⟨compiled, written, hwrites, rfl⟩
          cases hrun.symm.trans hends

/-! ## Two compilations -/

theorem summary_eq_of_perm (hperm : recompiled.Perm compiled) (hnames : compiled.names.Nodup) :
    summary (Archive.ofFiles recompiled) = summary (Archive.ofFiles compiled) := by
  have hhash := (Archive.ofFiles_eq_of_perm hperm.symm hnames).2
  change toString recompiled.length ++ _ ++ (Archive.ofFiles recompiled).hash ++ _ = _
  rw [hperm.length_eq, ← hhash]
  rfl

/-- The same files in another order and under another scheduler are written in the same way. -/
theorem Writes.exists_perm
    (h : Writes scheduler disk out settings overrides files compiled written)
    (hfiles : files.Perm reordered) (hnames : compiled.names.Nodup) (other : Batch.Scheduler) :
    ∃ recompiled, Writes other disk out settings overrides reordered recompiled written ∧
      recompiled.Perm compiled := by
  obtain ⟨recompiled, hcompiles, hperm⟩ := h.compiles.exists_perm hfiles other
  refine ⟨recompiled, ⟨hcompiles, ?_, ?_⟩, hperm⟩
  · have hvalid := Blob.validate_eq_ok_iff.mp h.valid
    exact Blob.validate_eq_ok_iff.mpr fun file hfile => hvalid file (hperm.mem_iff.mp hfile)
  · rw [← Blob.encode_eq_of_perm hperm.symm hnames]
    exact h.write

/-- Two runs of compilations come to the same: both succeed or neither; they announce the same
texts, the files of the input with their digest first; and if they succeed, they have written one
blob, and have announced its digest. -/
structure ComeToSame (out : Path) (source : String) (first second : Except Report Unit × Console) :
    Prop where
  succeeds_iff : first.1 = .ok () ↔ second.1 = .ok ()
  announced : Assets.announced first.2.notices = Assets.announced second.2.notices
  source : (Assets.announced first.2.notices).head? = some (.info, "Compiling " ++ source)
  written (h : first.1 = .ok ()) : ∃ compiled,
    first.2.disk.read out = .ok (Text.bytes (Blob.encode compiled)) ∧
    second.2.disk.read out = .ok (Text.bytes (Blob.encode compiled)) ∧
    (Assets.announced first.2.notices).getLast? =
      some (.success, "Compiled " ++ summary (Archive.ofFiles compiled))

/-- Compilations of the same files, given in any order, come to the same under any two
schedulers, if the names of the compiled files differ. -/
theorem comeToSame_of_perm {input' : Path} {archive' : Archive} (first second : Batch.Scheduler)
    (out : Path) (hdisk : disk.WellFormed)
    (h : Prepares disk userDirectory config input hidden settings overrides archive)
    (h' : Prepares disk userDirectory config input' hidden settings overrides archive')
    (hfiles : archive.files.Perm archive'.files) (hsummary : summary archive' = summary archive)
    (hnames : ∀ scheduler : Batch.Scheduler, ∀ compiled,
      scheduler.Compiles settings.standardPlugins overrides archive.files compiled →
        compiled.names.Nodup) :
    ComeToSame out (summary archive)
      ((compileUnder first userDirectory input (.ofOutput (some out)) config hidden).run.run
        { disk })
      ((compileUnder second userDirectory input' (.ofOutput (some out)) config hidden).run.run
        { disk }) := by
  have hnames' : ∀ compiled, second.Compiles settings.standardPlugins overrides archive'.files
      compiled → compiled.names.Nodup := by
    intro compiled hcompiles
    obtain ⟨recompiled, hsame, hperm⟩ := hcompiles.exists_perm hfiles.symm first
    exact (hperm.map File.name).nodup_iff.mp (hnames first recompiled hsame)
  rcases run_prepared first out h with
    ⟨compiled, written, after, hwrites, hrun, hafter, hannounced⟩ |
    ⟨hnone, report, after, hrun, hannounced⟩
  · -- what the first one writes, the second one writes as well
    have hdistinct := hnames first compiled hwrites.compiles
    obtain ⟨recompiled, hrewrites, hperm⟩ := hwrites.exists_perm hfiles hdistinct second
    rcases run_prepared second out h' with
      ⟨compiled', written', after', hwrites', hrun', hafter', hannounced'⟩ | ⟨hnone', -⟩
    case inr => exact absurd hrewrites (hnone' recompiled written)
    obtain rfl := hrewrites.compiles.unique hwrites'.compiles
    obtain rfl := Except.ok.inj (hrewrites.write.symm.trans hwrites'.write)
    obtain ⟨location, hfile, hread⟩ := Disk.exists_location_of_write hdisk hwrites.write
    have hout := hread written (.refl written) hfile
    rw [hrun, hrun']
    refine ⟨iff_of_true rfl rfl, ?_, ?_, fun _ => ⟨compiled, ?_, ?_, ?_⟩⟩
    · rw [hannounced, hannounced', hsummary, summary_eq_of_perm hperm hdistinct]
    · rw [hannounced]
      rfl
    · rwa [hafter]
    · rwa [hafter']
    · rw [hannounced]
      rfl
  · -- and what the first one cannot write, the second one cannot write either
    rcases run_prepared second out h' with
      ⟨compiled', written', -, hwrites', -⟩ | ⟨-, report', after', hrun', hannounced'⟩
    case inl =>
      obtain ⟨rewritten, hrewrites, -⟩ :=
        hwrites'.exists_perm hfiles.symm (hnames' compiled' hwrites'.compiles) first
      exact absurd hrewrites (hnone rewritten written')
    rw [hrun, hrun']
    refine ⟨iff_of_false (by simp) (by simp), ?_, ?_, fun hdone => by cases hdone⟩
    · rw [hannounced, hannounced', hsummary]
    · rw [hannounced]
      rfl

/-! ## Packing first -/

/-- After a directory has been packed, its compilation and that of the blob work with the same
files, sorted in the blob. -/
theorem prepares_of_pack {directory blob : Path} {packed : Console} (hdisk : disk.WellFormed)
    (hdirectory : disk.isDirectory directory = true)
    (houtside : disk.WritesOutside directory blob)
    (hpack : (pack directory (some blob) hidden).Ends { disk } () packed)
    (hsettings : (Config.locate packed.disk userDirectory config).2 = .ok settings)
    (hoverrides : settings.overridesOn packed.disk = .ok overrides) :
    packed.disk.WellFormed ∧ ∃ files, Tree.read disk directory hidden = .ok files ∧
      Prepares packed.disk userDirectory config directory hidden settings overrides
        (Archive.ofFiles files) ∧
      Prepares packed.disk userDirectory config blob hidden settings overrides
        ⟨files.sorted, Blob.encode files, digest (Blob.encode files)⟩ := by
  obtain ⟨files, written, hread, hvalid, hwrite, rfl⟩ := ends_pack_iff.mp hpack
  have hwritten : written.WellFormed := Disk.wellFormed_of_write hdisk hwrite
  have hkept := Tree.read_of_write hwrite houtside hdirectory hdisk hread
  have hstays := Disk.isDirectory_of_grows (Disk.grows_of_write hdisk hwrite) hdirectory
  obtain ⟨location, hfile, hfound⟩ := Disk.exists_location_of_write hdisk hwrite
  have hblob := hfound written (.refl written) hfile
  refine ⟨hwritten, files, hread, ⟨hsettings, hoverrides, ?_⟩, hsettings, hoverrides, ?_⟩
  · rw [SourceOf, if_pos hstays]
    exact ⟨files, hkept, rfl⟩
  · rw [SourceOf, if_neg (by simp [Disk.isDirectory_of_read hblob])]
    exact ⟨_, Disk.readText_of_read hblob,
      Blob.ofBlob_encode (Blob.validate_eq_ok_iff.mp hvalid)⟩

end Runs

end Command

/-- A directory that is packed into a blob outside of it compiles as its blob does, to a blob and
with a configuration that has no load directory.  If the compiled files differ in their names, both
compilations succeed or neither does; they announce the same, beginning with the files of the
directory and their digest; and if they succeed, they have written one blob.  The batches may run
under any two schedulers. -/
theorem compile_packed (first second : Batch.Scheduler) (environment : Environment) (disk : Disk)
    (directory blob out : Path) (hidden : Bool) (config : Option Path) (packed : Console)
    (settings : Config) (hdisk : disk.WellFormed) (hdirectory : disk.isDirectory directory = true)
    (houtside : disk.WritesOutside directory blob)
    (hpack : performAt environment (.pack directory (some blob) hidden) { disk } =
      (.ok (), packed))
    (hsettings : (Config.locate packed.disk environment.userDirectory config).2 = .ok settings)
    (hinline : settings.defaults.loadDir = none)
    (hnames : ∀ files compiled, Tree.read disk directory hidden = .ok files →
      (Batch.compile settings.standardPlugins settings.inlineOverrides files).outcome =
        .value compiled → compiled.names.Nodup) :
    ∃ files, Tree.read disk directory hidden = .ok files ∧
      Command.ComeToSame out (Command.summary (Archive.ofFiles files))
        (performAtUnder first environment (.compile directory (.blob out) config hidden)
          { disk := packed.disk })
        (performAtUnder second environment (.compile blob (.blob out) config hidden)
          { disk := packed.disk }) := by
  have hoverrides : settings.overridesOn packed.disk = .ok settings.inlineOverrides :=
    settings.overrides_of_inline _ hinline
  obtain ⟨hpacked, files, hread, hfirst, hsecond⟩ :=
    Command.prepares_of_pack hdisk hdirectory houtside hpack hsettings hoverrides
  have hsorted : files.Perm files.sorted := (Blob.perm_sorted files).symm
  have hsummary : Command.summary ⟨files.sorted, Blob.encode files, digest (Blob.encode files)⟩ =
      Command.summary (Archive.ofFiles files) := by
    change toString files.sorted.length ++ _ ++ _ ++ _ = _
    rw [hsorted.length_eq.symm]
    rfl
  refine ⟨files, hread, Command.comeToSame_of_perm first second out hpacked hfirst hsecond hsorted
    hsummary fun scheduler compiled hcompiled => ?_⟩
  obtain ⟨recompiled, hown, hperm⟩ := hcompiled.exists_perm (.refl _) .own
  exact (hperm.map File.name).nodup_iff.mp (hnames files recompiled hread hown)

/-- A directory with two files whose order in the walk is not that of their names. -/
def splitDisk : Disk where
  entries := [([ofString "d"], .directory), ([ofString "d", ofString "a.b"], .file [0x31]),
    ([ofString "d", ofString "a"], .directory),
    ([ofString "d", ofString "a", ofString "b"], .file [0x32])]

theorem wellFormed_splitDisk : splitDisk.WellFormed := by decide

theorem resolve_splitDisk : splitDisk.resolve .target (ofString "d") =
    .ok ⟨[ofString "d"], some .directory⟩ := by decide +kernel

theorem writesOutside_splitDisk : splitDisk.WritesOutside (ofString "d") (ofString "p") := by
  have hplace : splitDisk.resolve .file (ofString "p") = .ok ⟨[ofString "p"], none⟩ := by
    decide +kernel
  rintro place h ⟨location, hsame, base, hbase, hbelow⟩
  obtain rfl := Except.ok.inj (hplace.symm.trans h)
  obtain rfl := wellFormed_splitDisk.eq_of_sameFile hsame.symm (by decide)
  obtain rfl := hbase.unique (Disk.leadsTo_of_resolve resolve_splitDisk)
  exact absurd hbelow (by decide)

/-- The second batch completes in reverse order. -/
theorem compile_packed_split : ∃ packed files,
    splitDisk.WellFormed ∧ splitDisk.isDirectory (ofString "d") = true ∧
    splitDisk.WritesOutside (ofString "d") (ofString "p") ∧
    performAt ⟨none, []⟩ (.pack (ofString "d") (some (ofString "p")) false) { disk := splitDisk } =
      (.ok (), packed) ∧
    (Config.locate packed.disk none none).2 = .ok {} ∧
    Tree.read splitDisk (ofString "d") false = .ok files ∧
    (Batch.compile (Config.standardPlugins {}) (Config.inlineOverrides {}) files).outcome =
      .value files ∧
    files.names.Nodup ∧
    Command.ComeToSame (ofString "x") (Command.summary (Archive.ofFiles files))
      (performAtUnder .own ⟨none, []⟩ (.compile (ofString "d") (.blob (ofString "x")) none false)
        { disk := packed.disk })
      (performAtUnder (.ofOrder [1, 0]) ⟨none, []⟩
        (.compile (ofString "p") (.blob (ofString "x")) none false) { disk := packed.disk }) := by
  have hdirectory : splitDisk.isDirectory (ofString "d") = true := by decide +kernel
  have hbelow : splitDisk.below [ofString "d"] = [([ofString "a"], .directory),
      ([ofString "a", ofString "b"], .file [0x32]), ([ofString "a.b"], .file [0x31])] :=
    Order.sortByKey_eq_of_ascending Prod.fst (by decide +kernel) (by decide)
  have hread : Tree.read splitDisk (ofString "d") false = .ok [⟨"a/b", "2"⟩, ⟨"a.b", "1"⟩] := by
    rw [Tree.read_of_directory resolve_splitDisk, Tree.regularFiles, hbelow]
    decide +kernel
  have hvalid : Blob.validate [⟨"a/b", "2"⟩, ⟨"a.b", "1"⟩] = .ok () := by decide
  have hsorted : FileSet.sorted [⟨"a/b", "2"⟩, ⟨"a.b", "1"⟩] = [⟨"a.b", "1"⟩, ⟨"a/b", "2"⟩] :=
    Order.sortByKey_eq_of_ascending File.name (by decide) (by decide)
  have hwrite : splitDisk.write (ofString "p")
      (Text.bytes (Blob.encode [⟨"a/b", "2"⟩, ⟨"a.b", "1"⟩])) =
      .ok (splitDisk.put [ofString "p"] (.file (Text.bytes "a.b\x001\x00\x00a/b\x002"))) := by
    rw [Blob.encode, hsorted]
    decide +kernel
  have hsettings : (Config.locate (splitDisk.put [ofString "p"]
      (.file (Text.bytes "a.b\x001\x00\x00a/b\x002"))) none none).2 = .ok {} := by decide +kernel
  generalize splitDisk.put [ofString "p"] (.file (Text.bytes "a.b\x001\x00\x00a/b\x002")) =
    later at hwrite hsettings
  have hpack : performAt ⟨none, []⟩ (.pack (ofString "d") (some (ofString "p")) false)
      { disk := splitDisk } = (.ok (), { disk := later, notices := _ }) :=
    Command.ends_pack_iff.mpr ⟨_, _, hread, hvalid, hwrite, rfl⟩
  have hcompiled : (Batch.compile (Config.standardPlugins {}) (Config.inlineOverrides {})
      [⟨"a/b", "2"⟩, ⟨"a.b", "1"⟩]).outcome = .value [⟨"a/b", "2"⟩, ⟨"a.b", "1"⟩] :=
    Batch.outcome_of_instant (by decide +kernel) (by decide +kernel)
  have hnodup : (FileSet.names [⟨"a/b", "2"⟩, ⟨"a.b", "1"⟩]).Nodup := by decide
  obtain ⟨files, hfiles, hsame⟩ := compile_packed .own (.ofOrder [1, 0]) ⟨none, []⟩ splitDisk
    (ofString "d") (ofString "p") (ofString "x") false none _ {} wellFormed_splitDisk hdirectory
    writesOutside_splitDisk hpack hsettings rfl (by
      intro files compiled hfiles houtcome
      obtain rfl := Except.ok.inj (hread.symm.trans hfiles)
      obtain rfl := Outcome.value.inj (hcompiled.symm.trans houtcome)
      exact hnodup)
  obtain rfl := Except.ok.inj (hread.symm.trans hfiles)
  exact ⟨_, _, wellFormed_splitDisk, hdirectory, writesOutside_splitDisk, hpack, hsettings, hread,
    hcompiled, hnodup, hsame⟩

end Assets
