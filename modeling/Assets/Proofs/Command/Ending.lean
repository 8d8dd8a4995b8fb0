import Assets.Commands

/-!
# Commands that succeed

`Ends` says that a command, started at a console, is done with a value and leaves a console.  Each
step that commands are made of has a lemma that says exactly when it is done and what it leaves.
With the one about steps in a row (`ends_bind_iff`) they take a command apart, so that about a
command as a whole there is one statement: what the disk and the arguments have to be like for it
to be done, and what it leaves then.
-/

namespace Assets.Command

variable {α β : Type} {console after : Console}

/-- From a console, a command is done with a value and leaves a console. -/
def Ends (command : Command α) (console : Console) (value : α) (after : Console) : Prop :=
  command.run.run console = (.ok value, after)

/-! ## Steps -/

theorem run_bind (first : Command α) (rest : α → Command β) (console : Console) :
    (first >>= rest).run.run console =
      match first.run.run console with
      | (.ok a, between) => (rest a).run.run between
      | (.error report, between) => (.error report, between) := by
  rw [ExceptT.run_bind, StateT.run_bind]
  change (match first.run.run console with | (a, s) => _) = _
  generalize first.run.run console = ended
  obtain ⟨result, between⟩ := ended
  cases result <;> rfl

theorem Ends.run_bind {first : Command α} {a : α} (h : first.Ends console a after)
    (rest : α → Command β) : (first >>= rest).run.run console = (rest a).run.run after := by
  rw [Command.run_bind, show first.run.run console = (.ok a, after) from h]

theorem ends_bind_iff {first : Command α} {rest : α → Command β} {value : β} :
    (first >>= rest).Ends console value after ↔
      ∃ a between, first.Ends console a between ∧ (rest a).Ends between value after := by
  unfold Ends
  rw [run_bind]
  generalize first.run.run console = ended
  obtain ⟨result, between⟩ := ended
  cases result with
  | error report =>
      refine iff_of_false (fun h => by cases h) ?_
      rintro ⟨a, other, hfirst, -⟩
      cases hfirst
  | ok a =>
      constructor
      · exact fun hrest => ⟨a, between, rfl, hrest⟩
      · rintro ⟨_, _, hfirst, hrest⟩
        cases hfirst
        exact hrest

theorem ends_pure_iff {a value : α} :
    (pure a : Command α).Ends console value after ↔ a = value ∧ console = after := by
  change ((.ok a, console) : Except Report α × Console) = (.ok value, after) ↔ _
  simp

theorem ends_modify_iff {change : Console → Console} {value : Unit} :
    (modify change : Command Unit).Ends console value after ↔ change console = after := by
  change ((.ok (), change console) : Except Report Unit × Console) = (.ok value, after) ↔ _
  simp

theorem ends_disk_iff {found : Disk} :
    disk.Ends console found after ↔ console.disk = found ∧ console = after := by
  change ((.ok console.disk, console) : Except Report Disk × Console) = (.ok found, after) ↔ _
  simp

theorem ends_settle_iff {result : Except Report α} {value : α} :
    (settle result).Ends console value after ↔ result = .ok value ∧ console = after := by
  change ((result, console) : Except Report α × Console) = (.ok value, after) ↔ _
  simp

theorem ends_settleFailure_iff {attempt : Option Attempt} {result : Except Failure α} {value : α} :
    (settleFailure attempt result).Ends console value after ↔
      result = .ok value ∧ console = after := by
  cases result <;> simp [settleFailure, ends_settle_iff]

theorem ends_settleFault_iff {attempt : Attempt} {result : Except Disk.Fault α} {value : α} :
    (settleFault attempt result).Ends console value after ↔
      result = .ok value ∧ console = after := by
  cases result <;> simp [settleFault, ends_settle_iff]

/-! ## File sets and blobs -/

theorem ends_readTree_iff {root : Path} {hidden : Bool} {files : FileSet} :
    (readTree root hidden).Ends console files after ↔
      Tree.read console.disk root hidden = .ok files ∧
        { console with notices := console.notices ++
            (Tree.survey console.disk root hidden).warnings.map .diagnostic } = after := by
  simp [readTree, reportAll, ends_bind_iff, ends_disk_iff, ends_modify_iff, ends_settle_iff,
    Tree.read, and_assoc]

theorem ends_writeTree_iff {root : Path} {files : FileSet} {value : Unit} :
    (writeTree root files).Ends console value after ↔
      (Tree.write console.disk root files).result = .ok () ∧
        { console with
          disk := (Tree.write console.disk root files).disk
          notices := console.notices ++
            (Tree.write console.disk root files).diagnostics.map .diagnostic } = after := by
  simp [writeTree, setDisk, reportAll, ends_bind_iff, ends_disk_iff, ends_modify_iff,
    ends_settle_iff, and_assoc]

theorem ends_readBlob_iff {path : Path} {blob : String} :
    (readBlob path).Ends console blob after ↔
      console.disk.readText path = .ok blob ∧ console = after := by
  simp [readBlob, ends_bind_iff, ends_disk_iff, ends_settleFault_iff, and_assoc]

theorem ends_writeBlob_iff {path : Path} {blob : String} {value : Unit} :
    (writeBlob (some path) blob).Ends console value after ↔
      ∃ written, console.disk.write path (Text.bytes blob) = .ok written ∧
        { console with disk := written } = after := by
  simp [writeBlob, setDisk, ends_bind_iff, ends_disk_iff, ends_modify_iff, ends_settleFault_iff,
    and_assoc]

theorem ends_print_blob_iff {blob : String} :
    (writeBlob none blob).Ends console () after ↔
      { console with output := console.output ++ blob } = after :=
  ends_modify_iff

theorem ends_decode_iff {blob : String} {archive : Archive} :
    (decode blob).Ends console archive after ↔ Archive.ofBlob blob = archive ∧
      { console with notices := console.notices ++
          ((Blob.malformed blob).map droppedRecord).map .diagnostic } = after := by
  simp [decode, reportAll, ends_bind_iff, ends_modify_iff, ends_pure_iff, -bind_pure_comp, and_comm]

/-! ## Whole commands -/

theorem ends_pack_steps_iff {directory : Path} {output : Option Path} {hidden : Bool} :
    (pack directory output hidden).Ends console () after ↔
      ∃ files delivered, Tree.read console.disk directory hidden = .ok files ∧
        Blob.validate files = .ok () ∧
        (writeBlob output (Blob.encode files)).Ends
          { console with notices := console.notices ++
            (Tree.survey console.disk directory hidden).warnings.map .diagnostic } () delivered ∧
        { delivered with notices := delivered.notices ++
            [.status .success ("Packed " ++ summary (Archive.ofFiles files))] } = after := by
  simp only [pack, status, notify, ends_bind_iff, ends_readTree_iff, ends_settleFailure_iff,
    ends_modify_iff]
  constructor
  · rintro ⟨files, _, ⟨hread, rfl⟩, _, _, ⟨hvalid, rfl⟩, _, delivered, hwrite, rfl⟩
    exact ⟨files, delivered, hread, hvalid, hwrite, rfl⟩
  · rintro ⟨files, delivered, hread, hvalid, hwrite, rfl⟩
    exact ⟨files, _, ⟨hread, rfl⟩, (), _, ⟨hvalid, rfl⟩, (), delivered, hwrite, rfl⟩

theorem ends_pack_iff {directory path : Path} {hidden : Bool} :
    (pack directory (some path) hidden).Ends console () after ↔
      ∃ files written, Tree.read console.disk directory hidden = .ok files ∧
        Blob.validate files = .ok () ∧
        console.disk.write path (Text.bytes (Blob.encode files)) = .ok written ∧
        { console with
          disk := written
          notices := console.notices ++
            (Tree.survey console.disk directory hidden).warnings.map .diagnostic ++
            [.status .success ("Packed " ++ summary (Archive.ofFiles files))] } = after := by
  simp only [ends_pack_steps_iff, ends_writeBlob_iff]
  constructor
  · rintro ⟨files, _, hread, hvalid, ⟨written, hwrite, rfl⟩, rfl⟩
    exact ⟨files, written, hread, hvalid, hwrite, rfl⟩
  · rintro ⟨files, written, hread, hvalid, hwrite, rfl⟩
    exact ⟨files, _, hread, hvalid, ⟨written, hwrite, rfl⟩, rfl⟩

theorem ends_unpack_iff {path directory : Path} :
    (unpack path directory).Ends console () after ↔
      ∃ blob, console.disk.readText path = .ok blob ∧
        (Tree.write console.disk directory (Blob.decode blob)).result = .ok () ∧
        { console with
          disk := (Tree.write console.disk directory (Blob.decode blob)).disk
          notices := console.notices ++ ((Blob.malformed blob).map droppedRecord).map .diagnostic ++
            (Tree.write console.disk directory (Blob.decode blob)).diagnostics.map .diagnostic ++
            [.status .success ("Unpacked " ++ toString (Blob.decode blob).length ++
              " files into " ++ directory.toShown ++ " (" ++ (Archive.ofBlob blob).hash ++
              ")")] } = after := by
  simp only [unpack, status, notify, ends_bind_iff, ends_readBlob_iff, ends_decode_iff,
    ends_writeTree_iff, ends_modify_iff]
  constructor
  · rintro ⟨blob, _, ⟨hread, rfl⟩, _, _, ⟨rfl, rfl⟩, _, _, ⟨hwrite, rfl⟩, rfl⟩
    exact ⟨blob, hread, hwrite, rfl⟩
  · rintro ⟨blob, hread, hwrite, rfl⟩
    exact ⟨blob, _, ⟨hread, rfl⟩, _, _, ⟨rfl, rfl⟩, (), _, ⟨hwrite, rfl⟩, rfl⟩

theorem exists_ends_unpack {found : Disk} {path directory : Path} {blob : String}
    (hread : found.readText path = .ok blob)
    (hwrite : (Tree.write found directory (Blob.decode blob)).result = .ok ()) :
    ∃ after, (unpack path directory).Ends { disk := found } () after ∧
      after.disk = (Tree.write found directory (Blob.decode blob)).disk := by
  simp only [ends_unpack_iff]
  exact ⟨_, ⟨blob, hread, hwrite, rfl⟩, rfl⟩

theorem ends_hash_iff {path : Path} :
    (hash path).Ends console () after ↔
      ∃ blob, console.disk.readText path = .ok blob ∧
        { console with
          output := console.output ++ ((Archive.ofBlob blob).hash ++ "\n")
          notices := console.notices ++
            ((Blob.malformed blob).map droppedRecord).map .diagnostic } = after := by
  simp only [hash, print, ends_bind_iff, ends_readBlob_iff, ends_decode_iff, ends_modify_iff]
  constructor
  · rintro ⟨blob, _, ⟨hread, rfl⟩, _, _, ⟨rfl, rfl⟩, rfl⟩
    exact ⟨blob, hread, rfl⟩
  · rintro ⟨blob, hread, rfl⟩
    exact ⟨blob, _, ⟨hread, rfl⟩, _, _, ⟨rfl, rfl⟩, rfl⟩

/-! ### Compilations -/

/-- What an input holds: the file set of a directory, or that of a blob. -/
def SourceOf (disk : Disk) (input : Path) (hidden : Bool) (archive : Archive) : Prop :=
  if disk.isDirectory input then
    ∃ files, Tree.read disk input hidden = .ok files ∧ Archive.ofFiles files = archive
  else ∃ blob, disk.readText input = .ok blob ∧ Archive.ofBlob blob = archive

/-- What is said of files and records of an input that are left out. -/
def sourceNotices (disk : Disk) (input : Path) (hidden : Bool) : List Notice :=
  if disk.isDirectory input then (Tree.survey disk input hidden).warnings.map .diagnostic
  else match disk.readText input with
    | .ok blob => ((Blob.malformed blob).map droppedRecord).map .diagnostic
    | .error _ => []

theorem ends_source_iff {input : Path} {hidden : Bool} {archive : Archive} :
    (source input hidden).Ends console archive after ↔
      SourceOf console.disk input hidden archive ∧
        { console with
          notices := console.notices ++ sourceNotices console.disk input hidden } = after := by
  simp only [source, ends_bind_iff, ends_disk_iff]
  unfold SourceOf sourceNotices
  by_cases hdirectory : console.disk.isDirectory input = true
  · simp only [if_pos hdirectory]
    constructor
    · rintro ⟨_, _, ⟨rfl, rfl⟩, h⟩
      simp only [if_pos hdirectory, ends_bind_iff, ends_readTree_iff, ends_pure_iff] at h
      obtain ⟨files, _, ⟨hread, rfl⟩, rfl, rfl⟩ := h
      exact ⟨⟨files, hread, rfl⟩, rfl⟩
    · rintro ⟨⟨files, hread, rfl⟩, rfl⟩
      refine ⟨_, _, ⟨rfl, rfl⟩, ?_⟩
      simp only [if_pos hdirectory, ends_bind_iff, ends_readTree_iff, ends_pure_iff]
      exact ⟨files, _, ⟨hread, rfl⟩, rfl, rfl⟩
  · simp only [if_neg hdirectory]
    constructor
    · rintro ⟨_, _, ⟨rfl, rfl⟩, h⟩
      simp only [if_neg hdirectory, ends_bind_iff, ends_readBlob_iff, ends_decode_iff] at h
      obtain ⟨blob, _, ⟨hread, rfl⟩, rfl, rfl⟩ := h
      rw [hread]
      exact ⟨⟨blob, rfl, rfl⟩, rfl⟩
    · rintro ⟨⟨blob, hread, rfl⟩, rfl⟩
      refine ⟨_, _, ⟨rfl, rfl⟩, ?_⟩
      simp only [if_neg hdirectory, ends_bind_iff, ends_readBlob_iff, ends_decode_iff]
      rw [hread]
      exact ⟨blob, _, ⟨rfl, rfl⟩, rfl, rfl⟩

theorem SourceOf.unique {found : Disk} {input : Path} {hidden : Bool} {archive other : Archive}
    (h : SourceOf found input hidden archive) (h' : SourceOf found input hidden other) :
    archive = other := by
  unfold SourceOf at h h'
  split at h
  · rename_i hdirectory
    rw [if_pos hdirectory] at h'
    obtain ⟨files, hread, rfl⟩ := h
    obtain ⟨_, hread', rfl⟩ := h'
    rw [Except.ok.inj (hread.symm.trans hread')]
  · rename_i hdirectory
    rw [if_neg hdirectory] at h'
    obtain ⟨blob, hread, rfl⟩ := h
    obtain ⟨_, hread', rfl⟩ := h'
    rw [Except.ok.inj (hread.symm.trans hread')]

/-- What an input is compiled to with the configuration that is found on the disk. -/
def Compiles (disk : Disk) (userDirectory config : Option Path) (input : Path) (hidden : Bool)
    (compiled : FileSet) : Prop :=
  ∃ settings overrides archive,
    (Config.locate disk userDirectory config).2 = .ok settings ∧
    settings.overridesOn disk = .ok overrides ∧
    SourceOf disk input hidden archive ∧
    (Batch.compile settings.standardPlugins overrides archive.files).outcome = .value compiled

theorem Compiles.unique {found : Disk} {userDirectory config : Option Path} {input : Path}
    {hidden : Bool} {compiled other : FileSet}
    (h : Compiles found userDirectory config input hidden compiled)
    (h' : Compiles found userDirectory config input hidden other) : compiled = other := by
  obtain ⟨settings, overrides, archive, hsettings, hoverrides, hsource, hcompiled⟩ := h
  obtain ⟨_, _, _, hsettings', hoverrides', hsource', hcompiled'⟩ := h'
  obtain rfl := Except.ok.inj (hsettings.symm.trans hsettings')
  obtain rfl := Except.ok.inj (hoverrides.symm.trans hoverrides')
  obtain rfl := hsource.unique hsource'
  exact Outcome.value.inj (hcompiled.symm.trans hcompiled')

theorem ends_compiledFiles_iff {input : Path} {outcome : Outcome FileSet} {files : FileSet} :
    (compiledFiles input outcome).Ends console files after ↔
      outcome = .value files ∧ console = after := by
  cases outcome <;> simp [compiledFiles, ends_pure_iff, ends_settleFailure_iff]

theorem mapError_eq_ok_iff {ε ε' : Type} {f : ε → ε'} {result : Except ε α} {value : α} :
    result.mapError f = .ok value ↔ result = .ok value := by
  cases result with
  | error reason => exact iff_of_false (fun h => by cases h) (fun h => by cases h)
  | ok a =>
      change (.ok a : Except ε' α) = .ok value ↔ _
      simp

/-- Where a compilation emits its blob, if it does not write into a directory. -/
def Target.ofOutput : Option Path → Target
  | some path => .blob path
  | none => .output

theorem ends_deliver_output_iff {archive : Archive} {output : Option Path} :
    (deliver archive (.ofOutput output)).Ends console () after ↔
      Blob.validate archive.files = .ok () ∧
        (writeBlob output archive.content).Ends console () after := by
  have hsteps : deliver archive (.ofOutput output) =
      settleFailure none (Blob.validate archive.files) >>= fun _ =>
        writeBlob output archive.content := by
    cases output <;> rfl
  rw [hsteps, ends_bind_iff]
  constructor
  · rintro ⟨_, _, haccept, hwrite⟩
    obtain ⟨hvalid, rfl⟩ := ends_settleFailure_iff.mp haccept
    exact ⟨hvalid, hwrite⟩
  · rintro ⟨hvalid, hwrite⟩
    exact ⟨(), console, ends_settleFailure_iff.mpr ⟨hvalid, rfl⟩, hwrite⟩

end Assets.Command
