import Assets.Proofs.Blob.Canonical
import Assets.Proofs.Command.Scheduling
import Assets.Proofs.Config.Outcome
import Assets.Proofs.Tree.Reading

/-!
# Emitted blobs

Packing and compiling emit the blob of a file set, into a file or as output.  Both accept the file
set first, and that is what makes the blob one that can be read back: it is canonical, it holds
every file of the set, and the digest that is announced is the one that is printed for it later on
(`emitted_blob_canonical`).

What comes after the files are found is the same for both commands, and it is what `Emits` is
about.
-/

namespace Assets

open CommandLine Program Assets.Path

/-- A blob is in the file that it was to be written into, or it is the output. -/
def Console.Holds (console : Console) (blob : String) : (output : Option Path) → Prop
  | some path => console.disk.read path = .ok (Text.bytes blob)
  | none => console.output = blob

/-- A blob has been emitted for files, into a file or as output, and a digest has been announced. -/
structure Command.Emits (announcement : String) (files : FileSet) (output : Option Path)
    (after : Console) (blob hash : String) : Prop where
  emitted : after.Holds blob output
  canonical : (Archive.ofBlob blob).content = blob
  complete : (Archive.ofBlob blob).files = files.sorted
  announced : after.notices.getLast? = some (.status .success
    (announcement ++ toString files.length ++ " files (" ++ hash ++ ")"))
  /-- Wherever the blob lies, this is the digest that is printed for it. -/
  hashed (environment : Environment) (disk : Disk) (path : Path)
    (hread : disk.read path = .ok (Text.bytes blob)) :
    ∃ hashed, performAt environment (.hash path) { disk } = (.ok (), hashed) ∧
      hashed.output = hash ++ "\n"

namespace Command

variable {console after : Console} {output : Option Path} {files : FileSet}

/-- A blob that has been written can be read, and one that has been printed is the output. -/
theorem holds_of_ends_writeBlob {blob : String} (hdisk : console.disk.WellFormed)
    (houtput : console.output = "") (h : (writeBlob output blob).Ends console () after)
    (notices : List Notice) : { after with notices }.Holds blob output := by
  cases output with
  | some path =>
      obtain ⟨written, hwrite, rfl⟩ := ends_writeBlob_iff.mp h
      obtain ⟨location, hfile, hread⟩ := Disk.exists_location_of_write hdisk hwrite
      exact hread written (.refl written) hfile
  | none =>
      obtain rfl := ends_print_blob_iff.mp h
      change console.output ++ blob = blob
      rw [houtput, String.empty_append]

/-- The digest of a canonical blob is printed wherever the blob lies. -/
theorem exists_hash_of_canonical {blob : String} (environment : Environment) {disk : Disk}
    {path : Path} (hread : disk.read path = .ok (Text.bytes blob)) :
    ∃ hashed, performAt environment (.hash path) { disk } = (.ok (), hashed) ∧
      hashed.output = (Archive.ofBlob blob).hash ++ "\n" := by
  refine ⟨_, ends_hash_iff.mpr ⟨blob, Disk.readText_of_read hread, rfl⟩, ?_⟩
  rw [String.empty_append]

/-- Files that have been accepted, and whose blob has then been written. -/
theorem emits_of_ends_writeBlob {announcement : String}
    (hwrite : (writeBlob output (Blob.encode files)).Ends console () after)
    (hvalid : Blob.validate files = .ok ()) (hdisk : console.disk.WellFormed)
    (houtput : console.output = "") :
    Emits announcement files output
      { after with notices := after.notices ++
        [.status .success (announcement ++ summary (Archive.ofFiles files))] }
      (Blob.encode files) (digest (Blob.encode files)) := by
  have harchive : Archive.ofBlob (Blob.encode files) =
      ⟨files.sorted, Blob.encode files, digest (Blob.encode files)⟩ :=
    Blob.ofBlob_encode (Blob.validate_eq_ok_iff.mp hvalid)
  constructor
  case emitted => exact holds_of_ends_writeBlob hdisk houtput hwrite _
  case canonical => rw [harchive]
  case complete => rw [harchive]
  case announced =>
    rw [List.getLast?_concat, summary, ← String.append_assoc, ← String.append_assoc,
      ← String.append_assoc]
    rfl
  case hashed =>
    intro environment disk path hread
    have hhash := exists_hash_of_canonical environment hread
    rwa [harchive] at hhash

end Command

/-- Packing, and compiling with no directory to write into, emit canonical blobs, whatever the
schedule.  If such a run succeeds, then the blob it emits, into a file or as output, is what is
sealed again when it is read, it holds the packed or compiled files by name and none of them is
missing, and the digest that is announced is the one that is printed for the blob.  The compiled
files are the results of the files of the input, each once.  Nothing has been printed when a run
starts, but there may be notices of a log file that has been started. -/
theorem emitted_blob_canonical (scheduler : Batch.Scheduler) (environment : Environment)
    (console : Console) (hdisk : console.disk.WellFormed) (houtput : console.output = "") :
    (∀ directory output hidden packed,
      performAtUnder scheduler environment (.pack directory output hidden) console =
        (.ok (), packed) →
      ∃ files blob hash, Tree.read console.disk directory hidden = .ok files ∧
        Command.Emits "Packed " files output packed blob hash) ∧
    ∀ input output config hidden after,
      performAtUnder scheduler environment
        (.compile input (.ofOutput output) config hidden) console = (.ok (), after) →
      ∃ settings overrides archive compiled blob hash,
        Command.Prepares console.disk environment.userDirectory config input hidden settings
          overrides archive ∧
        (compiled.map .value).Perm
          (Batch.fileOutcomes settings.standardPlugins overrides archive.files) ∧
        Command.Emits "Compiled " compiled output after blob hash := by
  constructor
  · intro directory output hidden packed hpack
    obtain ⟨files, delivered, hread, hvalid, hwrite, rfl⟩ :=
      Command.ends_pack_steps_iff.mp hpack
    exact ⟨files, _, _, hread, Command.emits_of_ends_writeBlob hwrite hvalid hdisk houtput⟩
  · intro input output config hidden after hcompile
    obtain ⟨settings, overrides, archive, compiled, delivered, hprepares, hcompiled, hdeliver,
      rfl⟩ := Command.ends_compileUnder_iff.mp hcompile
    obtain ⟨hvalid, hwrite⟩ := Command.ends_deliver_output_iff.mp hdeliver
    exact ⟨settings, overrides, archive, compiled, _, _, hprepares, hcompiled.perm,
      Command.emits_of_ends_writeBlob hwrite hvalid hdisk houtput⟩

/-- A disk with a directory of two files. -/
def pairDisk : Disk where
  entries := [([ofString "d"], .directory), ([ofString "d", ofString "b"], .file (Text.bytes "2")),
    ([ofString "d", ofString "a"], .file (Text.bytes "1"))]

/-- The two files are packed into a file, and compiled to the output. -/
theorem emitted_blob_canonical_pair : ∃ packed after blob hash compiled compiledBlob compiledHash,
    pairDisk.WellFormed ∧
    performAtUnder .own ⟨none, []⟩ (.pack (ofString "d") (some (ofString "p")) false)
      { disk := pairDisk } = (.ok (), packed) ∧
    Command.Emits "Packed " [⟨"a", "1"⟩, ⟨"b", "2"⟩] (some (ofString "p")) packed blob hash ∧
    performAtUnder .own ⟨none, []⟩ (.compile (ofString "d") (.ofOutput none) none false)
      { disk := pairDisk } = (.ok (), after) ∧
    Command.Emits "Compiled " compiled none after compiledBlob compiledHash := by
  have hdisk : pairDisk.WellFormed := by decide
  have hroot : pairDisk.resolve .target (ofString "d") =
      .ok ⟨[ofString "d"], some .directory⟩ := by decide +kernel
  have hbelow : pairDisk.below [ofString "d"] =
      [([ofString "a"], .file (Text.bytes "1")), ([ofString "b"], .file (Text.bytes "2"))] :=
    Order.sortByKey_eq_of_ascending Prod.fst (by decide +kernel) (by decide)
  have hread : Tree.read pairDisk (ofString "d") false = .ok [⟨"a", "1"⟩, ⟨"b", "2"⟩] := by
    rw [Tree.read_of_directory hroot, Tree.regularFiles, hbelow]
    decide +kernel
  have hvalid : Blob.validate [⟨"a", "1"⟩, ⟨"b", "2"⟩] = .ok () := by decide
  have hsorted : FileSet.sorted [⟨"a", "1"⟩, ⟨"b", "2"⟩] = [⟨"a", "1"⟩, ⟨"b", "2"⟩] :=
    Order.sortByKey_eq_of_ascending File.name (by decide) (by decide)
  have hwrite : pairDisk.write (ofString "p") (Text.bytes (Blob.encode [⟨"a", "1"⟩, ⟨"b", "2"⟩])) =
      .ok (pairDisk.put [ofString "p"] (.file (Text.bytes "a\x001\x00\x00b\x002"))) := by
    rw [Blob.encode, hsorted]
    decide +kernel
  obtain ⟨packed, hpack⟩ : ∃ packed, performAtUnder .own ⟨none, []⟩
      (.pack (ofString "d") (some (ofString "p")) false) { disk := pairDisk } = (.ok (), packed) :=
    ⟨_, Command.ends_pack_steps_iff.mpr ⟨_, _, hread, hvalid,
      Command.ends_writeBlob_iff.mpr ⟨_, hwrite, rfl⟩, rfl⟩⟩
  have hprepares : Command.Prepares pairDisk none none (ofString "d") false {}
      (Config.inlineOverrides {}) (Archive.ofFiles [⟨"a", "1"⟩, ⟨"b", "2"⟩]) := by
    refine ⟨by decide +kernel, Config.overrides_of_inline {} _ rfl, ?_⟩
    rw [Command.SourceOf, if_pos (by decide +kernel)]
    exact ⟨_, hread, rfl⟩
  have hcompiles : Batch.Scheduler.own.Compiles (Config.standardPlugins {})
      (Config.inlineOverrides {}) [⟨"a", "1"⟩, ⟨"b", "2"⟩] [⟨"a", "1"⟩, ⟨"b", "2"⟩] :=
    Batch.outcome_of_instant (by decide +kernel) (by decide +kernel)
  obtain ⟨after, hcompile⟩ : ∃ after, performAtUnder .own ⟨none, []⟩
      (.compile (ofString "d") (.ofOutput none) none false) { disk := pairDisk } =
        (.ok (), after) :=
    ⟨_, Command.ends_compileUnder_iff.mpr ⟨_, _, _, _, _, hprepares, hcompiles,
      Command.ends_deliver_output_iff.mpr ⟨hvalid, Command.ends_print_blob_iff.mpr rfl⟩, rfl⟩⟩
  obtain ⟨hpacked, hcompiled⟩ :=
    emitted_blob_canonical .own ⟨none, []⟩ { disk := pairDisk } hdisk rfl
  obtain ⟨files, blob, hash, hfiles, hemits⟩ := hpacked _ _ _ _ hpack
  obtain rfl := Except.ok.inj (hread.symm.trans hfiles)
  obtain ⟨_, _, _, compiled, compiledBlob, compiledHash, -, -, hemitted⟩ :=
    hcompiled _ none _ _ _ hcompile
  exact ⟨packed, after, blob, hash, compiled, compiledBlob, compiledHash, hdisk, hpack, hemits,
    hcompile, hemitted⟩

end Assets
