import Assets.Program
import Assets.Proofs.Blob.Canonical
import Assets.Proofs.Command.Ending
import Assets.Proofs.Tree.RoundTrip

/-!
# Packing a directory and unpacking the blob

A directory that is packed and unpacked again has the same files, and the blob has one hash
throughout (`pack_unpack`).  On the way the files are sorted by their names as texts, while a walk
takes them name by name, part by part; the two orders differ (`a.b` and `a/b`).  That the second
walk gives the files in the order of the first one rests on `pairwise_read`: the order of a walk is
strict, and so determined by the files.

Nothing is asked of the directory.  What a walk skips is not packed, what cannot be stored keeps
the packing from succeeding, and names that a walk finds are clean, so that unpacking leaves them
as they are (`read_write_sorted`).
-/

namespace Assets

open Assets.Path

namespace Tree

open Disk

variable {disk packed : Disk} {directory out : Path} {hidden : Bool} {files : FileSet}

/-- What has been read from one directory and written into another one is read from that. -/
theorem read_write_sorted (hdisk : disk.WellFormed) (hread : read disk directory hidden = .ok files)
    (hpacked : packed.WellFormed) (hout : packed.IsEmptyDirectory out)
    (hwrite : (write packed out files.sorted).result = .ok ()) :
    read (write packed out files.sorted).disk out true = .ok files := by
  have hperm : files.sorted.Perm files := Blob.perm_sorted files
  have hdistinct : files.sorted.Pairwise fun a b => reduced a.name ≠ reduced b.name := by
    refine hperm.symm.pairwise ((pairwise_read hdisk hread).imp ?_) fun h => Ne.symm h
    intro a b hlt hsame
    exact Std.lt_irrefl (hsame ▸ hlt)
  obtain ⟨found, hfound, hcleaned⟩ := exists_perm_read_write hpacked hout hwrite hdistinct
  have hkept : files.sorted.filter (·.content ≠ "") = files.sorted := by
    rw [List.filter_eq_self]
    intro file hfile
    simpa using (of_mem_read hdisk hread (hperm.mem_iff.mp hfile)).2
  have hclean : files.sorted.map File.cleaned = files.sorted := by
    refine (List.map_congr_left fun file hfile => ?_).trans (List.map_id _)
    have hname := (of_mem_read hdisk hread (hperm.mem_iff.mp hfile)).1
    rw [File.cleaned, hname, id]
  rw [hkept, hclean] at hcleaned
  have hwell := (confined_write files.sorted hpacked hout.linkFree).wellFormed
  rw [hfound, Order.eq_of_perm_of_ascending _ (hcleaned.trans hperm) (pairwise_read hwell hfound)
    (pairwise_read hdisk hread)]

end Tree

open Disk Program

/-- A directory that is packed into a blob and unpacked into an empty directory is read from it as
it was read for the packing: the same files in the same order.  Packing, unpacking and hashing the
blob tell one hash, before the unpacking and after it. -/
theorem pack_unpack (environment : Environment) (disk : Disk) (directory blob out : Path)
    (hidden : Bool) (packed unpacked : Console) (hdisk : disk.WellFormed)
    (hpack : performAt environment (.pack directory (some blob) hidden) { disk } =
      (.ok (), packed))
    (hout : packed.disk.IsEmptyDirectory out)
    (hunpack : performAt environment (.unpack blob out) { disk := packed.disk } =
      (.ok (), unpacked)) :
    ∃ files hash,
      Tree.read disk directory hidden = .ok files ∧
      Tree.read unpacked.disk out true = .ok files ∧
      packed.notices.getLast? = some (.status .success
        ("Packed " ++ toString files.length ++ " files (" ++ hash ++ ")")) ∧
      unpacked.notices.getLast? = some (.status .success
        ("Unpacked " ++ toString files.length ++ " files into " ++ out.toShown ++
          " (" ++ hash ++ ")")) ∧
      ∀ later ∈ [packed.disk, unpacked.disk], ∃ hashed,
        performAt environment (.hash blob) { disk := later } = (.ok (), hashed) ∧
          hashed.output = hash ++ "\n" := by
  obtain ⟨files, written, hread, hvalid, hwrite, rfl⟩ := Command.ends_pack_iff.mp hpack
  obtain ⟨text, htext, hunpacked, rfl⟩ := Command.ends_unpack_iff.mp hunpack
  dsimp only at hout htext hunpacked ⊢
  have hpacked : written.WellFormed := wellFormed_of_write hdisk hwrite
  have hgrows : written.Grows (Tree.write written out (Blob.decode text)).disk :=
    (Tree.confined_write _ hpacked hout.linkFree).grows
  obtain ⟨location, hfile, hblob⟩ := exists_location_of_write hdisk hwrite
  have hbefore : written.readText blob = .ok (Blob.encode files) :=
    readText_of_read (hblob written (.refl written) hfile)
  obtain rfl : Blob.encode files = text := Except.ok.inj (hbefore.symm.trans htext)
  have hafter : (Tree.write written out (Blob.decode (Blob.encode files))).disk.readText blob =
      .ok (Blob.encode files) :=
    readText_of_read (hblob _ hgrows (Tree.find?_write_of_file hpacked hout _ hfile))
  have harchive : Archive.ofBlob (Blob.encode files) =
      ⟨files.sorted, Blob.encode files, digest (Blob.encode files)⟩ :=
    Blob.ofBlob_encode (Blob.validate_eq_ok_iff.mp hvalid)
  have hdecode : Blob.decode (Blob.encode files) = files.sorted := congrArg Archive.files harchive
  have hlength : files.sorted.length = files.length := (Blob.perm_sorted files).length_eq
  refine ⟨files, digest (Blob.encode files), hread, ?_, ?_, ?_, ?_⟩
  · rw [hdecode] at hunpacked ⊢
    exact Tree.read_write_sorted hdisk hread hpacked hout hunpacked
  · rw [List.getLast?_concat]
    rfl
  · rw [List.getLast?_concat, hdecode, hlength, harchive]
  · intro later hlater
    have htext : later.readText blob = .ok (Blob.encode files) := by
      rcases List.mem_pair.mp hlater with rfl | rfl
      · exact hbefore
      · exact hafter
    refine ⟨_, Command.ends_hash_iff.mpr ⟨_, htext, rfl⟩, ?_⟩
    rw [harchive, String.empty_append]

/-- A directory with two files whose order depends on whether their names are compared as texts or
part by part, and with a hidden file, an empty one, one that is not text and a link. -/
def mixedDisk : Disk where
  entries := [([ofString "d"], .directory), ([ofString "d", ofString "a.b"], .file [0x31]),
    ([ofString "d", ofString "a"], .directory),
    ([ofString "d", ofString "a", ofString "b"], .file [0x32]),
    ([ofString "d", ofString ".h"], .file [0x33]), ([ofString "d", ofString "e"], .file []),
    ([ofString "d", ofString "x"], .file [0xff]),
    ([ofString "d", ofString "l"], .link (ofString "a")), ([ofString "out"], .directory)]

theorem pack_unpack_mixed : ∃ packed unpacked hash,
    mixedDisk.WellFormed ∧
    performAt ⟨none, []⟩ (.pack (ofString "d") (some (ofString "b")) false) { disk := mixedDisk } =
      (.ok (), packed) ∧
    packed.disk.IsEmptyDirectory (ofString "out") ∧
    performAt ⟨none, []⟩ (.unpack (ofString "b") (ofString "out")) { disk := packed.disk } =
      (.ok (), unpacked) ∧
    Tree.read mixedDisk (ofString "d") false = .ok [⟨"a/b", "2"⟩, ⟨"a.b", "1"⟩] ∧
    Tree.read unpacked.disk (ofString "out") true = .ok [⟨"a/b", "2"⟩, ⟨"a.b", "1"⟩] ∧
    packed.notices.getLast? = some (.status .success ("Packed 2 files (" ++ hash ++ ")")) := by
  have hdisk : mixedDisk.WellFormed := by decide
  have hdirectory : mixedDisk.resolve .target (ofString "d") =
      .ok ⟨[ofString "d"], some .directory⟩ := by decide +kernel
  have hbelow : mixedDisk.below [ofString "d"] =
      [([ofString ".h"], .file [0x33]), ([ofString "a"], .directory),
        ([ofString "a", ofString "b"], .file [0x32]), ([ofString "a.b"], .file [0x31]),
        ([ofString "e"], .file []), ([ofString "l"], .link (ofString "a")),
        ([ofString "x"], .file [0xff])] :=
    Order.sortByKey_eq_of_ascending Prod.fst (by decide +kernel) (by decide)
  have hread : Tree.read mixedDisk (ofString "d") false = .ok [⟨"a/b", "2"⟩, ⟨"a.b", "1"⟩] := by
    rw [Tree.read_of_directory hdirectory, Tree.regularFiles, hbelow]
    decide +kernel
  have hvalid : Blob.validate [⟨"a/b", "2"⟩, ⟨"a.b", "1"⟩] = .ok () := by decide
  have hsorted : FileSet.sorted [⟨"a/b", "2"⟩, ⟨"a.b", "1"⟩] = [⟨"a.b", "1"⟩, ⟨"a/b", "2"⟩] :=
    Order.sortByKey_eq_of_ascending File.name (by decide) (by decide)
  have hwrite : mixedDisk.write (ofString "b")
      (Text.bytes (Blob.encode [⟨"a/b", "2"⟩, ⟨"a.b", "1"⟩])) =
      .ok (mixedDisk.put [ofString "b"] (.file (Text.bytes "a.b\x001\x00\x00a/b\x002"))) := by
    rw [Blob.encode, hsorted]
    decide +kernel
  generalize hlater : mixedDisk.put [ofString "b"] (.file (Text.bytes "a.b\x001\x00\x00a/b\x002")) =
    later at hwrite
  have hpack : performAt ⟨none, []⟩ (.pack (ofString "d") (some (ofString "b")) false)
      { disk := mixedDisk } = (.ok (), { disk := later, notices := _ }) :=
    Command.ends_pack_iff.mpr ⟨_, _, hread, hvalid, hwrite, rfl⟩
  have hresolve : later.resolve .target (ofString "out") =
      .ok ⟨[ofString "out"], some .directory⟩ := by
    subst hlater
    decide +kernel
  have hempty : later.below [ofString "out"] = [] := by
    subst hlater
    decide +kernel
  have htext : later.readText (ofString "b") = .ok "a.b\x001\x00\x00a/b\x002" := by
    subst hlater
    decide +kernel
  have hresult : (Tree.write later (ofString "out")
      (Blob.decode "a.b\x001\x00\x00a/b\x002")).result = .ok () := by
    subst hlater
    decide +kernel
  have hroot : later.IsEmptyDirectory (ofString "out") := ⟨_, hresolve, hempty⟩
  obtain ⟨unpacked, hunpack, -⟩ := Command.exists_ends_unpack htext hresult
  obtain ⟨files, hash, hfiles, hout, hpacked, -⟩ :=
    pack_unpack ⟨none, []⟩ mixedDisk _ _ _ _ _ unpacked hdisk hpack hroot hunpack
  obtain rfl := Except.ok.inj (hread.symm.trans hfiles)
  exact ⟨_, unpacked, hash, hdisk, hpack, hroot, hunpack, hread, hout, hpacked⟩

end Assets
