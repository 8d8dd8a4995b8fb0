import Assets.Proofs.Tree.Contents
import Assets.Proofs.Tree.Reading

/-!
# Writing a file set and reading it again

What has been written into an empty directory is read from it again: each file under its cleaned
name, without the files that have no content, in the order of the walk.  If files with different
names go to one place, the last one is read (`mem_read_write`); if all of them go to different
places, every file is (`read_write_perm`).

The writing and the walk meet at the paths of the files.  The walk joins the names that it passes,
one by one, and so comes to the destination that the file was written to (`joinAll_reduced`).
-/

namespace Assets

open Assets.Path

/-- A file under its cleaned name. -/
def File.cleaned (file : File) : File := ⟨cleanName file.name, file.content⟩

namespace Disk

variable {disk : Disk} {root : Path} {base names : Location}

/-- A path leads to a directory with nothing in it. -/
def IsEmptyDirectory (disk : Disk) (path : Path) : Prop :=
  ∃ base, disk.resolve .target path = .ok ⟨base, some .directory⟩ ∧ disk.below base = []

namespace IsEmptyDirectory

theorem exists_leadsTo (h : disk.IsEmptyDirectory root) : ∃ base, disk.LeadsTo root base := by
  obtain ⟨base, hresolve, -⟩ := h
  exact ⟨base, leadsTo_of_resolve hresolve⟩

theorem resolve (h : disk.IsEmptyDirectory root) (hbase : disk.LeadsTo root base) :
    disk.resolve .target root = .ok ⟨base, some .directory⟩ := by
  obtain ⟨other, hresolve, -⟩ := h
  rwa [hbase.unique (leadsTo_of_resolve hresolve)]

theorem find?_eq_directory (h : disk.IsEmptyDirectory root) (hbase : disk.LeadsTo root base) :
    disk.find? base = some .directory :=
  (entry_of_walk (resolve_eq_ok_iff.mp (h.resolve hbase)).2).symm

theorem find?_append (h : disk.IsEmptyDirectory root) (hbase : disk.LeadsTo root base)
    (hnames : names ≠ []) :
    disk.find? (base ++ names) = none := by
  obtain ⟨other, hresolve, hempty⟩ := h
  obtain rfl := hbase.unique (leadsTo_of_resolve hresolve)
  rw [Option.eq_none_iff_forall_ne_some]
  intro entry hentry
  have hmem := Tree.mem_below.mpr ⟨hnames, hentry⟩
  simp [hempty] at hmem

theorem fileAt?_append (h : disk.IsEmptyDirectory root) (hbase : disk.LeadsTo root base)
    (names : Location) : disk.fileAt? (base ++ names) = none := by
  by_cases hnames : names = []
  · rw [hnames, List.append_nil, fileAt?, h.find?_eq_directory hbase]
  · exact fileAt?_of_find?_eq_none (h.find?_append hbase hnames)

theorem linkFree (h : disk.IsEmptyDirectory root) : disk.LinkFree root := by
  intro base hbase location target hbelow hlink
  obtain ⟨names, hnames, rfl⟩ := isBelow_iff.mp hbelow
  rw [h.find?_append hbase hnames] at hlink
  cases hlink

theorem singlyNamed (h : disk.IsEmptyDirectory root) (hdisk : disk.WellFormed) :
    disk.SinglyNamed root := by
  rintro base hbase _ other hsame ⟨names, rfl⟩ -
  exact hdisk.eq_of_sameFile hsame (h.fileAt?_append hbase names)

end IsEmptyDirectory

end Disk

namespace Tree

open Disk

variable {disk : Disk} {root path : Path} {base names : Location} {file : File} {files : FileSet}

theorem joinAll_reduced {name : String} (hpath : destination? root name = some path)
    (hne : reduced name ≠ []) : joinAll root (reduced name) = path := by
  have hnames : ∀ part ∈ reduced name, IsName part := fun _ => isName_of_mem_reduced
  rw [destination?_eq_some hpath, spell, if_neg hne]
  exact joinAll_eq_join hne (fun part hpart => (hnames part hpart).ne_nil)
    (fun part hpart => (hnames part hpart).slash_notMem) root

section RoundTrip

variable (hdisk : disk.WellFormed) (hroot : disk.IsEmptyDirectory root)
  (h : (write disk root files).result = .ok ())

include hdisk hroot h

theorem fileAt?_write_of_empty (hbase : disk.LeadsTo root base) (names : Location) :
    (write disk root files).disk.fileAt? (base ++ names) =
      (lastAt? files names).map fun file => Text.bytes file.content := by
  rw [fileAt?_write hdisk hroot.linkFree (hroot.singlyNamed hdisk) h hbase,
    hroot.fileAt?_append hbase, Option.or_none]

/-- No file takes the place of the directory itself. -/
theorem reduced_ne_nil (hfile : file ∈ files) : reduced file.name ≠ [] := by
  intro hnil
  obtain ⟨base, hbase⟩ := hroot.exists_leadsTo
  obtain ⟨last, hlast⟩ := exists_lastAt? hfile
  have hcontent := fileAt?_write hdisk hroot.linkFree (hroot.singlyNamed hdisk) h hbase
    (reduced file.name)
  rw [hlast, Option.map_some, Option.some_or, fileAt?_eq_some_iff, hnil, List.append_nil]
    at hcontent
  rw [((confined_write files hdisk hroot.linkFree).grows.entry base).directory
    (hroot.find?_eq_directory hbase)] at hcontent
  cases hcontent

theorem read_joinAll (hlast : lastAt? files names = some file) :
    (write disk root files).disk.read (joinAll root names) = .ok (Text.bytes file.content) := by
  obtain ⟨hfile, rfl⟩ := of_lastAt?_eq_some hlast
  obtain ⟨path, hpath⟩ := exists_destination h hfile
  rw [joinAll_reduced hpath (reduced_ne_nil hdisk hroot h hfile)]
  exact read_destination hdisk hroot.linkFree (hroot.singlyNamed hdisk) h hfile hlast hpath

theorem foundAt?_write (hlast : lastAt? files names = some file) {other : File} :
    foundAt? (write disk root files).disk root names = some other ↔
      file.content ≠ "" ∧ other = file.cleaned := by
  rw [foundAt?_eq_some_iff, read_joinAll hdisk hroot h hlast, Except.ok.injEq, Text.bytes_inj]
  obtain ⟨hfile, rfl⟩ := of_lastAt?_eq_some hlast
  rw [← ofString_cleanName, ofString, ofString, Text.bytes_inj]
  obtain ⟨name, content⟩ := other
  rw [File.cleaned, File.mk.injEq]
  constructor
  · rintro ⟨hname, rfl, hcontent⟩
    exact ⟨hcontent, hname, rfl⟩
  · rintro ⟨hcontent, hname, rfl⟩
    exact ⟨hname, rfl, hcontent⟩

/-- The files that a walk meets are those that have been written. -/
theorem mem_regularFiles_write (hbase : disk.LeadsTo root base) :
    names ∈ regularFiles (write disk root files).disk base true ↔
      ∃ file, lastAt? files names = some file := by
  have hwell := (confined_write files hdisk hroot.linkFree).wellFormed
  rw [mem_regularFiles]
  constructor
  · rintro ⟨hne, -, content, hcontent⟩
    rw [fileAt?_write_of_empty hdisk hroot h hbase, Option.map_eq_some_iff] at hcontent
    obtain ⟨file, hlast, -⟩ := hcontent
    exact ⟨file, hlast⟩
  · rintro ⟨file, hlast⟩
    obtain ⟨hfile, rfl⟩ := of_lastAt?_eq_some hlast
    have hne := reduced_ne_nil hdisk hroot h hfile
    rw [fileAt?_write_of_empty hdisk hroot h hbase, hlast]
    exact ⟨hne, .inl rfl, _, rfl⟩

/-- Reading the directory finds, wherever files were written, the last one of them. -/
theorem mem_read_write :
    ∃ found, read (write disk root files).disk root true = .ok found ∧
      ∀ other, other ∈ found ↔ ∃ file, lastAt? files (reduced file.name) = some file ∧
        file.content ≠ "" ∧ other = file.cleaned := by
  have hgrows := (confined_write files hdisk hroot.linkFree).grows
  obtain ⟨base, hbase⟩ := hroot.exists_leadsTo
  have hstart : start (write disk root files).disk root true =
      .ok (regularFiles (write disk root files).disk base true) := by
    have hresolve := resolve_of_grows hgrows (hroot.resolve hbase) (by simp)
    rw [(hgrows.entry base).directory (hroot.find?_eq_directory hbase)] at hresolve
    exact start_of_directory hresolve true
  have hvisits : ∀ names ∈ regularFiles (write disk root files).disk base true,
      ∃ finding, visit (write disk root files).disk root names = .ok finding := by
    intro names hmem
    obtain ⟨file, hlast⟩ := (mem_regularFiles_write hdisk hroot h hbase).mp hmem
    exact exists_visit_of_read (read_joinAll hdisk hroot h hlast)
  refine ⟨_, read_eq_ok_iff.mpr ⟨_, hstart, hvisits, rfl⟩, fun other => ?_⟩
  rw [List.mem_filterMap]
  constructor
  · rintro ⟨names, hmem, hfound⟩
    obtain ⟨file, hlast⟩ := (mem_regularFiles_write hdisk hroot h hbase).mp hmem
    rw [foundAt?_write hdisk hroot h hlast] at hfound
    obtain ⟨-, rfl⟩ := of_lastAt?_eq_some hlast
    exact ⟨file, hlast, hfound⟩
  · rintro ⟨file, hlast, hfound⟩
    exact ⟨reduced file.name, (mem_regularFiles_write hdisk hroot h hbase).mpr ⟨file, hlast⟩,
      (foundAt?_write hdisk hroot h hlast).mpr hfound⟩

omit h in
/-- Files that were there before are left as they are, since none of them is in the directory. -/
theorem find?_write_of_file {location : Location} {content : List UInt8} (files : FileSet)
    (hfile : disk.find? location = some (.file content)) :
    (write disk root files).disk.find? location = some (.file content) := by
  rcases (confined_write files hdisk hroot.linkFree).entry location with
    hsame | ⟨_, hsame, base, hbase, names, rfl⟩ | ⟨⟨hmissing, -⟩, -⟩
  · rw [hsame, hfile]
  · have hnone := hroot.fileAt?_append hbase names
    rw [hdisk.eq_of_sameFile hsame hnone] at hfile
    rw [fileAt?_eq_some_iff.mpr hfile] at hnone
    cases hnone
  · rw [hmissing] at hfile
    cases hfile

end RoundTrip

/-! ## Sets whose files go to different places -/

theorem lastAt?_of_pairwise (h : files.Pairwise fun a b => reduced a.name ≠ reduced b.name)
    (hfile : file ∈ files) : lastAt? files (reduced file.name) = some file := by
  obtain ⟨last, hlast⟩ := exists_lastAt? hfile
  obtain ⟨hmem, hreduced⟩ := of_lastAt?_eq_some hlast
  rw [hlast, List.inj_on_of_nodup_map (List.pairwise_map.mpr h) hmem hfile hreduced]

theorem nodup_cleaned (h : files.Pairwise fun a b => reduced a.name ≠ reduced b.name) :
    (files.map File.cleaned).Nodup := by
  refine List.pairwise_map.mpr (h.imp fun {a b} hne hsame => hne ?_)
  have hname : cleanName a.name = cleanName b.name := congrArg File.name hsame
  have hnames : ∀ other : File, ∀ part ∈ reduced other.name, IsName part :=
    fun _ _ => isName_of_mem_reduced
  -- the names that a cleaned name leads through are those that the name leads through
  rw [← reduced_of_isName (hnames a) (ofString_cleanName a.name), hname,
    reduced_of_isName (hnames b) (ofString_cleanName b.name)]

theorem nodup_of_read {hidden : Bool} (hdisk : disk.WellFormed)
    (h : read disk root hidden = .ok files) : files.Nodup := by
  exact (Order.nodup_map_of_ascending _ (pairwise_read hdisk h)).of_map

/-- Reading the directory gives exactly the files that have some content, each under its cleaned
name. -/
theorem exists_perm_read_write (hdisk : disk.WellFormed) (hroot : disk.IsEmptyDirectory root)
    (h : (write disk root files).result = .ok ())
    (hdistinct : files.Pairwise fun a b => reduced a.name ≠ reduced b.name) :
    ∃ found, read (write disk root files).disk root true = .ok found ∧
      found.Perm ((files.filter (·.content ≠ "")).map File.cleaned) := by
  have hwell := (confined_write files hdisk hroot.linkFree).wellFormed
  obtain ⟨found, hread, hmem⟩ := mem_read_write hdisk hroot h
  refine ⟨found, hread, ?_⟩
  rw [List.perm_ext_iff_of_nodup (nodup_of_read hwell hread) (nodup_cleaned (hdistinct.filter _))]
  intro other
  rw [hmem, List.mem_map]
  constructor
  · rintro ⟨file, hlast, hcontent, rfl⟩
    exact ⟨file, List.mem_filter.mpr ⟨(of_lastAt?_eq_some hlast).1, by simpa using hcontent⟩, rfl⟩
  · rintro ⟨file, hfile, rfl⟩
    rw [List.mem_filter] at hfile
    exact ⟨file, lastAt?_of_pairwise hdistinct hfile.1, by simpa using hfile.2, rfl⟩

/-- A file set whose files have different destinations is read from the directory that it has been
written into, each file with some content under its cleaned name, and nothing else. -/
theorem read_write_perm (disk : Disk) (root : Path) (files : FileSet) (hdisk : disk.WellFormed)
    (hroot : disk.IsEmptyDirectory root)
    (hdistinct : files.Pairwise fun a b => destination? root a.name ≠ destination? root b.name)
    (h : (write disk root files).result = .ok ()) :
    ∃ found, read (write disk root files).disk root true = .ok found ∧
      found.Perm ((files.filter (·.content ≠ "")).map File.cleaned) := by
  refine exists_perm_read_write hdisk hroot h (hdistinct.imp_of_mem fun ha hb hne hsame => hne ?_)
  obtain ⟨path, hpath⟩ := exists_destination h ha
  obtain ⟨path', hpath'⟩ := exists_destination h hb
  rw [hpath, hpath', (destination?_eq_iff hpath hpath').mpr hsame]

/-- A disk with one directory. -/
def bareDisk : Disk where
  entries := [([ofString "out"], .directory)]

/-- Files whose names are not clean, the last one without content. -/
def dottedFiles : FileSet := [⟨"a//./b", "1"⟩, ⟨"x/../c", "2"⟩, ⟨"a/e", ""⟩]

theorem read_write_perm_dotted :
    bareDisk.WellFormed ∧ bareDisk.IsEmptyDirectory (ofString "out") ∧
    (dottedFiles.Pairwise fun a b =>
      destination? (ofString "out") a.name ≠ destination? (ofString "out") b.name) ∧
    (write bareDisk (ofString "out") dottedFiles).result = .ok () ∧
    ∃ found, read (write bareDisk (ofString "out") dottedFiles).disk (ofString "out") true =
      .ok found ∧ found.Perm [⟨"a/b", "1"⟩, ⟨"c", "2"⟩] := by
  have hdisk : bareDisk.WellFormed := by decide
  have hresolve : bareDisk.resolve .target (ofString "out") =
      .ok ⟨[ofString "out"], some .directory⟩ := by decide +kernel
  have hroot : bareDisk.IsEmptyDirectory (ofString "out") := ⟨_, hresolve, by decide +kernel⟩
  have hdistinct : dottedFiles.Pairwise fun a b =>
      destination? (ofString "out") a.name ≠ destination? (ofString "out") b.name := by decide
  have hwrite : (write bareDisk (ofString "out") dottedFiles).result = .ok () := by decide +kernel
  have hcleaned : (dottedFiles.filter (·.content ≠ "")).map File.cleaned =
      [⟨"a/b", "1"⟩, ⟨"c", "2"⟩] := by decide
  obtain ⟨found, hread, hperm⟩ :=
    read_write_perm bareDisk (ofString "out") dottedFiles hdisk hroot hdistinct hwrite
  exact ⟨hdisk, hroot, hdistinct, hwrite, found, hread, hcleaned ▸ hperm⟩

end Tree

end Assets
