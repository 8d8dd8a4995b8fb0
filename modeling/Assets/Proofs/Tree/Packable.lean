import Assets.Proofs.FileSet.Names
import Assets.Proofs.Path.Escaping
import Assets.Proofs.Tree.Frame

/-!
# The files of a directory that a set can hold

A file can be in a set if its path is text, and if its content is text that is not empty.  Reading a
directory in which everything can be read finds exactly these files (`mem_found_iff`).

* The walk leaves out hidden entries with all that is below them, and it takes a name that is not
  text for one that is shown.  Neither tells in the end: a path that is text has texts as its names
  (`exists_text_of_mem_split`), so that a file that is found is hidden exactly if some name on the
  way to it starts with a dot (`any_isHidden_eq_any_startsWithDot`).
* Files are met by location and read by path, and the path of a file that is met leads to the file
  itself (`content_of_read`), past all links.
* Walks with and without the hidden entries meet the same files otherwise, in the same order
  (`regularFiles_shown`).
-/

namespace Assets

open Assets.Path

namespace Path

def startsWithDot (name : Name) : Bool := name.head? == some dot

/-- The names of a path that is text are texts. -/
theorem exists_text_of_mem_split {name : String} {part : Name}
    (h : part ∈ (ofString name).split) : ∃ text, part = Text.bytes text := by
  rw [split_ofString, List.mem_map] at h
  obtain ⟨cs, -, rfl⟩ := h
  exact ⟨String.ofList cs, (Text.bytes_ofList cs).symm⟩

end Path

namespace Tree

open Disk

variable {disk : Disk} {root : Path} {base names : Location} {file : File} {files : FileSet}
  {hidden : Bool}

/-- The regular files below a directory can be read, each through the path that a walk takes to
it. -/
def Readable (disk : Disk) (root : Path) (base : Location) : Prop :=
  ∀ names content, names ≠ [] → disk.find? (base ++ names) = some (.file content) →
    ∃ found, disk.read (joinAll root names) = .ok found

/-- A file lies below a directory under the path that its name spells, with its content, and this is
not empty. -/
structure LiesBelow (disk : Disk) (base : Location) (file : File) (names : Location) : Prop where
  ne_nil : names ≠ []
  name : ofString file.name = pathOf names
  find : disk.find? (base ++ names) = some (.file (Text.bytes file.content))
  content : file.content ≠ ""

/-! ## Names -/

theorem isName_of_find? (hdisk : disk.WellFormed) {entry : Entry}
    (h : disk.find? (base ++ names) = some entry) : ∀ name ∈ names, IsName name :=
  fun name hname => hdisk.isName (by rw [h]; rfl) name (List.mem_append_right base hname)

theorem split_of_name (hne : names ≠ []) (hnames : ∀ name ∈ names, IsName name)
    (h : ofString file.name = pathOf names) : (ofString file.name).split = names := by
  rw [h, split_pathOf hne fun name hname => (hnames name hname).slash_notMem]

/-- If a path is text, its hidden names are those that start with a dot. -/
theorem any_isHidden_eq_any_startsWithDot (hsplit : (ofString file.name).split = names) :
    names.any isHidden = names.any startsWithDot := by
  have hsame : ∀ name ∈ names, isHidden name = startsWithDot name := by
    intro name hname
    obtain ⟨text, rfl⟩ := exists_text_of_mem_split (hsplit ▸ hname)
    simp [isHidden, startsWithDot, Text.ofBytes?_bytes]
  rw [Bool.eq_iff_iff, List.any_eq_true, List.any_eq_true]
  exact exists_congr fun name => and_congr_right fun hname => by rw [hsame name hname]

theorem LiesBelow.split (hdisk : disk.WellFormed) (h : LiesBelow disk base file names) :
    (ofString file.name).split = names :=
  split_of_name h.ne_nil (isName_of_find? hdisk h.find) h.name

theorem LiesBelow.reduced_eq (hdisk : disk.WellFormed) (h : LiesBelow disk base file names) :
    reduced file.name = (ofString file.name).split := by
  rw [reduced_of_isName (isName_of_find? hdisk h.find) h.name, h.split hdisk]

/-- A file that lies below a directory is accepted for any directory, as it is. -/
theorem LiesBelow.destination?_eq (hdisk : disk.WellFormed) (h : LiesBelow disk base file names)
    (root : Path) : destination? root file.name = some (root.join (ofString file.name)) := by
  have hnames := isName_of_find? hdisk h.find
  have hspell : spell (reduced file.name) = ofString file.name := by
    rw [reduced_of_isName hnames h.name, spell, if_neg h.ne_nil, h.name]
  rw [destination?_eq_some_iff, hspell, h.split hdisk, h.name]
  refine ⟨⟨?_, .of_isName hnames⟩, rfl⟩
  exact isAbsolute_pathOf (fun name hname => (hnames name hname).ne_nil)
    fun name hname => (hnames name hname).slash_notMem

/-! ## What a walk finds -/

/-- The walk without hidden entries meets those files of the walk with them that have none on their
way. -/
theorem regularFiles_shown (disk : Disk) (base : Location) :
    regularFiles disk base false =
      (regularFiles disk base true).filter fun names => !names.any isHidden := by
  unfold regularFiles
  rw [List.filter_filterMap]
  congr 1
  funext ⟨names, entry⟩
  cases entry with
  | file content => cases hhidden : names.any isHidden <;> simp [Option.filter, hhidden]
  | directory => rfl
  | link target => rfl

section Walk

variable (hdisk : disk.WellFormed)
  (hroot : disk.resolve .target root = .ok ⟨base, some .directory⟩)

include hdisk hroot

/-- What is read at a file below the directory is its content. -/
theorem content_of_read {content found : List UInt8} (hne : names ≠ [])
    (hfile : disk.find? (base ++ names) = some (.file content))
    (h : disk.read (joinAll root names) = .ok found) : found = content := by
  -- a walk that leaves nothing out meets the file
  have hmem : names ∈ regularFiles disk base true :=
    mem_regularFiles.mpr ⟨hne, .inl rfl, content, fileAt?_eq_some_iff.mpr hfile⟩
  obtain ⟨location, hresolve⟩ := exists_of_read h
  have hlocation := location_of_resolve_joinAll hdisk hroot hmem hresolve
  have hentry := entry_of_walk (resolve_eq_ok_iff.mp hresolve).2
  dsimp only at hlocation hentry
  rw [hlocation, hfile] at hentry
  cases hentry
  rfl

variable (hreadable : Readable disk root base)

include hreadable

theorem foundAt?_eq_some_iff_liesBelow (hmem : names ∈ regularFiles disk base hidden) :
    foundAt? disk root names = some file ↔ LiesBelow disk base file names := by
  obtain ⟨hne, -, content, hfile⟩ := mem_regularFiles.mp hmem
  rw [fileAt?_eq_some_iff] at hfile
  obtain ⟨found, hread⟩ := hreadable names content hne hfile
  obtain rfl := content_of_read hdisk hroot hne hfile hread
  rw [foundAt?_eq_some_iff, hread, Except.ok.injEq]
  constructor
  · rintro ⟨hname, rfl, hcontent⟩
    exact ⟨hne, hname, hfile, hcontent⟩
  · rintro ⟨-, hname, hfind, hcontent⟩
    rw [hfile] at hfind
    cases hfind
    exact ⟨hname, rfl, hcontent⟩

omit hdisk in
theorem read_eq_found (hidden : Bool) :
    read disk root hidden =
      .ok ((regularFiles disk base hidden).filterMap (foundAt? disk root)) := by
  refine read_eq_ok_iff.mpr ⟨_, start_of_directory hroot hidden, fun names hmem => ?_, rfl⟩
  obtain ⟨hne, -, content, hfile⟩ := mem_regularFiles.mp hmem
  obtain ⟨found, hread⟩ := hreadable names content hne (fileAt?_eq_some_iff.mp hfile)
  exact exists_visit_of_read hread

/-- The files that are found are those that lie below the directory, without the hidden ones unless
they are asked for. -/
theorem mem_found_iff :
    file ∈ (regularFiles disk base hidden).filterMap (foundAt? disk root) ↔
      ∃ names, LiesBelow disk base file names ∧
        (hidden = true ∨ names.any startsWithDot = false) := by
  rw [List.mem_filterMap]
  constructor
  · rintro ⟨names, hmem, hfound⟩
    have hbelow := (foundAt?_eq_some_iff_liesBelow hdisk hroot hreadable hmem).mp hfound
    refine ⟨names, hbelow, ?_⟩
    rw [← any_isHidden_eq_any_startsWithDot (hbelow.split hdisk)]
    exact (mem_regularFiles.mp hmem).2.1
  · rintro ⟨names, hbelow, hshown⟩
    rw [← any_isHidden_eq_any_startsWithDot (hbelow.split hdisk)] at hshown
    have hmem : names ∈ regularFiles disk base hidden :=
      mem_regularFiles.mpr ⟨hbelow.ne_nil, hshown, _, fileAt?_eq_some_iff.mpr hbelow.find⟩
    exact ⟨names, hmem, (foundAt?_eq_some_iff_liesBelow hdisk hroot hreadable hmem).mpr hbelow⟩

/-- Without the hidden entries the same files are found, but for those with a name on their way that
starts with a dot. -/
theorem found_shown :
    (regularFiles disk base false).filterMap (foundAt? disk root) =
      ((regularFiles disk base true).filterMap (foundAt? disk root)).filter fun file =>
        !(ofString file.name).split.any startsWithDot := by
  rw [regularFiles_shown, List.filterMap_filter, List.filter_filterMap]
  refine List.filterMap_congr fun names hmem => ?_
  cases hfound : foundAt? disk root names with
  | none => cases names.any isHidden <;> rfl
  | some file =>
      have hsplit :=
        ((foundAt?_eq_some_iff_liesBelow hdisk hroot hreadable hmem).mp hfound).split hdisk
      rw [any_isHidden_eq_any_startsWithDot hsplit, Option.filter_some, hsplit]

/-- The files that are found are in strictly ascending order of the names that lead to them. -/
theorem pairwise_found (hidden : Bool) :
    ((regularFiles disk base hidden).filterMap (foundAt? disk root)).Pairwise fun a b =>
      (ofString a.name).split < (ofString b.name).split := by
  have horder := pairwise_read hdisk (read_eq_found hroot hreadable hidden)
  refine horder.imp_of_mem fun ha hb hlt => ?_
  obtain ⟨_, hbelow, -⟩ := (mem_found_iff hdisk hroot hreadable).mp ha
  obtain ⟨_, hbelow', -⟩ := (mem_found_iff hdisk hroot hreadable).mp hb
  rwa [hbelow.reduced_eq hdisk, hbelow'.reduced_eq hdisk] at hlt

end Walk

/-- **The files that a directory holds.**  Let a path lead to a directory in which everything can be
read.  Then reading it succeeds and finds one file for each regular file below the directory itself,
past all links, whose path is text, whose content is text that is not empty, and, unless hidden
entries are asked for, none of whose names starts with a dot.  Each file has its path as its name.
The names are different, each of them is accepted and has the path itself as its destination, and
they are in ascending order, compared name by name and byte by byte.  Leaving out hidden entries is
leaving out the files with a name in their path that starts with a dot. -/
theorem read_packable (disk : Disk) (root : Path) (base : Location) (hidden : Bool)
    (hdisk : disk.WellFormed) (hroot : disk.resolve .target root = .ok ⟨base, some .directory⟩)
    (hreadable : Readable disk root base) :
    ∃ files, read disk root hidden = .ok files ∧
      (∀ file, file ∈ files ↔ ∃ names, names ≠ [] ∧ ofString file.name = pathOf names ∧
        disk.find? (base ++ names) = some (.file (Text.bytes file.content)) ∧
        file.content ≠ "" ∧ (hidden = true ∨ ∀ name ∈ names, ¬startsWithDot name)) ∧
      files.ensureUniqueNames = .ok () ∧
      (∀ file ∈ files, destination? root file.name = some (root.join (ofString file.name))) ∧
      (files.Pairwise fun a b => (ofString a.name).split < (ofString b.name).split) ∧
      read disk root false = (read disk root true).map fun all =>
        all.filter fun file => !(ofString file.name).split.any startsWithDot := by
  have hread := read_eq_found hroot hreadable
  have horder := pairwise_found hdisk hroot hreadable hidden
  refine ⟨_, hread hidden, fun file => ?_, ?_, fun file hfile => ?_, horder, ?_⟩
  · rw [mem_found_iff hdisk hroot hreadable]
    simp only [List.any_eq_false]
    constructor
    · rintro ⟨names, ⟨hne, hname, hfind, hcontent⟩, hshown⟩
      exact ⟨names, hne, hname, hfind, hcontent, hshown⟩
    · rintro ⟨names, hne, hname, hfind, hcontent, hshown⟩
      exact ⟨names, ⟨hne, hname, hfind, hcontent⟩, hshown⟩
  · rw [FileSet.ensureUniqueNames_eq_ok_iff, FileSet.names, List.Nodup, List.pairwise_map]
    refine horder.imp fun hlt hsame => ?_
    rw [hsame] at hlt
    exact Std.lt_irrefl hlt
  · obtain ⟨names, hbelow, -⟩ := (mem_found_iff hdisk hroot hreadable).mp hfile
    exact hbelow.destination?_eq hdisk root
  · rw [hread false, hread true, found_shown hdisk hroot hreadable]
    rfl

/-- A directory with a hidden directory, a link, and files that no set can hold. -/
def mixedDisk : Disk where
  entries := [([ofString "out"], .directory), ([ofString "out", ofString "a.txt"], .file [0x32]),
    ([ofString "out", ofString "a"], .directory),
    ([ofString "out", ofString "a", ofString "b"], .file [0x31]),
    ([ofString "out", ofString ".git"], .directory),
    ([ofString "out", ofString ".git", ofString "HEAD"], .file [0x33]),
    ([ofString "out", ofString "empty"], .file []),
    ([ofString "out", ofString "bin"], .file [0xff]),
    ([ofString "out", [dot, 0xff]], .file [0x34]), ([ofString "out", ofString "to"], .link [0x61])]

/-- The directory `a` comes before the file `a.txt`, although `a/b` comes behind it as a text. -/
theorem read_packable_mixed :
    mixedDisk.WellFormed ∧
    mixedDisk.resolve .target (ofString "out") = .ok ⟨[ofString "out"], some .directory⟩ ∧
    Readable mixedDisk (ofString "out") [ofString "out"] ∧
    read mixedDisk (ofString "out") true =
      .ok [⟨".git/HEAD", "3"⟩, ⟨"a/b", "1"⟩, ⟨"a.txt", "2"⟩] ∧
    read mixedDisk (ofString "out") false = .ok [⟨"a/b", "1"⟩, ⟨"a.txt", "2"⟩] := by
  have hdisk : mixedDisk.WellFormed := by decide
  have hroot : mixedDisk.resolve .target (ofString "out") =
      .ok ⟨[ofString "out"], some .directory⟩ := by decide +kernel
  have hbelow : mixedDisk.below [ofString "out"] =
      [([ofString ".git"], .directory), ([ofString ".git", ofString "HEAD"], .file [0x33]),
        ([[dot, 0xff]], .file [0x34]), ([ofString "a"], .directory),
        ([ofString "a", ofString "b"], .file [0x31]), ([ofString "a.txt"], .file [0x32]),
        ([ofString "bin"], .file [0xff]), ([ofString "empty"], .file []),
        ([ofString "to"], .link [0x61])] :=
    Order.sortByKey_eq_of_ascending Prod.fst (by decide +kernel) (by decide)
  have hreadable : Readable mixedDisk (ofString "out") [ofString "out"] := by
    intro names content hne hfile
    have hmem := mem_below.mpr ⟨hne, hfile⟩
    rw [hbelow] at hmem
    simp at hmem
    refine ⟨content, ?_⟩
    rcases hmem with ⟨rfl, rfl⟩ | ⟨rfl, rfl⟩ | ⟨rfl, rfl⟩ | ⟨rfl, rfl⟩ | ⟨rfl, rfl⟩ | ⟨rfl, rfl⟩
    all_goals decide +kernel
  have hall : read mixedDisk (ofString "out") true =
      .ok [⟨".git/HEAD", "3"⟩, ⟨"a/b", "1"⟩, ⟨"a.txt", "2"⟩] := by
    rw [read_of_directory hroot, regularFiles, hbelow]
    decide +kernel
  obtain ⟨files, hread, -, -, -, -, hshown⟩ :=
    read_packable mixedDisk (ofString "out") [ofString "out"] false hdisk hroot hreadable
  refine ⟨hdisk, hroot, hreadable, hall, ?_⟩
  rw [hshown, hall]
  decide

end Tree

end Assets
