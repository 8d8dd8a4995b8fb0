import Mathlib.Data.List.Induction
import Assets.Proofs.Tree.Confinement
import Assets.Proofs.Tree.Reading

/-!
# A write elsewhere

A directory is read as before if a file has been written outside of it (`read_of_write`).  The walk
meets the same files, since it looks at the entries below the directory only, and these are the
same ones in the same order (`below_congr`).  Each file that it meets is looked up by its path once
more, from the start and through all links on the way.  But its names lead down from the directory
to the file itself (`location_of_walk_file`), so that what is found there does not depend on an
entry elsewhere.
-/

namespace Assets

open Assets.Path

namespace Disk

variable {disk : Disk} {base names : Location}

/-- What lies below a directory is known from looking it up. -/
theorem below_congr {other : Disk} (hdisk : disk.WellFormed) (hother : other.WellFormed)
    (h : ∀ names, other.find? (base ++ names) = disk.find? (base ++ names)) :
    other.below base = disk.below base := by
  refine Order.eq_of_mem_iff_of_ascending Prod.fst (Tree.pairwise_below hother base)
    (Tree.pairwise_below hdisk base) ?_
  rintro ⟨names, entry⟩
  rw [Tree.mem_below, Tree.mem_below, h]

/-- What is above an entry is a directory. -/
theorem WellFormed.directory_of_append (hdisk : disk.WellFormed) {front back : Location}
    (hback : back ≠ []) (h : (disk.find? (front ++ back)).isSome) :
    disk.find? front = some .directory := by
  induction back using List.reverseRecOn with
  | nil => exact absurd rfl hback
  | append_singleton back name ih =>
      have hparent := hdisk.parent _ h
      rw [← List.append_assoc, List.dropLast_concat] at hparent
      by_cases hnil : back = []
      · rwa [hnil, List.append_nil] at hparent
      · exact ih hnil (by rw [hparent]; rfl)

/-- The names of a file lead from a directory above it to the file. -/
theorem location_of_walk_file (hdisk : disk.WellFormed) {purpose : Purpose} {links : Nat}
    {content : List UInt8} {place : Place} (hnames : ∀ name ∈ names, IsName name)
    (hfile : disk.find? (base ++ names) = some (.file content))
    (h : disk.walk purpose links base names = .ok place) : place.location = base ++ names := by
  induction names generalizing base with
  | nil =>
      rw [walk_nil] at h
      cases h
      simp
  | cons name names ih =>
      rw [List.forall_mem_cons] at hnames
      have hrest : disk.find? ((base ++ [name]) ++ names) = some (.file content) := by
        rwa [List.append_assoc, List.singleton_append]
      cases walks_of_walk h with
      | stay hpart _ =>
          rcases hpart with hnil | hdot
          · exact absurd hnil hnames.1.ne_nil
          · exact absurd hdot hnames.1.ne_dot
      | up _ => exact absurd rfl hnames.1.ne_dots
      | enter _ _ _ hwalk =>
          rw [ih hnames.2 hrest (walks_iff.mp hwalk), List.append_assoc, List.singleton_append]
      | last => rfl
      | follow _ _ hlink _ _ _ =>
          -- a link is neither the file nor a directory above it
          by_cases hnil : names = []
          · rw [hnil, List.append_nil, hlink] at hrest
            cases hrest
          · rw [hdisk.directory_of_append hnil (by rw [hrest]; rfl)] at hlink
            cases hlink

/-- A path does not lead to a place at or below a directory, and not to a file with a name there. -/
def WritesOutside (disk : Disk) (root path : Path) : Prop :=
  ∀ place, disk.resolve .file path = .ok place → ¬disk.NamedWithin root place.location

theorem exists_of_read {path : Path} {content : List UInt8} (h : disk.read path = .ok content) :
    ∃ location, disk.resolve .target path = .ok ⟨location, some (.file content)⟩ := by
  unfold read at h
  cases hplace : disk.resolve .target path with
  | error fault =>
      rw [hplace] at h
      cases h
  | ok place =>
      obtain ⟨location, entry⟩ := place
      rw [hplace] at h
      simp only [bind, Except.bind] at h
      split at h <;> cases h
      exact ⟨location, rfl⟩

theorem exists_of_isDirectory {root : Path} (h : disk.isDirectory root = true) :
    ∃ base, disk.resolve .target root = .ok ⟨base, some .directory⟩ := by
  unfold isDirectory entry? at h
  split at h
  · rename_i place hplace
    obtain ⟨base, entry⟩ := place
    obtain rfl : entry = some .directory := beq_iff_eq.mp h
    exact ⟨base, hplace⟩
  · cases h

theorem isDirectory_of_read {path : Path} {content : List UInt8}
    (h : disk.read path = .ok content) : disk.isDirectory path = false := by
  obtain ⟨location, hplace⟩ := exists_of_read h
  rw [isDirectory, entry?, hplace]
  rfl

theorem isDirectory_of_grows {grown : Disk} {root : Path} (hgrows : disk.Grows grown)
    (h : disk.isDirectory root = true) : grown.isDirectory root = true := by
  obtain ⟨base, hbase⟩ := exists_of_isDirectory h
  have hfound := (hgrows.entry base).directory (entry_of_walk (resolve_eq_ok_iff.mp hbase).2).symm
  rw [isDirectory, entry?, resolve_of_grows hgrows hbase (by simp), hfound]
  rfl

end Disk

namespace Tree

open Disk

variable {disk written : Disk} {root path : Path} {base names : Location} {hidden : Bool}

/-- The path of a regular file below a directory leads to that file. -/
theorem location_of_resolve_joinAll (hdisk : disk.WellFormed)
    (hroot : disk.resolve .target root = .ok ⟨base, some .directory⟩)
    (hnames : names ∈ regularFiles disk base hidden) {place : Place}
    (h : disk.resolve .target (joinAll root names) = .ok place) :
    place.location = base ++ names := by
  have hparts := isName_of_mem_regularFiles hdisk hnames
  obtain ⟨hne, -, content, hfile⟩ := mem_regularFiles.mp hnames
  have hrelative : (pathOf names).isAbsolute = false :=
    isAbsolute_pathOf (fun name hname => (hparts name hname).ne_nil)
      fun name hname => (hparts name hname).slash_notMem
  rw [joinAll_eq_join hne (fun name hname => (hparts name hname).ne_nil)
    fun name hname => (hparts name hname).slash_notMem] at h
  obtain ⟨-, hwalk⟩ := resolve_eq_ok_iff.mp h
  rw [split_join root hrelative,
    split_pathOf hne fun name hname => (hparts name hname).slash_notMem] at hwalk
  have hstart : disk.startOf (root.join (pathOf names)) = disk.startOf root := by
    simp only [startOf, isAbsolute_join root hrelative]
  rw [hstart] at hwalk
  obtain ⟨left, there, hleads, hdown⟩ := exists_leads_of_walk_append hne hwalk
  have hthere : there = base :=
    (leadsTo_of_leading hleads).unique (leadsTo_of_resolve hroot)
  rw [hthere] at hdown
  exact location_of_walk_file hdisk hparts (fileAt?_eq_some_iff.mp hfile) hdown

section Write

variable {content : List UInt8} (hwrite : disk.write path content = .ok written)
  (houtside : disk.WritesOutside root path)
  (hroot : disk.resolve .target root = .ok ⟨base, some .directory⟩)

include hwrite houtside hroot

theorem find?_of_write (hdisk : disk.WellFormed) (names : Location) :
    written.find? (base ++ names) = disk.find? (base ++ names) := by
  obtain ⟨place, hplace, -, rfl⟩ := exists_of_write hwrite
  refine find?_put_of_not_sameFile hdisk (fun hsame => houtside place hplace ?_) _
  exact ⟨_, hsame.symm, base, leadsTo_of_resolve hroot, List.prefix_append ..⟩

variable (hdisk : disk.WellFormed)

include hdisk

theorem regularFiles_of_write (hidden : Bool) :
    regularFiles written base hidden = regularFiles disk base hidden := by
  rw [regularFiles, regularFiles, below_congr hdisk (wellFormed_of_write hdisk hwrite)
    (find?_of_write hwrite houtside hroot hdisk)]

/-- A file below the directory has the content that it had. -/
theorem read_joinAll_of_write (hnames : names ∈ regularFiles disk base hidden)
    {found : List UInt8} (h : disk.read (joinAll root names) = .ok found) :
    written.read (joinAll root names) = .ok found := by
  obtain ⟨place, hplace⟩ := exists_of_read h
  have hfile := entry_of_walk (resolve_eq_ok_iff.mp hplace).2
  have hgrown := resolve_of_grows (grows_of_write hdisk hwrite) hplace (by simp)
  have hlocation := location_of_resolve_joinAll hdisk hroot hnames hplace
  dsimp only at hfile hgrown hlocation
  subst hlocation
  rw [find?_of_write hwrite houtside hroot hdisk, ← hfile] at hgrown
  exact read_of_resolve hgrown

theorem visit_of_write (hnames : names ∈ regularFiles disk base hidden) {finding : Finding}
    (h : visit disk root names = .ok finding) : visit written root names = .ok finding := by
  unfold visit at h ⊢
  cases hname : Text.ofBytes? (pathOf names) with
  | none => simpa only [hname] using h
  | some name =>
      simp only [hname] at h ⊢
      cases hread : disk.read (joinAll root names) with
      | error fault =>
          rw [hread] at h
          cases h
      | ok found =>
          rw [hread] at h
          rw [read_joinAll_of_write hwrite houtside hroot hdisk hnames hread]
          exact h

end Write

/-- A directory is read as before if a file has been written outside of it. -/
theorem read_of_write {files : FileSet} {content : List UInt8}
    (hwrite : disk.write path content = .ok written) (houtside : disk.WritesOutside root path)
    (hroot : disk.isDirectory root = true) (hdisk : disk.WellFormed)
    (h : read disk root hidden = .ok files) : read written root hidden = .ok files := by
  obtain ⟨base, hbase⟩ := exists_of_isDirectory hroot
  obtain ⟨list, hstart, hvisits, rfl⟩ := read_eq_ok_iff.mp h
  obtain rfl := Except.ok.inj ((start_of_directory hbase hidden).symm.trans hstart)
  have hgrows := grows_of_write hdisk hwrite
  have hfound := (hgrows.entry base).directory (entry_of_walk (resolve_eq_ok_iff.mp hbase).2).symm
  have hwritten := resolve_of_grows hgrows hbase (by simp)
  rw [hfound] at hwritten
  have hsame : ∀ names ∈ regularFiles disk base hidden,
      visit written root names = visit disk root names := by
    intro names hnames
    obtain ⟨finding, hfinding⟩ := hvisits names hnames
    rw [hfinding, visit_of_write hwrite houtside hbase hdisk hnames hfinding]
  rw [read_eq_ok_iff]
  refine ⟨_, start_of_directory hwritten hidden, ?_⟩
  rw [regularFiles_of_write hwrite houtside hbase hdisk]
  constructor
  · intro names hnames
    rw [hsame names hnames]
    exact hvisits names hnames
  · refine List.filterMap_congr fun names hnames => ?_
    rw [foundAt?, foundAt?, hsame names hnames]

end Tree

end Assets
