import Assets.Disk.Operations
import Assets.Proofs.Path.Clean
import Mathlib.Data.List.Nodup

/-!
# Entries of a disk

What `put` changes, and three notions that all later statements are about.

* `SameFile`: two locations are names of one file.  Putting a new content at one of them changes
  what is found at the other, and at no third location (`find?_put`).
* `Grows`: from one disk to another, directories and links stay what they are, files stay files
  under the names that they had, and what is new is a file or a directory.  Making directories and
  writing files lets a disk grow.
* `WellFormed`: the entries form a tree of directories, in which hard links lead to files.  A list
  of entries need not, but every file system does, and what the operations change keeps it so
  (`WellFormed.put`).
-/

namespace Assets

open Assets.Path

/-! ## Changes of one entry -/

/-- What may happen to an entry while directories are made and files are written. -/
inductive Entry.Kept : Option Entry → Option Entry → Prop where
  | same (entry : Option Entry) : Kept entry entry
  | made : Kept none (some .directory)
  | added (content : List UInt8) : Kept none (some (.file content))
  | rewritten (before after : List UInt8) : Kept (some (.file before)) (some (.file after))

namespace Entry.Kept

variable {before after last : Option Entry}

theorem trans (h : Kept before after) (h' : Kept after last) : Kept before last := by
  cases h with
  | same => exact h'
  | made =>
      cases h'
      exact .made
  | added content =>
      cases h' with
      | same => exact .added content
      | rewritten _ content => exact .added content
  | rewritten first _ =>
      cases h' with
      | same => exact .rewritten ..
      | rewritten _ content => exact .rewritten first content

theorem directory (h : Kept before after) (hbefore : before = some .directory) :
    after = some .directory := by
  cases h <;> simp_all

/-- A file stays one. -/
theorem file (h : Kept before after) {content : List UInt8}
    (hbefore : before = some (.file content)) : ∃ later, after = some (.file later) := by
  cases h <;> simp_all

theorem link_iff (h : Kept before after) {target : Path} :
    before = some (.link target) ↔ after = some (.link target) := by
  cases h <;> simp

theorem none (h : Kept before after) (hafter : after = none) : before = none := by
  cases h <;> simp_all

/-- What is a directory was one before, or was missing. -/
theorem of_directory (h : Kept before after) (hafter : after = some .directory) :
    before = Option.none ∨ before = some .directory := by
  cases h <;> simp_all

end Entry.Kept

namespace Disk

@[simp] theorem find?_nil (disk : Disk) : disk.find? [] = some .directory := if_pos rfl

theorem find?_of_ne (disk : Disk) {location : Location} (h : location ≠ []) :
    disk.find? location = (disk.entries.lookup (disk.home location)).bind Node.entry? := if_neg h

/-- Two locations are names of one file, or they are one location. -/
def SameFile (disk : Disk) (location other : Location) : Prop :=
  disk.home location = disk.home other

instance (disk : Disk) (location other : Location) : Decidable (disk.SameFile location other) :=
  inferInstanceAs (Decidable (_ = _))

theorem SameFile.refl (disk : Disk) (location : Location) : disk.SameFile location location := rfl

theorem SameFile.symm {disk : Disk} {location other : Location}
    (h : disk.SameFile location other) : disk.SameFile other location := Eq.symm h

theorem SameFile.find?_eq {disk : Disk} {location other : Location}
    (h : disk.SameFile location other) (hlocation : location ≠ []) (hother : other ≠ []) :
    disk.find? other = disk.find? location := by
  rw [find?_of_ne _ hother, find?_of_ne _ hlocation, ← h]

/-- Only a hard link is kept elsewhere. -/
theorem home_cases (disk : Disk) (location : Location) :
    disk.home location = location ∨
      disk.entries.lookup location = some (.hardLink (disk.home location)) := by
  unfold home
  split
  · rename_i file hlink
    exact .inr hlink
  · exact .inl rfl

/-- Where an entry is found, something is kept. -/
theorem exists_node {disk : Disk} {location : Location} (hne : location ≠ [])
    (hsome : (disk.find? location).isSome) :
    ∃ node, disk.entries.lookup location = some node := by
  rcases disk.home_cases location with hhome | hlink
  · rw [find?_of_ne _ hne, hhome] at hsome
    exact Option.isSome_iff_exists.mp (Option.isSome_of_isSome_bind hsome)
  · exact ⟨_, hlink⟩

theorem lookup_filter_ne {entries : List (Location × Node)} {location other : Location}
    (h : other ≠ location) :
    (entries.filter (·.1 ≠ location)).lookup other = entries.lookup other := by
  induction entries with
  | nil => rfl
  | cons entry entries ih =>
      obtain ⟨key, value⟩ := entry
      by_cases hkey : key = location
      · have hother : (other == key) = false := beq_false_of_ne (hkey ▸ h)
        rw [List.filter_cons_of_neg (by simpa using hkey), ih, List.lookup_cons, hother]
      · rw [List.filter_cons_of_pos (by simpa using hkey), List.lookup_cons, List.lookup_cons, ih]

theorem lookup_put_home (disk : Disk) (location : Location) (entry : Entry) :
    (disk.put location entry).entries.lookup (disk.home location) = some (.entry entry) := by
  have hnone : (disk.entries.filter (·.1 ≠ disk.home location)).lookup (disk.home location) =
      none := by
    rw [List.lookup_eq_none_iff]
    intro pair hpair
    have hdiffers : pair.1 ≠ disk.home location := by simpa using (List.mem_filter.mp hpair).2
    exact bne_iff_ne.mpr hdiffers.symm
  rw [put, List.lookup_append, hnone]
  simp

theorem lookup_put_of_ne (disk : Disk) {location other : Location}
    (h : other ≠ disk.home location) (entry : Entry) :
    (disk.put location entry).entries.lookup other = disk.entries.lookup other := by
  have hnone : [(disk.home location, Node.entry entry)].lookup other = none := by simp [h]
  rw [put, List.lookup_append, lookup_filter_ne h, hnone, Option.or_none]

/-- The content of the file at a location, if a file is there. -/
def fileAt? (disk : Disk) (location : Location) : Option (List UInt8) :=
  match disk.find? location with
  | some (.file content) => some content
  | _ => none

theorem fileAt?_eq_some_iff {disk : Disk} {location : Location} {content : List UInt8} :
    disk.fileAt? location = some content ↔ disk.find? location = some (.file content) := by
  unfold fileAt?
  split <;> simp_all

/-! ## Well-formed disks -/

/-- A hard link leads to a location that keeps a file. -/
def IsSound (disk : Disk) : Node → Prop
  | .entry _ => True
  | .hardLink file => ∃ content, disk.entries.lookup file = some (.file content)

instance (disk : Disk) (node : Node) : Decidable (disk.IsSound node) :=
  match node with
  | .entry _ => .isTrue trivial
  | .hardLink file =>
    match h : disk.entries.lookup file with
    | some (.entry (.file content)) => .isTrue ⟨content, h⟩
    | none | some (.hardLink _) | some (.entry .directory) | some (.entry (.link _)) =>
      .isFalse fun ⟨_, hfile⟩ => nomatch h.symm.trans hfile

/-- The entries of a disk form a tree of directories, with hard links to files. -/
structure WellFormed (disk : Disk) : Prop where
  nodup : (disk.entries.map Prod.fst).Nodup
  ne_root : ∀ entry ∈ disk.entries, entry.1 ≠ []
  names : ∀ entry ∈ disk.entries, ∀ name ∈ entry.1, IsName name
  sound : ∀ entry ∈ disk.entries, disk.IsSound entry.2
  parent : ∀ location, (disk.find? location).isSome → disk.find? location.dropLast = some .directory
  working : disk.find? disk.working = some .directory

theorem mem_of_lookup {entries : List (Location × Node)} {location : Location} {node : Node}
    (h : entries.lookup location = some node) : (location, node) ∈ entries := by
  obtain ⟨before, after, hsplit, -⟩ := List.lookup_eq_some_iff.mp h
  simp [hsplit]

namespace WellFormed

variable {disk : Disk} {location : Location}

theorem lookup_of_mem (h : disk.WellFormed) {node : Node}
    (hmem : (location, node) ∈ disk.entries) : disk.entries.lookup location = some node := by
  rw [List.lookup_eq_some_iff]
  obtain ⟨before, after, hsplit⟩ := List.append_of_mem hmem
  refine ⟨before, after, hsplit, fun pair hpair => ?_⟩
  have hnodup := h.nodup
  rw [hsplit, List.map_append, List.nodup_append] at hnodup
  have hdiffers := hnodup.2.2 pair.1 (List.mem_map_of_mem hpair) location (by simp)
  exact bne_iff_ne.mpr hdiffers.symm

/-- What is kept elsewhere is a file. -/
theorem home_cases (h : disk.WellFormed) (location : Location) :
    disk.home location = location ∨
      ∃ content, disk.entries.lookup (disk.home location) = some (.file content) := by
  refine (Disk.home_cases disk location).imp_right fun hlink => ?_
  exact h.sound _ (mem_of_lookup hlink)

theorem home_home (h : disk.WellFormed) (location : Location) :
    disk.home (disk.home location) = disk.home location := by
  rcases h.home_cases location with hhome | ⟨content, hkept⟩
  · rw [hhome, hhome]
  · rw [home, hkept]

theorem home_ne_nil (h : disk.WellFormed) (hne : location ≠ []) : disk.home location ≠ [] := by
  rcases h.home_cases location with hhome | ⟨content, hkept⟩
  · rwa [hhome]
  · exact h.ne_root _ (mem_of_lookup hkept)

theorem find?_of_kept (h : disk.WellFormed) {node : Node} {content : List UInt8}
    (hnode : disk.entries.lookup location = some node)
    (hkept : disk.entries.lookup (disk.home location) = some (.file content)) :
    disk.find? location = some (.file content) := by
  rw [find?_of_ne _ (h.ne_root _ (mem_of_lookup hnode)), hkept]
  rfl

theorem isSome_of_lookup (h : disk.WellFormed) {node : Node}
    (hnode : disk.entries.lookup location = some node) : (disk.find? location).isSome := by
  cases node with
  | entry entry =>
      rw [find?_of_ne _ (h.ne_root _ (mem_of_lookup hnode)), home, hnode]
      simp [hnode, Node.entry?]
  | hardLink file =>
      obtain ⟨content, hkept⟩ := h.sound _ (mem_of_lookup hnode)
      have hhome : disk.home location = file := by rw [home, hnode]
      rw [h.find?_of_kept hnode (hhome ▸ hkept)]
      rfl

theorem isName (h : disk.WellFormed) (hsome : (disk.find? location).isSome) :
    ∀ name ∈ location, IsName name := by
  by_cases hne : location = []
  · simp [hne]
  · obtain ⟨node, hnode⟩ := exists_node hne hsome
    exact h.names _ (mem_of_lookup hnode)

/-- Only files have several names. -/
theorem eq_of_sameFile (h : disk.WellFormed) {other : Location}
    (hsame : disk.SameFile location other) (hfile : disk.fileAt? location = none) :
    other = location := by
  have hno (content : List UInt8) : disk.find? location ≠ some (.file content) := fun hfind => by
    rw [fileAt?_eq_some_iff.mpr hfind] at hfile
    cases hfile
  have hhome : disk.home location = location := by
    refine (Disk.home_cases disk location).resolve_right fun hlink => ?_
    obtain ⟨content, hkept⟩ := h.sound _ (mem_of_lookup hlink)
    exact hno content (h.find?_of_kept hlink hkept)
  rcases h.home_cases other with hother | ⟨content, hkept⟩
  · rw [SameFile, hhome, hother] at hsame
    exact hsame.symm
  · rw [← hsame] at hkept
    exact absurd (h.find?_of_kept (hhome ▸ hkept) hkept) (hno content)

end WellFormed

/-- A disk is well-formed if its entries are, one by one. -/
theorem wellFormed_iff {disk : Disk} :
    disk.WellFormed ↔ (disk.entries.map Prod.fst).Nodup ∧
      (∀ entry ∈ disk.entries, entry.1 ≠ [] ∧ (∀ name ∈ entry.1, IsName name) ∧
        disk.IsSound entry.2 ∧ disk.find? entry.1.dropLast = some .directory) ∧
      disk.find? disk.working = some .directory := by
  constructor
  · intro h
    exact ⟨h.nodup, fun entry hentry => ⟨h.ne_root entry hentry, h.names entry hentry,
      h.sound entry hentry, h.parent entry.1 (h.isSome_of_lookup (h.lookup_of_mem hentry))⟩,
      h.working⟩
  · rintro ⟨hnodup, hentries, hworking⟩
    refine ⟨hnodup, fun entry hentry => (hentries entry hentry).1,
      fun entry hentry => (hentries entry hentry).2.1,
      fun entry hentry => (hentries entry hentry).2.2.1, fun location hsome => ?_, hworking⟩
    by_cases hne : location = []
    · simp [hne]
    · obtain ⟨node, hnode⟩ := exists_node hne hsome
      exact (hentries _ (mem_of_lookup hnode)).2.2.2

instance (disk : Disk) : Decidable disk.WellFormed := decidable_of_iff _ wellFormed_iff.symm

/-! ## Putting an entry -/

section Put

variable {disk : Disk} {location other : Location}

theorem home_put (hdisk : disk.WellFormed) (location : Location) (entry : Entry)
    (other : Location) : (disk.put location entry).home other = disk.home other := by
  by_cases hother : other = disk.home location
  · rw [home, hother, lookup_put_home, hdisk.home_home]
  · rw [home, lookup_put_of_ne _ hother, home]

/-- What is put at one name of a file is found at all of them. -/
theorem find?_put (hdisk : disk.WellFormed) (location : Location) (entry : Entry)
    (hne : other ≠ []) :
    (disk.put location entry).find? other =
      if disk.SameFile location other then some entry else disk.find? other := by
  rw [find?_of_ne _ hne, home_put hdisk]
  split
  · rename_i hsame
    rw [← hsame, lookup_put_home]
    rfl
  · rename_i hdiffers
    rw [lookup_put_of_ne _ (Ne.symm hdiffers), find?_of_ne _ hne]

theorem find?_put_self (hdisk : disk.WellFormed) (h : location ≠ []) (entry : Entry) :
    (disk.put location entry).find? location = some entry := by
  rw [find?_put hdisk _ _ h, if_pos (.refl disk location)]

theorem find?_put_of_not_sameFile (hdisk : disk.WellFormed) (h : ¬disk.SameFile location other)
    (entry : Entry) : (disk.put location entry).find? other = disk.find? other := by
  by_cases hnil : other = []
  · simp [hnil]
  · rw [find?_put hdisk _ _ hnil, if_neg h]

theorem fileAt?_of_find?_eq_none (h : disk.find? location = none) :
    disk.fileAt? location = none := by
  rw [fileAt?, h]

theorem find?_put_of_missing (hdisk : disk.WellFormed) (hmissing : disk.find? location = none)
    (h : other ≠ location) (entry : Entry) :
    (disk.put location entry).find? other = disk.find? other :=
  find?_put_of_not_sameFile hdisk
    (fun hsame => h (hdisk.eq_of_sameFile hsame (fileAt?_of_find?_eq_none hmissing))) entry

/-- A hard link still leads to a file, also if it is that file in whose place the entry comes. -/
theorem isSound_put {entry : Entry} {node : Node} (hne : location ≠ [])
    (hkept : Entry.Kept (disk.find? location) (some entry)) (hnode : disk.IsSound node) :
    (disk.put location entry).IsSound node := by
  cases node with
  | entry _ => trivial
  | hardLink file =>
      obtain ⟨content, hfile⟩ := hnode
      by_cases hhome : file = disk.home location
      · subst hhome
        rw [find?_of_ne _ hne, hfile] at hkept
        obtain ⟨after, hafter⟩ := hkept.file rfl
        obtain rfl := Option.some.inj hafter
        exact ⟨after, lookup_put_home ..⟩
      · exact ⟨content, (lookup_put_of_ne _ hhome _).trans hfile⟩

end Put

/-! ## Growing disks -/

/-- One disk comes from the other by making directories and writing files. -/
structure Grows (disk grown : Disk) : Prop where
  working : grown.working = disk.working
  home : ∀ location, grown.home location = disk.home location
  entry : ∀ location, Entry.Kept (disk.find? location) (grown.find? location)

namespace Grows

variable {disk grown last : Disk} {location other : Location}

theorem refl (disk : Disk) : disk.Grows disk := ⟨rfl, fun _ => rfl, fun _ => .same _⟩

theorem trans (h : disk.Grows grown) (h' : grown.Grows last) : disk.Grows last where
  working := h'.working.trans h.working
  home location := (h'.home location).trans (h.home location)
  entry location := (h.entry location).trans (h'.entry location)

theorem put {entry : Entry} (hdisk : disk.WellFormed) (hlocation : location ≠ [])
    (h : Entry.Kept (disk.find? location) (some entry)) :
    disk.Grows (disk.put location entry) := by
  refine ⟨rfl, home_put hdisk location entry, fun other => ?_⟩
  by_cases hother : other = []
  · rw [hother, find?_nil, find?_nil]
    exact .same _
  · rw [find?_put hdisk _ _ hother]
    split
    · rename_i hsame
      rw [hsame.find?_eq hlocation hother]
      exact h
    · exact .same _

theorem sameFile_iff (h : disk.Grows grown) :
    grown.SameFile location other ↔ disk.SameFile location other := by
  rw [SameFile, SameFile, h.home, h.home]

end Grows

/-- An entry can be put in a directory wherever it may come in the course of making directories and
writing files. -/
theorem WellFormed.put {disk : Disk} (h : disk.WellFormed) {location : Location} {entry : Entry}
    (hnames : ∀ name ∈ location, IsName name) (hne : location ≠ [])
    (hparent : disk.find? location.dropLast = some .directory)
    (hkept : Entry.Kept (disk.find? location) (some entry)) :
    (disk.put location entry).WellFormed := by
  have hgrows : disk.Grows (disk.put location entry) := .put h hne hkept
  have hmem : ∀ pair ∈ (disk.put location entry).entries,
      pair ∈ disk.entries ∨ pair = (disk.home location, .entry entry) := by
    intro pair hpair
    rw [Disk.put, List.mem_append, List.mem_filter, List.mem_singleton] at hpair
    exact hpair.imp_left And.left
  constructor
  case nodup =>
    rw [Disk.put, List.map_append, List.nodup_append]
    refine ⟨(List.filter_sublist.map Prod.fst).nodup h.nodup, by simp, ?_⟩
    rintro _ hfirst _ hsecond rfl
    obtain ⟨pair, hpair, hkey⟩ := List.mem_map.mp hfirst
    have hdiffers : pair.1 ≠ disk.home location := by simpa using (List.mem_filter.mp hpair).2
    simp only [List.map_cons, List.map_nil, List.mem_singleton] at hsecond
    exact hdiffers (hkey.trans hsecond)
  case ne_root =>
    intro pair hpair
    rcases hmem pair hpair with hpair | rfl
    · exact h.ne_root pair hpair
    · exact h.home_ne_nil hne
  case names =>
    intro pair hpair
    rcases hmem pair hpair with hpair | rfl
    · exact h.names pair hpair
    · rcases h.home_cases location with hhome | ⟨content, hfile⟩
      · rwa [hhome]
      · have hhome := h.names _ (mem_of_lookup hfile)
        exact hhome
  case sound =>
    intro pair hpair
    rcases hmem pair hpair with hpair | rfl
    · exact isSound_put hne hkept (h.sound pair hpair)
    · trivial
  case parent =>
    intro other hother
    refine (hgrows.entry _).directory ?_
    cases hfind : disk.find? other with
    | some found => exact h.parent other (by rw [hfind]; rfl)
    | none =>
        have hsame : disk.SameFile location other := by
          by_contra hdiffers
          rw [find?_put_of_not_sameFile h hdiffers, hfind] at hother
          cases hother
        rw [← h.eq_of_sameFile (SameFile.symm hsame) (fileAt?_of_find?_eq_none hfind)]
        exact hparent
  case working => exact (hgrows.entry _).directory h.working

end Disk

end Assets
