import Assets.Proofs.Disk.Walk
import Mathlib.Logic.Relation

/-!
# What the operations change

Reading changes nothing.  Writing puts a file where its path leads (`exists_of_write`), and what it
wrote is read again through the same path (`read_of_write`), also when the disk has grown since.

Making a directory with its ancestors is a sequence of steps that each put a directory where
nothing was: `Makes` is one of them, `Made` their sequence.  Every step is on the way of the path,
that is, at a location to which some first parts of the path lead.  However the making ends, what
it has done is such a sequence (`made_makeDirectories`), so that a property that one step keeps is
kept by the making as a whole.
-/

namespace Assets.Disk

open Assets.Path

/-! ## Looking up -/

/-- A path that is not refused for its text. -/
structure IsUsable (path : Path) : Prop where
  nul_notMem : 0 ∉ path
  length_lt : path.length < pathLimit
  ne_nil : path ≠ []

theorem resolve_eq_ok_iff {disk : Disk} {purpose : Purpose} {path : Path} {place : Place} :
    disk.resolve purpose path = .ok place ↔
      IsUsable path ∧ disk.walk purpose linkLimit (disk.startOf path) path.split = .ok place := by
  unfold resolve
  constructor
  · intro h
    split at h
    · cases h
    rename_i hnul
    split at h
    · cases h
    rename_i hlength
    split at h
    · cases h
    rename_i hempty
    exact ⟨⟨by simpa using hnul, Nat.not_le.mp hlength, by simpa using hempty⟩, h⟩
  · rintro ⟨husable, h⟩
    rw [if_neg (by simpa using husable.nul_notMem), if_neg (Nat.not_le.mpr husable.length_lt),
      if_neg (by simpa using husable.ne_nil)]
    exact h

theorem startOf_of_grows {disk grown : Disk} (h : disk.Grows grown) (path : Path) :
    grown.startOf path = disk.startOf path := by
  simp only [startOf, h.working]

theorem resolve_of_grows {disk grown : Disk} {purpose : Purpose} {path : Path} {place : Place}
    (hgrows : disk.Grows grown) (h : disk.resolve purpose path = .ok place)
    (hlink : ∀ target, place.entry ≠ some (.link target)) :
    grown.resolve .target path = .ok ⟨place.location, grown.find? place.location⟩ := by
  rw [resolve_eq_ok_iff] at h ⊢
  rw [startOf_of_grows hgrows]
  exact ⟨h.1, walk_of_grows hgrows h.2 hlink⟩

theorem read_of_resolve {disk : Disk} {path : Path} {location : Location} {content : List UInt8}
    (h : disk.resolve .target path = .ok ⟨location, some (.file content)⟩) :
    disk.read path = .ok content := by
  rw [read, h]
  rfl

theorem readText_of_read {disk : Disk} {path : Path} {text : String}
    (h : disk.read path = .ok (Text.bytes text)) : disk.readText path = .ok text := by
  rw [readText, h]
  simp only [bind, Except.bind, Text.ofBytes?_bytes]

/-! ## Writing a file -/

theorem exists_of_write {disk written : Disk} {path : Path} {content : List UInt8}
    (h : disk.write path content = .ok written) :
    ∃ place, disk.resolve .file path = .ok place ∧ place.entry ≠ some .directory ∧
      written = disk.put place.location (.file content) := by
  unfold write at h
  cases hplace : disk.resolve .file path with
  | error fault =>
      rw [hplace] at h
      cases h
  | ok place =>
      rw [hplace] at h
      refine ⟨place, rfl, ?_⟩
      obtain ⟨location, entry⟩ := place
      match entry with
      | none =>
          cases h
          exact ⟨by simp, rfl⟩
      | some (.file old) =>
          cases h
          exact ⟨by simp, rfl⟩
      | some (.link target) =>
          cases h
          exact ⟨by simp, rfl⟩
      | some .directory => cases h

section Written

variable {disk written grown : Disk} {path : Path} {content : List UInt8} {place : Place}

/-- Where a file is written there was nothing, or a file. -/
theorem kept_of_write (hdisk : disk.WellFormed) (hplace : disk.resolve .file path = .ok place)
    (hdirectory : place.entry ≠ some .directory) (content : List UInt8) :
    Entry.Kept (disk.find? place.location) (some (.file content)) := by
  rw [resolve_eq_ok_iff] at hplace
  have hlink := not_link_of_walk hdisk (hdisk.startOf path) hplace.2 (by decide)
  rw [← entry_of_walk hplace.2]
  obtain ⟨location, entry⟩ := place
  match entry with
  | none => exact .added content
  | some (.file old) => exact .rewritten old content
  | some .directory => exact absurd rfl hdirectory
  | some (.link target) => exact absurd rfl (hlink target)

theorem ne_nil_of_write (hplace : disk.resolve .file path = .ok place)
    (hdirectory : place.entry ≠ some .directory) : place.location ≠ [] := by
  rw [resolve_eq_ok_iff] at hplace
  rw [entry_of_walk hplace.2] at hdirectory
  intro hnil
  exact hdirectory (hnil ▸ disk.find?_nil)

theorem grows_of_write (hdisk : disk.WellFormed) (h : disk.write path content = .ok written) :
    disk.Grows written := by
  obtain ⟨place, hplace, hdirectory, rfl⟩ := exists_of_write h
  exact .put hdisk (ne_nil_of_write hplace hdirectory)
    (kept_of_write hdisk hplace hdirectory content)

theorem wellFormed_of_write (hdisk : disk.WellFormed)
    (h : disk.write path content = .ok written) : written.WellFormed := by
  obtain ⟨place, hplace, hdirectory, rfl⟩ := exists_of_write h
  have hkept := kept_of_write hdisk hplace hdirectory content
  have hne := ne_nil_of_write hplace hdirectory
  have hstart := hdisk.startOf path
  rw [resolve_eq_ok_iff] at hplace
  exact hdisk.put (isName_of_walk hdisk hstart (fun _ => slash_notMem_of_mem_split) hplace.2) hne
    (parent_of_walk hdisk hstart hplace.2) hkept

/-- A path that a file has been written to leads to whatever file is there now. -/
theorem read_of_write (hdisk : disk.WellFormed) (hplace : disk.resolve .file path = .ok place)
    (hgrows : disk.Grows grown) (hfile : grown.find? place.location = some (.file content)) :
    grown.read path = .ok content := by
  have hlink := not_link_of_walk hdisk (hdisk.startOf path) (resolve_eq_ok_iff.mp hplace).2
    (by decide)
  have hresolve := resolve_of_grows hgrows hplace hlink
  rw [hfile] at hresolve
  exact read_of_resolve hresolve

/-- What a path has been written with is read at it as long as the file stays there. -/
theorem exists_location_of_write (hdisk : disk.WellFormed)
    (h : disk.write path content = .ok written) :
    ∃ location, written.find? location = some (.file content) ∧
      ∀ grown, written.Grows grown → grown.find? location = some (.file content) →
        grown.read path = .ok content := by
  have hgrows := grows_of_write hdisk h
  obtain ⟨place, hplace, hdirectory, rfl⟩ := exists_of_write h
  exact ⟨place.location, find?_put_self hdisk (ne_nil_of_write hplace hdirectory) _,
    fun grown hlater hfile => read_of_write hdisk hplace (hgrows.trans hlater) hfile⟩

end Written

/-! ## Making directories -/

/-- A directory is made on the way of a path, in a directory and where nothing is. -/
inductive Makes (path : Path) (disk : Disk) : (made : Disk) → Prop where
  | make {parts : List Name} {location : Location} (hparts : parts <+: path.split)
      (hleads : disk.LeadsOn path parts location) (hmissing : disk.find? location = none)
      (hparent : disk.find? location.dropLast = some .directory)
      (hnames : ∀ name ∈ location, IsName name) : Makes path disk (disk.put location .directory)

/-- Directories are made on the way of a path, one after the other. -/
abbrev Made (path : Path) : Disk → Disk → Prop := Relation.ReflTransGen (Makes path)

theorem ne_nil_of_missing {disk : Disk} {location : Location}
    (h : disk.find? location = none) : location ≠ [] := by
  rintro rfl
  simp at h

section Made

variable {disk made : Disk} {path : Path}

theorem Makes.grows (hdisk : disk.WellFormed) (h : Makes path disk made) : disk.Grows made := by
  cases h with
  | make _ _ hmissing _ _ => exact .put hdisk (ne_nil_of_missing hmissing) (hmissing ▸ .made)

theorem Makes.wellFormed (hdisk : disk.WellFormed) (h : Makes path disk made) :
    made.WellFormed := by
  cases h with
  | make _ _ hmissing hparent hnames =>
      exact hdisk.put hnames (ne_nil_of_missing hmissing) hparent (hmissing ▸ .made)

theorem Made.wellFormed (hdisk : disk.WellFormed) (h : Made path disk made) :
    made.WellFormed := by
  induction h with
  | refl => exact hdisk
  | tail _ hstep ih => exact hstep.wellFormed ih

theorem Made.grows (hdisk : disk.WellFormed) (h : Made path disk made) : disk.Grows made := by
  induction h with
  | refl => exact .refl disk
  | tail hmade hstep ih => exact ih.trans (hstep.grows (Made.wellFormed hdisk hmade))

/-- Slashes at the end of a path add empty parts only. -/
theorem split_prefix_of_append_slashes (front : Path) (count : Nat) :
    front.split <+: (front ++ List.replicate count slash).split := by
  induction count with
  | zero => simp
  | succ count ih =>
      rw [List.replicate_succ', ← List.append_assoc, split_append]
      exact ih.trans (List.prefix_append ..)

theorem exists_trimmed (path : Path) : ∃ count,
    path = (path.reverse.dropWhile (· = slash)).reverse ++ List.replicate count slash := by
  have hall : ∀ b ∈ path.reverse.takeWhile (· = slash), b = slash := fun b hb =>
    of_decide_eq_true (List.all_eq_true.mp List.all_takeWhile b hb)
  have hslashes : (path.reverse.takeWhile (· = slash)).reverse =
      List.replicate (path.reverse.takeWhile (· = slash)).length slash :=
    List.eq_replicate_iff.mpr ⟨List.length_reverse, fun b hb => hall b (List.mem_reverse.mp hb)⟩
  refine ⟨(path.reverse.takeWhile (· = slash)).length, ?_⟩
  rw [← hslashes, ← List.reverse_append, List.takeWhile_append_dropWhile, List.reverse_reverse]

/-- A path that ends where a part of another one ends, and starts like it. -/
structure IsBeginning (front path : Path) : Prop where
  ne_nil : front ≠ []
  text : front <+: path
  parts : front.split <+: path.split

theorem exists_of_create {entry : Entry} (h : disk.create path entry = .ok made) :
    ∃ place, disk.resolve .entry path = .ok place ∧ place.entry = none ∧
      made = disk.put place.location entry := by
  unfold create at h
  cases hplace : disk.resolve .entry path with
  | error fault =>
      rw [hplace] at h
      cases h
  | ok place =>
      rw [hplace] at h
      simp only [bind, Except.bind] at h
      split at h
      · cases h
      · rename_i hnone
        cases h
        exact ⟨place, rfl, by simpa using hnone, rfl⟩

/-- Making one directory is a step on the way of every path that begins with its path. -/
theorem makes_of_makeDirectory {front : Path} (hdisk : disk.WellFormed)
    (hfront : IsBeginning front path) (h : disk.makeDirectory front = .ok made) :
    Makes path disk made := by
  obtain ⟨count, htrimmed⟩ := exists_trimmed front
  unfold makeDirectory at h
  dsimp only at h
  generalize (front.reverse.dropWhile (· = slash)).reverse = trimmed at h htrimmed
  generalize hmade : (if trimmed.isEmpty then front else trimmed) = target at h
  have htarget : IsBeginning target path := by
    subst hmade
    split
    · exact hfront
    · rename_i hne
      rw [htrimmed] at hfront
      exact ⟨by simpa using hne, (List.prefix_append ..).trans hfront.text,
        (split_prefix_of_append_slashes ..).trans hfront.parts⟩
  obtain ⟨place, hplace, hnone, rfl⟩ := exists_of_create h
  rw [resolve_eq_ok_iff] at hplace
  have hstart : disk.startOf target = disk.startOf path := by
    simp only [startOf, isAbsolute_of_prefix htarget.text htarget.ne_nil]
  have hhere := hdisk.startOf target
  refine .make htarget.parts ?_ ?_ (parent_of_walk hdisk hhere hplace.2)
    (isName_of_walk hdisk hhere (fun _ => slash_notMem_of_mem_split) hplace.2)
  · rw [LeadsOn, ← hstart]
    exact leads_of_walk hplace.2 (.inl hnone)
  · rw [← entry_of_walk hplace.2, hnone]

theorem made_climb {fronts missing : List Path} (hdisk : disk.WellFormed)
    (hfronts : ∀ front ∈ fronts, IsBeginning front path)
    (h : disk.climb fronts = .ok (missing, made)) :
    Made path disk made ∧ ∀ front ∈ missing, IsBeginning front path := by
  induction fronts generalizing missing with
  | nil =>
      cases h
      exact ⟨.refl, by simp⟩
  | cons front fronts ih =>
      rw [List.forall_mem_cons] at hfronts
      unfold climb at h
      split at h
      · rename_i hmake
        cases h
        exact ⟨.single (makes_of_makeDirectory hdisk hfronts.1 hmake), by simp⟩
      · cases hclimb : disk.climb fronts with
        | error fault =>
            rw [hclimb] at h
            cases h
        | ok result =>
            rw [hclimb] at h
            cases h
            obtain ⟨hmade, hmissing⟩ := ih hfronts.2 hclimb
            exact ⟨hmade, List.forall_mem_cons.mpr ⟨hfronts.1, hmissing⟩⟩
      · split at h
        · cases h
          exact ⟨.refl, by simp⟩
        · cases h
      · cases h

theorem made_makeAll {fronts : List Path} (hdisk : disk.WellFormed)
    (hfronts : ∀ front ∈ fronts, IsBeginning front path) :
    Made path disk (disk.makeAll fronts).2 := by
  induction fronts generalizing disk with
  | nil => exact .refl
  | cons front fronts ih =>
      rw [List.forall_mem_cons] at hfronts
      unfold makeAll
      split
      · rename_i hmake
        have hstep := makes_of_makeDirectory hdisk hfronts.1 hmake
        exact .head hstep (ih (hstep.wellFormed hdisk) hfronts.2)
      · split
        · exact ih hdisk hfronts.2
        · exact .refl
      · exact .refl

/-- However it ends, making a directory with its ancestors is a sequence of steps on the way of
every path that goes on behind it. -/
theorem made_makeDirectories {parent : Path} (hdisk : disk.WellFormed)
    (hparent : path.parent? = some parent) : Made path disk (disk.makeDirectories parent).2 := by
  have hfronts : ∀ front ∈ ancestry (parent.length + 1) parent, IsBeginning front path := by
    intro front hfront
    obtain ⟨hne, hfrontpath, hparts⟩ := prefix_of_mem_ancestry hfront
    rcases parent?_cases hparent with rfl | rfl | ⟨hpath, hsplit⟩
    · simp [ancestry_nil] at hfront
    · simp [ancestry_slash] at hfront
    · exact ⟨hne, hfrontpath.trans hpath, hparts.trans hsplit⟩
  unfold makeDirectories
  cases hclimb : disk.climb (ancestry (parent.length + 1) parent) with
  | error fault => exact .refl
  | ok result =>
      obtain ⟨hmade, hmissing⟩ := made_climb hdisk hfronts hclimb
      exact hmade.trans (made_makeAll (hmade.wellFormed hdisk) (by simpa using hmissing))

end Made

end Assets.Disk
