import Assets.Proofs.Tree.Confinement

/-!
# What a written file set leaves

Two names can lead to one place: `a` and `./a` do.  Files are written one after the other, so the
last one with a destination is the one that stays there.  If the writing of a set succeeds, then
below its directory

```text
what a location holds  =  the content of the last file that belongs there, if any does,
                          and otherwise what it held before
```

(`fileAt?_write`), unless a file has two names there, and each destination leads to the location
where its file belongs (`resolve_write`).  So every file is found again at its destination exactly
if files with one destination have one content (`kept_write_iff`).

The view of a disk for this is `fileAt?`, since making directories does not change it.  Both
statements are inductions on the files that are still to be written.  The directory may be missing
at the start, and where it is is known only once a file has been written; what the induction
carries along is that its path leads to no other location.
-/

namespace Assets

open Assets.Path

namespace Disk

variable {disk made grown : Disk} {root path : Path}

theorem Made.fileAt?_eq (hdisk : disk.WellFormed) (h : Made path disk made)
    (location : Location) : made.fileAt? location = disk.fileAt? location := by
  induction h with
  | refl => rfl
  | tail hmade hstep ih =>
      have hwell := Made.wellFormed hdisk hmade
      rw [← ih]
      cases hstep with
      | @make _ other _ _ hmissing _ _ =>
          by_cases hother : location = other
          · subst hother
            rw [fileAt?, fileAt?, find?_put_self hwell (ne_nil_of_missing hmissing), hmissing]
          · rw [fileAt?, fileAt?, find?_put_of_missing hwell hmissing hother]

/-- No file has two names at or below the location that a path leads to. -/
def SinglyNamed (disk : Disk) (root : Path) : Prop :=
  ∀ base, disk.LeadsTo root base → ∀ location other, disk.SameFile location other →
    base <+: location → base <+: other → other = location

theorem SinglyNamed.of_grows (hgrows : disk.Grows grown) (h : disk.SinglyNamed root) :
    grown.SinglyNamed root :=
  fun base hbase location other hsame =>
    h base (hbase.of_grows hgrows) location other (hgrows.sameFile_iff.mp hsame)

end Disk

namespace Tree

open Disk

variable {disk after grown : Disk} {root path : Path} {base : Location} {file : File}
  {files : FileSet} {targets : List (File × Path)}

/-! ## One file -/

/-- What is done by a writing that succeeds. -/
theorem exists_of_writeFile_ok (hdisk : disk.WellFormed) (hfree : disk.LinkFree root)
    (hpath : destination? root file.name = some path)
    (h : writeFile disk file path = (.ok (), after)) :
    ∃ made place, Made path disk made ∧ made.resolve .file path = .ok place ∧
      place.entry ≠ some .directory ∧
      after = made.put place.location (.file (Text.bytes file.content)) ∧
      ∃ base, disk.LeadsTo root base ∧ place.location = base ++ reduced file.name := by
  obtain ⟨made, hmade, hresult⟩ := exists_of_writeFile hdisk file path
  rw [h] at hresult
  rcases hresult with ⟨report, hreport⟩ | ⟨written, hwrite, hsame⟩
  · simp at hreport
  · obtain rfl : after = written := (Prod.mk.inj hsame).2
    obtain ⟨place, hplace, hdirectory, rfl⟩ := exists_of_write hwrite
    obtain ⟨base, hbase, hlocation⟩ :=
      location_of_resolve (hfree.of_grows (hmade.grows hdisk)) hpath hplace
    exact ⟨made, place, hmade, hplace, hdirectory, rfl, base, hbase.of_grows (hmade.grows hdisk),
      hlocation⟩

theorem fileAt?_writeFile (hdisk : disk.WellFormed) (hfree : disk.LinkFree root)
    (hsingle : disk.SinglyNamed root) (hbase : ∀ other, disk.LeadsTo root other → other = base)
    (hpath : destination? root file.name = some path)
    (h : writeFile disk file path = (.ok (), after)) (names : Location) :
    after.fileAt? (base ++ names) =
      if names = reduced file.name then some (Text.bytes file.content)
      else disk.fileAt? (base ++ names) := by
  obtain ⟨made, place, hmade, hplace, hdirectory, rfl, other, hother, hlocation⟩ :=
    exists_of_writeFile_ok hdisk hfree hpath h
  obtain rfl := hbase other hother
  have hwell := Made.wellFormed hdisk hmade
  split
  · rename_i heq
    rw [heq, ← hlocation, fileAt?, find?_put_self hwell (ne_nil_of_write hplace hdirectory)]
  · rename_i hne
    have hdiffers : ¬made.SameFile place.location (other ++ names) := by
      intro hsame
      rw [(hmade.grows hdisk).sameFile_iff, hlocation] at hsame
      have heq := hsingle other hother _ _ hsame (List.prefix_append ..) (List.prefix_append ..)
      exact hne (List.append_cancel_left heq)
    rw [← hmade.fileAt?_eq hdisk, fileAt?, fileAt?, find?_put_of_not_sameFile hwell hdiffers]

/-- The destination of a file that has been written leads to it, also later on. -/
theorem resolve_writeFile (hdisk : disk.WellFormed) (hfree : disk.LinkFree root)
    (hbase : ∀ other, disk.LeadsTo root other → other = base)
    (hpath : destination? root file.name = some path)
    (h : writeFile disk file path = (.ok (), after)) (hgrows : after.Grows grown) :
    grown.resolve .target path =
      .ok ⟨base ++ reduced file.name, grown.find? (base ++ reduced file.name)⟩ := by
  obtain ⟨made, place, hmade, hplace, hdirectory, rfl, other, hother, hlocation⟩ :=
    exists_of_writeFile_ok hdisk hfree hpath h
  rw [← hbase other hother, ← hlocation]
  have hmadewell := hmade.wellFormed hdisk
  have hput : made.Grows (made.put place.location (.file (Text.bytes file.content))) :=
    .put hmadewell (ne_nil_of_write hplace hdirectory) (kept_of_write hmadewell hplace hdirectory _)
  refine resolve_of_grows (hput.trans hgrows) hplace ?_
  exact not_link_of_walk hmadewell (hmadewell.startOf path) (resolve_eq_ok_iff.mp hplace).2
    (by decide)

/-! ## File sets -/

/-- Writing all files is writing the first one and then the others. -/
theorem exists_of_writeAll_cons {target : File × Path} (hdisk : disk.WellFormed)
    (hfree : disk.LinkFree root) (hpath : destination? root target.1.name = some target.2)
    (h : (writeAll disk (target :: targets)).result = .ok ()) :
    ∃ after, writeFile disk target.1 target.2 = (.ok (), after) ∧ Confined root disk after ∧
      (writeAll after targets).result = .ok () ∧
      (writeAll disk (target :: targets)).disk = (writeAll after targets).disk := by
  obtain ⟨file, path⟩ := target
  have hconfined := confined_writeFile hdisk hfree hpath
  rw [writeAll] at h ⊢
  split at h
  · rename_i after hfile
    rw [hfile] at hconfined ⊢
    exact ⟨after, rfl, hconfined, h, rfl⟩
  · cases h

theorem exists_of_write_ok (h : (write disk root files).result = .ok ()) :
    ∃ targets, targets.map Prod.fst = files ∧
      (∀ target ∈ targets, destination? root target.1.name = some target.2) ∧
      (writeAll disk targets).result = .ok () ∧
      (write disk root files).disk = (writeAll disk targets).disk := by
  unfold write at h ⊢
  split at h
  · rename_i targets htargets
    obtain ⟨hfiles, hpaths⟩ := destinations_eq_ok htargets
    exact ⟨targets, hfiles, hpaths, h, rfl⟩
  · cases h

/-- The file of a set that stays where some names lead: the last that goes there. -/
def lastAt? (files : FileSet) (names : Location) : Option File :=
  (files.filter (reduced ·.name = names)).getLast?

theorem lastAt?_cons (file : File) (files : FileSet) (names : Location) :
    lastAt? (file :: files) names =
      (lastAt? files names).or (if names = reduced file.name then some file else none) := by
  unfold lastAt?
  rw [List.filter_cons]
  split
  · rename_i hsame
    rw [List.getLast?_cons, if_pos (of_decide_eq_true hsame).symm]
    cases (files.filter (reduced ·.name = names)).getLast? <;> rfl
  · rename_i hdiffers
    rw [if_neg fun hsame => hdiffers (decide_eq_true hsame.symm), Option.or_none]

theorem of_lastAt?_eq_some {names : Location} (h : lastAt? files names = some file) :
    file ∈ files ∧ reduced file.name = names := by
  have hmem := List.mem_of_getLast? h
  rw [List.mem_filter] at hmem
  exact ⟨hmem.1, of_decide_eq_true hmem.2⟩

theorem exists_lastAt? (h : file ∈ files) :
    ∃ last, lastAt? files (reduced file.name) = some last := by
  have hmem : file ∈ files.filter (reduced ·.name = reduced file.name) :=
    List.mem_filter.mpr ⟨h, by simp⟩
  exact ⟨_, List.getLast?_eq_some_getLast (List.ne_nil_of_mem hmem)⟩

theorem fileAt?_writeAll (hdisk : disk.WellFormed) (hfree : disk.LinkFree root)
    (hsingle : disk.SinglyNamed root) (hbase : ∀ other, disk.LeadsTo root other → other = base)
    (htargets : ∀ target ∈ targets, destination? root target.1.name = some target.2)
    (h : (writeAll disk targets).result = .ok ()) (names : Location) :
    (writeAll disk targets).disk.fileAt? (base ++ names) =
      ((lastAt? (targets.map Prod.fst) names).map fun file => Text.bytes file.content).or
        (disk.fileAt? (base ++ names)) := by
  induction targets generalizing disk with
  | nil => rfl
  | cons target targets ih =>
      rw [List.forall_mem_cons] at htargets
      obtain ⟨after, hfile, hconfined, hrest, hsame⟩ :=
        exists_of_writeAll_cons hdisk hfree htargets.1 h
      have hbase' : ∀ other, after.LeadsTo root other → other = base :=
        fun other hother => hbase other (hother.of_grows hconfined.grows)
      rw [hsame, ih hconfined.wellFormed (hfree.of_grows hconfined.grows)
          (hsingle.of_grows hconfined.grows) hbase' htargets.2 hrest,
        fileAt?_writeFile hdisk hfree hsingle hbase htargets.1 hfile, List.map_cons, lastAt?_cons]
      cases lastAt? (targets.map Prod.fst) names with
      | some last => rfl
      | none => split <;> rfl

theorem resolve_writeAll (hdisk : disk.WellFormed) (hfree : disk.LinkFree root)
    (hbase : ∀ other, disk.LeadsTo root other → other = base)
    (htargets : ∀ target ∈ targets, destination? root target.1.name = some target.2)
    (h : (writeAll disk targets).result = .ok ()) (hfile : (file, path) ∈ targets) :
    (writeAll disk targets).disk.resolve .target path =
      .ok ⟨base ++ reduced file.name,
        (writeAll disk targets).disk.find? (base ++ reduced file.name)⟩ := by
  induction targets generalizing disk with
  | nil => simp at hfile
  | cons target targets ih =>
      rw [List.forall_mem_cons] at htargets
      obtain ⟨after, hwrite, hconfined, hrest, hsame⟩ :=
        exists_of_writeAll_cons hdisk hfree htargets.1 h
      have hfree' := hfree.of_grows hconfined.grows
      rw [hsame]
      rcases List.mem_cons.mp hfile with rfl | hfile
      · have hgrows := (confined_writeAll hconfined.wellFormed hfree' htargets.2).grows
        exact resolve_writeFile hdisk hfree hbase htargets.1 hwrite hgrows
      · exact ih hconfined.wellFormed hfree'
          (fun other hother => hbase other (hother.of_grows hconfined.grows)) htargets.2 hrest hfile

theorem exists_destination (h : (write disk root files).result = .ok ()) (hfile : file ∈ files) :
    ∃ path, destination? root file.name = some path := by
  obtain ⟨targets, rfl, htargets, -⟩ := exists_of_write_ok h
  obtain ⟨target, htarget, rfl⟩ := List.mem_map.mp hfile
  exact ⟨target.2, htargets target htarget⟩

/-- Every file of a set is found at its destination with its own content. -/
def Kept (disk : Disk) (root : Path) (files : FileSet) : Prop :=
  ∀ file ∈ files, ∃ path, destination? root file.name = some path ∧
    disk.read path = .ok (Text.bytes file.content)

/-- Files of a set with one destination have one content. -/
def Agree (root : Path) (files : FileSet) : Prop :=
  ∀ file ∈ files, ∀ other ∈ files, destination? root file.name = destination? root other.name →
    file.content = other.content

instance (root : Path) (files : FileSet) : Decidable (Agree root files) :=
  inferInstanceAs (Decidable (∀ file ∈ files, ∀ other ∈ files, _ → _))

section Write

variable (hdisk : disk.WellFormed) (hfree : disk.LinkFree root) (hsingle : disk.SinglyNamed root)
  (h : (write disk root files).result = .ok ())

include hdisk hfree hsingle h

/-- What is below the directory once a file set has been written. -/
theorem fileAt?_write (hbase : disk.LeadsTo root base) (names : Location) :
    (write disk root files).disk.fileAt? (base ++ names) =
      ((lastAt? files names).map fun file => Text.bytes file.content).or
        (disk.fileAt? (base ++ names)) := by
  obtain ⟨targets, rfl, htargets, hall, hsame⟩ := exists_of_write_ok h
  rw [hsame]
  exact fileAt?_writeAll hdisk hfree hsingle (fun other hother => hother.unique hbase) htargets hall
    names

omit hsingle in
/-- Every destination leads to where its file belongs. -/
theorem resolve_write (hfile : file ∈ files) (hpath : destination? root file.name = some path) :
    ∃ base, disk.LeadsTo root base ∧ (write disk root files).disk.resolve .target path =
      .ok ⟨base ++ reduced file.name,
        (write disk root files).disk.find? (base ++ reduced file.name)⟩ := by
  obtain ⟨targets, rfl, htargets, hall, hsame⟩ := exists_of_write_ok h
  obtain ⟨⟨file, path⟩, htarget, rfl⟩ := List.mem_map.mp hfile
  obtain rfl := Option.some.inj ((htargets _ htarget).symm.trans hpath)
  -- the directory is where the first file was written
  obtain ⟨first, rest, rfl⟩ := List.exists_cons_of_ne_nil (List.ne_nil_of_mem htarget)
  have hfirst := htargets first (by simp)
  obtain ⟨after, hwrite, -⟩ := exists_of_writeAll_cons hdisk hfree hfirst hall
  obtain ⟨_, _, -, -, -, -, base, hbase, -⟩ := exists_of_writeFile_ok hdisk hfree hfirst hwrite
  refine ⟨base, hbase, ?_⟩
  rw [hsame]
  exact resolve_writeAll hdisk hfree (fun other hother => hother.unique hbase) htargets hall htarget

/-- At the destination of a file stands the last file that goes there. -/
theorem read_destination {last : File} (hfile : file ∈ files)
    (hlast : lastAt? files (reduced file.name) = some last)
    (hpath : destination? root file.name = some path) :
    (write disk root files).disk.read path = .ok (Text.bytes last.content) := by
  obtain ⟨base, hbase, hresolve⟩ := resolve_write hdisk hfree h hfile hpath
  have hcontent := fileAt?_write hdisk hfree hsingle h hbase (reduced file.name)
  rw [hlast, Option.map_some, Option.some_or, fileAt?_eq_some_iff] at hcontent
  rw [hcontent] at hresolve
  exact read_of_resolve hresolve

/-- Every file is found at its destination exactly if no two files with one destination differ. -/
theorem kept_write_iff : Kept (write disk root files).disk root files ↔ Agree root files := by
  constructor
  · intro hkept file hfile other hother hsame
    obtain ⟨path, hpath, hread⟩ := hkept file hfile
    obtain ⟨path', hpath', hread'⟩ := hkept other hother
    obtain rfl : path = path' := Option.some.inj (hpath.symm.trans (hsame.trans hpath'))
    exact Text.bytes_inj.mp (Except.ok.inj (hread.symm.trans hread'))
  · intro hagree file hfile
    obtain ⟨path, hpath⟩ := exists_destination h hfile
    obtain ⟨last, hlast⟩ := exists_lastAt? hfile
    obtain ⟨hmem, hreduced⟩ := of_lastAt?_eq_some hlast
    obtain ⟨path', hpath'⟩ := exists_destination h hmem
    have hpaths : path = path' := (destination?_eq_iff hpath hpath').mpr hreduced.symm
    refine ⟨path, hpath, ?_⟩
    rw [read_destination hdisk hfree hsingle h hfile hlast hpath,
      hagree file hfile last hmem (by rw [hpath, hpath', hpaths])]

end Write

end Tree

end Assets
