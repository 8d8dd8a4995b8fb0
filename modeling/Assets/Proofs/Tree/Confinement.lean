import Assets.Proofs.Disk.Changes

/-!
# Writing stays below the directory

Whatever the names of the files are, and however the writing of a file set ends, it changes what is
at or below its directory only, apart from the missing directories that it makes on the way there;
and a name that leads out of the directory, wherever it stands in the set, keeps everything as it
was (`write_confined`).  What changes can have a name elsewhere, and a directory on the way need not
be one above: `write_unconfined` has an example of each.

Writing a set is a sequence of two kinds of steps: a directory is made on the way of a destination
(`confined_of_makes`), and a file is written at one (`confined_of_write`).  `Confined` is what each
of them does to the disk, and it is transitive.  A step is described on the disk that it finds,
while the statement is about the disk before all of them.  This is where `Leads` is used: what lies
at or below the directory later on did so from the start, since paths lead where they led before.
-/

namespace Assets

open Assets.Path

namespace Disk

variable {disk grown : Disk} {root path : Path} {location : Location}

/-- At or below the location that a path leads to. -/
def Within (disk : Disk) (root : Path) (location : Location) : Prop :=
  ∃ base, disk.LeadsTo root base ∧ base <+: location

/-- Names what is at or below the location that a path leads to, from there or from elsewhere. -/
def NamedWithin (disk : Disk) (root : Path) (location : Location) : Prop :=
  ∃ other, disk.SameFile other location ∧ disk.Within root other

/-- Nothing is at a location that a path leads over. -/
def MissingOn (disk : Disk) (root : Path) (location : Location) : Prop :=
  disk.find? location = none ∧ ∃ parts, parts <+: root.split ∧ disk.LeadsOn root parts location

/-- No symbolic link lies below the location that a path leads to. -/
def LinkFree (disk : Disk) (root : Path) : Prop :=
  ∀ base, disk.LeadsTo root base → disk.LinkFreeBelow base

theorem leadsTo_of_resolve (h : disk.resolve .target root = .ok ⟨location, some .directory⟩) :
    disk.LeadsTo root location :=
  leads_of_walk (resolve_eq_ok_iff.mp h).2 (.inr rfl)

theorem LeadsOn.of_grows (hgrows : disk.Grows grown) {parts : List Name}
    (h : grown.LeadsOn path parts location) : disk.LeadsOn path parts location := by
  obtain ⟨left, hleads⟩ := h
  rw [startOf_of_grows hgrows] at hleads
  exact ⟨left, hleads.of_grows hgrows⟩

theorem Within.of_grows (hgrows : disk.Grows grown) (h : grown.Within root location) :
    disk.Within root location := by
  obtain ⟨base, hbase, hbelow⟩ := h
  exact ⟨base, hbase.of_grows hgrows, hbelow⟩

theorem Within.named (h : disk.Within root location) : disk.NamedWithin root location :=
  ⟨location, .refl disk location, h⟩

theorem NamedWithin.of_grows (hgrows : disk.Grows grown) (h : grown.NamedWithin root location) :
    disk.NamedWithin root location := by
  obtain ⟨other, hsame, hwithin⟩ := h
  exact ⟨other, hgrows.sameFile_iff.mp hsame, hwithin.of_grows hgrows⟩

theorem MissingOn.of_grows (hgrows : disk.Grows grown) (h : grown.MissingOn root location) :
    disk.MissingOn root location := by
  obtain ⟨hmissing, parts, hparts, hleads⟩ := h
  exact ⟨(hgrows.entry location).none hmissing, parts, hparts, hleads.of_grows hgrows⟩

theorem LinkFree.of_grows (hgrows : disk.Grows grown) (h : disk.LinkFree root) :
    grown.LinkFree root :=
  fun base hbase => (h base (hbase.of_grows hgrows)).of_grows hgrows

theorem LinkFree.of_leadsTo {base : Location} (hbase : disk.LeadsTo root base)
    (h : disk.LinkFreeBelow base) : disk.LinkFree root :=
  fun _ hother => hbase.unique hother ▸ h

/-- One disk comes from the other by changes at or below a directory, and by making the
directory. -/
structure Confined (root : Path) (disk after : Disk) : Prop where
  grows : disk.Grows after
  wellFormed : after.WellFormed
  entry : ∀ location, after.find? location = disk.find? location ∨
    disk.NamedWithin root location ∨
      disk.MissingOn root location ∧ after.find? location = some .directory

namespace Confined

variable {after last : Disk}

theorem refl (root : Path) (hdisk : disk.WellFormed) : Confined root disk disk :=
  ⟨.refl disk, hdisk, fun _ => .inl rfl⟩

theorem trans (h : Confined root disk after) (h' : Confined root after last) :
    Confined root disk last := by
  refine ⟨h.grows.trans h'.grows, h'.wellFormed, fun location => ?_⟩
  rcases h'.entry location with hsame | hwithin | ⟨hmissing, hmade⟩
  · rw [hsame]
    exact h.entry location
  · exact .inr (.inl (hwithin.of_grows h.grows))
  · exact .inr (.inr ⟨hmissing.of_grows h.grows, hmade⟩)

end Confined

end Disk

namespace Tree

open Disk

variable {disk made written : Disk} {root path : Path} {name : String} {file : File}

/-! ## Destinations -/

theorem destinations_eq_ok {files : FileSet} {targets : List (File × Path)}
    (h : destinations root files = .ok targets) :
    targets.map Prod.fst = files ∧
      ∀ target ∈ targets, destination? root target.1.name = some target.2 := by
  induction files generalizing targets with
  | nil =>
      cases h
      simp
  | cons file files ih =>
      unfold destinations at h
      split at h
      · rename_i path hpath
        cases hrest : destinations root files with
        | error report =>
            rw [hrest] at h
            cases h
        | ok rest =>
            rw [hrest] at h
            cases h
            obtain ⟨hfiles, htargets⟩ := ih hrest
            exact ⟨by simp [hfiles], List.forall_mem_cons.mpr ⟨hpath, htargets⟩⟩
      · cases h

theorem destinations_of_refused {files : FileSet} (hfile : file ∈ files)
    (hrefused : destination? root file.name = none) :
    ∃ report, destinations root files = .error report := by
  cases h : destinations root files with
  | error report => exact ⟨report, rfl⟩
  | ok targets =>
      obtain ⟨hfiles, htargets⟩ := destinations_eq_ok h
      rw [← hfiles] at hfile
      obtain ⟨target, htarget, rfl⟩ := List.mem_map.mp hfile
      rw [htargets target htarget] at hrefused
      cases hrefused

theorem startOf_destination (hpath : destination? root name = some path) (disk : Disk) :
    disk.startOf path = disk.startOf root := by
  simp only [startOf, isAbsolute_destination hpath]

/-- Where the parts of the directory lead without the empty part at its end, there the directory
is. -/
theorem leadsTo_of_leading {left : Nat} {base : Location}
    (h : disk.Leads linkLimit (disk.startOf root) root.leading left base) :
    disk.LeadsTo root base := by
  refine ⟨left, ?_⟩
  rcases split_eq_leading root with hsplit | hsplit
  · exact hsplit ▸ h
  · exact hsplit ▸ h.concat_nil

theorem dots_notMem_split_destination (hpath : destination? root name = some path) :
    ∃ relative, path.split = root.leading ++ relative ∧ [dot, dot] ∉ relative := by
  refine ⟨_, split_destination hpath, ?_⟩
  split
  · simp
  · exact fun hmem => (isName_of_mem_reduced hmem).ne_dots rfl

/-! ## One step -/

/-- A directory on the way of a destination is one above the directory of the files, the directory
itself, or one below it. -/
theorem confined_of_makes (hdisk : disk.WellFormed) (hfree : disk.LinkFree root)
    (hpath : destination? root name = some path) (h : Makes path disk made) :
    Confined root disk made := by
  refine ⟨h.grows hdisk, h.wellFormed hdisk, fun other => ?_⟩
  cases h with
  | @make parts location hparts hleads hmissing _ _ =>
      by_cases hother : other = location
      case neg => exact .inl (find?_put_of_missing hdisk hmissing hother _)
      subst hother
      right
      obtain ⟨left, hleads⟩ := hleads
      rw [startOf_destination hpath] at hleads
      obtain ⟨relative, hsplit, hdots⟩ := dots_notMem_split_destination hpath
      rw [hsplit] at hparts
      rcases List.prefix_or_prefix_of_prefix hparts (List.prefix_append ..) with hshort | hlong
      · right
        exact ⟨⟨hmissing, parts, hshort.trans (leading_prefix_split root), left, hleads⟩,
          find?_put_self hdisk (ne_nil_of_missing hmissing) _⟩
      · left
        obtain ⟨more, rfl⟩ := hlong
        obtain ⟨mid, base, hroot, hmore⟩ := hleads.exists_of_append
        have hbase := leadsTo_of_leading hroot
        have hdown : [dot, dot] ∉ more := fun hmem =>
          hdots (((List.prefix_append_right_inj _).mp hparts).subset hmem)
        exact Within.named ⟨base, hbase, hmore.prefix_of_notMem_dots (hfree base hbase) hdown⟩

/-- A file lies where its names lead from the directory. -/
theorem location_of_resolve {place : Place} (hfree : disk.LinkFree root)
    (hpath : destination? root name = some path) (h : disk.resolve .file path = .ok place) :
    ∃ base, disk.LeadsTo root base ∧ place.location = base ++ reduced name := by
  have hwalk := (resolve_eq_ok_iff.mp h).2
  rw [startOf_destination hpath, split_destination hpath] at hwalk
  obtain ⟨left, base, hroot, hrest⟩ := exists_leads_of_walk_append (by split <;> simp_all) hwalk
  have hbase := leadsTo_of_leading hroot
  refine ⟨base, hbase, ?_⟩
  split at hrest
  · rename_i hnil
    rw [walk_stay (.inr rfl), walk_nil] at hrest
    cases hrest
    simp [hnil]
  · exact location_of_walk_names (hfree base hbase) (fun _ => isName_of_mem_reduced) hrest

theorem confined_of_write {content : List UInt8} (hdisk : disk.WellFormed)
    (hfree : disk.LinkFree root) (hpath : destination? root name = some path)
    (h : disk.write path content = .ok written) : Confined root disk written := by
  refine ⟨grows_of_write hdisk h, wellFormed_of_write hdisk h, fun other => ?_⟩
  obtain ⟨place, hplace, _, rfl⟩ := exists_of_write h
  by_cases hother : disk.SameFile place.location other
  · obtain ⟨base, hbase, hlocation⟩ := location_of_resolve hfree hpath hplace
    have hwithin : disk.Within root place.location :=
      ⟨base, hbase, hlocation ▸ List.prefix_append ..⟩
    exact .inr (.inl ⟨place.location, hother, hwithin⟩)
  · exact .inl (find?_put_of_not_sameFile hdisk hother _)

/-! ## Files and file sets -/

theorem made_makeParent (hdisk : disk.WellFormed) (path : Path) :
    Made path disk (makeParent disk path).2 := by
  unfold makeParent
  split
  · exact .refl
  · rename_i parent hparent
    have hmade := made_makeDirectories hdisk hparent
    split
    · rename_i hresult
      rwa [hresult] at hmade
    · rename_i hresult
      rwa [hresult] at hmade

/-- Writing a file makes directories on the way of its path, and then either gives up or writes the
file. -/
theorem exists_of_writeFile (hdisk : disk.WellFormed) (file : File) (path : Path) :
    ∃ made, Made path disk made ∧
      ((∃ report, writeFile disk file path = (.error report, made)) ∨
        ∃ written, made.write path (Text.bytes file.content) = .ok written ∧
          writeFile disk file path = (.ok (), written)) := by
  have hmade := made_makeParent hdisk path
  refine ⟨_, hmade, ?_⟩
  unfold writeFile
  split
  · rename_i report made hresult
    exact .inl ⟨report, by rw [hresult]⟩
  · rename_i made hresult
    rw [hresult]
    split
    · rename_i written hwrite
      exact .inr ⟨written, hwrite, rfl⟩
    · exact .inl ⟨_, rfl⟩

theorem confined_of_made (hdisk : disk.WellFormed) (hfree : disk.LinkFree root)
    (hpath : destination? root name = some path) (h : Made path disk made) :
    Confined root disk made := by
  induction h with
  | refl => exact .refl root hdisk
  | tail _ hstep ih =>
      exact ih.trans (confined_of_makes ih.wellFormed (hfree.of_grows ih.grows) hpath hstep)

theorem confined_writeFile (hdisk : disk.WellFormed) (hfree : disk.LinkFree root)
    (hpath : destination? root file.name = some path) :
    Confined root disk (writeFile disk file path).2 := by
  obtain ⟨made, hmade, hresult⟩ := exists_of_writeFile hdisk file path
  have hconfined := confined_of_made hdisk hfree hpath hmade
  rcases hresult with ⟨report, hresult⟩ | ⟨written, hwrite, hresult⟩
  · rw [hresult]
    exact hconfined
  · rw [hresult]
    exact hconfined.trans
      (confined_of_write hconfined.wellFormed (hfree.of_grows hconfined.grows) hpath hwrite)

theorem confined_writeAll {targets : List (File × Path)} (hdisk : disk.WellFormed)
    (hfree : disk.LinkFree root)
    (htargets : ∀ target ∈ targets, destination? root target.1.name = some target.2) :
    Confined root disk (writeAll disk targets).disk := by
  induction targets generalizing disk with
  | nil => exact .refl root hdisk
  | cons target targets ih =>
      obtain ⟨file, path⟩ := target
      rw [List.forall_mem_cons] at htargets
      have hfile := confined_writeFile hdisk hfree htargets.1
      unfold writeAll
      split
      · rename_i after hresult
        rw [hresult] at hfile
        exact hfile.trans (ih hfile.wellFormed (hfree.of_grows hfile.grows) htargets.2)
      · rename_i hresult
        rwa [hresult] at hfile

theorem confined_write (files : FileSet) (hdisk : disk.WellFormed) (hfree : disk.LinkFree root) :
    Confined root disk (write disk root files).disk := by
  unfold write
  split
  · rename_i targets htargets
    exact confined_writeAll hdisk hfree (destinations_eq_ok htargets).2
  · exact .refl root hdisk

/-- Writing a file set changes what is at or below its directory, whatever else it is called, makes
the missing directories that the path goes through, and does nothing else; and it does nothing at
all if the name of one of the files leads out of the directory. -/
theorem write_confined (disk : Disk) (root : Path) (files : FileSet) (hdisk : disk.WellFormed)
    (hfree : disk.LinkFree root) :
    (∀ location,
      (write disk root files).disk.find? location = disk.find? location ∨
      disk.NamedWithin root location ∨
      disk.MissingOn root location ∧
        (write disk root files).disk.find? location = some .directory) ∧
    ((∃ file ∈ files, destination? root file.name = none) →
      (write disk root files).disk = disk) := by
  refine ⟨(confined_write files hdisk hfree).entry, ?_⟩
  rintro ⟨file, hfile, hrefused⟩
  obtain ⟨report, hreport⟩ := destinations_of_refused hfile hrefused
  rw [write, hreport]

/-- A directory with a file in it, and a link to the directory. -/
def linkedDisk : Disk where
  entries := [([ofString "out"], .directory), ([ofString "out", ofString "kept"], .file [1]),
    ([ofString "to"], .link (ofString "out"))]

/-- The link is above the directory written to, which is still missing. -/
theorem write_confined_linked :
    linkedDisk.WellFormed ∧ linkedDisk.LinkFree (ofString "to/new") ∧
    (∀ location,
      (write linkedDisk (ofString "to/new") [⟨"a/../b", "1"⟩]).disk.find? location =
        linkedDisk.find? location ∨
      linkedDisk.NamedWithin (ofString "to/new") location ∨
      linkedDisk.MissingOn (ofString "to/new") location ∧
        (write linkedDisk (ofString "to/new") [⟨"a/../b", "1"⟩]).disk.find? location =
          some .directory) ∧
    destination? (ofString "to/new") "a/../../evil" = none ∧
    (write linkedDisk (ofString "to/new") [⟨"a/../b", "1"⟩, ⟨"a/../../evil", "2"⟩]).disk =
      linkedDisk := by
  have hdisk : linkedDisk.WellFormed := by decide
  have hleads : linkedDisk.LeadsTo (ofString "to/new") [ofString "out", ofString "new"] := by
    have hto : IsLookedUp (ofString "to") := by constructor <;> decide
    have hout : IsLookedUp (ofString "out") := by constructor <;> decide
    have hnew : IsLookedUp (ofString "new") := by constructor <;> decide
    have hlink : linkedDisk.find? [ofString "to"] = some (.link (ofString "out")) := by decide
    have hfound : linkedDisk.find? [ofString "out"] = some .directory := by decide
    have hmissing : linkedDisk.find? [ofString "out", ofString "new"] = none := by decide
    exact ⟨39, .follow hto hlink (by decide)
      (.enter hout (.inr hfound) (.enter hnew (.inl hmissing) .done))⟩
  have hfree : linkedDisk.LinkFree (ofString "to/new") := .of_leadsTo hleads (by decide)
  have hrefused : destination? (ofString "to/new") "a/../../evil" = none := by decide
  exact ⟨hdisk, hfree, (write_confined linkedDisk _ _ hdisk hfree).1, hrefused,
    (write_confined linkedDisk _ _ hdisk hfree).2 ⟨⟨"a/../../evil", "2"⟩, by simp, hrefused⟩⟩

/-- A file with one name in a directory and another one outside. -/
def sharedDisk : Disk where
  entries := [([ofString "out"], .directory), ([ofString "out", ofString "a"], .file [0x31]),
    ([ofString "keep"], .hardLink [ofString "out", ofString "a"])]

/-- Without links below the directory something else can change all the same: the other name of a
file, and a directory that is made only because the path goes through it and out of it again. -/
theorem write_unconfined :
    (sharedDisk.WellFormed ∧ sharedDisk.LinkFree (ofString "out") ∧
      ¬sharedDisk.Within (ofString "out") [ofString "keep"] ∧
      sharedDisk.find? [ofString "keep"] = some (.file [0x31]) ∧
      (write sharedDisk (ofString "out") [⟨"a", "2"⟩]).disk.find? [ofString "keep"] =
        some (.file [0x32])) ∧
    linkedDisk.WellFormed ∧ linkedDisk.LinkFree (ofString "new/../out") ∧
      ¬linkedDisk.Within (ofString "new/../out") [ofString "new"] ∧
      (∀ base, linkedDisk.LeadsTo (ofString "new/../out") base → ¬[ofString "new"] <+: base) ∧
      linkedDisk.find? [ofString "new"] = none ∧
      (write linkedDisk (ofString "new/../out") [⟨"a", "1"⟩]).disk.find? [ofString "new"] =
        some .directory := by
  have hout : IsLookedUp (ofString "out") := by constructor <;> decide
  have hnew : IsLookedUp (ofString "new") := by constructor <;> decide
  have hshared : sharedDisk.LeadsTo (ofString "out") [ofString "out"] :=
    ⟨40, .enter hout (.inr (by decide)) .done⟩
  have hlinked : linkedDisk.LeadsTo (ofString "new/../out") [ofString "out"] :=
    ⟨40, .enter hnew (.inl (by decide)) (.up (.enter hout (.inr (by decide)) .done))⟩
  refine ⟨⟨by decide, .of_leadsTo hshared (by decide), ?_, by decide, by decide +kernel⟩,
    by decide, .of_leadsTo hlinked (by decide), ?_, ?_, by decide, by decide +kernel⟩
  · rintro ⟨base, hbase, hbelow⟩
    obtain rfl := hshared.unique hbase
    exact absurd hbelow (by decide)
  · rintro ⟨base, hbase, hbelow⟩
    obtain rfl := hlinked.unique hbase
    exact absurd hbelow (by decide)
  · intro base hbase habove
    obtain rfl := hlinked.unique hbase
    exact absurd habove (by decide)

end Tree

end Assets
