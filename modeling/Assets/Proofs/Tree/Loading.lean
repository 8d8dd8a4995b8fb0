import Assets.Plugin.Directory
import Assets.Proofs.Path.Escaping
import Assets.Proofs.Tree.Frame
import Assets.Proofs.Tree.RoundTrip

/-!
# Loading what has been written

A file is written at its destination, the cleaned path, and loaded through its name as it stands.
Cleaning takes out empty parts and dots, and the name still has them.  `Padded` puts them in again:
anywhere but at the end, where they would ask for a directory.  A walk goes through padded parts as
through the parts themselves (`walk_of_padded`), also where a link comes in between, so that both
paths lead to one file (`resolve_of_padded`).

The two guards differ.  A name with a `..` may have a destination, but it is never loaded.
-/

namespace Assets

open Assets.Path

namespace Path

/-! ## Padded paths -/

/-- Parts with empty parts and dots put in between or in front. -/
inductive Padded : List Name → List Name → Prop where
  | nil : Padded [] []
  | cons {part : Name} {parts padded : List Name} (h : Padded parts padded) :
      Padded (part :: parts) (part :: padded)
  | pad {part : Name} {parts padded : List Name} (hpart : part = [] ∨ part = [dot])
      (hparts : parts ≠ []) (h : Padded parts padded) : Padded parts (part :: padded)

namespace Padded

variable {parts padded : List Name}

theorem append_left (front : List Name) (h : Padded parts padded) :
    Padded (front ++ parts) (front ++ padded) := by
  induction front with
  | nil => exact h
  | cons part front ih => exact .cons ih

theorem eq_nil (h : Padded [] padded) : padded = [] := by
  cases h with
  | nil => rfl
  | pad _ hparts _ => exact absurd rfl hparts

theorem eq_of_singleton {part : Name} (h : Padded parts [part]) : parts = [part] := by
  cases h with
  | cons h =>
      cases h
      rfl
  | pad _ hparts h =>
      cases h
      exact absurd rfl hparts

theorem mem (h : Padded parts padded) {part : Name} (hpart : part ∈ padded) :
    part ∈ parts ∨ part = [] ∨ part = [dot] := by
  induction h with
  | nil => exact .inl hpart
  | cons _ ih =>
      rcases List.mem_cons.mp hpart with rfl | hpart
      · exact .inl (List.mem_cons_self ..)
      · exact (ih hpart).imp_left (List.mem_cons_of_mem _)
  | pad hstays _ _ ih =>
      rcases List.mem_cons.mp hpart with rfl | hpart
      · exact .inr hstays
      · exact ih hpart

end Padded

/-- What a path leads through if it has no `..` among its parts: all parts but the empty ones and
the dots. -/
theorem foldl_pass_of_notMem_dots {passed parts : List Name} (h : [dot, dot] ∉ parts) :
    parts.foldl (pass dot) passed =
      passed ++ parts.filter fun part => part ≠ [] ∧ part ≠ [dot] := by
  induction parts generalizing passed with
  | nil => simp
  | cons part parts ih =>
      rw [List.mem_cons, not_or] at h
      rw [List.foldl_cons, ih h.2, pass]
      by_cases hstays : part = [] ∨ part = [dot]
      · rw [if_pos hstays, List.filter_cons_of_neg (by simpa [or_iff_not_imp_left] using hstays)]
      · rw [if_neg hstays, if_neg (Ne.symm h.1), List.append_assoc, List.singleton_append,
          List.filter_cons_of_pos (by simpa [not_or] using hstays)]

theorem padded_filter {parts : List Name}
    (hlast : ∀ last ∈ parts.getLast?, last ≠ [] ∧ last ≠ [dot]) :
    Padded (parts.filter fun part => part ≠ [] ∧ part ≠ [dot]) parts := by
  induction parts with
  | nil => exact .nil
  | cons part parts ih =>
      by_cases hnil : parts = []
      · subst hnil
        rw [List.filter_cons_of_pos (by simpa using hlast part rfl)]
        exact .cons .nil
      · have hrest : Padded (parts.filter fun part => part ≠ [] ∧ part ≠ [dot]) parts :=
          ih fun last hmem => hlast last (by rwa [List.getLast?_cons_of_ne_nil hnil])
        by_cases hpart : part ≠ [] ∧ part ≠ [dot]
        · rw [List.filter_cons_of_pos (by simpa using hpart)]
          exact .cons hrest
        · rw [List.filter_cons_of_neg (by simpa using hpart)]
          refine .pad (by simpa [or_iff_not_imp_left] using hpart) ?_ hrest
          -- the last part is left
          have hmem := List.getLast_mem hnil
          have hkept := hlast (parts.getLast hnil)
            (by rw [List.getLast?_cons_of_ne_nil hnil, List.getLast?_eq_some_getLast hnil]; rfl)
          exact List.ne_nil_of_mem (List.mem_filter.mpr ⟨hmem, by simpa using hkept⟩)

/-- The last part of a path that leads somewhere is a name or a `..` if the path does not end in a
slash or in a slash and a dot. -/
theorem last_part_of_split {path last : Path} (hne : reduce dot path.split ≠ [])
    (hslash : ¬[slash] <:+ path) (hdot : ¬[slash, dot] <:+ path)
    (hlast : last ∈ path.split.getLast?) : last ≠ [] ∧ last ≠ [dot] := by
  obtain ⟨front, hsplit⟩ := List.getLast?_eq_some_iff.mp hlast
  have hpath : path = Tree.pathOf (front ++ [last]) := by rw [← hsplit, pathOf_split]
  by_cases hfront : front = []
  · subst hfront
    constructor <;> rintro rfl <;> exact hne (by rw [hsplit]; rfl)
  · rw [pathOf_append hfront (by simp)] at hpath
    constructor
    · rintro rfl
      exact hslash ⟨Tree.pathOf front, hpath.symm⟩
    · rintro rfl
      exact hdot ⟨Tree.pathOf front, hpath.symm⟩

theorem mem_iff_exists_part {b : UInt8} (hb : b ≠ slash) (path : Path) :
    b ∈ path ↔ ∃ part ∈ path.split, b ∈ part := by
  induction path with
  | nil => simp [split]
  | cons c rest ih =>
      obtain ⟨name, names, hsplit⟩ := List.exists_cons_of_ne_nil (split_ne_nil rest)
      by_cases hc : c = slash
      · simp [split, hc, hb, ih]
      · simp [split, hc, hsplit] at ih ⊢
        grind

end Path

namespace Disk

variable {disk : Disk} {links : Nat} {here : Location} {part : Name} {parts padded : List Name}
  {path other : Path} {place : Place}

/-- What is put in front of a part leaves the walk where it is. -/
theorem exists_of_padded_cons (h : Padded (part :: parts) padded) :
    ∃ rest, Padded parts rest ∧ ∀ links here,
      disk.walk .target links here padded = disk.walk .target links here (part :: rest) := by
  generalize hall : part :: parts = all at h
  induction h with
  | nil => cases hall
  | cons h =>
      cases hall
      exact ⟨_, h, fun _ _ => rfl⟩
  | pad hpart _ _ ih =>
      obtain ⟨rest, hrest, hwalk⟩ := ih hall
      exact ⟨rest, hrest, fun links here => (walk_stay hpart).trans (hwalk links here)⟩

/-- A walk goes through padded parts as through the parts. -/
theorem walk_of_padded (hpadded : Padded parts padded)
    (h : disk.walk .target links here parts = .ok place) :
    disk.walk .target links here padded = .ok place := by
  have htarget (parts : List Name) : refusesSlash .target parts = false := by
    simp [refusesSlash]
  rw [← walks_iff] at h
  -- by the steps of the walk, each with what is put in front of it; a link puts names in front
  induction h generalizing padded with
  | done =>
      rw [hpadded.eq_nil]
      exact walk_nil
  | stay hpart _ ih =>
      obtain ⟨rest, hrest, hwalk⟩ := exists_of_padded_cons hpadded
      rw [hwalk, walk_stay hpart, ih hrest]
  | up _ ih =>
      obtain ⟨rest, hrest, hwalk⟩ := exists_of_padded_cons hpadded
      rw [hwalk, walk_up, ih hrest]
  | enter hpart _ hfind _ ih =>
      obtain ⟨rest, hrest, hwalk⟩ := exists_of_padded_cons hpadded
      rw [hwalk, walk_enter hpart (htarget rest) hfind, ih hrest]
  | last hpart hfind hdirectory hlink =>
      obtain ⟨rest, hrest, hwalk⟩ := exists_of_padded_cons hpadded
      rw [hwalk, hrest.eq_nil, walk_last hpart hfind hdirectory hlink]
  | follow hpart _ hfind _ htarget' _ ih =>
      obtain ⟨rest, hrest, hwalk⟩ := exists_of_padded_cons hpadded
      rw [hwalk, walk_follow hpart (htarget rest) hfind (by simp) htarget',
        ih (hrest.append_left _)]

theorem resolve_of_padded (hpadded : Padded path.split other.split)
    (habsolute : other.isAbsolute = path.isAbsolute) (hlength : other.length < pathLimit)
    (h : disk.resolve .target path = .ok place) : disk.resolve .target other = .ok place := by
  obtain ⟨husable, hwalk⟩ := resolve_eq_ok_iff.mp h
  have hne : other ≠ [] := by
    rintro rfl
    have hsplit := hpadded.eq_of_singleton
    exact husable.ne_nil (by rw [← pathOf_split path, hsplit]; rfl)
  have hstart : disk.startOf other = disk.startOf path := by simp only [startOf, habsolute]
  refine resolve_eq_ok_iff.mpr ⟨⟨?_, hlength, hne⟩, hstart ▸ walk_of_padded hpadded hwalk⟩
  -- what is put in has no NUL
  have hnul : (0 : UInt8) ≠ slash := by decide
  intro hmem
  obtain ⟨part, hpart, hzero⟩ := (mem_iff_exists_part hnul other).mp hmem
  rcases hpadded.mem hpart with hpart | rfl | rfl
  · exact husable.nul_notMem ((mem_iff_exists_part hnul path).mpr ⟨part, hpart, hzero⟩)
  · simp at hzero
  · revert hzero
    decide

end Disk

namespace Tree

open Disk

variable {disk : Disk} {root path : Path} {file : File} {files : FileSet}

section Load

variable (hdisk : disk.WellFormed) (hroot : disk.IsEmptyDirectory root)
  (hdistinct : files.Pairwise fun a b => destination? root a.name ≠ destination? root b.name)
  (h : (write disk root files).result = .ok ())

include hdisk hroot hdistinct h

/-- A file of its own destination is found there. -/
theorem read_own_destination (hfile : file ∈ files)
    (hpath : destination? root file.name = some path) :
    (write disk root files).disk.read path = .ok (Text.bytes file.content) := by
  have hagree : Agree root files := by
    intro a ha b hb hsame
    rw [List.inj_on_of_nodup_map (List.pairwise_map.mpr hdistinct) ha hb hsame]
  obtain ⟨path', hpath', hread⟩ :=
    (kept_write_iff hdisk hroot.linkFree (hroot.singlyNamed hdisk) h).mpr hagree file hfile
  obtain rfl := Option.some.inj (hpath.symm.trans hpath')
  exact hread

/-- The path of the name as it stands leads to the file. -/
theorem read_of_name (hfile : file ∈ files) (hdots : [dot, dot] ∉ (ofString file.name).split)
    (hslash : ¬[slash] <:+ ofString file.name) (hdot : ¬[slash, dot] <:+ ofString file.name)
    (hlength : (root.join (ofString file.name)).length < pathLimit) :
    (write disk root files).disk.read (root.join (ofString file.name)) =
      .ok (Text.bytes file.content) := by
  obtain ⟨path, hpath⟩ := exists_destination h hfile
  obtain ⟨⟨habsolute, -⟩, -⟩ := destination?_eq_some_iff.mp hpath
  have hreduced := reduced_ne_nil hdisk hroot h hfile
  obtain ⟨location, hresolve⟩ :=
    exists_of_read (read_own_destination hdisk hroot hdistinct h hfile hpath)
  have hnames : reduced file.name =
      (ofString file.name).split.filter fun part => part ≠ [] ∧ part ≠ [dot] := by
    rw [reduced, reduce, foldl_pass_of_notMem_dots hdots, List.nil_append]
  have hpadded : Padded path.split (root.join (ofString file.name)).split := by
    rw [split_destination hpath, if_neg hreduced, split_join root habsolute, hnames]
    exact (padded_filter fun _ => last_part_of_split hreduced hslash hdot).append_left _
  have hrelative : (root.join (ofString file.name)).isAbsolute = path.isAbsolute := by
    rw [isAbsolute_join root habsolute, isAbsolute_destination hpath]
  exact read_of_resolve (resolve_of_padded hpadded hrelative hlength hresolve)

end Load

theorem ofDirectory_of_not_staysBelow {id : String} (h : (ofString id).staysBelow = false)
    (disk : Disk) (root : Path) :
    Loader.ofDirectory disk root id =
      ⟨[.report ⟨.warn, "Refusing to load an id outside the load directory",
        [("id", Text.quoted id)]⟩], .value none⟩ := by
  rw [Loader.ofDirectory, if_neg (by rw [h]; exact Bool.false_ne_true)]

/-- **Loading what has been written.**  A file set whose files have different destinations has been
written into an empty directory.  Then every file is loaded from there under its own name, if this
has no `..` among its parts, does not end in a slash or in a slash and a dot, and does not make the
path too long.  A name with a `..` among its parts or with a slash in front is never loaded.  The
answer is the same whatever the disk holds, so that nothing is read for it. -/
theorem load_written (disk : Disk) (root : Path) (files : FileSet) (hdisk : disk.WellFormed)
    (hroot : disk.IsEmptyDirectory root)
    (hdistinct : files.Pairwise fun a b => destination? root a.name ≠ destination? root b.name)
    (h : (write disk root files).result = .ok ()) :
    (∀ file ∈ files, [dot, dot] ∉ (ofString file.name).split →
      ¬[slash] <:+ ofString file.name → ¬[slash, dot] <:+ ofString file.name →
      (root.join (ofString file.name)).length < pathLimit →
        Loader.ofDirectory (write disk root files).disk root file.name =
          .value (some file.content)) ∧
    ∀ name : String, [dot, dot] ∈ (ofString name).split ∨ (ofString name).isAbsolute = true →
      ∀ (disk : Disk) (root : Path), Loader.ofDirectory disk root name =
        ⟨[.report ⟨.warn, "Refusing to load an id outside the load directory",
          [("id", Text.quoted name)]⟩], .value none⟩ := by
  constructor
  · intro file hfile hdots hslash hdot hlength
    obtain ⟨path, hpath⟩ := exists_destination h hfile
    obtain ⟨⟨habsolute, -⟩, -⟩ := destination?_eq_some_iff.mp hpath
    have hread := read_of_name hdisk hroot hdistinct h hfile hdots hslash hdot hlength
    rw [Loader.ofDirectory, if_pos (staysBelow_iff.mpr ⟨habsolute, hdots⟩),
      readText_of_read hread]
  · intro name hname
    refine ofDirectory_of_not_staysBelow ?_
    rcases hname with hdots | habsolute
    · exact not_staysBelow_of_parent hdots
    · exact not_staysBelow_of_isAbsolute habsolute

/-- The first file is loaded through a name that is not clean, the last one has no content, and the
one in between has been written but is not loaded. -/
theorem load_written_dotted :
    bareDisk.WellFormed ∧ bareDisk.IsEmptyDirectory (ofString "out") ∧
    (dottedFiles.Pairwise fun a b =>
      destination? (ofString "out") a.name ≠ destination? (ofString "out") b.name) ∧
    (write bareDisk (ofString "out") dottedFiles).result = .ok () ∧
    Loader.ofDirectory (write bareDisk (ofString "out") dottedFiles).disk (ofString "out")
      "a//./b" = .value (some "1") ∧
    Loader.ofDirectory (write bareDisk (ofString "out") dottedFiles).disk (ofString "out")
      "a/e" = .value (some "") ∧
    (Loader.ofDirectory (write bareDisk (ofString "out") dottedFiles).disk (ofString "out")
      "x/../c").outcome = .value none := by
  have hdisk : bareDisk.WellFormed := by decide
  have hresolve : bareDisk.resolve .target (ofString "out") =
      .ok ⟨[ofString "out"], some .directory⟩ := by decide +kernel
  have hroot : bareDisk.IsEmptyDirectory (ofString "out") := ⟨_, hresolve, by decide +kernel⟩
  have hdistinct : dottedFiles.Pairwise fun a b =>
      destination? (ofString "out") a.name ≠ destination? (ofString "out") b.name := by decide
  have hwrite : (write bareDisk (ofString "out") dottedFiles).result = .ok () := by decide +kernel
  obtain ⟨hloaded, hrefused⟩ :=
    load_written bareDisk (ofString "out") dottedFiles hdisk hroot hdistinct hwrite
  refine ⟨hdisk, hroot, hdistinct, hwrite, ?_, ?_, ?_⟩
  · exact hloaded ⟨"a//./b", "1"⟩ (by decide) (by decide) (by decide) (by decide) (by decide)
  · exact hloaded ⟨"a/e", ""⟩ (by decide) (by decide) (by decide) (by decide) (by decide)
  · rw [hrefused "x/../c" (.inl (by decide))]

end Tree

end Assets
