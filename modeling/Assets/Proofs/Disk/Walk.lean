import Assets.Proofs.Disk.Entries

/-!
# Where paths lead

`Walks` lists what a walk can do: it stays at an empty part or a dot, goes up at two dots, enters a
directory, follows a link, and ends at the last part.  It is the successful walks exactly
(`walks_iff`), and each statement about them is one induction with these cases.

`Leads` is about paths that cannot be walked yet: it enters missing directories too, and so says
where a path leads once they are made.  What is found out about a disk that has grown is carried
back to the disk it has grown from through this relation:

* `leads_of_walk`: if a walk ends where nothing is, or at a directory, then the path leads there;
* `exists_leads_of_walk_append`: if a walk goes on behind some parts, then these lead to where it
  goes on from;
* `Leads.of_grows`: a path leads on a grown disk where it led before;
* `Leads.unique`: it leads to one location only.

`walk_of_grows` is the way forward: what has been reached on a disk is still reached when the disk
has grown.
-/

namespace Assets.Disk

open Assets.Path

/-- A part of a path that is looked up in a directory. -/
structure IsLookedUp (part : Name) : Prop where
  ne_nil : part ≠ []
  ne_dot : part ≠ [dot]
  ne_dots : part ≠ [dot, dot]
  length_le : part.length ≤ nameLimit

/-- Where a link leads on from. -/
def follow (here : Location) (target : Path) : Location := if target.isAbsolute then [] else here

/-- Where a path leads on from. -/
def startOf (disk : Disk) (path : Path) : Location :=
  if path.isAbsolute then [] else disk.working

/-! ## Successful walks -/

/-- A walk through some parts ends at a place. -/
inductive Walks (disk : Disk) (purpose : Purpose) :
    (links : Nat) → (here : Location) → (parts : List Name) → (place : Place) → Prop where
  | done {links here} : Walks disk purpose links here [] ⟨here, disk.find? here⟩
  | stay {links here part parts place} (hpart : part = [] ∨ part = [dot])
      (hrest : Walks disk purpose links here parts place) :
      Walks disk purpose links here (part :: parts) place
  | up {links here parts place} (hrest : Walks disk purpose links here.dropLast parts place) :
      Walks disk purpose links here ([dot, dot] :: parts) place
  | enter {links here part parts place} (hpart : IsLookedUp part)
      (hslash : refusesSlash purpose parts = false)
      (hfind : disk.find? (here ++ [part]) = some .directory)
      (hrest : Walks disk purpose links (here ++ [part]) parts place) :
      Walks disk purpose links here (part :: parts) place
  | last {links here part entry} (hpart : IsLookedUp part)
      (hfind : disk.find? (here ++ [part]) = entry) (hdirectory : entry ≠ some .directory)
      (hlink : ∀ target, entry = some (.link target) → purpose = .entry) :
      Walks disk purpose links here [part] ⟨here ++ [part], entry⟩
  | follow {links here part parts target place} (hpart : IsLookedUp part)
      (hslash : refusesSlash purpose parts = false)
      (hfind : disk.find? (here ++ [part]) = some (.link target))
      (hgoes : ¬(parts.isEmpty ∧ purpose = .entry)) (htarget : target ≠ [])
      (hrest : Walks disk purpose links (follow here target) (target.split ++ parts) place) :
      Walks disk purpose (links + 1) here (part :: parts) place

theorem refusesSlash_nil (purpose : Purpose) : refusesSlash purpose [] = false := by
  simp [refusesSlash]

/-- What a walk does at a link that it follows, with a number of links left. -/
def followWith (disk : Disk) (purpose : Purpose) :
    (links : Nat) → (here : Location) → (parts : List Name) → Except Fault Place
  | 0, _, _ => .error .tooManyLinks
  | links + 1, here, parts => disk.walk purpose links here parts

theorem walk_eq (disk : Disk) (purpose : Purpose) (links : Nat) :
    disk.walk purpose links = disk.walkWith purpose (disk.followWith purpose links) := by
  cases links <;> rfl

section Step

variable {disk : Disk} {purpose : Purpose} {links : Nat} {here : Location} {part : Name}
  {parts : List Name}

theorem walk_nil : disk.walk purpose links here [] = .ok ⟨here, disk.find? here⟩ := by
  rw [walk_eq, walkWith]

theorem walk_stay (h : part = [] ∨ part = [dot]) :
    disk.walk purpose links here (part :: parts) = disk.walk purpose links here parts := by
  rw [walk_eq, walkWith, if_pos h]

theorem walk_up : disk.walk purpose links here ([dot, dot] :: parts) =
    disk.walk purpose links here.dropLast parts := by
  rw [walk_eq, walkWith, if_neg (by simp), if_pos rfl]

theorem IsLookedUp.not_stays (h : IsLookedUp part) : ¬(part = [] ∨ part = [dot]) := by
  rintro (hnil | hdot)
  · exact h.ne_nil hnil
  · exact h.ne_dot hdot

theorem walk_enter (hpart : IsLookedUp part) (hslash : refusesSlash purpose parts = false)
    (hfind : disk.find? (here ++ [part]) = some .directory) :
    disk.walk purpose links here (part :: parts) =
      disk.walk purpose links (here ++ [part]) parts := by
  rw [walk_eq, walkWith, if_neg hpart.not_stays, if_neg hpart.ne_dots, hslash, if_neg (by simp),
    if_neg (Nat.not_lt.mpr hpart.length_le)]
  simp only [hfind]

theorem walk_last (hpart : IsLookedUp part) {entry : Option Entry}
    (hfind : disk.find? (here ++ [part]) = entry) (hdirectory : entry ≠ some .directory)
    (hlink : ∀ target, entry = some (.link target) → purpose = .entry) :
    disk.walk purpose links here [part] = .ok ⟨here ++ [part], entry⟩ := by
  rw [walk_eq, walkWith, if_neg hpart.not_stays, if_neg hpart.ne_dots, refusesSlash_nil,
    if_neg (by simp), if_neg (Nat.not_lt.mpr hpart.length_le)]
  cases entry with
  | none => simp [hfind]
  | some entry =>
      cases entry with
      | file content => simp [hfind]
      | directory => exact absurd rfl hdirectory
      | link target => simp [hfind, hlink target rfl]

theorem walk_follow (hpart : IsLookedUp part) (hslash : refusesSlash purpose parts = false)
    {target : Path} (hfind : disk.find? (here ++ [part]) = some (.link target))
    (hgoes : ¬(parts.isEmpty ∧ purpose = .entry)) (htarget : target ≠ []) :
    disk.walk purpose (links + 1) here (part :: parts) =
      disk.walk purpose links (Disk.follow here target) (target.split ++ parts) := by
  rw [walk, walkWith, if_neg hpart.not_stays, if_neg hpart.ne_dots, hslash, if_neg (by simp),
    if_neg (Nat.not_lt.mpr hpart.length_le)]
  simp only [hfind]
  rw [if_neg hgoes, if_neg (by simpa using htarget)]
  rfl

end Step

theorem isLookedUp_of_not {part : Name} (hstays : ¬(part = [] ∨ part = [dot]))
    (hdots : part ≠ [dot, dot]) (hlength : ¬nameLimit < part.length) : IsLookedUp part := by
  rw [not_or] at hstays
  exact ⟨hstays.1, hstays.2, hdots, Nat.not_lt.mp hlength⟩

theorem walks_of_walkWith {disk : Disk} {purpose : Purpose} {links : Nat} {here : Location}
    {parts : List Name} {place : Place}
    (hfollow : ∀ here parts, disk.followWith purpose links here parts = .ok place →
      ∃ left, links = left + 1 ∧ Walks disk purpose left here parts place)
    (h : disk.walkWith purpose (disk.followWith purpose links) here parts = .ok place) :
    Walks disk purpose links here parts place := by
  fun_induction disk.walkWith purpose (disk.followWith purpose links) here parts with
  | case1 =>
      cases h
      exact .done
  | case2 here part parts hstays ih => exact .stay hstays (ih h)
  | case3 here parts hstays ih => exact .up (ih h)
  | case4 => cases h
  | case5 => cases h
  | case6 here part parts hstays hdots hslash hlength location hfind hempty =>
      cases h
      rw [List.isEmpty_iff] at hempty
      subst hempty
      exact .last (isLookedUp_of_not hstays hdots hlength) hfind (by simp) (by simp)
  | case7 => cases h
  | case8 here part parts hstays hdots hslash hlength location hfind ih =>
      exact .enter (isLookedUp_of_not hstays hdots hlength) (by simpa using hslash)
        hfind (ih h)
  | case9 here part parts hstays hdots hslash hlength location content hfind hempty =>
      cases h
      rw [List.isEmpty_iff] at hempty
      subst hempty
      exact .last (isLookedUp_of_not hstays hdots hlength) hfind (by simp) (by simp)
  | case10 => cases h
  | case11 here part parts hstays hdots hslash hlength location target hfind hlast =>
      cases h
      obtain ⟨hempty, hpurpose⟩ := hlast
      rw [List.isEmpty_iff] at hempty
      subst hempty
      exact .last (isLookedUp_of_not hstays hdots hlength) hfind (by simp) fun _ _ => hpurpose
  | case12 => cases h
  | case13 here part parts hstays hdots hslash hlength location target hfind hlast htarget =>
      obtain ⟨left, rfl, hrest⟩ := hfollow _ _ h
      exact .follow (isLookedUp_of_not hstays hdots hlength) (by simpa using hslash)
        hfind hlast (by simpa using htarget) hrest

theorem walks_of_walk {disk : Disk} {purpose : Purpose} {links : Nat} {here : Location}
    {parts : List Name} {place : Place} (h : disk.walk purpose links here parts = .ok place) :
    Walks disk purpose links here parts place := by
  rw [walk_eq] at h
  induction links generalizing here parts with
  | zero => exact walks_of_walkWith (fun _ _ hfollow => nomatch hfollow) h
  | succ links ih =>
      refine walks_of_walkWith (fun here parts hfollow => ⟨links, rfl, ih ?_⟩) h
      rwa [followWith, walk_eq] at hfollow

/-- What a successful walk does, step by step. -/
theorem walks_iff {disk : Disk} {purpose : Purpose} {links : Nat} {here : Location}
    {parts : List Name} {place : Place} :
    Walks disk purpose links here parts place ↔ disk.walk purpose links here parts = .ok place := by
  refine ⟨fun h => ?_, walks_of_walk⟩
  induction h with
  | done => exact walk_nil
  | stay hpart _ ih => rw [walk_stay hpart, ih]
  | up _ ih => rw [walk_up, ih]
  | enter hpart hslash hfind _ ih => rw [walk_enter hpart hslash hfind, ih]
  | last hpart hfind hdirectory hlink => exact walk_last hpart hfind hdirectory hlink
  | follow hpart hslash hfind hgoes htarget _ ih =>
      rw [walk_follow hpart hslash hfind hgoes htarget, ih]

section Walks

variable {disk grown : Disk} {purpose : Purpose} {links : Nat} {here : Location}
  {parts : List Name} {place : Place}

/-- A walk tells what is at the location where it ends. -/
theorem entry_of_walk (h : disk.walk purpose links here parts = .ok place) :
    place.entry = disk.find? place.location := by
  rw [← walks_iff] at h
  induction h with
  | done => rfl
  | stay _ _ ih => exact ih
  | up _ ih => exact ih
  | enter _ _ _ _ ih => exact ih
  | last _ hfind _ _ => exact hfind.symm
  | follow _ _ _ _ _ _ ih => exact ih

/-! ### Walks on well-formed disks -/

theorem find?_follow (hhere : disk.find? here = some .directory)
    (target : Path) : disk.find? (Disk.follow here target) = some .directory := by
  unfold Disk.follow
  split
  · exact disk.find?_nil
  · exact hhere

theorem WellFormed.up (hdisk : disk.WellFormed) (hhere : disk.find? here = some .directory) :
    disk.find? here.dropLast = some .directory := hdisk.parent here (by simp [hhere])

theorem WellFormed.startOf (hdisk : disk.WellFormed) (path : Path) :
    disk.find? (disk.startOf path) = some .directory := by
  unfold Disk.startOf
  split
  · exact disk.find?_nil
  · exact hdisk.working

/-- Only a walk to the entry itself ends at a link. -/
theorem not_link_of_walk (hdisk : disk.WellFormed) (hhere : disk.find? here = some .directory)
    (h : disk.walk purpose links here parts = .ok place) (hpurpose : purpose ≠ .entry)
    (target : Path) : place.entry ≠ some (.link target) := by
  rw [← walks_iff] at h
  induction h with
  | done => simp [hhere]
  | stay _ _ ih => exact ih hhere
  | up _ ih => exact ih (hdisk.up hhere)
  | enter _ _ hfind _ ih => exact ih hfind
  | last _ _ _ hlink => exact fun hentry => hpurpose (hlink _ hentry)
  | follow _ _ _ _ _ _ ih => exact ih (find?_follow hhere _)

/-- What a walk ends at lies in a directory. -/
theorem parent_of_walk (hdisk : disk.WellFormed) (hhere : disk.find? here = some .directory)
    (h : disk.walk purpose links here parts = .ok place) :
    disk.find? place.location.dropLast = some .directory := by
  rw [← walks_iff] at h
  induction h with
  | done => exact hdisk.up hhere
  | stay _ _ ih => exact ih hhere
  | up _ ih => exact ih (hdisk.up hhere)
  | enter _ _ hfind _ ih => exact ih hfind
  | last => simpa using hhere
  | follow _ _ _ _ _ _ ih => exact ih (find?_follow hhere _)

theorem isName_of_walk (hdisk : disk.WellFormed) (hhere : disk.find? here = some .directory)
    (hparts : ∀ part ∈ parts, slash ∉ part)
    (h : disk.walk purpose links here parts = .ok place) :
    ∀ name ∈ place.location, IsName name := by
  rw [← walks_iff] at h
  induction h with
  | done => exact hdisk.isName (by simp [hhere])
  | stay _ _ ih => exact ih hhere (List.forall_mem_cons.mp hparts).2
  | up _ ih => exact ih (hdisk.up hhere) (List.forall_mem_cons.mp hparts).2
  | enter _ _ hfind _ ih => exact ih hfind (List.forall_mem_cons.mp hparts).2
  | last hpart _ _ _ =>
      rw [List.forall_mem_append, List.forall_mem_singleton]
      exact ⟨hdisk.isName (by simp [hhere]), hpart.ne_nil, hpart.ne_dot, hpart.ne_dots,
        hparts _ (by simp)⟩
  | follow _ _ _ _ _ _ ih =>
      refine ih (find?_follow hhere _) ?_
      rw [List.forall_mem_append]
      exact ⟨fun _ => slash_notMem_of_mem_split, (List.forall_mem_cons.mp hparts).2⟩

/-! ### Walks on a disk that has grown -/

/-- What has been reached on a disk is still reached when the disk has grown. -/
theorem walk_of_grows (hgrows : disk.Grows grown)
    (h : disk.walk purpose links here parts = .ok place)
    (hlink : ∀ target, place.entry ≠ some (.link target)) :
    grown.walk .target links here parts = .ok ⟨place.location, grown.find? place.location⟩ := by
  have htarget (parts : List Name) : refusesSlash .target parts = false := by
    simp [refusesSlash]
  rw [← walks_iff] at h
  induction h with
  | done => exact walk_nil
  | stay hpart _ ih => rw [walk_stay hpart, ih hlink]
  | up _ ih => rw [walk_up, ih hlink]
  | enter hpart _ hfind _ ih =>
      rw [walk_enter hpart (htarget _) ((hgrows.entry _).directory hfind), ih hlink]
  | @last links here part entry hpart hfind _ _ =>
      have hkept := hgrows.entry (here ++ [part])
      rw [hfind] at hkept
      by_cases hmade : grown.find? (here ++ [part]) = some .directory
      · rw [walk_enter hpart (refusesSlash_nil _) hmade, walk_nil]
      · refine walk_last hpart rfl hmade fun target htarget => ?_
        exact absurd (hkept.link_iff.mpr htarget) (hlink target)
  | follow hpart _ hfind _ hne _ ih =>
      rw [walk_follow hpart (htarget _) ((hgrows.entry _).link_iff.mp hfind) (by simp) hne,
        ih hlink]

/-- Whatever a path leads to with links followed, there is an entry of its own at its end. -/
theorem exists_walk_entry (h : disk.walk .target links here parts = .ok place)
    (hsome : place.entry.isSome) :
    ∃ first, disk.walk .entry links here parts = .ok first ∧ first.entry.isSome := by
  have hentry (parts : List Name) : refusesSlash .entry parts = false := by
    simp [refusesSlash]
  rw [← walks_iff] at h
  induction h with
  | done => exact ⟨_, walk_nil, hsome⟩
  | stay hpart _ ih =>
      rw [walk_stay hpart]
      exact ih hsome
  | up _ ih =>
      rw [walk_up]
      exact ih hsome
  | enter hpart _ hfind _ ih =>
      rw [walk_enter hpart (hentry _) hfind]
      exact ih hsome
  | last hpart hfind hdirectory _ =>
      exact ⟨_, walk_last hpart hfind hdirectory fun _ _ => rfl, hsome⟩
  | @follow links here part parts target place hpart _ hfind _ hne _ ih =>
      by_cases hlast : parts = []
      · subst hlast
        exact ⟨_, walk_last hpart hfind (by simp) fun _ _ => rfl, rfl⟩
      · rw [walk_follow hpart (hentry _) hfind (by simp [hlast]) hne]
        exact ih hsome

end Walks

/-! ## Below a directory without links -/

/-- No link lies strictly below a location. -/
def LinkFreeBelow (disk : Disk) (base : Location) : Prop :=
  ∀ location target, isBelow base location → disk.find? location ≠ some (.link target)

theorem isBelow_iff {base location : Location} :
    isBelow base location ↔ ∃ names, names ≠ [] ∧ location = base ++ names := by
  rw [isBelow, Bool.and_eq_true, List.isPrefixOf_iff_prefix, decide_eq_true_iff]
  constructor
  · rintro ⟨⟨names, rfl⟩, hlength⟩
    refine ⟨names, ?_, rfl⟩
    rintro rfl
    simp at hlength
  · rintro ⟨names, hne, rfl⟩
    have hlength := List.length_pos_of_ne_nil hne
    simp [hlength]

/-- Only what is kept somewhere can be a link. -/
theorem linkFreeBelow_iff {disk : Disk} {base : Location} :
    disk.LinkFreeBelow base ↔ ∀ entry ∈ disk.entries, isBelow base entry.1 →
      ∀ target, disk.find? entry.1 ≠ some (.link target) := by
  refine ⟨fun h entry _ hbelow target => h entry.1 target hbelow, ?_⟩
  intro h location target hbelow hlink
  obtain ⟨names, hne, rfl⟩ := isBelow_iff.mp hbelow
  obtain ⟨node, hnode⟩ := exists_node (by simp [hne]) (Option.isSome_of_eq_some hlink)
  exact h _ (mem_of_lookup hnode) hbelow target hlink

instance (found : Option Entry) : Decidable (∀ target, found ≠ some (.link target)) :=
  match found with
  | some (.link target) => .isFalse fun h => h target rfl
  | none | some .directory | some (.file _) => .isTrue fun _ h => nomatch h

instance (disk : Disk) (base : Location) : Decidable (disk.LinkFreeBelow base) :=
  decidable_of_iff _ linkFreeBelow_iff.symm

theorem LinkFreeBelow.append {disk : Disk} {base : Location} (h : disk.LinkFreeBelow base)
    (names : Location) : disk.LinkFreeBelow (base ++ names) := by
  intro location target hbelow
  obtain ⟨more, hne, rfl⟩ := isBelow_iff.mp hbelow
  refine h _ target (isBelow_iff.mpr ⟨names ++ more, by simp [hne], by simp⟩)

theorem LinkFreeBelow.of_grows {disk grown : Disk} {base : Location}
    (hgrows : disk.Grows grown) (h : disk.LinkFreeBelow base) : grown.LinkFreeBelow base :=
  fun location target hbelow hlink =>
    h location target hbelow ((hgrows.entry location).link_iff.mpr hlink)

/-- Below a directory without links, names lead where they say. -/
theorem location_of_walk_names {disk : Disk} {purpose : Purpose} {links : Nat}
    {base names : Location} {place : Place} (hfree : disk.LinkFreeBelow base)
    (hnames : ∀ name ∈ names, IsName name)
    (h : disk.walk purpose links base names = .ok place) : place.location = base ++ names := by
  induction names generalizing base with
  | nil =>
      rw [walk_nil] at h
      cases h
      simp
  | cons name names ih =>
      rw [List.forall_mem_cons] at hnames
      cases walks_of_walk h with
      | stay hpart _ =>
          rcases hpart with hnil | hdot
          · exact absurd hnil hnames.1.ne_nil
          · exact absurd hdot hnames.1.ne_dot
      | up _ => exact absurd rfl hnames.1.ne_dots
      | enter hpart hslash hfind hrest =>
          rw [ih (hfree.append [name]) hnames.2 (walks_iff.mp hrest), List.append_assoc,
            List.singleton_append]
      | last => rfl
      | follow _ _ hfind _ _ _ =>
          exact absurd hfind (hfree _ _ (isBelow_iff.mpr ⟨[name], by simp, rfl⟩))

/-! ## Where paths lead once directories are made -/

/-- The parts of a path lead from one location to another if directories are made wherever nothing
is.  `left` is how many links can still be followed. -/
inductive Leads (disk : Disk) : (links : Nat) → (here : Location) → (parts : List Name) →
    (left : Nat) → (there : Location) → Prop where
  | done {links here} : Leads disk links here [] links here
  | stay {links here part parts left there} (hpart : part = [] ∨ part = [dot])
      (hrest : Leads disk links here parts left there) :
      Leads disk links here (part :: parts) left there
  | up {links here parts left there} (hrest : Leads disk links here.dropLast parts left there) :
      Leads disk links here ([dot, dot] :: parts) left there
  | enter {links here part parts left there} (hpart : IsLookedUp part)
      (hfind : disk.find? (here ++ [part]) = none ∨
        disk.find? (here ++ [part]) = some .directory)
      (hrest : Leads disk links (here ++ [part]) parts left there) :
      Leads disk links here (part :: parts) left there
  | follow {links here part parts target left there} (hpart : IsLookedUp part)
      (hfind : disk.find? (here ++ [part]) = some (.link target)) (htarget : target ≠ [])
      (hrest : Leads disk links (Disk.follow here target) (target.split ++ parts) left there) :
      Leads disk (links + 1) here (part :: parts) left there

/-- Some first parts of a path lead to a location. -/
def LeadsOn (disk : Disk) (path : Path) (parts : List Name) (location : Location) : Prop :=
  ∃ left, disk.Leads linkLimit (disk.startOf path) parts left location

/-- A path leads to a location, now or once its missing directories are made. -/
def LeadsTo (disk : Disk) (path : Path) (location : Location) : Prop :=
  disk.LeadsOn path path.split location

namespace Leads

variable {disk grown : Disk} {links left left' : Nat} {here there there' : Location}
  {parts : List Name}

theorem concat_nil (h : disk.Leads links here parts left there) :
    disk.Leads links here (parts ++ [[]]) left there := by
  induction h with
  | done => exact .stay (.inl rfl) .done
  | stay hpart _ ih => exact .stay hpart ih
  | up _ ih => exact .up ih
  | enter hpart hfind _ ih => exact .enter hpart hfind ih
  | follow hpart hfind htarget _ ih =>
      rw [List.append_assoc] at ih
      exact .follow hpart hfind htarget ih

/-- On a disk that has grown a path leads where it led before. -/
theorem of_grows (hgrows : disk.Grows grown) (h : grown.Leads links here parts left there) :
    disk.Leads links here parts left there := by
  induction h with
  | done => exact .done
  | stay hpart _ ih => exact .stay hpart ih
  | up _ ih => exact .up ih
  | enter hpart hfind _ ih =>
      refine .enter hpart ?_ ih
      have hkept := hgrows.entry
      rcases hfind with hfind | hfind
      · exact .inl ((hkept _).none hfind)
      · exact (hkept _).of_directory hfind
  | follow hpart hfind htarget _ ih =>
      exact .follow hpart ((hgrows.entry _).link_iff.mpr hfind) htarget ih

theorem unique (h : disk.Leads links here parts left there)
    (h' : disk.Leads links here parts left' there') : left = left' ∧ there = there' := by
  induction h with
  | done =>
      cases h'
      exact ⟨rfl, rfl⟩
  | stay hpart _ ih =>
      cases h' with
      | stay _ hrest => exact ih hrest
      | up hrest => simp at hpart
      | enter hlooked _ _ => exact absurd hpart hlooked.not_stays
      | follow hlooked _ _ _ => exact absurd hpart hlooked.not_stays
  | up _ ih =>
      cases h' with
      | stay hpart _ => simp at hpart
      | up hrest => exact ih hrest
      | enter hlooked _ _ => exact absurd rfl hlooked.ne_dots
      | follow hlooked _ _ _ => exact absurd rfl hlooked.ne_dots
  | enter hpart hfind _ ih =>
      cases h' with
      | stay hstays _ => exact absurd hstays hpart.not_stays
      | up _ => exact absurd rfl hpart.ne_dots
      | enter _ _ hrest => exact ih hrest
      | follow _ hlink _ _ => simp [hlink] at hfind
  | follow hpart hfind _ _ ih =>
      cases h' with
      | stay hstays _ => exact absurd hstays hpart.not_stays
      | up _ => exact absurd rfl hpart.ne_dots
      | enter _ hfind' _ => simp [hfind] at hfind'
      | follow _ hlink _ hrest =>
          rw [hfind] at hlink
          cases hlink
          exact ih hrest

/-- Some first parts lead somewhere, and the others lead on from there. -/
theorem exists_of_append {more : List Name}
    (h : disk.Leads links here (parts ++ more) left there) :
    ∃ mid between, disk.Leads links here parts mid between ∧
      disk.Leads mid between more left there := by
  generalize hall : parts ++ more = all at h
  induction h generalizing parts with
  | done =>
      obtain ⟨rfl, rfl⟩ := List.append_eq_nil_iff.mp hall
      exact ⟨_, _, .done, .done⟩
  | stay hpart hrest ih =>
      cases parts with
      | nil =>
          obtain rfl : more = _ := hall
          exact ⟨_, _, .done, .stay hpart hrest⟩
      | cons first parts =>
          cases hall
          obtain ⟨mid, between, hfront, hback⟩ := ih rfl
          exact ⟨mid, between, .stay hpart hfront, hback⟩
  | up hrest ih =>
      cases parts with
      | nil =>
          obtain rfl : more = _ := hall
          exact ⟨_, _, .done, .up hrest⟩
      | cons first parts =>
          cases hall
          obtain ⟨mid, between, hfront, hback⟩ := ih rfl
          exact ⟨mid, between, .up hfront, hback⟩
  | enter hpart hfind hrest ih =>
      cases parts with
      | nil =>
          obtain rfl : more = _ := hall
          exact ⟨_, _, .done, .enter hpart hfind hrest⟩
      | cons first parts =>
          cases hall
          obtain ⟨mid, between, hfront, hback⟩ := ih rfl
          exact ⟨mid, between, .enter hpart hfind hfront, hback⟩
  | @follow links here part all target left there hpart hfind htarget hrest ih =>
      cases parts with
      | nil =>
          obtain rfl : more = _ := hall
          exact ⟨_, _, .done, .follow hpart hfind htarget hrest⟩
      | cons first parts =>
          cases hall
          -- the target comes before what is left of the parts
          obtain ⟨mid, between, hfront, hback⟩ := @ih (target.split ++ parts) (by simp)
          exact ⟨mid, between, .follow hpart hfind htarget hfront, hback⟩

/-- Below a directory without links, parts other than `..` lead down. -/
theorem prefix_of_notMem_dots {base : Location} (hfree : disk.LinkFreeBelow base)
    (hdots : [dot, dot] ∉ parts) (h : disk.Leads links base parts left there) :
    base <+: there := by
  induction h with
  | done => exact List.prefix_rfl
  | stay _ _ ih => exact ih hfree (List.not_mem_of_not_mem_cons hdots)
  | up _ _ => simp at hdots
  | @enter links here part parts left there _ _ _ ih =>
      have hbelow := ih (hfree.append [part]) (List.not_mem_of_not_mem_cons hdots)
      exact (List.prefix_append ..).trans hbelow
  | @follow links here part parts target left there _ hfind _ _ _ =>
      exact absurd hfind (hfree _ _ (isBelow_iff.mpr ⟨[part], by simp, rfl⟩))

end Leads

theorem LeadsTo.unique {disk : Disk} {path : Path} {location other : Location}
    (h : disk.LeadsTo path location) (h' : disk.LeadsTo path other) : location = other := by
  obtain ⟨left, hleads⟩ := h
  obtain ⟨left', hleads'⟩ := h'
  exact (hleads.unique hleads').2

section Walks

variable {disk : Disk} {purpose : Purpose} {links : Nat} {here : Location}
  {parts more : List Name} {place : Place}

/-- A walk that ends where nothing is, or at a directory, ends where the path leads. -/
theorem leads_of_walk (h : disk.walk purpose links here parts = .ok place)
    (hentry : place.entry = none ∨ place.entry = some .directory) :
    ∃ left, disk.Leads links here parts left place.location := by
  rw [← walks_iff] at h
  induction h with
  | done => exact ⟨_, .done⟩
  | stay hpart _ ih => exact (ih hentry).imp fun _ => .stay hpart
  | up _ ih => exact (ih hentry).imp fun _ => .up
  | enter hpart _ hfind _ ih => exact (ih hentry).imp fun _ => .enter hpart (.inr hfind)
  | last hpart hfind _ _ => exact ⟨_, .enter hpart (hfind ▸ hentry) .done⟩
  | follow hpart _ hfind _ htarget _ ih =>
      exact (ih hentry).imp fun _ => .follow hpart hfind htarget

/-- A walk that goes on behind some parts goes on from where these lead. -/
theorem exists_leads_of_walk_append (hmore : more ≠ [])
    (h : disk.walk purpose links here (parts ++ more) = .ok place) :
    ∃ left there, disk.Leads links here parts left there ∧
      disk.walk purpose left there more = .ok place := by
  generalize hall : parts ++ more = all at h
  have hwalks := walks_of_walk h
  clear h
  induction hwalks generalizing parts with
  | done => simp [hmore] at hall
  | stay hpart hrest ih =>
      cases parts with
      | nil =>
          obtain rfl : more = _ := hall
          exact ⟨_, _, .done, walks_iff.mp (.stay hpart hrest)⟩
      | cons first parts =>
          cases hall
          obtain ⟨left, there, hleads, hwalk⟩ := ih rfl
          exact ⟨left, there, .stay hpart hleads, hwalk⟩
  | up hrest ih =>
      cases parts with
      | nil =>
          obtain rfl : more = _ := hall
          exact ⟨_, _, .done, walks_iff.mp (.up hrest)⟩
      | cons first parts =>
          cases hall
          obtain ⟨left, there, hleads, hwalk⟩ := ih rfl
          exact ⟨left, there, .up hleads, hwalk⟩
  | enter hpart hslash hfind hrest ih =>
      cases parts with
      | nil =>
          obtain rfl : more = _ := hall
          exact ⟨_, _, .done, walks_iff.mp (.enter hpart hslash hfind hrest)⟩
      | cons first parts =>
          cases hall
          obtain ⟨left, there, hleads, hwalk⟩ := ih rfl
          exact ⟨left, there, .enter hpart (.inr hfind) hleads, hwalk⟩
  | last hpart hfind hdirectory hlink =>
      cases parts with
      | nil =>
          obtain rfl : more = _ := hall
          exact ⟨_, _, .done, walk_last hpart hfind hdirectory hlink⟩
      | cons first parts => simp [hmore] at hall
  | @follow links here part all target place hpart hslash hfind hgoes htarget hrest ih =>
      cases parts with
      | nil =>
          obtain rfl : more = _ := hall
          exact ⟨_, _, .done, walks_iff.mp (.follow hpart hslash hfind hgoes htarget hrest)⟩
      | cons first parts =>
          cases hall
          -- the target comes before what is left of the parts
          obtain ⟨left, there, hleads, hwalk⟩ := @ih (target.split ++ parts) (by simp)
          exact ⟨left, there, .follow hpart hfind htarget hleads, hwalk⟩

end Walks

end Assets.Disk
