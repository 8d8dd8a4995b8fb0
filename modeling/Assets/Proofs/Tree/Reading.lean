import Assets.Proofs.Disk.Changes
import Assets.Proofs.Order.SortByKey

/-!
# What reading a directory finds

On a well-formed disk a walk from a directory meets every regular file below it once
(`mem_regularFiles`), in strictly ascending order of the names that lead to it
(`pairwise_regularFiles`).  The file set is what can be read of them: files whose name and content
are text, with some content (`foundAt?_eq_some_iff`).

A name is the path that leads to the file, so the names of a file set that has been read are clean
(`of_mem_read`) and in strictly ascending order (`pairwise_read`).  The one exception is the
walk that starts at a file.  It finds that file under the empty name, which no blob accepts.
-/

namespace Assets

open Assets.Path Disk

namespace Tree

variable {disk : Disk} {root : Path} {hidden : Bool} {base names : Location} {file : File}
  {files : FileSet}

/-! ## Regular files -/

theorem mem_below {entry : Entry} :
    (names, entry) ∈ disk.below base ↔
      names ≠ [] ∧ disk.find? (base ++ names) = some entry := by
  unfold below
  rw [List.mem_mergeSort, List.mem_filterMap]
  constructor
  · rintro ⟨⟨location, node⟩, hmem, hentry⟩
    obtain ⟨found, hfind, heq⟩ := Option.map_eq_some_iff.mp hentry
    obtain ⟨names, hne, rfl⟩ := isBelow_iff.mp (List.mem_filter.mp hmem).2
    cases heq
    rw [List.drop_left]
    exact ⟨hne, hfind⟩
  · rintro ⟨hne, hfind⟩
    obtain ⟨node, hnode⟩ := exists_node (by simp [hne]) (Option.isSome_of_eq_some hfind)
    have hbelow : isBelow base (base ++ names) = true := isBelow_iff.mpr ⟨names, hne, rfl⟩
    exact ⟨_, List.mem_filter.mpr ⟨mem_of_lookup hnode, hbelow⟩, by simp [hfind]⟩

theorem pairwise_below (hdisk : disk.WellFormed) (base : Location) :
    (disk.below base).Pairwise fun a b => a.1 < b.1 := by
  have hdiffers : (disk.below base).Pairwise fun a b => a.1 ≠ b.1 := by
    unfold below
    refine (List.mergeSort_perm _ _).symm.pairwise (List.pairwise_filterMap.mpr ?_)
      fun h => Ne.symm h
    refine ((List.pairwise_map.mp hdisk.nodup).filter _).imp_of_mem ?_
    intro a b ha hb hne found hfound other hother hdrop
    obtain ⟨_, -, rfl⟩ := Option.map_eq_some_iff.mp hfound
    obtain ⟨_, -, rfl⟩ := Option.map_eq_some_iff.mp hother
    obtain ⟨names, -, hnames⟩ := isBelow_iff.mp (List.mem_filter.mp ha).2
    obtain ⟨others, -, hothers⟩ := isBelow_iff.mp (List.mem_filter.mp hb).2
    simp only [hnames, hothers, List.drop_left] at hdrop
    exact hne (by rw [hnames, hothers, hdrop])
  exact (Order.pairwise_sortByKey Prod.fst _).imp₂ (fun _ _ => Std.lt_of_le_of_ne) hdiffers

/-- A walk meets the regular files below its start. -/
theorem mem_regularFiles :
    names ∈ regularFiles disk base hidden ↔
      names ≠ [] ∧ (hidden = true ∨ names.any isHidden = false) ∧
        ∃ content, disk.fileAt? (base ++ names) = some content := by
  unfold regularFiles
  rw [List.mem_filterMap]
  constructor
  · rintro ⟨⟨found, entry⟩, hmem, hsome⟩
    rw [mem_below] at hmem
    cases entry with
    | file content =>
        simp only [Option.ite_none_right_eq_some, Option.some.injEq, Bool.or_eq_true,
          Bool.not_eq_true'] at hsome
        obtain ⟨hshown, rfl⟩ := hsome
        exact ⟨hmem.1, hshown, content, fileAt?_eq_some_iff.mpr hmem.2⟩
    | directory => cases hsome
    | link target => cases hsome
  · rintro ⟨hne, hshown, content, hfile⟩
    refine ⟨(names, .file content), mem_below.mpr ⟨hne, fileAt?_eq_some_iff.mp hfile⟩, ?_⟩
    have hkept : (hidden || !names.any isHidden) = true := by
      rcases hshown with rfl | hnone
      · rfl
      · rw [hnone, Bool.not_false, Bool.or_true]
    exact if_pos hkept

theorem pairwise_regularFiles (hdisk : disk.WellFormed) (base : Location) (hidden : Bool) :
    (regularFiles disk base hidden).Pairwise (· < ·) := by
  refine List.Pairwise.filterMap _ ?_ (pairwise_below hdisk base)
  rintro ⟨names, entry⟩ ⟨others, other⟩ hlt found hfound later hlater
  cases entry <;> cases other <;> simp_all

theorem isName_of_mem_regularFiles (hdisk : disk.WellFormed)
    (h : names ∈ regularFiles disk base hidden) : ∀ name ∈ names, IsName name := by
  obtain ⟨-, -, content, hfile⟩ := mem_regularFiles.mp h
  intro name hname
  refine hdisk.isName (by rw [fileAt?_eq_some_iff.mp hfile]; rfl) name ?_
  exact List.mem_append_right base hname

/-! ## What becomes of them -/

def Finding.file? : Finding → Option File
  | .file file => some file
  | .skipped _ => none

/-- The file that is read at some names below a directory, if they lead to one that can be in a
file set. -/
def foundAt? (disk : Disk) (root : Path) (names : Location) : Option File :=
  match visit disk root names with
  | .ok finding => finding.file?
  | .error _ => none

theorem inspect_eq_file_iff {name : String} {content : List UInt8} :
    inspect name content = .file file ↔
      file.name = name ∧ content = Text.bytes file.content ∧ file.content ≠ "" := by
  unfold inspect
  cases htext : Text.ofBytes? content with
  | none =>
      refine iff_of_false (by simp [skip]) ?_
      rintro ⟨-, rfl, -⟩
      simp [Text.ofBytes?_bytes] at htext
  | some text =>
      obtain rfl := Text.ofBytes?_eq_some_iff.mp htext
      obtain ⟨name', content'⟩ := file
      rw [Text.bytes_inj]
      by_cases hempty : text = ""
      · subst hempty
        refine iff_of_false (by simp [skip]) ?_
        rintro ⟨-, rfl, hne⟩
        exact hne rfl
      · have htextual : text.isEmpty = false := by simpa using hempty
        simp only [htextual, Bool.false_eq_true, if_false, Finding.file.injEq, File.mk.injEq]
        constructor
        · rintro ⟨rfl, rfl⟩
          exact ⟨rfl, rfl, hempty⟩
        · rintro ⟨rfl, rfl, -⟩
          exact ⟨rfl, rfl⟩

theorem foundAt?_eq_some_iff :
    foundAt? disk root names = some file ↔
      ofString file.name = pathOf names ∧
        disk.read (joinAll root names) = .ok (Text.bytes file.content) ∧ file.content ≠ "" := by
  have hvisit : foundAt? disk root names = some file ↔
      visit disk root names = .ok (.file file) := by
    unfold foundAt?
    cases visit disk root names with
    | error report => simp
    | ok finding => cases finding <;> simp [Finding.file?]
  rw [hvisit, visit]
  cases hname : Text.ofBytes? (pathOf names) with
  | none =>
      refine iff_of_false (by simp [skip]) ?_
      rintro ⟨hpath, -⟩
      rw [← hpath, ofString, Text.ofBytes?_bytes] at hname
      cases hname
  | some name =>
      rw [Text.ofBytes?_eq_some_iff.mp hname, ofString, Text.bytes_inj]
      cases hread : disk.read (joinAll root names) with
      | ok content =>
          simp only [Except.ok.injEq]
          exact inspect_eq_file_iff
      | error fault => simp

theorem exists_visit_of_read {content : List UInt8}
    (h : disk.read (joinAll root names) = .ok content) :
    ∃ finding, visit disk root names = .ok finding := by
  rw [visit, h]
  split <;> exact ⟨_, rfl⟩

theorem result_cons (finding : Finding) (survey : Survey) :
    Survey.result { survey with findings := finding :: survey.findings } =
      survey.result.map (finding.file?.toList ++ ·) := by
  unfold Survey.result
  cases survey.stop with
  | some report => rfl
  | none => cases finding <;> rfl

/-- Reading succeeds if each regular file met can be looked at. -/
theorem visitAll_eq_ok_iff {list : List Location} :
    (visitAll disk root list).result = .ok files ↔
      (∀ names ∈ list, ∃ finding, visit disk root names = .ok finding) ∧
        files = list.filterMap (foundAt? disk root) := by
  induction list generalizing files with
  | nil => simp [visitAll, Survey.result, Survey.files, eq_comm]
  | cons names list ih =>
      have hcons : (names :: list).filterMap (foundAt? disk root) =
          (foundAt? disk root names).toList ++ list.filterMap (foundAt? disk root) := by
        rw [List.filterMap_cons]
        cases foundAt? disk root names <;> rfl
      rw [List.forall_mem_cons, hcons, visitAll, foundAt?]
      cases hvisit : visit disk root names with
      | error report => simp [Survey.result]
      | ok finding =>
          simp only [result_cons, Except.ok.injEq, exists_eq', true_and]
          constructor
          · intro h
            cases hrest : (visitAll disk root list).result with
            | error report =>
                rw [hrest] at h
                cases h
            | ok rest =>
                rw [hrest] at h
                cases h
                obtain ⟨hall, rfl⟩ := ih.mp hrest
                exact ⟨hall, rfl⟩
          · rintro ⟨hall, rfl⟩
            rw [ih.mpr ⟨hall, rfl⟩]
            rfl

/-! ## Reading a directory -/

theorem read_eq_ok_iff :
    read disk root hidden = .ok files ↔ ∃ list, start disk root hidden = .ok list ∧
      (∀ names ∈ list, ∃ finding, visit disk root names = .ok finding) ∧
        files = list.filterMap (foundAt? disk root) := by
  unfold read survey
  cases start disk root hidden with
  | error fault => simp [Survey.result]
  | ok list => simpa using visitAll_eq_ok_iff

/-- Where a path leads to a directory, it is the start of a walk. -/
theorem start_of_directory (h : disk.resolve .target root = .ok ⟨base, some .directory⟩)
    (hidden : Bool) : start disk root hidden = .ok (regularFiles disk base hidden) := by
  obtain ⟨husable, hwalk⟩ := resolve_eq_ok_iff.mp h
  obtain ⟨first, hfirst, hsome⟩ := exists_walk_entry hwalk rfl
  have hstatus : disk.status root = .ok first := by
    rw [status, resolve_eq_ok_iff.mpr ⟨husable, hfirst⟩]
    exact if_pos hsome
  have htarget : disk.target root = .ok ⟨base, some .directory⟩ := by
    rw [target, h]
    rfl
  rw [start, hstatus, htarget]
  rfl

/-- Reading a directory is looking at the regular files below it. -/
theorem read_of_directory (h : disk.resolve .target root = .ok ⟨base, some .directory⟩)
    (hidden : Bool) :
    read disk root hidden = (visitAll disk root (regularFiles disk base hidden)).result := by
  rw [read, survey, start_of_directory h]

/-- A walk meets its files in strictly ascending order, and under names. -/
theorem of_start (hdisk : disk.WellFormed) {list : List Location}
    (h : start disk root hidden = .ok list) :
    (∀ names ∈ list, ∀ name ∈ names, IsName name) ∧ list.Pairwise (· < ·) := by
  have hcases : (∃ base, list = regularFiles disk base hidden) ∨ list = [[]] ∨ list = [] := by
    unfold start at h
    cases hfirst : disk.status root with
    | error fault =>
        rw [hfirst] at h
        cases h
    | ok first =>
        cases hplace : disk.target root with
        | error fault =>
            rw [hfirst, hplace] at h
            cases h
        | ok place =>
            rw [hfirst, hplace] at h
            simp only [bind, Except.bind] at h
            split at h <;> cases h
            · exact .inl ⟨_, rfl⟩
            · exact .inr (.inl rfl)
            · exact .inr (.inr rfl)
  rcases hcases with ⟨base, rfl⟩ | rfl | rfl
  · exact ⟨fun _ => isName_of_mem_regularFiles hdisk, pairwise_regularFiles hdisk base hidden⟩
  · simp
  · simp

section Read

variable (hdisk : disk.WellFormed) (h : read disk root hidden = .ok files)

include hdisk h

/-- The names of the files that have been read are clean, and their contents are not empty. -/
theorem of_mem_read (hfile : file ∈ files) :
    cleanName file.name = file.name ∧ file.content ≠ "" := by
  obtain ⟨list, hstart, -, rfl⟩ := read_eq_ok_iff.mp h
  obtain ⟨names, hnames, hfound⟩ := List.mem_filterMap.mp hfile
  obtain ⟨hname, -, hcontent⟩ := foundAt?_eq_some_iff.mp hfound
  exact ⟨cleanName_of_isName ((of_start hdisk hstart).1 names hnames) hname, hcontent⟩

theorem pairwise_read : files.Pairwise fun a b => reduced a.name < reduced b.name := by
  obtain ⟨list, hstart, -, rfl⟩ := read_eq_ok_iff.mp h
  obtain ⟨hnames, hlist⟩ := of_start hdisk hstart
  rw [List.pairwise_filterMap]
  refine hlist.imp_of_mem fun hmem hmem' hlt file hfile file' hfile' => ?_
  have hkey := reduced_of_isName (hnames _ hmem) (foundAt?_eq_some_iff.mp hfile).1
  have hkey' := reduced_of_isName (hnames _ hmem') (foundAt?_eq_some_iff.mp hfile').1
  rw [hkey, hkey']
  exact hlt

end Read

end Tree

end Assets
