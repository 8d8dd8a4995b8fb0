import Assets.Archive
import Assets.Proofs.Order.SortByKey

/-!
# The names in a file set

A file set holds no name twice.  `ensureUniqueNames_eq_ok_iff` says that this is what is checked:
the loop has seen exactly the names before the file at hand.  Of a set without a repeated name the
canonical order is the only one by name, so that the blob and the archive of the set do not tell
in which order its files came (`encode_eq_of_perm`).
-/

namespace Assets

namespace FileSet

theorem firstRepeat?_eq_none_iff (seen : List String) (files : FileSet) :
    firstRepeat? seen files = none ↔ files.names.Nodup ∧ ∀ name ∈ files.names, name ∉ seen := by
  induction files generalizing seen with
  | nil => simp [firstRepeat?, names]
  | cons file files ih =>
      simp only [names, List.map_cons, List.nodup_cons, List.forall_mem_cons] at ih ⊢
      by_cases hseen : file.name ∈ seen
      · simp [firstRepeat?, hseen]
      · simp only [firstRepeat?, if_neg hseen, ih]
        -- a later file repeats the name of `file` or one that was seen before it
        simp only [List.mem_cons, not_or, hseen, not_false_eq_true, true_and]
        constructor
        · rintro ⟨hnodup, hfresh⟩
          exact ⟨⟨fun hmem => (hfresh _ hmem).1 rfl, hnodup⟩,
            fun name hname => (hfresh name hname).2⟩
        · rintro ⟨⟨hfirst, hnodup⟩, hfresh⟩
          exact ⟨hnodup, fun name hname => ⟨fun heq => hfirst (heq ▸ hname), hfresh name hname⟩⟩

theorem firstRepeat?_nil_eq_none_iff {files : FileSet} :
    firstRepeat? [] files = none ↔ files.names.Nodup := by
  simp [firstRepeat?_eq_none_iff]

/-- The sets that are accepted are those without a repeated name. -/
theorem ensureUniqueNames_eq_ok_iff {files : FileSet} :
    files.ensureUniqueNames = .ok () ↔ files.names.Nodup := by
  rw [← firstRepeat?_nil_eq_none_iff, ensureUniqueNames]
  cases firstRepeat? [] files <;> simp

theorem sorted_eq_of_perm {files other : FileSet} (h : files.Perm other)
    (hnames : files.names.Nodup) : files.sorted = other.sorted :=
  Order.sortByKey_eq_of_perm File.name h hnames

/-- Files in order, of whatever names, are in canonical order. -/
theorem sorted_eq_self {files : FileSet} (h : files.Pairwise fun a b => a.name ≤ b.name) :
    files.sorted = files :=
  List.mergeSort_of_pairwise (by simpa using h)

theorem pairwise_sorted (files : FileSet) : files.sorted.Pairwise fun a b => a.name ≤ b.name :=
  Order.pairwise_sortByKey File.name files

theorem sorted_sorted (files : FileSet) : files.sorted.sorted = files.sorted :=
  sorted_eq_self (pairwise_sorted files)

end FileSet

theorem Blob.encode_sorted (files : FileSet) : encode files.sorted = encode files := by
  rw [encode, encode, FileSet.sorted_sorted]

theorem Blob.encode_eq_of_perm {files other : FileSet} (h : files.Perm other)
    (hnames : files.names.Nodup) : encode files = encode other := by
  rw [encode, encode, FileSet.sorted_eq_of_perm h hnames]

/-- Archives of one set differ in the order of their files only. -/
theorem Archive.ofFiles_eq_of_perm {files other : FileSet} (h : files.Perm other)
    (hnames : files.names.Nodup) :
    (ofFiles files).content = (ofFiles other).content ∧
      (ofFiles files).hash = (ofFiles other).hash := by
  simp [ofFiles, Blob.encode_eq_of_perm h hnames]

end Assets
