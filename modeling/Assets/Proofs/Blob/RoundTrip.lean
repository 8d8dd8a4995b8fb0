import Assets.Archive
import Assets.Proofs.Blob.Cut
import Assets.Proofs.Order.SortByKey

/-!
# Which file sets come back from their blob

Nothing is escaped in a blob, so a file comes back only if its record can be told apart from its
neighbours: `Storable` asks for a name and a content that are not empty and hold no NUL.

* `readRecord?_eq_some_iff`: the records that hold a file are exactly the records of storable
  files.  Read from the right it is the round trip of one record, from the left it says that
  whatever is read from a blob is storable (`storable_of_mem_decode`).
* `decode_encodeUnsorted`: storable files come back, in order.  The blob of `file :: files` is
  the record of `file`, which ends in no NUL, a pair of NULs and the blob of `files`; so
  `cutRecords_append` cuts it there and the rest is induction.
* `validate_eq_ok_iff`: a file set is accepted if and only if all its files are storable.
-/

namespace Assets.Blob

/-- A file that its record gives back. -/
structure Storable (file : File) : Prop where
  name_ne : file.name ≠ ""
  content_ne : file.content ≠ ""
  name_clean : separator ∉ file.name.toList
  content_clean : separator ∉ file.content.toList

/-! ## One record -/

theorem toList_writeRecord (file : File) :
    (writeRecord file).toList = file.name.toList ++ separator :: file.content.toList := by
  simp [writeRecord, separator]

theorem getLast?_writeRecord {file : File} (h : Storable file) :
    (writeRecord file).toList.getLast? ≠ some separator := by
  have hne : file.content.toList ≠ [] := by simpa using h.content_ne
  rw [toList_writeRecord, List.getLast?_append, List.getLast?_cons_of_ne_nil hne]
  intro hlast
  have hsome : file.content.toList.getLast?.isSome := by simpa using h.content_ne
  obtain ⟨last, hmem⟩ := Option.isSome_iff_exists.mp hsome
  rw [hmem, Option.some_or] at hlast
  cases hlast
  exact h.content_clean (List.mem_of_getLast? hmem)

theorem cutRecords_writeRecord {file : File} (h : Storable file) :
    cutRecords (writeRecord file).toList = [(writeRecord file).toList] := by
  rw [toList_writeRecord]
  exact cutRecords_field_field h.name_clean h.content_clean

theorem readRecord?_writeRecord {file : File} (h : Storable file) :
    readRecord? (writeRecord file).toList = some file := by
  have hfields : cutFields (writeRecord file).toList =
      [file.name.toList, file.content.toList] := by
    rw [toList_writeRecord, cutFields_append h.name_clean, cutFields_of_notMem h.content_clean]
  simp [readRecord?, hfields, h.name_ne, h.content_ne]

/-- The records that hold a file are the records of storable files. -/
theorem readRecord?_eq_some_iff {record : List Char} {file : File} :
    readRecord? record = some file ↔ Storable file ∧ record = (writeRecord file).toList := by
  constructor
  · intro h
    unfold readRecord? at h
    split at h
    · rename_i name content hfields
      split at h
      · simp at h
      · rename_i hne
        simp only [Bool.or_eq_true, List.isEmpty_iff, not_or] at hne
        cases h
        have hclean : ∀ field ∈ [name, content], separator ∉ field := by
          intro field hfield
          rw [← hfields] at hfield
          exact separator_notMem_of_mem_cutFields hfield
        have hname : separator ∉ name := hclean name (by simp)
        have hcontent : separator ∉ content := hclean content (by simp)
        refine ⟨⟨?_, ?_, ?_, ?_⟩, ?_⟩
        · simpa [← String.toList_inj] using hne.1
        · simpa [← String.toList_inj] using hne.2
        · simpa using hname
        · simpa using hcontent
        · have hrecord := intercalate_cutFields record
          rw [hfields] at hrecord
          simpa [toList_writeRecord] using hrecord.symm
    · simp at h
  · rintro ⟨h, rfl⟩
    exact readRecord?_writeRecord h

/-! ## Whole blobs -/

theorem storable_of_mem_decode {blob : String} {file : File} (h : file ∈ decode blob) :
    Storable file := by
  obtain ⟨record, -, hread⟩ := List.mem_filterMap.mp h
  exact (readRecord?_eq_some_iff.mp hread).1

theorem toList_encodeUnsorted_cons_cons (file next : File) (files : FileSet) :
    (encodeUnsorted (file :: next :: files)).toList =
      (writeRecord file).toList ++
        separator :: separator :: (encodeUnsorted (next :: files)).toList := by
  simp [encodeUnsorted, separator]

/-- Storable files come back from their blob, in order. -/
theorem decode_encodeUnsorted {files : FileSet} (h : ∀ file ∈ files, Storable file) :
    decode (encodeUnsorted files) = files := by
  induction files with
  | nil => simp [decode, encodeUnsorted, cutRecords, readRecord?, cutFields]
  | cons file files ih =>
      have hfile : Storable file := h file (List.mem_cons_self ..)
      have hfiles := ih fun other hother => h other (List.mem_cons_of_mem _ hother)
      cases files with
      | nil =>
          simp [decode, encodeUnsorted, cutRecords_writeRecord hfile,
            readRecord?_writeRecord hfile]
      | cons next files =>
          unfold decode at hfiles ⊢
          rw [toList_encodeUnsorted_cons_cons, cutRecords_append (getLast?_writeRecord hfile),
            cutRecords_writeRecord hfile, List.filterMap_append, hfiles]
          simp [readRecord?_writeRecord hfile]

/-! ## Validation -/

theorem refusal?_eq_none_iff {file : File} : refusal? file = none ↔ Storable file := by
  unfold refusal?
  constructor
  · intro h
    split at h
    · simp at h
    · rename_i hname
      split at h
      · simp at h
      · rename_i hclean
        split at h
        · simp at h
        · rename_i hcontent
          simp only [String.isEmpty_iff, Bool.or_eq_true, List.contains_iff_mem, not_or] at *
          exact ⟨hname, hcontent, hclean.1, hclean.2⟩
  · intro h
    rw [if_neg (by simpa using h.name_ne), if_neg (by simp [h.name_clean, h.content_clean]),
      if_neg (by simpa using h.content_ne)]

theorem validate_eq_ok_iff {files : FileSet} :
    validate files = .ok () ↔ ∀ file ∈ files, Storable file := by
  simp only [← refusal?_eq_none_iff, ← List.findSome?_eq_none_iff]
  unfold validate
  split <;> simp_all

theorem perm_sorted (files : FileSet) : files.sorted.Perm files := List.mergeSort_perm ..

/-- A file set is accepted if and only if it comes back unchanged from its blob, and the canonical
blob of an accepted set gives the set back in canonical order. -/
theorem validate_iff_roundtrip (files : FileSet) :
    (validate files = .ok () ↔ (Archive.ofBlob (encodeUnsorted files)).files = files) ∧
      (validate files = .ok () → (Archive.ofBlob (encode files)).files = files.sorted) := by
  simp only [validate_eq_ok_iff]
  refine ⟨⟨decode_encodeUnsorted, ?_⟩, ?_⟩
  · intro hback file hfile
    have hmem : file ∈ decode (encodeUnsorted files) := by
      rw [show decode (encodeUnsorted files) = files from hback]
      exact hfile
    exact storable_of_mem_decode hmem
  · intro h
    exact decode_encodeUnsorted fun file hfile => h file ((perm_sorted files).mem_iff.mp hfile)

/-- Two files out of order are accepted, and come back in order from their canonical blob. -/
theorem validate_iff_roundtrip_pair :
    validate [⟨"b", "2\n"⟩, ⟨"a", "1"⟩] = .ok () ∧
      (Archive.ofBlob (encode [⟨"b", "2\n"⟩, ⟨"a", "1"⟩])).files =
        [⟨"a", "1"⟩, ⟨"b", "2\n"⟩] := by
  have hvalid : validate [⟨"b", "2\n"⟩, ⟨"a", "1"⟩] = .ok () := rfl
  have hsorted : FileSet.sorted [⟨"b", "2\n"⟩, ⟨"a", "1"⟩] = [⟨"a", "1"⟩, ⟨"b", "2\n"⟩] :=
    Order.sortByKey_eq_of_ascending File.name (by decide) (by decide)
  exact ⟨hvalid, ((validate_iff_roundtrip _).2 hvalid).trans hsorted⟩

end Assets.Blob
