import Assets.Proofs.Blob.Joining

/-!
# What empty fields take with them

A file with an empty name or an empty content does not come back from its blob, and it may take the
file behind it with it: the separators around its fields are one run, which is cut into pairs from
the left, and if one is left over the next record is spoilt.  Here the files that come back are told
by what stands in front of their names, for files whose fields hold no separators.

* `filesIn_writeRecord`: a record is read as the file that it was written for or not at all, and of
  what stands in front of it only the parity of a run of separators counts.
* `files_encodeUnsorted`: the files that come back are those with two non-empty fields whose name
  stands behind a run of even length.
-/

namespace Assets.Blob

/-- A file without separators in its fields, which may be empty. -/
structure SeparatorFree (file : File) : Prop where
  name : separator ∉ file.name.toList
  content : separator ∉ file.content.toList

/-- What stands in front of the name of a file in a blob, given the files before it. -/
def ahead (before : FileSet) : List Char :=
  before.flatMap fun file => (writeRecord file).toList ++ separators 2

/-- Whether a file comes back from a blob, given the files before it: it has two non-empty fields,
and the run of separators in front of its name has even length. -/
def Survives (before : FileSet) (file : File) : Prop :=
  file.name ≠ "" ∧ file.content ≠ "" ∧ Even (separatorsAtEnd (ahead before))

instance (before : FileSet) (file : File) : Decidable (Survives before file) :=
  inferInstanceAs (Decidable (_ ∧ _ ∧ _))

/-- The files that come back from a blob, given the files before them. -/
def survivors (before : FileSet) : FileSet → FileSet
  | [] => []
  | file :: files =>
    if Survives before file then file :: survivors (before ++ [file]) files
    else survivors (before ++ [file]) files

/-! ## Records that hold no file -/

/-- A record that holds a file has a separator, and not at its ends. -/
theorem of_readRecord?_eq_some {record : List Char} {file : File}
    (h : readRecord? record = some file) :
    separator ∈ record ∧ record.head? ≠ some separator ∧ record.getLast? ≠ some separator := by
  obtain ⟨hfile, rfl⟩ := readRecord?_eq_some_iff.mp h
  have hname : file.name.toList ≠ [] := by simpa using hfile.name_ne
  refine ⟨by simp [toList_writeRecord], fun hhead => ?_, getLast?_writeRecord hfile⟩
  rw [toList_writeRecord, List.head?_append_of_ne_nil _ hname] at hhead
  exact hfile.name_clean (List.mem_of_head? hhead)

/-- Nothing is read from a text that is one record and holds no file. -/
theorem filesIn_eq_nil {cs : List Char} (hone : cutRecords cs = [cs])
    (h : separator ∉ cs ∨ cs.head? = some separator ∨ cs.getLast? = some separator) :
    filesIn cs = [] := by
  have hnone : readRecord? cs = none := by
    refine Option.eq_none_iff_forall_ne_some.mpr fun file hfile => ?_
    obtain ⟨hmem, hhead, hlast⟩ := of_readRecord?_eq_some hfile
    rcases h with hfree | hopens | hends
    · exact hfree hmem
    · exact hhead hopens
    · exact hlast hends
  rw [filesIn, hone, List.filterMap_cons_none hnone, List.filterMap_nil]

/-- One separator in front of a record belongs to it. -/
theorem cutRecords_separators {cs : List Char} (hone : cutRecords cs = [cs])
    (hhead : cs.head? ≠ some separator) (k : Nat) :
    cutRecords (separators (k % 2) ++ cs) = [separators (k % 2) ++ cs] := by
  rcases Nat.mod_two_eq_zero_or_one k with hk | hk <;> rw [hk]
  · exact hone
  · exact cutRecords_cons (fun hpair => hhead hpair.2) hone

theorem head?_ne_of_notMem {cs : List Char} (h : separator ∉ cs) : cs.head? ≠ some separator :=
  fun hhead => h (List.mem_of_head? hhead)

/-- A single field is dropped, whatever the run in front of it is. -/
theorem filesIn_separators_field {field : List Char} (h : separator ∉ field) (k : Nat) :
    filesIn (separators k ++ field) = [] := by
  rw [filesIn_separators]
  have hone := cutRecords_separators (cutRecords_of_notMem h) (head?_ne_of_notMem h) k
  refine filesIn_eq_nil hone ?_
  rcases Nat.mod_two_eq_zero_or_one k with hk | hk <;> rw [hk]
  · exact .inl h
  · exact .inr (.inl rfl)

/-! ## One file behind a run -/

theorem filesIn_append_separators {body : List Char} (h : body.getLast? ≠ some separator) {n : Nat}
    (hn : n ≠ 1) : filesIn (body ++ separators n) = filesIn body := by
  obtain rfl | hpos := Nat.eq_zero_or_pos n
  · rw [separators_zero, List.append_nil]
  · exact filesIn_body_run h (by omega)

theorem getLast?_append_ne (front : List Char) {field : List Char} (hne : field ≠ [])
    (h : separator ∉ field) : (front ++ field).getLast? ≠ some separator := by
  rw [List.getLast?_append_of_ne_nil _ hne]
  exact fun hlast => h (List.mem_of_getLast? hlast)

section

variable {file : File} (hfile : SeparatorFree file)

include hfile

theorem cutRecords_writeRecord_of_separatorFree :
    cutRecords (writeRecord file).toList = [(writeRecord file).toList] := by
  rw [toList_writeRecord]
  exact cutRecords_field_field hfile.name hfile.content

theorem head?_writeRecord (hname : file.name ≠ "") :
    (writeRecord file).toList.head? ≠ some separator := by
  rw [toList_writeRecord, List.head?_append_of_ne_nil _ (by simpa using hname)]
  exact head?_ne_of_notMem hfile.name

theorem getLast?_append_writeRecord (hcontent : file.content ≠ "") (front : List Char) :
    (front ++ (writeRecord file).toList).getLast? ≠ some separator := by
  rw [toList_writeRecord, List.append_cons, ← List.append_assoc]
  exact getLast?_append_ne _ (by simpa using hcontent) hfile.content

theorem filesIn_writeRecord_of_content_ne (hcontent : file.content ≠ "") (k : Nat) :
    filesIn (separators (k % 2) ++ (writeRecord file).toList) =
      if file.name ≠ "" ∧ Even k then [file] else [] := by
  have hone := cutRecords_writeRecord_of_separatorFree hfile
  by_cases hname : file.name = ""
  · -- the separator of the record goes to the run
    have hrun : separators (k % 2) ++ (writeRecord file).toList =
        separators (k % 2 + 1) ++ file.content.toList := by
      rw [toList_writeRecord, hname, separators_add, List.append_assoc]
      rfl
    rw [hrun, filesIn_separators_field hfile.content, if_neg fun h => h.1 hname]
  rcases Nat.even_or_odd k with hk | hk
  · have hstorable : Storable file := ⟨hname, hcontent, hfile.name, hfile.content⟩
    rw [Nat.even_iff.mp hk, if_pos ⟨hname, hk⟩]
    simp [filesIn, separators, hone, readRecord?_writeRecord hstorable]
  · rw [if_neg fun h => Nat.not_even_iff_odd.mpr hk h.2]
    have hone := cutRecords_separators hone (head?_writeRecord hfile hname) k
    refine filesIn_eq_nil hone (.inr (.inl ?_))
    rw [Nat.odd_iff.mp hk]
    rfl

theorem filesIn_writeRecord_of_content_eq (hcontent : file.content = "") {n : Nat} (hn : n ≠ 1)
    (k : Nat) : filesIn (separators (k % 2) ++ (writeRecord file).toList ++ separators n) = [] := by
  have hrecord : (writeRecord file).toList = file.name.toList ++ separators 1 := by
    rw [toList_writeRecord, hcontent]
    rfl
  by_cases hname : file.name = ""
  · have hrun : separators (k % 2) ++ (writeRecord file).toList ++ separators n =
        separators (k % 2 + 1 + n) ++ [] := by
      rw [hrecord, hname, separators_add, separators_add, List.append_nil]
      rfl
    rw [hrun]
    exact filesIn_separators_field (by simp) _
  obtain rfl | hpos := Nat.eq_zero_or_pos n
  · -- the record has nothing behind its separator
    have hone := cutRecords_separators (cutRecords_writeRecord_of_separatorFree hfile)
      (head?_writeRecord hfile hname) k
    rw [separators_zero, List.append_nil]
    refine filesIn_eq_nil hone (.inr (.inr ?_))
    rw [hrecord, ← List.append_assoc]
    exact List.getLast?_concat
  · have hrun : separators (k % 2) ++ (writeRecord file).toList ++ separators n =
        separators (k % 2) ++ file.name.toList ++ separators (1 + n) := by
      rw [hrecord, separators_add]
      simp only [List.append_assoc]
    have hne : file.name.toList ≠ [] := by simpa using hname
    have hlast := getLast?_append_ne (separators (k % 2)) hne hfile.name
    rw [hrun, filesIn_append_separators hlast (by omega)]
    exact filesIn_separators_field hfile.name _

/-- A record is read as its file or not at all.  It may stand at the end of a text or in front of
another record. -/
theorem filesIn_writeRecord {n : Nat} (hn : n ≠ 1) (k : Nat) :
    filesIn (separators (k % 2) ++ (writeRecord file).toList ++ separators n) =
      if file.name ≠ "" ∧ file.content ≠ "" ∧ Even k then [file] else [] := by
  by_cases hcontent : file.content = ""
  · rw [filesIn_writeRecord_of_content_eq hfile hcontent hn, if_neg fun h => h.2.1 hcontent]
  · have hlast := getLast?_append_writeRecord hfile hcontent (separators (k % 2))
    rw [filesIn_append_separators hlast hn, filesIn_writeRecord_of_content_ne hfile hcontent]
    simp only [hcontent, ne_eq, not_false_eq_true, true_and]

end

/-! ## Along a blob -/

theorem ahead_concat (before : FileSet) (file : File) :
    ahead (before ++ [file]) = ahead before ++ (writeRecord file).toList ++ separators 2 := by
  simp [ahead]

/-- In front of the name of a file there is nothing, or a pair of separators. -/
theorem filesIn_ahead_append (before : FileSet) (cs : List Char) :
    filesIn (ahead before ++ cs) = filesIn (ahead before) ++
      filesIn (separators (separatorsAtEnd (ahead before) % 2) ++ cs) := by
  obtain rfl | ⟨front, file, rfl⟩ := List.eq_nil_or_concat before
  · rfl
  · refine filesIn_append_run ?_ cs
    rw [List.concat_eq_append, ahead_concat, separatorsAtEnd_append_separators]
    omega

/-- What a record adds to the files in front of it. -/
theorem filesIn_ahead_writeRecord {file : File} (hfile : SeparatorFree file) {n : Nat} (hn : n ≠ 1)
    (before : FileSet) :
    filesIn (ahead before ++ (writeRecord file).toList ++ separators n) =
      filesIn (ahead before) ++ if Survives before file then [file] else [] := by
  rw [List.append_assoc, filesIn_ahead_append, ← List.append_assoc,
    filesIn_writeRecord hfile hn]
  rfl

theorem survivors_cons (before : FileSet) (file : File) (files : FileSet) :
    survivors before (file :: files) =
      (if Survives before file then [file] else []) ++ survivors (before ++ [file]) files := by
  rw [survivors]
  split <;> rfl

theorem toList_ahead_encodeUnsorted (before : FileSet) (file next : File) (files : FileSet) :
    ahead before ++ (encodeUnsorted (file :: next :: files)).toList =
      ahead (before ++ [file]) ++ (encodeUnsorted (next :: files)).toList := by
  rw [toList_encodeUnsorted_cons_cons, ahead_concat]
  simp [separators]

theorem filesIn_ahead_encodeUnsorted {files : FileSet} (h : ∀ file ∈ files, SeparatorFree file)
    (before : FileSet) :
    filesIn (ahead before ++ (encodeUnsorted files).toList) =
      filesIn (ahead before) ++ survivors before files := by
  induction files generalizing before with
  | nil => simp [encodeUnsorted, survivors]
  | cons file files ih =>
      obtain ⟨hfile, hfiles⟩ := List.forall_mem_cons.mp h
      rw [survivors_cons]
      cases files with
      | nil =>
          have hrecord := filesIn_ahead_writeRecord hfile Nat.zero_ne_one before
          rw [separators_zero, List.append_nil] at hrecord
          rw [survivors, List.append_nil, ← hrecord]
          simp [encodeUnsorted]
      | cons next files =>
          rw [toList_ahead_encodeUnsorted, ih hfiles, ahead_concat,
            filesIn_ahead_writeRecord hfile (by decide), List.append_assoc]

/-! ## The files that come back -/

theorem survivors_append (before files more : FileSet) :
    survivors before (files ++ more) =
      survivors before files ++ survivors (before ++ files) more := by
  induction files generalizing before with
  | nil => simp [survivors]
  | cons file files ih =>
      rw [List.cons_append, survivors_cons, survivors_cons, ih, List.append_assoc,
        List.append_assoc]
      rfl

theorem survivors_sublist (before files : FileSet) : (survivors before files).Sublist files := by
  induction files generalizing before with
  | nil => exact List.Sublist.slnil
  | cons file files ih =>
      rw [survivors]
      split
      · exact (ih _).cons_cons file
      · exact (ih _).cons file

/-- A file stands behind no separator or behind one pair, unless the file before it has no
content. -/
theorem survives_of_previous {before : FileSet} {file : File} (hname : file.name ≠ "")
    (hcontent : file.content ≠ "")
    (h : ∀ previous ∈ before.getLast?, SeparatorFree previous ∧ previous.content ≠ "") :
    Survives before file := by
  refine ⟨hname, hcontent, ?_⟩
  obtain rfl | ⟨front, previous, rfl⟩ := List.eq_nil_or_concat before
  · exact Even.zero
  · obtain ⟨hfree, hne⟩ := h previous (by simp)
    have hlast := getLast?_append_writeRecord hfree hne (ahead front)
    rw [List.concat_eq_append, ahead_concat, separatorsAtEnd_append_separators,
      separatorsAtEnd_of_getLast? hlast]
    exact even_two

theorem toList_encodeUnsorted_append (before : FileSet) (file : File) (after : FileSet) :
    (encodeUnsorted (before ++ file :: after)).toList =
      ahead before ++ (encodeUnsorted (file :: after)).toList := by
  induction before using List.reverseRecOn generalizing file after with
  | nil => rfl
  | append_singleton before last ih =>
      rw [List.append_assoc, List.singleton_append, ih, toList_ahead_encodeUnsorted]

/-- The name of a file stands behind what is written for the files before it. -/
theorem exists_toList_encodeUnsorted (before : FileSet) (file : File) (after : FileSet) :
    ∃ rest, (encodeUnsorted (before ++ file :: after)).toList =
      ahead before ++ file.name.toList ++ separator :: rest := by
  rw [toList_encodeUnsorted_append]
  cases after with
  | nil => exact ⟨file.content.toList, by simp [encodeUnsorted, toList_writeRecord]⟩
  | cons next after =>
      rw [toList_encodeUnsorted_cons_cons, toList_writeRecord]
      exact ⟨file.content.toList ++
        separator :: separator :: (encodeUnsorted (next :: after)).toList, by simp⟩

/-- **The files that come back.**  Of files without separators in their fields those come back, in
order and unchanged, that have two non-empty fields and whose name stands behind a run of separators
of even length.  A file with two non-empty fields that is the first one, or comes behind a file with
a content, is among them. -/
theorem files_encodeUnsorted (files : FileSet) (h : ∀ file ∈ files, SeparatorFree file) :
    (Archive.ofBlob (encodeUnsorted files)).files = survivors [] files ∧
      (survivors [] files).Sublist files ∧
      ∀ before file after, files = before ++ file :: after →
        (∃ rest, (encodeUnsorted files).toList =
          ahead before ++ file.name.toList ++ separator :: rest) ∧
        (file.name ≠ "" → file.content ≠ "" →
          (∀ previous ∈ before.getLast?, previous.content ≠ "") →
            (Archive.ofBlob (encodeUnsorted files)).files =
              survivors [] before ++ file :: survivors (before ++ [file]) after) := by
  have hfiles : (Archive.ofBlob (encodeUnsorted files)).files = survivors [] files :=
    filesIn_ahead_encodeUnsorted h []
  refine ⟨hfiles, survivors_sublist [] files, ?_⟩
  rintro before file after rfl
  refine ⟨exists_toList_encodeUnsorted before file after, fun hname hcontent hprevious => ?_⟩
  have hsurvives : Survives before file := by
    refine survives_of_previous hname hcontent fun previous hlast => ⟨h previous ?_, ?_⟩
    · exact List.mem_append_left _ (List.mem_of_getLast? hlast)
    · exact hprevious previous hlast
  rw [hfiles, survivors_append, survivors, List.nil_append, if_pos hsurvives]

/-- A file without content takes the next file with it, unless that one has no fields at all. -/
theorem files_encodeUnsorted_runs :
    let files : FileSet := [⟨"a", "1"⟩, ⟨"b", ""⟩, ⟨"c", "3"⟩, ⟨"d", ""⟩, ⟨"", ""⟩, ⟨"e", "5"⟩]
    (∀ file ∈ files, SeparatorFree file) ∧
      (Archive.ofBlob (encodeUnsorted files)).files = [⟨"a", "1"⟩, ⟨"e", "5"⟩] := by
  intro files
  have hfree : ∀ file ∈ files, SeparatorFree file := by
    have hall : ∀ file ∈ files,
        separator ∉ file.name.toList ∧ separator ∉ file.content.toList := by decide
    exact fun file hfile => ⟨(hall file hfile).1, (hall file hfile).2⟩
  refine ⟨hfree, ?_⟩
  rw [(files_encodeUnsorted files hfree).1]
  decide +kernel

end Assets.Blob
