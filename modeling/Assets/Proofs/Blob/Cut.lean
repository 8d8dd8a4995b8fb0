import Assets.Blob

/-!
# Cutting a text at its separators

A blob is cut twice: at the pairs of NULs into records, then each record at its NULs into fields.
Both cuts are greedy and run from the left, so what has to be shown is where they fall when two
texts are joined.

* `cutFields_append`: a field without NULs is cut off whole, whatever follows its NUL.
* `cutRecords_append`: the cut of `a ++ NUL ++ NUL ++ b` falls between `a` and `b` as soon as `a`
  does not end in a NUL.  Nothing is asked of `b`, which may itself start with NULs, because the
  cut runs from the left.
* `separator_notMem_of_mem_cutFields`: no field holds a NUL.
-/

namespace Assets.Blob

/-! ## Fields -/

theorem cutFields_ne_nil (cs : List Char) : cutFields cs ≠ [] := by
  cases cs with
  | nil => simp [cutFields]
  | cons c rest =>
      unfold cutFields
      split
      · simp
      · split <;> simp

@[simp] theorem cutFields_separator (rest : List Char) :
    cutFields (separator :: rest) = [] :: cutFields rest := by
  simp [cutFields]

/-- A character other than the separator goes to the first field of what follows. -/
theorem cutFields_cons {c : Char} (hc : c ≠ separator) {rest field : List Char}
    {fields : List (List Char)} (hrest : cutFields rest = field :: fields) :
    cutFields (c :: rest) = (c :: field) :: fields := by
  rw [cutFields, if_neg hc, hrest]

theorem cutFields_of_notMem {cs : List Char} (h : separator ∉ cs) : cutFields cs = [cs] := by
  induction cs with
  | nil => rfl
  | cons c rest ih =>
      simp only [List.mem_cons, not_or] at h
      exact cutFields_cons (Ne.symm h.1) (ih h.2)

theorem cutFields_append {field : List Char} (h : separator ∉ field) (rest : List Char) :
    cutFields (field ++ separator :: rest) = field :: cutFields rest := by
  induction field with
  | nil => simp
  | cons c field ih =>
      simp only [List.mem_cons, not_or] at h
      exact cutFields_cons (Ne.symm h.1) (ih h.2)

theorem separator_notMem_of_mem_cutFields {cs field : List Char} (h : field ∈ cutFields cs) :
    separator ∉ field := by
  induction cs generalizing field with
  | nil =>
      simp only [cutFields, List.mem_singleton] at h
      simp [h]
  | cons c rest ih =>
      by_cases hc : c = separator
      · subst hc
        rw [cutFields_separator, List.mem_cons] at h
        rcases h with rfl | h
        · simp
        · exact ih h
      · obtain ⟨first, fields, hrest⟩ := List.exists_cons_of_ne_nil (cutFields_ne_nil rest)
        rw [cutFields_cons hc hrest, List.mem_cons] at h
        rw [hrest] at ih
        rcases h with rfl | h
        · simpa [Ne.symm hc] using ih (List.mem_cons_self ..)
        · exact ih (List.mem_cons_of_mem _ h)

/-- The fields with their separators are the text again. -/
theorem intercalate_cutFields (cs : List Char) : [separator].intercalate (cutFields cs) = cs := by
  induction cs with
  | nil => rfl
  | cons c rest ih =>
      obtain ⟨first, fields, hrest⟩ := List.exists_cons_of_ne_nil (cutFields_ne_nil rest)
      by_cases hc : c = separator
      · subst hc
        rw [cutFields_separator, hrest, List.intercalate_cons_cons, ← hrest, ih]
        rfl
      · rw [cutFields_cons hc hrest]
        rw [hrest] at ih
        cases fields with
        | nil => simpa using ih
        | cons second fields =>
            simp only [List.intercalate_cons_cons] at ih ⊢
            rw [← ih]
            rfl

/-! ## Records -/

theorem cutRecords_ne_nil (cs : List Char) : cutRecords cs ≠ [] := by
  fun_cases cutRecords cs <;> simp

@[simp] theorem cutRecords_separator_separator (rest : List Char) :
    cutRecords (separator :: separator :: rest) = [] :: cutRecords rest := by
  simp [cutRecords]

/-- A character that does not start a pair of separators goes to the first record of what
follows. -/
theorem cutRecords_cons {c : Char} {rest record : List Char} {records : List (List Char)}
    (hc : ¬ (c = separator ∧ rest.head? = some separator))
    (hrest : cutRecords rest = record :: records) :
    cutRecords (c :: rest) = (c :: record) :: records := by
  cases rest with
  | nil =>
      cases hrest
      rfl
  | cons d rest =>
      rw [cutRecords, if_neg (by simpa using hc), hrest]

theorem cutRecords_of_notMem {cs : List Char} (h : separator ∉ cs) : cutRecords cs = [cs] := by
  induction cs with
  | nil => rfl
  | cons c rest ih =>
      simp only [List.mem_cons, not_or] at h
      exact cutRecords_cons (fun hc => h.1 hc.1.symm) (ih h.2)

/-- A single separator between two texts without separators ends no record. -/
theorem cutRecords_field_field {name content : List Char} (hname : separator ∉ name)
    (hcontent : separator ∉ content) :
    cutRecords (name ++ separator :: content) = [name ++ separator :: content] := by
  induction name with
  | nil =>
      refine cutRecords_cons ?_ (cutRecords_of_notMem hcontent)
      rintro ⟨-, hhead⟩
      exact hcontent (List.mem_of_mem_head? hhead)
  | cons c name ih =>
      simp only [List.mem_cons, not_or] at hname
      exact cutRecords_cons (fun hc => hname.1 hc.1.symm) (ih hname.2)

/-- A pair of separators after a text that does not end in one is where the text is cut. -/
theorem cutRecords_append {a : List Char} (h : a.getLast? ≠ some separator) (b : List Char) :
    cutRecords (a ++ separator :: separator :: b) = cutRecords a ++ cutRecords b := by
  fun_induction cutRecords a with
  | case1 => simp
  | case2 c =>
      have hc : c ≠ separator := by simpa using h
      exact cutRecords_cons (fun hpair => hc hpair.1) (cutRecords_separator_separator b)
  | case3 c d rest hpair ih =>
      obtain ⟨rfl, rfl⟩ := hpair
      have hlast : rest.getLast? ≠ some separator := by
        cases rest with
        | nil => simp
        | cons e rest => simpa [List.getLast?_cons_cons] using h
      simp only [List.cons_append, cutRecords_separator_separator, ih hlast]
  | case4 c d rest hpair hnil ih => exact absurd hnil (cutRecords_ne_nil _)
  | case5 c d rest hpair record records hrest ih =>
      rw [List.getLast?_cons_cons] at h
      have htail := ih h
      rw [hrest] at htail
      exact cutRecords_cons (by simpa using hpair) htail

end Assets.Blob
