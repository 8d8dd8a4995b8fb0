import Mathlib.Algebra.Ring.Parity
import Mathlib.Data.List.DropRight
import Assets.Proofs.Blob.RoundTrip

/-!
# Joining texts

Two texts with a pair of separators between them are one text, and it may be asked whether that
text holds the files of both.  It depends on the first text alone, and of it only on the run of
separators at its end: pairs are cut off such a run from the left, so that a run of even length is
used up and the pair between the texts is cut as it stands, while a run of odd length takes one
separator of the pair and leaves the other one to the text behind it.

* `filesIn_append_run`: what is read behind a run of two separators or more depends on the run only
  by its parity.
* `files_joined_iff`: a text can be joined with any other one exactly if the run at its end has even
  length; if it does not end in a separator, that is the case.
-/

namespace Assets.Blob

/-- The files that are read from a text. -/
def filesIn (cs : List Char) : FileSet := (cutRecords cs).filterMap readRecord?

def separators (n : Nat) : List Char := List.replicate n separator

/-- The length of the run of separators at the end of a text. -/
def separatorsAtEnd (cs : List Char) : Nat := (cs.rtakeWhile (· = separator)).length

/-! ## Runs of separators -/

theorem separators_add (m n : Nat) : separators (m + n) = separators m ++ separators n :=
  List.replicate_add m n separator

@[simp] theorem separators_zero : separators 0 = [] := rfl

theorem separators_two (rest : List Char) :
    separators 2 ++ rest = separator :: separator :: rest := rfl

/-- A text is one that does not end in a separator, with a run of separators behind it. -/
theorem exists_body (cs : List Char) :
    ∃ body, cs = body ++ separators (separatorsAtEnd cs) ∧ body.getLast? ≠ some separator := by
  refine ⟨cs.rdropWhile (· = separator), ?_, fun hlast => ?_⟩
  · have hrun : cs.rtakeWhile (· = separator) = separators (separatorsAtEnd cs) :=
      List.eq_replicate_iff.mpr ⟨rfl, fun c hc => by simpa using List.mem_rtakeWhile_imp hc⟩
    rw [← hrun, List.rdropWhile_append_rtakeWhile]
  · have hne := List.ne_nil_of_mem (List.mem_of_getLast? hlast)
    have hnot := List.rdropWhile_last_not (· = separator) cs hne
    exact hnot (decide_eq_true (List.getLast_of_getLast?_eq_some hlast))

theorem separatorsAtEnd_of_getLast? {cs : List Char} (h : cs.getLast? ≠ some separator) :
    separatorsAtEnd cs = 0 := by
  rw [separatorsAtEnd, List.length_eq_zero_iff, List.rtakeWhile_eq_nil_iff]
  intro hne hlast
  exact h (by rw [List.getLast?_eq_some_getLast hne, of_decide_eq_true hlast])

theorem separatorsAtEnd_append_separators (cs : List Char) (n : Nat) :
    separatorsAtEnd (cs ++ separators n) = separatorsAtEnd cs + n := by
  induction n with
  | zero => simp
  | succ n ih =>
      have hlast : cs ++ separators (n + 1) = (cs ++ separators n) ++ [separator] := by
        rw [separators_add, List.append_assoc]
        rfl
      rw [hlast, separatorsAtEnd, List.rtakeWhile_concat_pos _ _ _ (by simp), List.length_append,
        List.length_singleton, ← separatorsAtEnd, ih, Nat.add_assoc]

/-! ## What is read behind a run -/

theorem filesIn_append {a : List Char} (h : a.getLast? ≠ some separator) (b : List Char) :
    filesIn (a ++ separators 2 ++ b) = filesIn a ++ filesIn b := by
  rw [List.append_assoc, separators_two, filesIn, cutRecords_append h, List.filterMap_append]
  rfl

/-- A run in front of a text is used up by pairs. -/
theorem filesIn_separators (n : Nat) (rest : List Char) :
    filesIn (separators n ++ rest) = filesIn (separators (n % 2) ++ rest) := by
  induction n using Nat.twoStepInduction with
  | zero => rfl
  | one => rfl
  | more n ih _ =>
      have hpair : filesIn (separators (n + 2) ++ rest) = filesIn (separators n ++ rest) := by
        rw [Nat.add_comm n 2, separators_add, List.append_assoc]
        exact filesIn_append (a := []) (by simp) (separators n ++ rest)
      rw [hpair, ih, Nat.add_mod_right]

/-- A run of at least two separators ends what stands in front of it. -/
theorem filesIn_run {body : List Char} (h : body.getLast? ≠ some separator) {n : Nat}
    (hn : 2 ≤ n) (rest : List Char) :
    filesIn (body ++ separators n ++ rest) =
      filesIn body ++ filesIn (separators (n % 2) ++ rest) := by
  obtain ⟨m, rfl⟩ := Nat.exists_eq_add_of_le hn
  have hrun : body ++ separators (2 + m) ++ rest =
      body ++ separators 2 ++ (separators m ++ rest) := by
    simp only [separators_add, List.append_assoc]
  rw [hrun, filesIn_append h, filesIn_separators, Nat.add_mod_left]

theorem filesIn_separators_mod_two (n : Nat) : filesIn (separators (n % 2)) = [] := by
  rcases Nat.mod_two_eq_zero_or_one n with h | h <;> rw [h] <;> rfl

theorem filesIn_body_run {body : List Char} (h : body.getLast? ≠ some separator) {n : Nat}
    (hn : 2 ≤ n) : filesIn (body ++ separators n) = filesIn body := by
  have hrun := filesIn_run h hn []
  rwa [List.append_nil, List.append_nil, filesIn_separators_mod_two, List.append_nil] at hrun

/-- Behind a run of at least two separators it is read on as behind none or one. -/
theorem filesIn_append_run {front : List Char} (h : 2 ≤ separatorsAtEnd front)
    (rest : List Char) :
    filesIn (front ++ rest) =
      filesIn front ++ filesIn (separators (separatorsAtEnd front % 2) ++ rest) := by
  obtain ⟨body, hfront, hbody⟩ := exists_body front
  generalize separatorsAtEnd front = n at h hfront ⊢
  subst hfront
  rw [filesIn_run hbody h, filesIn_body_run hbody h]

/-! ## Joined texts -/

theorem filesIn_joined (a b : List Char) :
    filesIn (a ++ separators 2 ++ b) =
      filesIn (a ++ separators 2) ++ filesIn (separators (separatorsAtEnd a % 2) ++ b) := by
  have hcount := separatorsAtEnd_append_separators a 2
  rw [filesIn_append_run (by omega), hcount, Nat.add_mod_right]

/-- A pair behind a run of even length takes no file away. -/
theorem filesIn_append_pair {a : List Char} (h : Even (separatorsAtEnd a)) :
    filesIn (a ++ separators 2) = filesIn a := by
  obtain ⟨body, ha, hbody⟩ := exists_body a
  generalize separatorsAtEnd a = n at h ha
  subst ha
  rw [List.append_assoc, ← separators_add, filesIn_body_run hbody (by omega)]
  obtain rfl | hpos := Nat.eq_zero_or_pos n
  · rw [separators_zero, List.append_nil]
  · have htwo : 2 ≤ n := by
      obtain ⟨m, rfl⟩ := h
      omega
    rw [filesIn_body_run hbody htwo]

theorem filesIn_joined_of_even {a : List Char} (h : Even (separatorsAtEnd a)) (b : List Char) :
    filesIn (a ++ separators 2 ++ b) = filesIn a ++ filesIn b := by
  rw [filesIn_joined, filesIn_append_pair h, Nat.even_iff.mp h]
  rfl

/-- Behind an odd run a record is spoilt, whichever file it holds. -/
theorem even_of_filesIn_joined {a : List Char}
    (h : ∀ b, filesIn (a ++ separators 2 ++ b) = filesIn a ++ filesIn b) :
    Even (separatorsAtEnd a) := by
  rcases Nat.even_or_odd (separatorsAtEnd a) with heven | hodd
  · exact heven
  -- what is read does not tell the two records apart, which hold different files
  have hjoined (b : List Char) : filesIn a ++ filesIn b =
      filesIn (a ++ separators 2) ++ filesIn (separators 1 ++ b) := by
    rw [← h b, filesIn_joined, Nat.odd_iff.mp hodd]
  have hfirst : filesIn a ++ [⟨"a", "1"⟩] = filesIn (a ++ separators 2) ++ [] :=
    hjoined "a\x001".toList
  have hsecond : filesIn a ++ [⟨"a", "2"⟩] = filesIn (a ++ separators 2) ++ [] :=
    hjoined "a\x002".toList
  have hsame := List.append_cancel_left (hfirst.trans hsecond.symm)
  simp at hsame

theorem toList_joined (a b : String) :
    (a ++ "\x00\x00" ++ b).toList = a.toList ++ separators 2 ++ b.toList := by
  rw [String.toList_append, String.toList_append]
  rfl

/-- **Joined texts.**  A text that does not end in a separator can be joined with any other text:
the files of both are read.  In general a text can be joined in this way exactly if the run of
separators at its end has even length. -/
theorem files_joined_iff (a : String) :
    (a.toList.getLast? ≠ some separator → ∀ b : String,
      (Archive.ofBlob (a ++ "\x00\x00" ++ b)).files =
        (Archive.ofBlob a).files ++ (Archive.ofBlob b).files) ∧
    ((∀ b : String, (Archive.ofBlob (a ++ "\x00\x00" ++ b)).files =
        (Archive.ofBlob a).files ++ (Archive.ofBlob b).files) ↔
      Even (separatorsAtEnd a.toList)) := by
  have hjoined (b : String) : (Archive.ofBlob (a ++ "\x00\x00" ++ b)).files =
      filesIn (a.toList ++ separators 2 ++ b.toList) := congrArg filesIn (toList_joined a b)
  have heven (h : Even (separatorsAtEnd a.toList)) (b : String) :
      (Archive.ofBlob (a ++ "\x00\x00" ++ b)).files =
        (Archive.ofBlob a).files ++ (Archive.ofBlob b).files :=
    (hjoined b).trans (filesIn_joined_of_even h b.toList)
  refine ⟨fun hlast => heven ?_, fun h => even_of_filesIn_joined fun cs => ?_, heven⟩
  · rw [separatorsAtEnd_of_getLast? hlast]
    exact Even.zero
  · rw [← String.toList_ofList (l := cs), ← hjoined]
    exact h (String.ofList cs)

/-- A record that is spoilt and one that is cut short do not reach what follows. -/
theorem files_joined_iff_malformed :
    let a := "a\x001\x00\x00\x00b\x002\x00\x00c"
    let b := "\x00\x00\x00d\x003\x00\x00e\x004"
    a.toList.getLast? ≠ some separator ∧ (Archive.ofBlob a).files = [⟨"a", "1"⟩] ∧
      (Archive.ofBlob b).files = [⟨"e", "4"⟩] ∧
      (Archive.ofBlob (a ++ "\x00\x00" ++ b)).files = [⟨"a", "1"⟩, ⟨"e", "4"⟩] := by
  intro a b
  have hlast : a.toList.getLast? ≠ some separator := by decide
  have ha : (Archive.ofBlob a).files = [⟨"a", "1"⟩] := by decide +kernel
  have hb : (Archive.ofBlob b).files = [⟨"e", "4"⟩] := by decide +kernel
  refine ⟨hlast, ha, hb, ?_⟩
  rw [(files_joined_iff a).1 hlast b, ha, hb]
  rfl

end Assets.Blob
