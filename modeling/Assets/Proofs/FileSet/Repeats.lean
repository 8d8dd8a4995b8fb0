import Mathlib.Data.List.Nodup
import Mathlib.Order.Bounds.Basic
import Assets.Proofs.FileSet.Names

/-!
# Which name is reported

A file set with a repeated name is refused, and the failure carries a name.  It is the first one
that comes again: the loop has seen exactly the names of the files before the one at hand
(`firstRepeat?_append`), so that it goes on as long as these are different and stops at the first
file whose name is one of them (`firstRepeat?_eq_some_iff`).

A set without a repeated name is a map from names to files.  Looking up a name finds the one file
that has it (`byName?_eq_some_iff`), wherever the file stands, so the order in which the files came
does not matter.
-/

namespace Assets

namespace FileSet

/-! ## The first repeat -/

/-- The loop stops among the files in front, or else it goes on behind them and has seen exactly
their names, besides those that it started with. -/
theorem firstRepeat?_append (seen : List String) (front back : FileSet) :
    firstRepeat? seen (front ++ back) =
      (firstRepeat? seen front).or (firstRepeat? (front.names.reverse ++ seen) back) := by
  induction front generalizing seen with
  | nil => rfl
  | cons file front ih =>
      rw [List.cons_append, firstRepeat?, firstRepeat?]
      split
      · rfl
      · rw [ih]
        simp [names]

theorem firstRepeat?_eq_some_iff {seen : List String} {files : FileSet} {name : String} :
    firstRepeat? seen files = some name ↔
      ∃ front file back, files = front ++ file :: back ∧ file.name = name ∧
        firstRepeat? seen front = none ∧ name ∈ front.names.reverse ++ seen := by
  constructor
  · intro h
    induction files generalizing seen with
    | nil => cases h
    | cons file files ih =>
        rw [firstRepeat?] at h
        split at h
        · rename_i hseen
          cases h
          exact ⟨[], file, files, rfl, rfl, rfl, hseen⟩
        · rename_i hseen
          -- the file at hand is one more in front of the file that repeats a name
          obtain ⟨front, other, back, rfl, hname, hnone, hmem⟩ := ih h
          refine ⟨file :: front, other, back, rfl, hname, ?_, ?_⟩
          · rw [firstRepeat?, if_neg hseen, hnone]
          · simpa [names] using hmem
  · rintro ⟨front, file, back, rfl, rfl, hnone, hmem⟩
    rw [firstRepeat?_append, hnone, Option.none_or, firstRepeat?, if_pos hmem]

/-- The name at a place stands at an earlier place, too. -/
def RepeatsAt (files : FileSet) (place : Nat) : Prop :=
  place < files.length ∧ ∃ earlier < place, files.names[earlier]? = files.names[place]?

instance (files : FileSet) (place : Nat) : Decidable (files.RepeatsAt place) :=
  inferInstanceAs (Decidable (_ ∧ _))

theorem nodup_names_iff {files : FileSet} :
    files.names.Nodup ↔ ∀ place, ¬files.RepeatsAt place := by
  rw [List.nodup_iff_getElem?_ne_getElem?, names, List.length_map]
  constructor
  · rintro h place ⟨hplace, earlier, hearlier, hname⟩
    exact h earlier place hearlier hplace hname
  · intro h earlier place hearlier hplace hname
    exact h place ⟨hplace, earlier, hearlier, hname⟩

theorem nodup_names_iff_getElem {files : FileSet} :
    files.names.Nodup ↔ ∀ (i j : Nat) (hi : i < files.length) (hj : j < files.length),
      files[i].name = files[j].name → i = j := by
  rw [names, List.Nodup, List.pairwise_map, List.pairwise_iff_getElem]
  constructor
  · intro h i j hi hj hname
    rcases Nat.lt_trichotomy i j with hlt | rfl | hlt
    · exact (h i j hi hj hlt hname).elim
    · rfl
    · exact (h j i hj hi hlt hname.symm).elim
  · intro h i j hi hj hlt hname
    exact Nat.ne_of_lt hlt (h i j hi hj hname)

section

variable {front back : FileSet}

theorem getElem?_names_append {place : Nat} (h : place < front.length) :
    (front ++ back).names[place]? = front.names[place]? := by
  rw [names, List.map_append, List.getElem?_append_left (by rwa [List.length_map]), names]

theorem getElem?_names_length (file : File) :
    (front ++ file :: back).names[front.length]? = some file.name := by
  simp [names]

/-- What stands behind a place does not matter. -/
theorem repeatsAt_append {place : Nat} (h : place < front.length) :
    (front ++ back).RepeatsAt place ↔ front.RepeatsAt place := by
  constructor
  · rintro ⟨-, earlier, hearlier, hname⟩
    rw [getElem?_names_append (Nat.lt_trans hearlier h), getElem?_names_append h] at hname
    exact ⟨h, earlier, hearlier, hname⟩
  · rintro ⟨-, earlier, hearlier, hname⟩
    refine ⟨by rw [List.length_append]; omega, earlier, hearlier, ?_⟩
    rw [getElem?_names_append (Nat.lt_trans hearlier h), getElem?_names_append h, hname]

theorem repeatsAt_length {file : File} :
    (front ++ file :: back).RepeatsAt front.length ↔ file.name ∈ front.names := by
  rw [List.mem_iff_getElem?, RepeatsAt, getElem?_names_length]
  constructor
  · rintro ⟨-, earlier, hearlier, hname⟩
    exact ⟨earlier, by rw [← getElem?_names_append hearlier, hname]⟩
  · rintro ⟨earlier, hname⟩
    have hearlier : earlier < front.length := by
      obtain ⟨hlt, -⟩ := List.getElem?_eq_some_iff.mp hname
      rwa [names, List.length_map] at hlt
    exact ⟨by simp, earlier, hearlier, by rw [getElem?_names_append hearlier, hname]⟩

end

/-- The reported name is that of the first file whose name stands at an earlier place, too. -/
theorem firstRepeat?_nil_eq_some_iff {files : FileSet} {name : String} :
    firstRepeat? [] files = some name ↔
      ∃ place, IsLeast {place | files.RepeatsAt place} place ∧
        files.names[place]? = some name := by
  rw [firstRepeat?_eq_some_iff]
  constructor
  · rintro ⟨front, file, back, rfl, rfl, hnone, hmem⟩
    rw [firstRepeat?_nil_eq_none_iff, nodup_names_iff] at hnone
    have hrepeat : file.name ∈ front.names := by simpa using hmem
    refine ⟨front.length, ⟨repeatsAt_length.mpr hrepeat, fun place hplace => ?_⟩,
      getElem?_names_length file⟩
    -- an earlier repeat would be one among the files in front
    by_contra hlt
    rw [Nat.not_le] at hlt
    exact hnone place ((repeatsAt_append hlt).mp hplace)
  · rintro ⟨place, ⟨hrepeats, hleast⟩, hname⟩
    obtain ⟨front, file, back, rfl, rfl⟩ :
        ∃ front file back, files = front ++ file :: back ∧ place = front.length := by
      have hplace : place < files.length := hrepeats.1
      refine ⟨files.take place, files[place], files.drop (place + 1), ?_, ?_⟩
      · rw [← List.drop_eq_getElem_cons, List.take_append_drop]
      · rw [List.length_take_of_le (Nat.le_of_lt hplace)]
    rw [getElem?_names_length, Option.some.injEq] at hname
    refine ⟨front, file, back, rfl, hname, ?_, ?_⟩
    · rw [firstRepeat?_nil_eq_none_iff, nodup_names_iff]
      intro earlier hearlier
      have hlt : earlier < front.length := hearlier.1
      exact absurd (hleast ((repeatsAt_append hlt).mpr hearlier)) (Nat.not_le.mpr hlt)
    · have hmem := repeatsAt_length.mp hrepeats
      simpa [← hname] using hmem

/-! ## Looking up a name -/

/-- Of a set without a repeated name, the file of a name is found. -/
theorem byName?_eq_some_iff {files : FileSet} (h : files.names.Nodup) {name : String}
    {file : File} : files.byName? name = some file ↔ file ∈ files ∧ file.name = name := by
  constructor
  · intro hfound
    exact ⟨List.mem_of_find?_eq_some hfound, by simpa using List.find?_some hfound⟩
  · rintro ⟨hfile, rfl⟩
    cases hfound : files.byName? file.name with
    | none =>
        have hne := List.find?_eq_none.mp hfound file hfile
        simp at hne
    | some other =>
        have hother : other ∈ files := List.mem_of_find?_eq_some hfound
        have hname : other.name = file.name := by simpa using List.find?_some hfound
        rw [List.inj_on_of_nodup_map h hother hfile hname]

/-! ## The check -/

theorem ensureUniqueNames_eq_error_iff {files : FileSet} {failure : Failure} :
    files.ensureUniqueNames = .error failure ↔
      ∃ name, firstRepeat? [] files = some name ∧ failure = .duplicateName name := by
  rw [ensureUniqueNames]
  cases firstRepeat? [] files <;> simp [eq_comm]

/-- **Unique names.**  A file set is accepted if and only if no two of its places hold one name.
Otherwise it is refused, and what is reported is the name at the first place whose name stands at an
earlier place, too.  In an accepted set, in whatever order, each file is found under its name. -/
theorem ensureUniqueNames_decides (files : FileSet) :
    (files.ensureUniqueNames = .ok () ↔
      ∀ (i j : Nat) (hi : i < files.length) (hj : j < files.length),
        files[i].name = files[j].name → i = j) ∧
    (∀ failure, files.ensureUniqueNames = .error failure ↔
      ∃ (place : Nat) (hplace : place < files.length),
        IsLeast {place | files.RepeatsAt place} place ∧
          failure = .duplicateName files[place].name) ∧
    (files.ensureUniqueNames = .ok () →
      ∀ other : FileSet, other.Perm files → ∀ file ∈ files,
        other.byName? file.name = some file) := by
  refine ⟨?_, fun failure => ?_, fun hunique other hperm file hfile => ?_⟩
  · rw [ensureUniqueNames_eq_ok_iff, nodup_names_iff_getElem]
  · rw [ensureUniqueNames_eq_error_iff]
    constructor
    · rintro ⟨name, hname, rfl⟩
      obtain ⟨place, hleast, hplace⟩ := firstRepeat?_nil_eq_some_iff.mp hname
      have hlt : place < files.length := hleast.1.1
      have hat : files[place].name = name := by simpa [names, hlt] using hplace
      exact ⟨place, hlt, hleast, by rw [hat]⟩
    · rintro ⟨place, hplace, hleast, rfl⟩
      exact ⟨_, firstRepeat?_nil_eq_some_iff.mpr ⟨place, hleast, by simp [names, hplace]⟩, rfl⟩
  · have hnodup : other.names.Nodup :=
      (hperm.map File.name).nodup_iff.mpr (ensureUniqueNames_eq_ok_iff.mp hunique)
    exact (byName?_eq_some_iff hnodup).mpr ⟨hperm.mem_iff.mpr hfile, rfl⟩

/-- Three files in another order, and a set whose second name is the first to come again. -/
theorem ensureUniqueNames_decides_reordered :
    let files : FileSet := [⟨"b", "1"⟩, ⟨"a", "2"⟩, ⟨"./a", "2"⟩]
    let other : FileSet := [⟨"./a", "2"⟩, ⟨"b", "1"⟩, ⟨"a", "2"⟩]
    let repeating : FileSet := [⟨"b", "1"⟩, ⟨"a", "2"⟩, ⟨"a", "3"⟩, ⟨"b", "1"⟩]
    files.ensureUniqueNames = .ok () ∧ other.Perm files ∧
      other.byName? "a" = some ⟨"a", "2"⟩ ∧
      IsLeast {place | repeating.RepeatsAt place} 2 ∧
      repeating.ensureUniqueNames = .error (.duplicateName "a") := by
  intro files other repeating
  have hunique : files.ensureUniqueNames = .ok () := by decide
  have hperm : other.Perm files := by decide
  have hleast : IsLeast {place | repeating.RepeatsAt place} 2 := by
    refine ⟨by decide, fun place hplace => ?_⟩
    by_contra hlt
    have hnone : ∀ place < 2, ¬repeating.RepeatsAt place := by decide
    exact hnone place (Nat.not_le.mp hlt) hplace
  refine ⟨hunique, hperm, ?_, hleast, ?_⟩
  · exact (ensureUniqueNames_decides files).2.2 hunique other hperm ⟨"a", "2"⟩ (by decide)
  · exact ((ensureUniqueNames_decides repeating).2.1 _).mpr ⟨2, by decide, hleast, rfl⟩

end FileSet

end Assets
