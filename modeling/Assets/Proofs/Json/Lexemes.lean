import Assets.Proofs.Json.RoundTrip
import Assets.Text.Blank

/-!
# Outside of strings

To speak of the numbers of a text, or of its blanks, without the reader, a text is taken apart into
its numbers and its other characters, and its string literals are passed over (`lexemes`).  A
literal goes to the first quote that does not belong to a backslash.

* `afterQuote_of_readString`: where the reader sees the end of a string, there it is.
* `compact_write`: a written document has no blanks outside of its strings.
-/

namespace Assets.Json

/-- What a JSON text holds outside of its string literals. -/
inductive Lexeme where
  | number (text : List Char)
  | mark (c : Char)
  deriving DecidableEq, Repr

def Lexeme.source : Lexeme → List Char
  | number text => text
  | mark c => [c]

/-- What follows a string literal, from behind its opening quote on.  `escaped` says that the next
character belongs to a backslash. -/
def afterQuote : (escaped : Bool) → List Char → List Char
  | _, [] => []
  | true, _ :: rest => afterQuote false rest
  | false, c :: rest => if c = '"' then rest else afterQuote (c == '\\') rest

theorem length_afterQuote_le (escaped : Bool) (cs : List Char) :
    (afterQuote escaped cs).length ≤ cs.length := by
  induction cs generalizing escaped with
  | nil => simp [afterQuote]
  | cons c rest ih =>
      cases escaped with
      | true => exact Nat.le_succ_of_le (ih false)
      | false =>
          rw [afterQuote]
          split
          · exact Nat.le_succ _
          · exact Nat.le_succ_of_le (ih _)

/-- The numbers of a text, each as far as it goes, and all other characters, without the string
literals. -/
def lexemes : List Char → List Lexeme
  | [] => []
  | c :: rest =>
    if c = '"' then lexemes (afterQuote false rest)
    else if c = '-' || isDigit c then
      .number (c :: rest.takeWhile isNumeric) :: lexemes (rest.dropWhile isNumeric)
    else .mark c :: lexemes rest
termination_by cs => cs.length
decreasing_by
  · exact Nat.lt_succ_of_le (length_afterQuote_le false rest)
  · exact Nat.lt_succ_of_le (List.dropWhile_sublist isNumeric).length_le
  · exact Nat.lt_succ_self _

/-- Every number of a text is an integer that is kept as one, in its decimal notation. -/
def IntegersOnly (cs : List Char) : Prop :=
  ∀ text, .number text ∈ lexemes cs → ∃ n : Int, IsStored n ∧ text = (toString n).toList

/-- There are no blanks outside of the strings of a text. -/
def Compact (cs : List Char) : Prop :=
  ∀ lexeme ∈ lexemes cs, ∀ c ∈ lexeme.source, Text.isBlank c = false

/-! ## One lexeme -/

/-- A character that starts neither a string nor a number. -/
abbrev IsMark (c : Char) : Prop := c ≠ '"' ∧ c ≠ '-' ∧ isDigit c = false

theorem lexemes_quote (rest : List Char) :
    lexemes ('"' :: rest) = lexemes (afterQuote false rest) := by
  rw [lexemes, if_pos rfl]

theorem lexemes_number {c : Char} (h : c = '-' ∨ isDigit c = true) (rest : List Char) :
    lexemes (c :: rest) =
      .number (c :: rest.takeWhile isNumeric) :: lexemes (rest.dropWhile isNumeric) := by
  have hquote : c ≠ '"' := by
    rintro rfl
    rcases h with h | h <;> cases h
  rw [lexemes, if_neg hquote, if_pos (by simpa using h)]

theorem lexemes_mark {c : Char} (h : IsMark c) (rest : List Char) :
    lexemes (c :: rest) = .mark c :: lexemes rest := by
  rw [lexemes, if_neg h.1, if_neg (by simp [h.2.1, h.2.2])]

theorem lexemes_append {word : List Char} (h : ∀ c ∈ word, IsMark c) (rest : List Char) :
    lexemes (word ++ rest) = word.map Lexeme.mark ++ lexemes rest := by
  induction word with
  | nil => rfl
  | cons c word ih =>
      obtain ⟨hmark, hword⟩ := List.forall_mem_cons.mp h
      rw [List.cons_append, lexemes_mark hmark, ih hword, List.map_cons, List.cons_append]

theorem integersOnly_quote {rest : List Char} :
    IntegersOnly ('"' :: rest) ↔ IntegersOnly (afterQuote false rest) := by
  rw [IntegersOnly, IntegersOnly, lexemes_quote]

theorem integersOnly_mark {c : Char} (h : IsMark c) {rest : List Char} :
    IntegersOnly (c :: rest) ↔ IntegersOnly rest := by
  rw [IntegersOnly, IntegersOnly, lexemes_mark h]
  simp

theorem integersOnly_number {c : Char} (h : c = '-' ∨ isDigit c = true) {rest : List Char} :
    IntegersOnly (c :: rest) ↔
      (∃ n : Int, IsStored n ∧ c :: rest.takeWhile isNumeric = (toString n).toList) ∧
        IntegersOnly (rest.dropWhile isNumeric) := by
  rw [IntegersOnly, IntegersOnly, lexemes_number h]
  simp

theorem integersOnly_append {word : List Char} (h : ∀ c ∈ word, IsMark c) {rest : List Char} :
    IntegersOnly (word ++ rest) ↔ IntegersOnly rest := by
  rw [IntegersOnly, IntegersOnly, lexemes_append h]
  simp

/-- The words that stand for a document. -/
inductive IsWord : List Char → Value → Prop where
  | null : IsWord "null".toList .null
  | yes : IsWord "true".toList (.boolean true)
  | no : IsWord "false".toList (.boolean false)

theorem IsWord.isMark {word : List Char} {value : Value} (h : IsWord word value) :
    ∀ c ∈ word, IsMark c ∧ Text.isBlank c = false := by
  cases h <;> simp [IsMark, isDigit, Text.isBlank]

theorem isMark_of_isSpace {c : Char} (h : isSpace c = true) : IsMark c := by
  simp only [isSpace, Bool.or_eq_true, beq_iff_eq] at h
  rcases h with ((rfl | rfl) | rfl) | rfl <;> decide

theorem integersOnly_skipSpaces {cs : List Char} :
    IntegersOnly (skipSpaces cs) ↔ IntegersOnly cs := by
  have hspaces : ∀ c ∈ cs.takeWhile isSpace, IsMark c := fun c hc =>
    isMark_of_isSpace (List.all_eq_true.mp List.all_takeWhile c hc)
  have happend : IntegersOnly (cs.takeWhile isSpace ++ skipSpaces cs) ↔
      IntegersOnly (skipSpaces cs) := integersOnly_append hspaces
  rw [skipSpaces, List.takeWhile_append_dropWhile] at happend
  exact happend.symm

/-! ## The end of a string -/

/-- Characters that neither close a string nor escape one. -/
theorem afterQuote_append {front : List Char} (h : ∀ c ∈ front, c ≠ '"' ∧ c ≠ '\\')
    (rest : List Char) : afterQuote false (front ++ rest) = afterQuote false rest := by
  induction front with
  | nil => rfl
  | cons c front ih =>
      obtain ⟨hquote, hbackslash⟩ := h c List.mem_cons_self
      rw [List.cons_append, afterQuote, if_neg hquote, beq_eq_false_iff_ne.mpr hbackslash,
        ih fun d hd => h d (List.mem_cons_of_mem _ hd)]

theorem hexValue?_of_hexNumber? {cs : List Char} {n : Nat} (h : Text.hexNumber? cs = some n) :
    ∀ c ∈ cs, Text.hexValue? c ≠ none := by
  induction cs using List.reverseRecOn generalizing n with
  | nil => simp
  | append_singleton cs c ih =>
      intro d hd
      unfold Text.hexNumber? at h ih
      rw [List.foldl_append, List.foldl_cons, List.foldl_nil] at h
      obtain ⟨front, hfront, h⟩ := Option.bind_eq_some_iff.mp h
      obtain ⟨value, hvalue, -⟩ := Option.bind_eq_some_iff.mp h
      rcases List.mem_append.mp hd with hmem | hmem
      · exact ih hfront d hmem
      · rw [List.mem_singleton.mp hmem, hvalue]
        exact Option.some_ne_none _

theorem plain_of_hexValue? {c : Char} (h : Text.hexValue? c ≠ none) : c ≠ '"' ∧ c ≠ '\\' := by
  constructor
  · rintro rfl
    exact h rfl
  · rintro rfl
    exact h rfl

theorem afterQuote_of_readUnit {cs rest : List Char} {n : Nat} (h : readUnit cs = .ok (n, rest)) :
    afterQuote false cs = afterQuote false rest := by
  unfold readUnit at h
  split at h
  · rename_i a b c d left
    split at h
    · rename_i m hnumber
      obtain ⟨-, rfl⟩ := Prod.mk.inj (Except.ok.inj h)
      have hplain : ∀ e ∈ [a, b, c, d], e ≠ '"' ∧ e ≠ '\\' := fun e he =>
        plain_of_hexValue? (hexValue?_of_hexNumber? hnumber e he)
      exact afterQuote_append hplain left
    · cases h
  · split at h <;> cases h

theorem afterQuote_of_readLowSurrogate {high : Nat} {cs rest : List Char} {c : Char}
    (h : readLowSurrogate high cs = .ok (c, rest)) :
    afterQuote false cs = afterQuote false rest := by
  unfold readLowSurrogate at h
  split at h
  · obtain ⟨low, left, hunit, h⟩ := Reading.andThen_eq_ok h
    split at h
    · obtain ⟨-, rfl⟩ := Prod.mk.inj (Except.ok.inj h)
      have hback := afterQuote_of_readUnit hunit
      exact hback
    · cases h
  all_goals cases h

/-- A backslash takes exactly one character with it that could close the string. -/
theorem afterQuote_of_readEscape {cs rest : List Char} {c : Char}
    (h : readEscape cs = .ok (c, rest)) : afterQuote true cs = afterQuote false rest := by
  unfold readEscape at h
  split at h
  · cases h
  · rename_i d left
    show afterQuote false left = _
    split at h
    · obtain ⟨unit, back, hunit, h⟩ := Reading.andThen_eq_ok h
      rw [afterQuote_of_readUnit hunit]
      split at h
      · cases h
      split at h
      · exact afterQuote_of_readLowSurrogate h
      · obtain ⟨-, rfl⟩ := Prod.mk.inj (Except.ok.inj h)
        rfl
    · split at h
      · obtain ⟨-, rfl⟩ := Prod.mk.inj (Except.ok.inj h)
        rfl
      · cases h

/-- The reader and the lexemes agree on where a string ends. -/
theorem afterQuote_of_readString {cs rest s : List Char} (h : readString cs = .ok (s, rest)) :
    afterQuote false cs = rest := by
  fun_induction readString cs generalizing s with
  | case1 => cases h
  | case2 left =>
      obtain ⟨-, rfl⟩ := Prod.mk.inj (Except.ok.inj h)
      rfl
  | case3 => cases h
  | case4 left c back hescape _ ih =>
      obtain ⟨t, end', hread, hend⟩ := Reading.andThen_eq_ok h
      obtain ⟨-, rfl⟩ := Prod.mk.inj (Except.ok.inj hend)
      calc afterQuote false ('\\' :: left) = afterQuote true left := rfl
        _ = afterQuote false back := afterQuote_of_readEscape hescape
        _ = end' := ih hread
  | case5 => cases h
  | case6 c left hquote hbackslash _ ih =>
      obtain ⟨t, end', hread, hend⟩ := Reading.andThen_eq_ok h
      obtain ⟨-, rfl⟩ := Prod.mk.inj (Except.ok.inj hend)
      rw [afterQuote, if_neg hquote, beq_eq_false_iff_ne.mpr hbackslash, ih hread]

/-! ## Written documents -/

theorem compact_literal {s rest : List Char} : Compact (literal s ++ rest) ↔ Compact rest := by
  have hend := afterQuote_of_readString (readString_literal s rest)
  rw [Compact, Compact, literal_append, lexemes_quote, hend]

theorem isNumeric_of_isDigit {c : Char} (h : isDigit c = true) : isNumeric c = true := by
  simp [isNumeric, h]

theorem isNumeric_of_mem_toString {n : Int} {c : Char} (hc : c ∈ (toString n).toList) :
    isNumeric c = true := by
  rw [toList_toString] at hc
  split at hc
  · exact isNumeric_of_isDigit (isDigit_of_mem_toDigits hc)
  · rcases List.mem_cons.mp hc with rfl | hc
    · rfl
    · exact isNumeric_of_isDigit (isDigit_of_mem_toDigits hc)

/-- An integer is one lexeme, as long as the text behind it does not go on with a number. -/
theorem lexemes_integer (n : Int) {rest : List Char} (h : EndsNumber rest) :
    lexemes ((toString n).toList ++ rest) = .number (toString n).toList :: lexemes rest := by
  obtain ⟨c, digits, hdigits, hc⟩ := exists_toString_eq_cons n
  have hnumeric : ∀ d ∈ digits, isNumeric d = true := fun d hd =>
    isNumeric_of_mem_toString (hdigits ▸ List.mem_cons_of_mem c hd)
  have hends : rest.takeWhile isNumeric = [] ∧ rest.dropWhile isNumeric = rest := by
    cases rest with
    | nil => exact ⟨rfl, rfl⟩
    | cons d rest =>
        have hd : ¬isNumeric d = true := by simpa using endsNumber_cons.mp h
        exact ⟨List.takeWhile_cons_of_neg hd, List.dropWhile_cons_of_neg hd⟩
  rw [hdigits, List.cons_append, lexemes_number hc, List.takeWhile_append_of_pos hnumeric,
    List.dropWhile_append_of_pos hnumeric, hends.1, hends.2, List.append_nil]

theorem isBlank_of_isNumeric {c : Char} (h : isNumeric c = true) : Text.isBlank c = false := by
  simp only [isNumeric, Bool.or_eq_true, beq_iff_eq] at h
  rcases h with ((((hdigit | rfl) | rfl) | rfl) | rfl) | rfl
  · obtain ⟨hlow, hhigh⟩ := isDigit_iff.mp hdigit
    simp only [Text.isBlank, Bool.or_eq_false_iff, Bool.and_eq_false_iff, decide_eq_false_iff_not,
      beq_eq_false_iff_ne]
    omega
  all_goals decide

theorem compact_integer {n : Int} {rest : List Char} (h : EndsNumber rest) :
    Compact ((toString n).toList ++ rest) ↔ Compact rest := by
  rw [Compact, Compact, lexemes_integer n h, List.forall_mem_cons]
  exact and_iff_right fun c hc => isBlank_of_isNumeric (isNumeric_of_mem_toString hc)

theorem compact_mark {c : Char} (h : IsMark c) (hblank : Text.isBlank c = false)
    {rest : List Char} : Compact (c :: rest) ↔ Compact rest := by
  rw [Compact, Compact, lexemes_mark h, List.forall_mem_cons]
  exact and_iff_right (by simpa [Lexeme.source] using hblank)

theorem compact_append {word : List Char}
    (h : ∀ c ∈ word, IsMark c ∧ Text.isBlank c = false) {rest : List Char} :
    Compact (word ++ rest) ↔ Compact rest := by
  rw [Compact, Compact, lexemes_append fun c hc => (h c hc).1, List.forall_mem_append]
  refine and_iff_right fun lexeme hlexeme c hc => ?_
  obtain ⟨d, hd, rfl⟩ := List.mem_map.mp hlexeme
  rw [List.mem_singleton.mp hc]
  exact (h d hd).2

theorem compact_flatMap {α : Type} {write : α → List Char} {items : List α}
    (h : ∀ item ∈ items, ∀ rest, EndsNumber rest → Compact rest → Compact (write item ++ rest))
    {rest : List Char} (hends : EndsNumber rest) (hrest : Compact rest) :
    Compact ((items.flatMap fun next => ',' :: write next) ++ rest) := by
  induction items with
  | nil => exact hrest
  | cons item items ih =>
      rw [List.flatMap_cons, List.append_assoc, List.cons_append, compact_mark (by decide) rfl]
      exact h item List.mem_cons_self _ (endsNumber_flatMap write items hends)
        (ih fun other hother => h other (List.mem_cons_of_mem _ hother))

/-- Nothing is written between the parts of a document. -/
theorem compact_write {depth : Nat} {value : Value} (h : Regular depth value) {rest : List Char}
    (hends : EndsNumber rest) (hrest : Compact rest) : Compact (value.write ++ rest) := by
  induction h generalizing rest with
  | null => exact (compact_append IsWord.null.isMark).mpr hrest
  | boolean b =>
      cases b with
      | false => exact (compact_append IsWord.no.isMark).mpr hrest
      | true => exact (compact_append IsWord.yes.isMark).mpr hrest
  | integer h => exact (compact_integer hends).mpr hrest
  | text s => exact compact_literal.mpr hrest
  | @array depth items h ih =>
      have hclose : Compact (']' :: rest) := (compact_mark (by decide) rfl).mpr hrest
      rw [write_array_append, compact_mark (by decide) rfl]
      cases items with
      | nil => exact hclose
      | cons item items =>
          rw [writeItems_cons, List.append_assoc]
          exact ih item List.mem_cons_self
            (endsNumber_flatMap Value.write items (endsNumber_cons.mpr rfl))
            (compact_flatMap (fun other hother rest hends hrest =>
              ih other (List.mem_cons_of_mem _ hother) hends hrest)
              (endsNumber_cons.mpr rfl) hclose)
  | @object depth members horder h ih =>
      have hmember : ∀ member ∈ members, ∀ rest, EndsNumber rest → Compact rest →
          Compact (writeMember member ++ rest) := by
        intro member hmember rest hends hrest
        rw [writeMember, List.append_assoc, List.cons_append, compact_literal,
          compact_mark (by decide) rfl]
        exact ih member hmember hends hrest
      have hclose : Compact ('\x7d' :: rest) := (compact_mark (by decide) rfl).mpr hrest
      rw [write_object_append, compact_mark (by decide) rfl]
      cases members with
      | nil => exact hclose
      | cons member members =>
          rw [writeMembers_cons, List.append_assoc]
          exact hmember member List.mem_cons_self _
            (endsNumber_flatMap writeMember members (endsNumber_cons.mpr rfl))
            (compact_flatMap (fun other hother =>
              hmember other (List.mem_cons_of_mem _ hother)) (endsNumber_cons.mpr rfl) hclose)

end Assets.Json
