import Assets.Proofs.Dictionary.Union
import Assets.Proofs.Json.Literals
import Assets.Proofs.Json.Numbers

/-!
# Documents read back

Not every value comes back from its written form: a float may be read as its neighbour, an integer
beyond 64 bits becomes a float, members out of order are put in order, and what nests too deep is
refused.  `Regular` excludes exactly these, and `parse_write` says that every regular document is
read back.

A document stands inside others, so the statement to prove is that it is read back in front of any
text (`readValue_write`).  Only a number has to know where it ends: the text behind it is one that
no number goes on with, and this is passed down to the items of lists and the members of objects,
which are followed by a comma or a bracket.  The readers of lists and of objects are in one of two
states, in front of the first item or behind an item, and `readItems_write` and `readMembers_write`
treat both at once, since one leads to the other.

* `Encloses`: a text that stands for a document in front of anything else.  String literals do
  (`encloses_literal`), and objects of texts (`encloses_texts`).
-/

namespace Assets.Json

open Value

/-- A document that can be told from its written form: its numbers are integers, the members of its
objects are in order, and it nests at most as deep as the reader goes. -/
inductive Regular : (depth : Nat) → Value → Prop where
  | null {depth : Nat} : Regular depth .null
  | boolean {depth : Nat} (b : Bool) : Regular depth (.boolean b)
  | integer {depth : Nat} {n : Int} (h : IsStored n) : Regular depth (.number (.integer n))
  | text {depth : Nat} (s : String) : Regular depth (.text s)
  | array {depth : Nat} {items : List Value} (h : ∀ item ∈ items, Regular depth item) :
      Regular (depth + 1) (.array items)
  | object {depth : Nat} {members : List (String × Value)}
      (horder : Dictionary.Ascending members)
      (h : ∀ member ∈ members, Regular depth member.2) : Regular (depth + 1) (.object members)

/-! ## Words, numbers and texts -/

theorem skipSpaces_cons {c : Char} (h : isSpace c = false) (rest : List Char) :
    skipSpaces (c :: rest) = c :: rest := by
  rw [skipSpaces, List.dropWhile_cons_of_neg (by simp [h])]

theorem readWord_append {α : Type} (value : α) (word rest : List Char) :
    readWord value word (word ++ rest) = .ok (value, rest) := by
  induction word with
  | nil => rfl
  | cons w word ih => rw [List.cons_append, readWord, if_pos rfl, ih]

theorem toList_toString (n : Int) :
    (toString n).toList =
      if 0 ≤ n then Nat.toDigits 10 n.toNat else '-' :: Nat.toDigits 10 (-n).toNat := by
  rw [Int.toString_eq_repr, Int.repr_eq_if]
  split <;> simp

theorem ne_of_isDigit {c d : Char} (hc : isDigit c = true) (hd : isDigit d = false) : c ≠ d := by
  rintro rfl
  rw [hc] at hd
  cases hd

theorem isSpace_of_isDigit {c : Char} (hc : isDigit c = true) : isSpace c = false := by
  simp [isSpace, ne_of_isDigit hc (d := ' ') rfl, ne_of_isDigit hc (d := '\n') rfl,
    ne_of_isDigit hc (d := '\t') rfl, ne_of_isDigit hc (d := '\r') rfl]

/-- An integer is written with a sign or a digit in front. -/
theorem exists_toString_eq_cons (n : Int) :
    ∃ c digits, (toString n).toList = c :: digits ∧ (c = '-' ∨ isDigit c = true) := by
  rw [toList_toString]
  split
  · obtain ⟨c, digits, hdigits⟩ :=
      List.exists_cons_of_ne_nil (Nat.toDigits_ne_nil (n := n.toNat) (b := 10))
    exact ⟨c, digits, hdigits, .inr (isDigit_of_mem_toDigits (hdigits ▸ List.mem_cons_self))⟩
  · exact ⟨_, _, rfl, .inl rfl⟩

theorem readValue_digit {c : Char} (hc : isDigit c = true) (depth : Nat) (rest : List Char) :
    readValue depth (c :: rest) = (readNumber false (c :: rest)).map .number := by
  have hne (d : Char) (hd : isDigit d = false) : c ≠ d := ne_of_isDigit hc hd
  rw [readValue, skipSpaces_cons (isSpace_of_isDigit hc)]
  simp only [hne 'n' rfl, hne 't' rfl, hne 'f' rfl, hne '"' rfl, hne '-' rfl, hc, if_false, if_true]

theorem readValue_minus (depth : Nat) (rest : List Char) :
    readValue depth ('-' :: rest) = (readNumber true rest).map .number := by
  rw [readValue]
  rfl

theorem readValue_integer {n : Int} (h : IsStored n) (depth : Nat) {rest : List Char}
    (hrest : EndsNumber rest) :
    readValue depth ((toString n).toList ++ rest) = .ok (.number (.integer n), rest) := by
  obtain ⟨hlow, hhigh⟩ := h
  rw [toList_toString]
  split
  case isTrue hn =>
    obtain ⟨c, digits, hdigits⟩ :=
      List.exists_cons_of_ne_nil (Nat.toDigits_ne_nil (n := n.toNat) (b := 10))
    have hc : isDigit c = true := isDigit_of_mem_toDigits (hdigits ▸ List.mem_cons_self)
    rw [hdigits, List.cons_append, readValue_digit hc, ← List.cons_append, ← hdigits,
      readNumber_toDigits false (by omega) hrest]
    show Except.ok (Value.number (.integer n.toNat), rest) = _
    rw [Int.toNat_of_nonneg hn]
  case isFalse hn =>
    rw [List.cons_append, readValue_minus, readNumber_toDigits true (by omega) hrest]
    have hpos : (-n).toNat ≠ 0 ∧ (-n).toNat ≤ Nat.pow 2 63 := by
      show _ ∧ _ ≤ 2 ^ 63
      omega
    have hback : -((-n).toNat : Int) = n := by omega
    rw [ofInteger, if_neg (by decide), if_pos hpos, hback]
    rfl

theorem literal_append (s rest : List Char) :
    literal s ++ rest = '"' :: (s.flatMap escapeChar ++ '"' :: rest) := by
  simp [literal]

/-- A text is read back from its literal, whatever follows. -/
theorem readValue_literal (depth : Nat) (s : String) (rest : List Char) :
    readValue depth (literal s.toList ++ rest) = .ok (.text s, rest) := by
  have hread : readValue depth ('"' :: (s.toList.flatMap escapeChar ++ '"' :: rest)) =
      (readString (s.toList.flatMap escapeChar ++ '"' :: rest)).map
        fun t => .text (String.ofList t) := by
    rw [readValue]
    rfl
  rw [literal_append, hread, readString_literal]
  show Except.ok (Value.text (String.ofList s.toList), rest) = _
  rw [String.ofList_toList]

/-! ## Lists -/

theorem writeItems_cons (item : Value) (items : List Value) :
    writeItems (item :: items) = item.write ++ items.flatMap fun next => ',' :: next.write := by
  induction items generalizing item with
  | nil => simp [writeItems]
  | cons next items ih => simp [writeItems, ih next]

/-- The commas of a list end the numbers in front of them. -/
theorem endsNumber_flatMap {α : Type} (write : α → List Char) (items : List α) {rest : List Char}
    (h : EndsNumber rest) : EndsNumber ((items.flatMap fun next => ',' :: write next) ++ rest) := by
  cases items with
  | nil => exact h
  | cons next items => exact endsNumber_cons.mpr rfl

/-- The written form of a document starts with a character that is no space and closes no list. -/
theorem exists_write_eq_cons {depth : Nat} {value : Value} (h : Regular depth value) :
    ∃ c cs, value.write = c :: cs ∧ isSpace c = false ∧ c ≠ ']' := by
  cases h with
  | null => exact ⟨_, _, rfl, rfl, by decide⟩
  | boolean b => cases b <;> exact ⟨_, _, rfl, rfl, by decide⟩
  | @integer depth n h =>
      obtain ⟨c, digits, hdigits, rfl | hc⟩ := exists_toString_eq_cons n
      · exact ⟨_, digits, hdigits, rfl, by decide⟩
      · exact ⟨c, digits, hdigits, isSpace_of_isDigit hc, ne_of_isDigit hc rfl⟩
  | text s => exact ⟨_, _, rfl, rfl, by decide⟩
  | array h => exact ⟨_, _, rfl, rfl, by decide⟩
  | object horder h => exact ⟨_, _, rfl, rfl, by decide⟩

section

variable {α : Type} (item : List Char → Reading α) (fuel : Nat)

theorem readItems_close (first : Bool) (rest : List Char) :
    readItems item (fuel + 1) first (']' :: rest) = .ok ([], rest) := by
  rw [readItems]
  rfl

theorem readItems_first {c : Char} (hspace : isSpace c = false) (hclose : c ≠ ']')
    (rest : List Char) :
    readItems item (fuel + 1) true (c :: rest) =
      (item (c :: rest)).andThen fun x rest => (readItems item fuel false rest).map (x :: ·) := by
  rw [readItems, skipSpaces_cons hspace]
  simp only [if_neg hclose, if_true]

theorem readItems_next {c : Char} (hspace : isSpace c = false) (hclose : c ≠ ']')
    (rest : List Char) :
    readItems item (fuel + 1) false (',' :: c :: rest) =
      (item (c :: rest)).andThen fun x rest => (readItems item fuel false rest).map (x :: ·) := by
  have hcomma : (',' : Char) ≠ ']' := by decide
  rw [readItems, skipSpaces_cons rfl]
  simp only [if_neg hcomma, if_true, Bool.false_eq_true, if_false, skipSpaces_cons hspace,
    if_neg hclose]

end

/-- A list is read back if its items are: every item is followed by a comma or by the bracket. -/
theorem readItems_write {depth : Nat} {items : List Value}
    (hregular : ∀ item ∈ items, Regular depth item)
    (hitems : ∀ item ∈ items, ∀ rest, EndsNumber rest →
      readValue depth (item.write ++ rest) = .ok (item, rest))
    {fuel : Nat} (hfuel : items.length ≤ fuel) (rest : List Char) :
    readItems (readValue depth) (fuel + 1) true (writeItems items ++ ']' :: rest) =
        .ok (items, rest) ∧
      readItems (readValue depth) (fuel + 1) false
        ((items.flatMap fun next => ',' :: next.write) ++ ']' :: rest) = .ok (items, rest) := by
  induction items generalizing fuel with
  | nil => exact ⟨readItems_close _ fuel true rest, readItems_close _ fuel false rest⟩
  | cons item items ih =>
      obtain ⟨c, cs, hwrite, hspace, hclose⟩ :=
        exists_write_eq_cons (hregular item List.mem_cons_self)
      -- both readers come to the same: an item, and then the others behind their commas
      have hmore : (readValue depth (item.write ++
            ((items.flatMap fun next => ',' :: next.write) ++ ']' :: rest))).andThen
          (fun x rest => (readItems (readValue depth) fuel false rest).map (x :: ·)) =
            .ok (item :: items, rest) := by
        obtain ⟨fuel, rfl⟩ : ∃ n, fuel = n + 1 :=
          Nat.exists_eq_add_one_of_ne_zero (Nat.ne_of_gt (Nat.zero_lt_of_lt hfuel))
        have htail := (ih (fun other hother => hregular other (List.mem_cons_of_mem _ hother))
          (fun other hother => hitems other (List.mem_cons_of_mem _ hother))
          (Nat.le_of_succ_le_succ hfuel)).2
        have hends : EndsNumber ((items.flatMap fun next => ',' :: next.write) ++ ']' :: rest) :=
          endsNumber_flatMap Value.write items (endsNumber_cons.mpr rfl)
        rw [hitems item List.mem_cons_self _ hends, Reading.andThen_ok, htail]
        rfl
      constructor
      · rw [writeItems_cons, List.append_assoc, hwrite, List.cons_append,
          readItems_first _ _ hspace hclose, ← List.cons_append, ← hwrite, hmore]
      · rw [List.flatMap_cons, List.append_assoc, List.cons_append, hwrite, List.cons_append,
          readItems_next _ _ hspace hclose, ← List.cons_append, ← hwrite, hmore]

theorem length_le_flatMap {α : Type} (write : α → List Char) (items : List α) :
    items.length ≤ (items.flatMap fun next => ',' :: write next).length := by
  induction items with
  | nil => exact Nat.le_refl 0
  | cons item items ih =>
      simp only [List.flatMap_cons, List.length_append, List.length_cons] at ih ⊢
      omega

/-- There are characters enough for the items, so that the reader does not run out of fuel. -/
theorem length_le_writeItems (items : List Value) (rest : List Char) :
    items.length ≤ (writeItems items ++ ']' :: rest).length := by
  cases items with
  | nil => exact Nat.zero_le _
  | cons item items =>
      have hothers := length_le_flatMap Value.write items
      rw [writeItems_cons]
      simp only [List.length_append, List.length_cons]
      omega

/-! ## Objects -/

/-- A member of an object as it is written. -/
def writeMember (member : String × Value) : List Char :=
  literal member.1.toList ++ ':' :: member.2.write

theorem writeMembers_cons (member : String × Value) (members : List (String × Value)) :
    writeMembers (member :: members) =
      writeMember member ++ members.flatMap fun next => ',' :: writeMember next := by
  induction members generalizing member with
  | nil => simp [writeMembers, writeMember]
  | cons next members ih => simp [writeMembers, ih next, writeMember]

theorem readColon_cons (rest : List Char) : readColon (':' :: rest) = .ok ((), rest) := rfl

section

variable {α : Type} (value : List Char → Reading α) (fuel : Nat)

/-- A member behind its opening quote, and the members after it. -/
def readMore (rest : List Char) : Reading (List (String × α)) :=
  (readString rest).andThen fun name rest =>
    (readColon rest).andThen fun _ rest =>
      (value rest).andThen fun x rest =>
        (readMembers value fuel false rest).map ((String.ofList name, x) :: ·)

theorem readMembers_close (first : Bool) (rest : List Char) :
    readMembers value (fuel + 1) first ('\x7d' :: rest) = .ok ([], rest) := by
  rw [readMembers]
  rfl

theorem readMembers_first (rest : List Char) :
    readMembers value (fuel + 1) true ('"' :: rest) = readMore value fuel rest := by
  rw [readMembers]
  rfl

theorem readMembers_next (rest : List Char) :
    readMembers value (fuel + 1) false (',' :: '"' :: rest) = readMore value fuel rest := by
  rw [readMembers]
  rfl

end

/-- The members of an object are read back if their values are. -/
theorem readMembers_write {depth : Nat} {members : List (String × Value)}
    (hvalues : ∀ member ∈ members, ∀ rest, EndsNumber rest →
      readValue depth (member.2.write ++ rest) = .ok (member.2, rest))
    {fuel : Nat} (hfuel : members.length ≤ fuel) (rest : List Char) :
    readMembers (readValue depth) (fuel + 1) true (writeMembers members ++ '\x7d' :: rest) =
        .ok (members, rest) ∧
      readMembers (readValue depth) (fuel + 1) false
        ((members.flatMap fun next => ',' :: writeMember next) ++ '\x7d' :: rest) =
        .ok (members, rest) := by
  induction members generalizing fuel with
  | nil => exact ⟨readMembers_close _ fuel true rest, readMembers_close _ fuel false rest⟩
  | cons member members ih =>
      obtain ⟨fuel, rfl⟩ : ∃ n, fuel = n + 1 :=
        Nat.exists_eq_add_one_of_ne_zero (Nat.ne_of_gt (Nat.zero_lt_of_lt hfuel))
      let others := (members.flatMap fun next => ',' :: writeMember next) ++ '\x7d' :: rest
      have hends : EndsNumber others :=
        endsNumber_flatMap writeMember members (endsNumber_cons.mpr rfl)
      have htail := (ih (fun other hother => hvalues other (List.mem_cons_of_mem _ hother))
        (Nat.le_of_succ_le_succ hfuel)).2
      have hmore : readMore (readValue depth) (fuel + 1)
          (member.1.toList.flatMap escapeChar ++ '"' :: ':' :: (member.2.write ++ others)) =
            .ok (member :: members, rest) := by
        rw [readMore, readString_literal, Reading.andThen_ok, readColon_cons, Reading.andThen_ok,
          hvalues member List.mem_cons_self _ hends, Reading.andThen_ok, htail,
          String.ofList_toList]
        rfl
      have hmember : writeMember member ++ others = '"' :: (member.1.toList.flatMap escapeChar ++
          '"' :: ':' :: (member.2.write ++ others)) := by
        rw [writeMember, List.append_assoc, literal_append, List.cons_append]
      constructor
      · rw [writeMembers_cons, List.append_assoc, hmember, readMembers_first, hmore]
      · rw [List.flatMap_cons, List.append_assoc, List.cons_append, hmember, readMembers_next,
          hmore]

theorem length_le_writeMembers (members : List (String × Value)) (rest : List Char) :
    members.length ≤ (writeMembers members ++ '\x7d' :: rest).length := by
  cases members with
  | nil => exact Nat.zero_le _
  | cons member members =>
      have hothers := length_le_flatMap writeMember members
      rw [writeMembers_cons]
      simp only [List.length_append, List.length_cons]
      omega

/-! ## Documents -/

theorem write_array_append (items : List Value) (rest : List Char) :
    (Value.array items).write ++ rest = '[' :: (writeItems items ++ ']' :: rest) := by
  simp [Value.write]

theorem write_object_append (members : List (String × Value)) (rest : List Char) :
    (Value.object members).write ++ rest = '\x7b' :: (writeMembers members ++ '\x7d' :: rest) := by
  simp [Value.write]

/-- A list ends at its bracket, whatever follows. -/
theorem readValue_array {depth : Nat} {items : List Value}
    (hregular : ∀ item ∈ items, Regular depth item)
    (hitems : ∀ item ∈ items, ∀ rest, EndsNumber rest →
      readValue depth (item.write ++ rest) = .ok (item, rest)) (rest : List Char) :
    readValue (depth + 1) ((Value.array items).write ++ rest) = .ok (.array items, rest) := by
  have hread : readValue (depth + 1) ('[' :: (writeItems items ++ ']' :: rest)) =
      (readItems (readValue depth) ((writeItems items ++ ']' :: rest).length + 1) true
        (writeItems items ++ ']' :: rest)).map .array := rfl
  rw [write_array_append, hread,
    (readItems_write hregular hitems (length_le_writeItems items rest) rest).1]
  rfl

/-- An object ends at its brace, whatever follows. -/
theorem readValue_object {depth : Nat} {members : List (String × Value)}
    (horder : Dictionary.Ascending members)
    (hvalues : ∀ member ∈ members, ∀ rest, EndsNumber rest →
      readValue depth (member.2.write ++ rest) = .ok (member.2, rest)) (rest : List Char) :
    readValue (depth + 1) ((Value.object members).write ++ rest) = .ok (.object members, rest) := by
  have hread : readValue (depth + 1) ('\x7b' :: (writeMembers members ++ '\x7d' :: rest)) =
      (readMembers (readValue depth) ((writeMembers members ++ '\x7d' :: rest).length + 1) true
        (writeMembers members ++ '\x7d' :: rest)).map
          fun members => .object (Dictionary.ofList members) := rfl
  rw [write_object_append, hread,
    (readMembers_write hvalues (length_le_writeMembers members rest) rest).1]
  show Except.ok (Value.object (Dictionary.ofList members), rest) = _
  rw [horder.ofList_eq]

/-- **Written documents are read back.**  The text behind a document is left over, as long as it
does not go on with a number. -/
theorem readValue_write {depth : Nat} {value : Value} (h : Regular depth value) (rest : List Char)
    (hrest : EndsNumber rest) : readValue depth (value.write ++ rest) = .ok (value, rest) := by
  induction h generalizing rest with
  | null =>
      rw [readValue]
      exact readWord_append _ "ull".toList rest
  | boolean b =>
      rw [readValue]
      cases b with
      | false => exact readWord_append _ "alse".toList rest
      | true => exact readWord_append _ "rue".toList rest
  | integer h => exact readValue_integer h _ hrest
  | text s => exact readValue_literal _ s rest
  | array h ih => exact readValue_array h ih rest
  | object horder h ih => exact readValue_object horder ih rest

/-! ## Whole texts -/

/-- A text that writes a value down and ends by itself: it is accepted as a whole, and in front of
any other text the reader stops right behind it. -/
structure Encloses (text : List Char) (value : Value) : Prop where
  parse : parse (String.ofList text) = .ok value
  stops : ∀ rest, readValue maxDepth (text ++ rest) = .ok (value, rest)

theorem parse_ofList {text : List Char} {value : Value}
    (h : readValue maxDepth text = .ok (value, [])) : parse (String.ofList text) = .ok value := by
  rw [parse, readAll, String.toList_ofList, h]
  rfl

theorem parse_write {value : Value} (h : Regular maxDepth value) :
    parse (String.ofList value.write) = .ok value := by
  have hread := readValue_write h [] endsNumber_nil
  rw [List.append_nil] at hread
  exact parse_ofList hread

theorem encloses_of_stops {text : List Char} {value : Value}
    (h : ∀ rest, readValue maxDepth (text ++ rest) = .ok (value, rest)) : Encloses text value :=
  ⟨parse_ofList (by simpa using h []), h⟩

theorem encloses_literal (s : String) : Encloses (literal s.toList) (.text s) :=
  encloses_of_stops (readValue_literal maxDepth s)

/-- An object of texts. -/
theorem encloses_texts {entries : Dictionary String} (h : entries.Ascending) :
    Encloses (Value.object (entries.map fun entry => (entry.1, .text entry.2))).write
      (.object (entries.map fun entry => (entry.1, .text entry.2))) := by
  refine encloses_of_stops (readValue_object ?_ ?_)
  · exact List.pairwise_map.mpr h
  · intro member hmember rest _
    obtain ⟨entry, -, rfl⟩ := List.mem_map.mp hmember
    exact readValue_literal _ entry.2 rest

end Assets.Json
