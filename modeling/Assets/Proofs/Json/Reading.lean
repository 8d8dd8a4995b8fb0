import Assets.Proofs.Json.Lexemes

/-!
# What the reader accepts

For each part of the reader one lemma says what was in front of it if it succeeded: the characters
that it took and the readings that it was put together from.  Proofs about accepted texts use only
these (`readItems_eq_ok`, `readMembers_eq_ok`, `readValue_eq_ok`).

* `readsRegular`: a text whose numbers are integers within 64 bits gives a regular document, of any
  depth.  The numbers are those of `lexemes`, which passes over strings; so it has to be known all
  the way that the reader and `lexemes` are at the same place.
* `regular_of_parse`: the same for whole texts.
-/

namespace Assets.Json

/-! ## Parts of the reader -/

theorem readWord_eq_ok {α : Type} {value x : α} {word cs rest : List Char}
    (h : readWord value word cs = .ok (x, rest)) : x = value ∧ cs = word ++ rest := by
  induction word generalizing cs with
  | nil =>
      obtain ⟨rfl, rfl⟩ := Prod.mk.inj (Except.ok.inj h)
      exact ⟨rfl, rfl⟩
  | cons w word ih =>
      cases cs with
      | nil => cases h
      | cons c cs =>
          rw [readWord] at h
          split at h
          · rename_i hw
            obtain ⟨rfl, rfl⟩ := ih h
            exact ⟨rfl, hw ▸ rfl⟩
          · cases h

/-- A list is closed, or an item comes first: at once in front of the first item, behind a comma in
front of every other. -/
theorem readItems_eq_ok {α : Type} {item : List Char → Reading α} {fuel : Nat} {first : Bool}
    {cs rest : List Char} {items : List α}
    (h : readItems item (fuel + 1) first cs = .ok (items, rest)) :
    (items = [] ∧ skipSpaces cs = ']' :: rest) ∨
      ∃ x others front back, items = x :: others ∧
        (skipSpaces cs = front ∨ ∃ after, skipSpaces cs = ',' :: after ∧ front = skipSpaces after) ∧
        item front = .ok (x, back) ∧ readItems item fuel false back = .ok (others, rest) := by
  have hnext : ∀ front, (item front).andThen
      (fun x rest => (readItems item fuel false rest).map (x :: ·)) = .ok (items, rest) →
        ∃ x others back, items = x :: others ∧ item front = .ok (x, back) ∧
          readItems item fuel false back = .ok (others, rest) := by
    intro front hfront
    obtain ⟨x, back, hx, hfront⟩ := Reading.andThen_eq_ok hfront
    obtain ⟨others, left, hothers, hend⟩ := Reading.andThen_eq_ok hfront
    obtain ⟨rfl, rfl⟩ := Prod.mk.inj (Except.ok.inj hend)
    exact ⟨x, others, back, rfl, hx, hothers⟩
  rw [readItems] at h
  dsimp only at h
  split at h
  · cases h
  · rename_i c after hskip
    split at h
    · rename_i hclose
      obtain ⟨rfl, rfl⟩ := Prod.mk.inj (Except.ok.inj h)
      exact .inl ⟨rfl, hclose ▸ hskip⟩
    split at h
    · obtain ⟨x, others, back, hitems, hx, hothers⟩ := hnext _ h
      exact .inr ⟨x, others, _, back, hitems, .inl hskip, hx, hothers⟩
    split at h
    · rename_i hcomma
      split at h
      · cases h
      · rename_i d more hmore
        split at h
        · cases h
        · obtain ⟨x, others, back, hitems, hx, hothers⟩ := hnext _ h
          exact .inr ⟨x, others, _, back, hitems, .inr ⟨after, hcomma ▸ hskip, hmore.symm⟩, hx,
            hothers⟩
    · cases h

theorem readColon_eq_ok {cs rest : List Char} (h : readColon cs = .ok ((), rest)) :
    skipSpaces cs = ':' :: rest := by
  unfold readColon at h
  split at h
  · cases h
  · rename_i c after hskip
    split at h
    · rename_i hcolon
      obtain ⟨-, rfl⟩ := Prod.mk.inj (Except.ok.inj h)
      exact hcolon ▸ hskip
    · cases h

/-- An object is closed, or a member comes first: a name, a colon and a value. -/
theorem readMembers_eq_ok {α : Type} {value : List Char → Reading α} {fuel : Nat} {first : Bool}
    {cs rest : List Char} {members : List (String × α)}
    (h : readMembers value (fuel + 1) first cs = .ok (members, rest)) :
    (members = [] ∧ skipSpaces cs = '\x7d' :: rest) ∨
      ∃ name x others front colon after back, members = (String.ofList name, x) :: others ∧
        (skipSpaces cs = '"' :: front ∨
          ∃ tail, skipSpaces cs = ',' :: tail ∧ '"' :: front = skipSpaces tail) ∧
        readString front = .ok (name, colon) ∧ skipSpaces colon = ':' :: after ∧
        value after = .ok (x, back) ∧ readMembers value fuel false back = .ok (others, rest) := by
  have hmore : ∀ front, readMore value fuel front = .ok (members, rest) →
      ∃ name x others colon after back, members = (String.ofList name, x) :: others ∧
        readString front = .ok (name, colon) ∧ skipSpaces colon = ':' :: after ∧
        value after = .ok (x, back) ∧ readMembers value fuel false back = .ok (others, rest) := by
    intro front hfront
    obtain ⟨name, colon, hname, hfront⟩ := Reading.andThen_eq_ok hfront
    obtain ⟨u, after, hcolon, hfront⟩ := Reading.andThen_eq_ok hfront
    obtain ⟨x, back, hx, hfront⟩ := Reading.andThen_eq_ok hfront
    obtain ⟨others, left, hothers, hend⟩ := Reading.andThen_eq_ok hfront
    obtain ⟨rfl, rfl⟩ := Prod.mk.inj (Except.ok.inj hend)
    exact ⟨name, x, others, colon, after, back, rfl, hname, readColon_eq_ok hcolon, hx, hothers⟩
  rw [readMembers] at h
  dsimp only at h
  split at h
  · cases h
  · rename_i c after hskip
    split at h
    · rename_i hclose
      obtain ⟨rfl, rfl⟩ := Prod.mk.inj (Except.ok.inj h)
      exact .inl ⟨rfl, hclose ▸ hskip⟩
    split at h
    · split at h
      · rename_i front hfront
        obtain ⟨name, x, others, colon, after, back, hmembers, hrest⟩ := hmore front h
        exact .inr ⟨name, x, others, front, colon, after, back, hmembers,
          .inl (hfront ▸ hskip), hrest⟩
      · cases h
    split at h
    · rename_i hcomma
      split at h
      · cases h
      · rename_i d more htail
        split at h
        · cases h
        split at h
        · rename_i front hfront
          obtain ⟨name, x, others, colon, after, back, hmembers, hrest⟩ := hmore front h
          exact .inr ⟨name, x, others, front, colon, after, back, hmembers,
            .inr ⟨_, hcomma ▸ hskip, hfront ▸ htail.symm⟩, hrest⟩
        · cases h
    · cases h

/-- The spaces in front of a document do not count. -/
theorem readValue_of_skipSpaces {depth : Nat} {c : Char} {cs after : List Char}
    (h : skipSpaces cs = c :: after) : readValue depth cs = readValue depth (c :: after) := by
  have hspace : isSpace c = false := by
    have hnot := List.head?_dropWhile_not isSpace cs
    rw [← skipSpaces, h] at hnot
    exact hnot
  rw [readValue, readValue, h, skipSpaces_cons hspace]

/-- What a document can be, by its first character. -/
theorem readValue_eq_ok {depth : Nat} {cs rest : List Char} {value : Value}
    (h : readValue depth cs = .ok (value, rest)) :
    ∃ c after, skipSpaces cs = c :: after ∧
      ((∃ word, IsWord word value ∧ c :: after = word ++ rest) ∨
        (c = '"' ∧ ∃ s, readString after = .ok (s, rest) ∧ value = .text (String.ofList s)) ∨
        (c = '-' ∨ isDigit c = true) ∨
        (c = '[' ∧ ∃ below fuel items, depth = below + 1 ∧ value = .array items ∧
          readItems (readValue below) fuel true after = .ok (items, rest)) ∨
        (c = '\x7b' ∧ ∃ below fuel members, depth = below + 1 ∧
          value = .object (Dictionary.ofList members) ∧
          readMembers (readValue below) fuel true after = .ok (members, rest))) := by
  rw [readValue.eq_def] at h
  dsimp only at h
  split at h
  · cases h
  · rename_i c after hskip
    refine ⟨c, after, hskip, ?_⟩
    have hword : ∀ {front : Char} {word : List Char} {x : Value}, IsWord (front :: word) x →
        c = front → readWord x word after = .ok (value, rest) →
        ∃ word, IsWord word value ∧ c :: after = word ++ rest := by
      rintro front word x hx rfl hread
      obtain ⟨rfl, rfl⟩ := readWord_eq_ok hread
      exact ⟨_, hx, rfl⟩
    split at h
    · exact .inl (hword .null ‹_› h)
    split at h
    · exact .inl (hword .yes ‹_› h)
    split at h
    · exact .inl (hword .no ‹_› h)
    split at h
    · obtain ⟨s, left, hs, hend⟩ := Reading.andThen_eq_ok h
      obtain ⟨rfl, rfl⟩ := Prod.mk.inj (Except.ok.inj hend)
      exact .inr (.inl ⟨‹_›, s, hs, rfl⟩)
    split at h
    · exact .inr (.inr (.inl (.inl ‹_›)))
    split at h
    · exact .inr (.inr (.inl (.inr ‹_›)))
    split at h
    · split at h
      · cases h
      · obtain ⟨items, left, hitems, hend⟩ := Reading.andThen_eq_ok h
        obtain ⟨rfl, rfl⟩ := Prod.mk.inj (Except.ok.inj hend)
        exact .inr (.inr (.inr (.inl ⟨‹_›, _, _, items, rfl, rfl, hitems⟩)))
    split at h
    · split at h
      · cases h
      · obtain ⟨members, left, hmembers, hend⟩ := Reading.andThen_eq_ok h
        obtain ⟨rfl, rfl⟩ := Prod.mk.inj (Except.ok.inj hend)
        exact .inr (.inr (.inr (.inr ⟨‹_›, _, _, members, rfl, rfl, hmembers⟩)))
    · cases h

/-! ## Documents of integers -/

/-- A text whose numbers are integers gives a regular document. -/
def ReadsRegular (depth : Nat) : Prop :=
  ∀ cs value rest, readValue depth cs = .ok (value, rest) → IntegersOnly cs →
    Regular depth value ∧ IntegersOnly rest

theorem ReadsRegular.items {depth : Nat} (hdepth : ReadsRegular depth) {fuel : Nat} {first : Bool}
    {cs rest : List Char} {items : List Value}
    (h : readItems (readValue depth) fuel first cs = .ok (items, rest)) (hcs : IntegersOnly cs) :
    (∀ item ∈ items, Regular depth item) ∧ IntegersOnly rest := by
  induction fuel generalizing first cs items with
  | zero => cases h
  | succ fuel ih =>
      rw [← integersOnly_skipSpaces] at hcs
      obtain ⟨rfl, hskip⟩ | ⟨x, others, front, back, rfl, hskip, hx, hothers⟩ := readItems_eq_ok h
      · rw [hskip, integersOnly_mark (by decide)] at hcs
        exact ⟨by simp, hcs⟩
      · have hfront : IntegersOnly front := by
          obtain rfl | ⟨after, hcomma, rfl⟩ := hskip
          · exact hcs
          · rw [hcomma, integersOnly_mark (by decide)] at hcs
            exact integersOnly_skipSpaces.mpr hcs
        obtain ⟨hregular, hback⟩ := hdepth _ _ _ hx hfront
        obtain ⟨hitems, hrest⟩ := ih hothers hback
        exact ⟨List.forall_mem_cons.mpr ⟨hregular, hitems⟩, hrest⟩

theorem ReadsRegular.members {depth : Nat} (hdepth : ReadsRegular depth) {fuel : Nat}
    {first : Bool} {cs rest : List Char} {members : List (String × Value)}
    (h : readMembers (readValue depth) fuel first cs = .ok (members, rest))
    (hcs : IntegersOnly cs) :
    (∀ member ∈ members, Regular depth member.2) ∧ IntegersOnly rest := by
  induction fuel generalizing first cs members with
  | zero => cases h
  | succ fuel ih =>
      rw [← integersOnly_skipSpaces] at hcs
      obtain ⟨rfl, hskip⟩ | ⟨name, x, others, front, colon, after, back, rfl, hskip, hname, hcolon,
        hx, hothers⟩ := readMembers_eq_ok h
      · rw [hskip, integersOnly_mark (by decide)] at hcs
        exact ⟨by simp, hcs⟩
      · have hquote : IntegersOnly ('"' :: front) := by
          obtain hskip | ⟨tail, hcomma, hquote⟩ := hskip
          · exact hskip ▸ hcs
          · rw [hcomma, integersOnly_mark (by decide)] at hcs
            exact hquote ▸ integersOnly_skipSpaces.mpr hcs
        -- behind the name there is the colon, and behind the colon the value
        rw [integersOnly_quote, afterQuote_of_readString hname, ← integersOnly_skipSpaces, hcolon,
          integersOnly_mark (by decide)] at hquote
        obtain ⟨hregular, hback⟩ := hdepth _ _ _ hx hquote
        obtain ⟨hmembers, hrest⟩ := ih hothers hback
        exact ⟨List.forall_mem_cons.mpr ⟨hregular, hmembers⟩, hrest⟩

theorem readsRegular (depth : Nat) : ReadsRegular depth := by
  induction depth using Nat.strongRecOn with
  | ind depth ih =>
      intro cs value rest h hcs
      rw [← integersOnly_skipSpaces] at hcs
      obtain ⟨c, after, hskip, hcases⟩ := readValue_eq_ok h
      rw [hskip] at hcs
      rcases hcases with ⟨word, hword, htext⟩ | ⟨rfl, s, hs, rfl⟩ | hnumber |
        ⟨rfl, below, fuel, items, rfl, rfl, hitems⟩ |
        ⟨rfl, below, fuel, members, rfl, rfl, hmembers⟩
      · rw [htext, integersOnly_append fun c hc => (hword.isMark c hc).1] at hcs
        cases hword with
        | null => exact ⟨.null, hcs⟩
        | yes => exact ⟨.boolean true, hcs⟩
        | no => exact ⟨.boolean false, hcs⟩
      · rw [integersOnly_quote, afterQuote_of_readString hs] at hcs
        exact ⟨.text _, hcs⟩
      · -- the text starts with an integer, and so the reader gives that integer
        obtain ⟨⟨n, hn, hdigits⟩, hback⟩ := (integersOnly_number hnumber).mp hcs
        have htext : c :: after = (toString n).toList ++ after.dropWhile isNumeric := by
          rw [← hdigits, List.cons_append, List.takeWhile_append_dropWhile]
        rw [readValue_of_skipSpaces hskip, htext,
          readValue_integer hn depth (endsNumber_dropWhile after)] at h
        obtain ⟨rfl, rfl⟩ := Prod.mk.inj (Except.ok.inj h)
        exact ⟨.integer hn, hback⟩
      · rw [integersOnly_mark (by decide)] at hcs
        obtain ⟨hregular, hrest⟩ := (ih below (Nat.lt_succ_self below)).items hitems hcs
        exact ⟨.array hregular, hrest⟩
      · rw [integersOnly_mark (by decide)] at hcs
        obtain ⟨hregular, hrest⟩ := (ih below (Nat.lt_succ_self below)).members hmembers hcs
        refine ⟨.object (Dictionary.ascending_ofList members) fun member hmember => ?_, hrest⟩
        exact hregular member (Dictionary.mem_of_mem_ofList hmember)

/-- Accepted texts whose numbers are integers. -/
theorem regular_of_parse {text : String} {document : Value} (h : parse text = .ok document)
    (htext : IntegersOnly text.toList) : Regular maxDepth document := by
  unfold parse readAll at h
  split at h
  · rename_i x rest hread
    obtain ⟨value, back, hvalue, hend⟩ := Reading.andThen_eq_ok hread
    obtain rfl := Except.ok.inj h
    have hfinish : value = x := by
      unfold finish at hend
      split at hend
      · exact (Prod.mk.inj (Except.ok.inj hend)).1
      · cases hend
    exact hfinish ▸ (readsRegular maxDepth _ _ _ hvalue htext).1
  · cases h

end Assets.Json
