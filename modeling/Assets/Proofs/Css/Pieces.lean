import Assets.Css.Scope

/-!
# The pieces of a sheet

A sheet is taken apart three times: at its braces into stretches, each stretch behind its last
semicolon, and what is left there into tokens.  Nothing is lost in any of these steps, and here it
is said what comes out of them.

* A sheet is a text without braces, or such a text, a brace and another sheet.  `sheet_induction`
  is induction along this, and `stretches_of_braceFree` and `stretches_append` compute the
  stretches of the two forms.
* `statements_append_selectorList` puts a text together again that has been cut behind its last
  semicolon, and `statements_append` says where it is cut.
* `flatMap_source_tokens`: a selector list is its tokens in a row; `of_tokens_eq_append`: a class
  name among them has the form of one and goes on as far as it can.
-/

namespace Assets.Css

/-! ## Stretches -/

abbrev IsBrace (c : Char) : Prop := c = '\x7b' ∨ c = '\x7d'

def BraceFree (text : List Char) : Prop := ∀ c ∈ text, ¬IsBrace c

theorem braceFree_append {text more : List Char} :
    BraceFree (text ++ more) ↔ BraceFree text ∧ BraceFree more := List.forall_mem_append

theorem stretches_of_braceFree {text : List Char} (h : BraceFree text) :
    stretches text = [⟨text, none⟩] := by
  induction text with
  | nil => rfl
  | cons c text ih =>
      obtain ⟨hc, htext⟩ := List.forall_mem_cons.mp h
      rw [stretches, if_neg hc, ih htext]

theorem stretches_append {text : List Char} {brace : Char} (h : BraceFree text)
    (hbrace : IsBrace brace) (rest : List Char) :
    stretches (text ++ brace :: rest) = ⟨text, some brace⟩ :: stretches rest := by
  induction text with
  | nil => rw [List.nil_append, stretches, if_pos hbrace]
  | cons c text ih =>
      obtain ⟨hc, htext⟩ := List.forall_mem_cons.mp h
      rw [List.cons_append, stretches, if_neg hc, ih htext]

/-- A sheet has a first brace, or none at all. -/
theorem braceFree_or_exists_brace (sheet : List Char) :
    BraceFree sheet ∨ ∃ text brace rest, BraceFree text ∧ IsBrace brace ∧
      sheet = text ++ brace :: rest := by
  induction sheet with
  | nil => exact .inl fun _ h => absurd h (by simp)
  | cons c sheet ih =>
      by_cases hc : IsBrace c
      · exact .inr ⟨[], c, sheet, fun _ h => absurd h (by simp), hc, rfl⟩
      rcases ih with hfree | ⟨text, brace, rest, htext, hbrace, rfl⟩
      · exact .inl (List.forall_mem_cons.mpr ⟨hc, hfree⟩)
      · exact .inr ⟨c :: text, brace, rest, List.forall_mem_cons.mpr ⟨hc, htext⟩, hbrace, rfl⟩

/-- Induction along the braces of a sheet. -/
@[elab_as_elim]
theorem sheet_induction {motive : List Char → Prop}
    (last : ∀ text, BraceFree text → motive text)
    (brace : ∀ text brace rest, BraceFree text → IsBrace brace → motive rest →
      motive (text ++ brace :: rest)) (sheet : List Char) : motive sheet := by
  induction hlength : sheet.length using Nat.strongRecOn generalizing sheet with
  | ind length ih =>
      rcases braceFree_or_exists_brace sheet with hfree | ⟨text, c, rest, htext, hc, rfl⟩
      · exact last sheet hfree
      · have hshorter : rest.length < length := by
          simp only [List.length_append, List.length_cons] at hlength
          omega
        exact brace text c rest htext hc (ih _ hshorter rest rfl)

/-! ## Statements and selector lists -/

theorem statements_append_selectorList (text : List Char) :
    statements text ++ selectorList text = text := by
  rw [statements, selectorList, ← List.reverse_append, List.takeWhile_append_dropWhile,
    List.reverse_reverse]

theorem semicolon_notMem_selectorList (text : List Char) : ';' ∉ selectorList text := by
  intro hmem
  have hne := List.all_eq_true.mp List.all_takeWhile ';' (List.mem_reverse.mp hmem)
  simp at hne

/-- Statements end in a semicolon, if there are any. -/
theorem getLast?_statements (text : List Char) : ∀ c ∈ (statements text).getLast?, c = ';' := by
  intro c hc
  rw [statements, List.getLast?_reverse] at hc
  have hnot := List.head?_dropWhile_not (· ≠ ';') text.reverse
  rw [Option.mem_def.mp hc] at hnot
  simpa using hnot

theorem statements_append {front list : List Char} (hfront : ∀ c ∈ front.getLast?, c = ';')
    (hlist : ';' ∉ list) : statements (front ++ list) = front := by
  have hskip : ∀ c ∈ list.reverse, decide (c ≠ ';') = true := by
    intro c hc
    simpa using fun heq : c = ';' => hlist (heq ▸ List.mem_reverse.mp hc)
  rw [statements, List.reverse_append, List.dropWhile_append_of_pos hskip]
  cases hreverse : front.reverse with
  | nil => simp [List.reverse_eq_nil_iff.mp hreverse]
  | cons c more =>
      have hc : c = ';' := hfront c (by rw [List.getLast?_eq_head?_reverse, hreverse]; rfl)
      rw [List.dropWhile_cons_of_neg (by simp [hc]), ← hreverse, List.reverse_reverse]

/-! ## Tokens -/

/-- One hyphen or none, a letter or an underscore, and then letters, digits, underscores and
hyphens. -/
def IsClassName (name : List Char) : Prop :=
  ∃ hyphen start more, name = hyphen ++ start :: more ∧ (hyphen = [] ∨ hyphen = ['-']) ∧
    isNameStart start = true ∧ ∀ c ∈ more, isNameChar c = true

theorem forall_mem_head?_append {p : Char → Prop} {left rest : List Char}
    (hleft : ∀ c ∈ left.head?, p c) (hrest : ∀ c ∈ rest.head?, p c) :
    ∀ c ∈ (left ++ rest).head?, p c := by
  cases left with
  | nil => exact hrest
  | cons c left => exact hleft

/-- A text does not go on with a character of class names. -/
def EndsName (left : List Char) : Prop := ∀ c ∈ left.head?, isNameChar c = false

theorem endsName_dropWhile (cs : List Char) : EndsName (cs.dropWhile isNameChar) := by
  intro c hc
  have hnot := List.head?_dropWhile_not isNameChar cs
  rw [Option.mem_def.mp hc] at hnot
  simpa using hnot

theorem isNameChar_of_mem_takeWhile {cs : List Char} :
    ∀ c ∈ cs.takeWhile isNameChar, isNameChar c = true :=
  List.all_eq_true.mp List.all_takeWhile

theorem isNameChar_of_isNameStart {c : Char} (h : isNameStart c = true) : isNameChar c = true := by
  rw [isNameStart, Bool.or_eq_true] at h
  rw [isNameChar, Bool.or_eq_true, Bool.or_eq_true, Char.isAlphanum, Bool.or_eq_true]
  exact .inl (h.imp_left .inl)

theorem forall_isNameChar_hyphen {hyphen : List Char} (h : hyphen = [] ∨ hyphen = ['-']) :
    ∀ c ∈ hyphen, isNameChar c = true := by
  rcases h with rfl | rfl <;> simp [isNameChar]

theorem IsClassName.forall_isNameChar {name : List Char} (h : IsClassName name) :
    ∀ c ∈ name, isNameChar c = true := by
  obtain ⟨hyphen, start, more, rfl, hhyphen, hstart, hmore⟩ := h
  intro c hc
  rcases List.mem_append.mp hc with hc | hc
  · exact forall_isNameChar_hyphen hhyphen c hc
  · rcases List.mem_cons.mp hc with rfl | hc
    · exact isNameChar_of_isNameStart hstart
    · exact hmore c hc

theorem EndsName.append {left rest : List Char} (hleft : EndsName left) (hrest : EndsName rest) :
    EndsName (left ++ rest) := forall_mem_head?_append hleft hrest

theorem EndsName.append_brace {left : List Char} (h : EndsName left) (rest : List Char) :
    EndsName (left ++ '\x7b' :: rest) :=
  h.append fun c hc => by cases hc; rfl

/-- A name and what is behind it can be told apart. -/
theorem eq_of_append_eq {name name' text text' : List Char}
    (hname : ∀ c ∈ name, isNameChar c = true) (hends : EndsName text)
    (hname' : ∀ c ∈ name', isNameChar c = true) (hends' : EndsName text')
    (h : name ++ text = name' ++ text') : name = name' ∧ text = text' := by
  induction name generalizing name' with
  | nil =>
      cases name' with
      | nil => exact ⟨rfl, h⟩
      | cons c name' =>
          have hc := hends c (by rw [List.nil_append] at h; rw [h]; rfl)
          exact absurd (hname' c List.mem_cons_self) (by rw [hc]; decide)
  | cons c name ih =>
      cases name' with
      | nil =>
          have hc := hends' c (by rw [List.nil_append] at h; rw [← h]; rfl)
          exact absurd (hname c List.mem_cons_self) (by rw [hc]; decide)
      | cons d name' =>
          obtain ⟨rfl, hrest⟩ := List.cons.inj h
          obtain ⟨rfl, htext⟩ := ih (List.forall_mem_cons.mp hname).2
            (List.forall_mem_cons.mp hname').2 hrest
          exact ⟨rfl, htext⟩

theorem of_readName?_eq_some {cs name left : List Char} (h : readName? cs = some (name, left)) :
    name ++ left = cs ∧ IsClassName name ∧ EndsName left := by
  unfold readName? at h
  split at h
  · cases h
  · rename_i c rest
    split at h
    · rename_i hhyphen
      subst hhyphen
      split at h
      · rename_i start tail
        split at h
        · rename_i hstart
          cases h
          refine ⟨?_, ⟨['-'], start, tail.takeWhile isNameChar, rfl, .inr rfl, hstart,
            isNameChar_of_mem_takeWhile⟩, endsName_dropWhile tail⟩
          simp
        · cases h
      · cases h
    · split at h
      · rename_i hstart
        cases h
        refine ⟨?_, ⟨[], c, rest.takeWhile isNameChar, rfl, .inl rfl, hstart,
          isNameChar_of_mem_takeWhile⟩, endsName_dropWhile rest⟩
        simp
      · cases h

theorem closeString?_append {quote : Char} {cs body left : List Char}
    (h : closeString? quote cs = some (body, left)) : body ++ left = cs := by
  fun_induction closeString? quote cs generalizing body left with
  | case1 => cases h
  | case2 => cases h; rfl
  | case3 => cases h
  | case4 => cases h
  | case5 _ _ _ _ ih =>
      simp only [Option.map_eq_some_iff, Prod.mk.injEq] at h
      obtain ⟨⟨more, rest⟩, hclose, rfl, rfl⟩ := h
      simp [ih hclose]
  | case6 _ _ _ _ ih =>
      simp only [Option.map_eq_some_iff, Prod.mk.injEq] at h
      obtain ⟨⟨more, rest⟩, hclose, rfl, rfl⟩ := h
      simp [ih hclose]

theorem closeUrl?_append {cs body left : List Char} (h : closeUrl? cs = some (body, left)) :
    body ++ left = cs := by
  have hspan := List.takeWhile_append_dropWhile (p := (· ≠ ')')) (l := cs)
  unfold closeUrl? at h
  split at h
  · cases h
  · rename_i c rest hdrop
    cases h
    rw [hdrop] at hspan
    simpa using hspan

/-- A token is read off the front of a text. -/
theorem readToken?_append {cs left : List Char} {token : Token}
    (h : readToken? cs = some (token, left)) : token.source ++ left = cs := by
  unfold readToken? at h
  split at h
  case h_5 => cases h
  all_goals
    simp only [Option.map_eq_some_iff, Prod.mk.injEq] at h
    obtain ⟨⟨body, rest⟩, hread, rfl, rfl⟩ := h
  · simp [Token.source, closeString?_append hread]
  · simp [Token.source, closeString?_append hread]
  · simp [Token.source, closeUrl?_append hread]
  · simp [Token.source, (of_readName?_eq_some hread).1]

theorem of_readToken?_className {cs name left : List Char}
    (h : readToken? cs = some (.className name, left)) : IsClassName name ∧ EndsName left := by
  unfold readToken? at h
  split at h
  case h_5 => cases h
  all_goals
    simp only [Option.map_eq_some_iff, Prod.mk.injEq] at h
    obtain ⟨⟨body, rest⟩, hread, htoken, rfl⟩ := h
  case h_4 =>
    cases htoken
    exact (of_readName?_eq_some hread).2
  all_goals cases htoken

/-- Nothing of a selector list is lost between its tokens. -/
theorem flatMap_source_tokens (cs : List Char) : (tokens cs).flatMap Token.source = cs := by
  fun_induction tokens cs with
  | case1 => rfl
  | case2 c rest token left hread ih => rw [List.flatMap_cons, ih, readToken?_append hread]
  | case3 c rest _ ih =>
      rw [List.flatMap_cons, ih]
      rfl

/-- A class name among the tokens of a selector list. -/
theorem of_tokens_eq_append {cs name : List Char} {front back : List Token}
    (h : tokens cs = front ++ .className name :: back) :
    IsClassName name ∧ EndsName (back.flatMap Token.source) := by
  fun_induction tokens cs generalizing front with
  | case1 => simp at h
  | case2 c rest token left hread ih =>
      cases front with
      | nil =>
          obtain ⟨rfl, rfl⟩ := List.cons.inj h
          rw [flatMap_source_tokens]
          exact of_readToken?_className hread
      | cons first front => exact ih (List.cons.inj h).2
  | case3 c rest _ ih =>
      cases front with
      | nil => cases (List.cons.inj h).1
      | cons first front => exact ih (List.cons.inj h).2

end Assets.Css
