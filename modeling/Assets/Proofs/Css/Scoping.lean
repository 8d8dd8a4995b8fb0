import Mathlib.Data.List.Forall2
import Assets.Proofs.Css.Pieces

/-!
# What scoping changes

A scoped sheet is the sheet with the suffix inserted at some places and nothing else changed.
`Inserts` says this of two texts, and of a place only what is on both sides of it, so that nothing
of the way in which a sheet is cut goes into the statement.  `IsSite` describes the places:

```text
outer          front            list ++ .name  |  tail        {   rest
up to a brace  up to a semicolon                no semicolon
               a stretch without braces, whose last part is no at-rule
```

* `inserts_scopeSheet`: scoping inserts at sites only.  It goes along the braces of the sheet, and
  in a selector list along its tokens (`inserts_tokens`).
* `kept_scopeSheet`: since a suffix holds neither braces nor semicolons, the scoped sheet falls
  apart at the same places, and what is no selector list is the same as before.
* `length_scopeSheet`: it inserts as often as the sheet has class names.
* `scope_inserts` puts the three together.
-/

namespace Assets.Css

variable {mark suffix : List Char}

/-! ## Insertions -/

/-- A text with a mark behind some of its characters.  `before` is what comes ahead of the text,
and all places of the marks are sites. -/
inductive Inserts (mark : List Char) (Site : (before after : List Char) → Prop) :
    (before text result : List Char) → Prop where
  | done {before} : Inserts mark Site before [] []
  | keep {before c text result} (hrest : Inserts mark Site (before ++ [c]) text result) :
      Inserts mark Site before (c :: text) (c :: result)
  | insert {before c text result} (hsite : Site (before ++ [c]) text)
      (hrest : Inserts mark Site (before ++ [c]) text result) :
      Inserts mark Site before (c :: text) (c :: mark ++ result)

namespace Inserts

variable {Site Site' : List Char → List Char → Prop} {before text result : List Char}

theorem same (before text : List Char) : Inserts mark Site before text text := by
  induction text generalizing before with
  | nil => exact .done
  | cons c text ih => exact .keep (ih _)

theorem append (front : List Char) (h : Inserts mark Site (before ++ front) text result) :
    Inserts mark Site before (front ++ text) (front ++ result) := by
  induction front generalizing before with
  | nil => simpa using h
  | cons c front ih => exact .keep (ih (by simpa using h))

/-- A mark behind a text that is not empty. -/
theorem append_mark {c : Char} {front : List Char} (hsite : Site (before ++ c :: front) text)
    (h : Inserts mark Site (before ++ c :: front) text result) :
    Inserts mark Site before (c :: front ++ text) (c :: front ++ mark ++ result) := by
  induction front generalizing before c with
  | nil => exact .insert hsite h
  | cons d front ih => exact .keep (ih (by simpa using hsite) (by simpa using h))

/-- More text ahead of everything. -/
theorem behind {front : List Char} (hsite : ∀ b a, Site b a → Site' (front ++ b) a)
    (h : Inserts mark Site before text result) :
    Inserts mark Site' (front ++ before) text result := by
  induction h with
  | done => exact .done
  | keep _ ih => exact .keep (by simpa using ih)
  | insert h _ ih => exact .insert (by simpa using hsite _ _ h) (by simpa using ih)

end Inserts

/-- A place directly behind a class name, in the part behind the last semicolon of a stretch that
is directly followed by an opening brace; that part does not start with an at sign behind blanks. -/
inductive IsSite : (before after : List Char) → Prop where
  | mk {outer front list name tail rest : List Char}
      (houter : ∀ c ∈ outer.getLast?, IsBrace c)
      (hstretch : BraceFree (front ++ (list ++ '.' :: name ++ tail)))
      (hfront : ∀ c ∈ front.getLast?, c = ';')
      (hlist : ';' ∉ list ++ '.' :: name ++ tail)
      (hrule : (Text.dropBlanks (list ++ '.' :: name ++ tail)).head? ≠ some '@')
      (hname : IsClassName name) (htail : EndsName (tail ++ '\x7b' :: rest)) :
      IsSite (outer ++ front ++ list ++ '.' :: name) (tail ++ '\x7b' :: rest)

/-- A site is one also with another stretch ahead of the sheet. -/
theorem IsSite.behind (text : List Char) {brace : Char} (hbrace : IsBrace brace)
    {before after : List Char} (h : IsSite before after) :
    IsSite (text ++ [brace] ++ before) after := by
  obtain @⟨outer, front, list, name, tail, rest, houter, hstretch, hfront, hlist, hrule, hname,
    htail⟩ := h
  have houter' : ∀ c ∈ (text ++ [brace] ++ outer).getLast?, IsBrace c := by
    intro c hc
    rw [List.getLast?_append] at hc
    cases hlast : outer.getLast? with
    | none =>
        rw [hlast, Option.none_or, List.getLast?_concat] at hc
        cases hc
        exact hbrace
    | some last =>
        rw [hlast, Option.some_or] at hc
        exact houter c (hlast.trans hc)
  have hsite : IsSite _ (tail ++ '\x7b' :: rest) :=
    .mk houter' hstretch hfront hlist hrule hname htail
  simpa using hsite

/-! ## Stretches -/

namespace Stretch

/-- A stretch that opens a block behind a selector list. -/
abbrev OpensRule (stretch : Stretch) : Prop :=
  stretch.brace = some '\x7b' ∧ (Text.dropBlanks (selectorList stretch.text)).head? ≠ some '@'

variable {stretch : Stretch}

theorem withSuffix_of_opensRule (h : stretch.OpensRule) (suffix : List Char) :
    stretch.withSuffix suffix = statements stretch.text ++
      (tokens (selectorList stretch.text)).flatMap (Token.withSuffix suffix) ++
        stretch.brace.toList := by
  rw [withSuffix, selectorTokens, if_pos h, if_pos h]

theorem withSuffix_of_not_opensRule (h : ¬stretch.OpensRule) (suffix : List Char) :
    stretch.withSuffix suffix = stretch.text ++ stretch.brace.toList := by
  rw [withSuffix, if_neg h]

end Stretch

theorem scopeSheet_of_braceFree {text : List Char} (h : BraceFree text) (suffix : List Char) :
    scopeSheet suffix text = text := by
  have hnot : ¬(Stretch.mk text none).OpensRule := fun hopens => by cases hopens.1
  simp [scopeSheet, stretches_of_braceFree h, Stretch.withSuffix_of_not_opensRule hnot]

theorem scopeSheet_append {text : List Char} {brace : Char} (h : BraceFree text)
    (hbrace : IsBrace brace) (rest suffix : List Char) :
    scopeSheet suffix (text ++ brace :: rest) =
      Stretch.withSuffix suffix ⟨text, some brace⟩ ++ scopeSheet suffix rest := by
  rw [scopeSheet, stretches_append h hbrace, List.flatMap_cons]
  rfl

/-! ## Scoping inserts -/

/-- The suffixes of tokens are inserted behind the class names among them. -/
theorem inserts_tokens {Site : List Char → List Char → Prop} {list : List Token}
    {before text result : List Char}
    (hsites : ∀ front name back, list = front ++ .className name :: back →
      Site (before ++ front.flatMap Token.source ++ '.' :: name)
        (back.flatMap Token.source ++ text))
    (h : Inserts ('_' :: suffix) Site (before ++ list.flatMap Token.source) text result) :
    Inserts ('_' :: suffix) Site before (list.flatMap Token.source ++ text)
      (list.flatMap (Token.withSuffix suffix) ++ result) := by
  induction list generalizing before with
  | nil => simpa using h
  | cons token list ih =>
      have hrest := @ih (before ++ token.source) (fun front name back heq => by
        simpa using hsites (token :: front) name back (by rw [heq]; rfl)) (by simpa using h)
      rw [List.flatMap_cons, List.flatMap_cons, List.append_assoc, List.append_assoc]
      cases token with
      | className name =>
          have hsite := hsites [] name list rfl
          rw [List.flatMap_nil, List.append_nil] at hsite
          simpa [Token.source, Token.withSuffix] using hrest.append_mark hsite
      | other other => exact hrest.append _

/-- A place behind a class token of a stretch that opens a rule is a site. -/
theorem isSite_of_tokens_eq_append {text name : List Char} {front back : List Token}
    (htext : BraceFree text) (hrule : (Text.dropBlanks (selectorList text)).head? ≠ some '@')
    (htokens : tokens (selectorList text) = front ++ .className name :: back)
    (rest : List Char) :
    IsSite ([] ++ statements text ++ front.flatMap Token.source ++ '.' :: name)
      (back.flatMap Token.source ++ '\x7b' :: rest) := by
  obtain ⟨hname, hends⟩ := of_tokens_eq_append htokens
  have hsource : front.flatMap Token.source ++ '.' :: name ++ back.flatMap Token.source =
      selectorList text := by
    rw [← flatMap_source_tokens (selectorList text), htokens]
    simp [Token.source]
  refine .mk (by simp) ?_ (getLast?_statements text) ?_ (by rwa [hsource]) hname ?_
  · rwa [hsource, statements_append_selectorList]
  · rw [hsource]
    exact semicolon_notMem_selectorList text
  · -- behind the last token stands the brace, which is no character of names
    exact hends.append_brace rest

/-- Scoping inserts at sites only. -/
theorem inserts_scopeSheet (suffix sheet : List Char) :
    Inserts ('_' :: suffix) IsSite [] sheet (scopeSheet suffix sheet) := by
  induction sheet using sheet_induction with
  | last text htext =>
      rw [scopeSheet_of_braceFree htext]
      exact .same [] text
  | brace text brace rest htext hbrace ih =>
      have hrest : Inserts ('_' :: suffix) IsSite (text ++ [brace]) rest
          (scopeSheet suffix rest) := by
        simpa using ih.behind fun _ _ => IsSite.behind text hbrace
      rw [scopeSheet_append htext hbrace]
      by_cases hopens : (Stretch.mk text (some brace)).OpensRule
      case neg =>
        rw [Stretch.withSuffix_of_not_opensRule hopens, List.append_assoc]
        exact .append text (.keep (by simpa using hrest))
      have hrule := hopens.2
      obtain rfl : brace = '\x7b' := Option.some.inj hopens.1
      have hcut := statements_append_selectorList text
      have hbehind : Inserts ('_' :: suffix) IsSite
          ([] ++ statements text ++ (tokens (selectorList text)).flatMap Token.source)
          ('\x7b' :: rest) ('\x7b' :: scopeSheet suffix rest) := by
        rw [flatMap_source_tokens, List.append_assoc, hcut]
        exact .keep (by simpa using hrest)
      have hlist := (inserts_tokens
        (fun _ _ _ heq => isSite_of_tokens_eq_append htext hrule heq rest) hbehind).append
      rw [flatMap_source_tokens, ← List.append_assoc, hcut] at hlist
      simpa [Stretch.withSuffix_of_opensRule hopens] using hlist

/-! ## Scoping keeps the pieces -/

namespace Stretch

/-- What scoping leaves of a stretch: its brace, the statements ahead of its last part, and all of
its text if that part is no selector list of a rule. -/
structure Kept (stretch marked : Stretch) : Prop where
  brace : marked.brace = stretch.brace
  statements : Css.statements marked.text = Css.statements stretch.text
  text (h : ¬stretch.OpensRule) : marked.text = stretch.text

theorem Kept.refl (stretch : Stretch) : stretch.Kept stretch := ⟨rfl, rfl, fun _ => rfl⟩

end Stretch

theorem not_isBrace_of_isNameChar {c : Char} (h : isNameChar c = true) : ¬IsBrace c := by
  rintro (rfl | rfl) <;> exact absurd h (by decide)

theorem ne_semicolon_of_isNameChar {c : Char} (h : isNameChar c = true) : c ≠ ';' := by
  rintro rfl
  exact absurd h (by decide)

/-- A selector list whose classes have a suffix has no characters but its own and those of
names. -/
theorem mem_flatMap_withSuffix (hsuffix : ∀ c ∈ suffix, isNameChar c = true) {list : List Char}
    {c : Char} (h : c ∈ (tokens list).flatMap (Token.withSuffix suffix)) :
    c ∈ list ∨ isNameChar c = true := by
  obtain ⟨token, htoken, hc⟩ := List.mem_flatMap.mp h
  have hlist : c ∈ token.source → c ∈ list := by
    intro hsource
    rw [← flatMap_source_tokens list]
    exact List.mem_flatMap.mpr ⟨token, htoken, hsource⟩
  have hmark : ∀ c ∈ '_' :: suffix, isNameChar c = true :=
    List.forall_mem_cons.mpr ⟨rfl, hsuffix⟩
  cases token with
  | className name =>
      rw [Token.withSuffix, List.mem_append] at hc
      exact hc.imp hlist (hmark c)
  | other text => exact .inl (hlist hc)

/-- A scoped stretch is a stretch with the same brace. -/
theorem Stretch.exists_kept (hsuffix : ∀ c ∈ suffix, isNameChar c = true) {text : List Char}
    (htext : BraceFree text) (brace : Char) :
    ∃ marked, BraceFree marked ∧
      Stretch.withSuffix suffix ⟨text, some brace⟩ = marked ++ [brace] ∧
      Stretch.Kept ⟨text, some brace⟩ ⟨marked, some brace⟩ := by
  by_cases hopens : (Stretch.mk text (some brace)).OpensRule
  case neg =>
    exact ⟨text, htext, Stretch.withSuffix_of_not_opensRule hopens suffix, .refl _⟩
  obtain ⟨hstatements, hlist⟩ : BraceFree (statements text) ∧ BraceFree (selectorList text) := by
    rwa [← braceFree_append, statements_append_selectorList]
  refine ⟨_, ?_, Stretch.withSuffix_of_opensRule hopens suffix, rfl,
    statements_append (getLast?_statements text) fun hsemicolon => ?_, absurd hopens⟩
  · refine braceFree_append.mpr ⟨hstatements, fun c hc => ?_⟩
    exact (mem_flatMap_withSuffix hsuffix hc).elim (hlist c) not_isBrace_of_isNameChar
  · rcases mem_flatMap_withSuffix hsuffix hsemicolon with hmem | hname
    · exact semicolon_notMem_selectorList text hmem
    · exact ne_semicolon_of_isNameChar hname rfl

/-- A scoped sheet has the stretches of the sheet, each as far as scoping leaves it alone. -/
theorem kept_scopeSheet (hsuffix : ∀ c ∈ suffix, isNameChar c = true) (sheet : List Char) :
    List.Forall₂ Stretch.Kept (stretches sheet) (stretches (scopeSheet suffix sheet)) := by
  induction sheet using sheet_induction with
  | last text htext =>
      rw [scopeSheet_of_braceFree htext, stretches_of_braceFree htext]
      exact .cons (.refl _) .nil
  | brace text brace rest htext hbrace ih =>
      obtain ⟨marked, hfree, hwith, hkept⟩ := Stretch.exists_kept hsuffix htext brace
      rw [scopeSheet_append htext hbrace, hwith, List.append_assoc, List.singleton_append,
        stretches_append htext hbrace, stretches_append hfree hbrace]
      exact .cons hkept ih

/-! ## Counting the suffixes -/

/-- Every class name among the tokens of a selector list has one suffix. -/
theorem length_flatMap_withSuffix (suffix : List Char) (list : List Token) :
    (list.flatMap (Token.withSuffix suffix)).length =
      (list.flatMap Token.source).length +
        (suffix.length + 1) * (list.filterMap Token.name?).length := by
  induction list with
  | nil => rfl
  | cons token list ih =>
      cases token with
      | className name =>
          have hnames : Token.name? (.className name) = some name := rfl
          simp only [List.flatMap_cons, List.length_append, ih, Token.withSuffix, Token.source,
            List.length_cons, List.filterMap_cons_some hnames, Nat.mul_succ]
          omega
      | other text =>
          have hnames : Token.name? (.other text) = none := rfl
          simp only [List.flatMap_cons, List.length_append, ih, Token.withSuffix, Token.source,
            List.filterMap_cons_none hnames]
          omega

theorem Stretch.length_withSuffix (stretch : Stretch) (suffix : List Char) :
    (stretch.withSuffix suffix).length = stretch.text.length + stretch.brace.toList.length +
      (suffix.length + 1) * (stretch.selectorTokens.filterMap Token.name?).length := by
  by_cases hopens : stretch.OpensRule
  case neg =>
    rw [withSuffix_of_not_opensRule hopens, List.length_append, selectorTokens, if_neg hopens]
    rfl
  have hcut := congrArg List.length (statements_append_selectorList stretch.text)
  rw [List.length_append] at hcut
  rw [withSuffix_of_opensRule hopens, List.length_append, List.length_append,
    length_flatMap_withSuffix, flatMap_source_tokens, selectorTokens, if_pos hopens]
  omega

theorem classNames_of_braceFree {text : List Char} (h : BraceFree text) : classNames text = [] := by
  simp [classNames, stretches_of_braceFree h, Stretch.selectorTokens]

theorem classNames_append {text : List Char} {brace : Char} (h : BraceFree text)
    (hbrace : IsBrace brace) (rest : List Char) :
    classNames (text ++ brace :: rest) =
      (Stretch.selectorTokens ⟨text, some brace⟩).filterMap Token.name? ++ classNames rest := by
  rw [classNames, stretches_append h hbrace, List.flatMap_cons]
  rfl

/-- A scoped sheet has a suffix for every class name of the sheet. -/
theorem length_scopeSheet (suffix sheet : List Char) :
    (scopeSheet suffix sheet).length =
      sheet.length + (suffix.length + 1) * (classNames sheet).length := by
  induction sheet using sheet_induction with
  | last text htext =>
      rw [scopeSheet_of_braceFree htext, classNames_of_braceFree htext]
      rfl
  | brace text brace rest htext hbrace ih =>
      rw [scopeSheet_append htext hbrace, classNames_append htext hbrace, List.length_append,
        List.length_append, List.length_append, Stretch.length_withSuffix, ih, Nat.mul_add,
        List.length_cons]
      simp only [Option.toList_some, List.length_singleton]
      omega

/-! ## Suffixes -/

theorem isNameChar_hexDigit (n : Nat) : isNameChar (Text.hexDigit n) = true := by
  have hdigit : ∀ d < 16,
      isNameChar (if d < 10 then Char.ofNat (48 + d) else Char.ofNat (87 + d)) = true := by
    decide
  exact hdigit _ (Nat.mod_lt n (by decide))

theorem isNameChar_of_mem_hexDigits {width n : Nat} :
    ∀ c ∈ Text.hexDigits width n, isNameChar c = true := by
  induction width generalizing n with
  | zero => simp [Text.hexDigits]
  | succ width ih =>
      simp only [Text.hexDigits, List.forall_mem_append, List.forall_mem_singleton]
      exact ⟨ih, isNameChar_hexDigit n⟩

theorem length_hexDigits (width n : Nat) : (Text.hexDigits width n).length = width := by
  induction width generalizing n with
  | zero => rfl
  | succ width ih => simp [Text.hexDigits, ih]

theorem toList_digest (text : String) :
    (digest text).toList =
      (Sha256.hash (Text.bytes text)).words.flatMap fun w => Text.hexDigits 8 w.toNat :=
  String.toList_ofList

theorem length_suffixFor (source : String) : (suffixFor source).length = 8 := by
  simp [suffixFor, toList_digest, Sha256.Chain.words, length_hexDigits]

theorem isNameChar_of_mem_suffixFor {source : String} :
    ∀ c ∈ suffixFor source, isNameChar c = true := by
  intro c hc
  have hdigest := List.mem_of_mem_take hc
  rw [toList_digest] at hdigest
  obtain ⟨w, -, hdigit⟩ := List.mem_flatMap.mp hdigest
  exact isNameChar_of_mem_hexDigits c hdigit

/-! ## The scoped sheet -/

/-- The scoped sheet of a file is its sheet with an underscore and the first eight digits of the
digest of the file's name at some sites, as many of them as the sheet has class names.  Every other
text of it is the same: all text that opens no block, all statements ahead of one, and what is ahead
of one as an at-rule. -/
theorem scope_inserts (sheet source : String) :
    ((digest source).toList.take 8).length = 8 ∧
      Inserts ('_' :: (digest source).toList.take 8) IsSite [] sheet.toList
        (scope sheet source).sheet.toList ∧
      (scope sheet source).sheet.toList.length =
        sheet.toList.length + 9 * (classNames sheet.toList).length ∧
      List.Forall₂ Stretch.Kept (stretches sheet.toList)
        (stretches (scope sheet source).sheet.toList) := by
  have hsheet : (scope sheet source).sheet.toList = scopeSheet (suffixFor source) sheet.toList :=
    String.toList_ofList
  have hlength := length_scopeSheet (suffixFor source) sheet.toList
  rw [length_suffixFor] at hlength
  rw [hsheet]
  exact ⟨length_suffixFor source, inserts_scopeSheet (suffixFor source) sheet.toList, hlength,
    kept_scopeSheet isNameChar_of_mem_suffixFor sheet.toList⟩

end Assets.Css
