import Mathlib.Data.List.Basic
import Mathlib.Data.List.TakeWhile
import Assets.Proofs.Css.ClassMap

/-!
# Class names of rules

A class name is an identifier: it may hold characters beyond ASCII, and escapes.  Scoping reads a
name as far as it is ASCII and does not look whether the identifier goes on there.

The sheets here are built of their parts and not read: a `RuleSheet` is a row of rules, and a rule
is a selector list, taken apart at its class selectors, and declarations.  `withClasses` writes such
a sheet down, with the class selectors in one of three ways: as they are (`text`), with a suffix
behind the whole name (`whole`), and with a suffix in the middle of it (`cut`).

* `tokens_selectorText`: what scoping reads in a selector list.  Text falls into characters
  (`tokens_append`), and a class name is read as far as it is ASCII (`tokens_className`).
* `RuleSheet.scopeSheet_text`: scoping cuts, rule by rule.
* `RuleSheet.inserts_whole`: a suffix behind a whole name is not followed by what an identifier goes
  on with.
* `class_names_whole_iff`: cutting is writing whole names exactly if all names are ASCII.  That it
  is no more than that is seen in the dictionary, whose keys are ASCII.
* `wide_class_name_cut`: a sheet with a name that is not kept whole.
-/

namespace Assets.Css

variable {suffix : List Char}

/-! ## Identifiers -/

/-- A character that an identifier goes on with: a letter, a digit, a hyphen or an underscore of
ASCII, any character beyond ASCII, or the backslash of an escape. -/
def Continues (c : Char) : Prop := isNameChar c = true ∨ 0x80 ≤ c.toNat ∨ c = '\\'

instance (c : Char) : Decidable (Continues c) := inferInstanceAs (Decidable (_ ∨ _))

/-- A text does not go on with a character of identifiers. -/
def EndsIdentifier (left : List Char) : Prop := ∀ c ∈ left.head?, ¬Continues c

theorem EndsIdentifier.endsName {left : List Char} (h : EndsIdentifier left) : EndsName left :=
  fun c hc => Bool.eq_false_iff.mpr fun hname => h c hc (.inl hname)

/-- One to six hexadecimal digits and at most one blank behind them, or any other character but a
line break. -/
inductive IsEscaped : List Char → Prop where
  | character {c : Char} (hdigit : Text.hexValue? c = none) (hline : c ∉ ['\n', '\r', '\x0c']) :
      IsEscaped [c]
  | number {digits blank : List Char} (hdigits : ∀ c ∈ digits, (Text.hexValue? c).isSome)
      (hlength : 1 ≤ digits.length ∧ digits.length ≤ 6)
      (hblank : blank ∈ [[], [' '], ['\t'], ['\n'], ['\r'], ['\x0c'], ['\r', '\n']]) :
      IsEscaped (digits ++ blank)

/-- What stands behind the first letter of an identifier. -/
inductive IsIdentifierRest : List Char → Prop where
  | done : IsIdentifierRest []
  | name {c : Char} {rest : List Char} (hc : isNameChar c = true) (hrest : IsIdentifierRest rest) :
      IsIdentifierRest (c :: rest)
  | wide {c : Char} {rest : List Char} (hc : 0x80 ≤ c.toNat) (hrest : IsIdentifierRest rest) :
      IsIdentifierRest (c :: rest)
  | escape {escaped rest : List Char} (hescaped : IsEscaped escaped)
      (hrest : IsIdentifierRest rest) : IsIdentifierRest ('\\' :: (escaped ++ rest))

/-- An identifier that starts with a letter or an underscore of ASCII, or with a hyphen and then one
of these. -/
def IsIdentifier (name : List Char) : Prop :=
  ∃ hyphen start rest, name = hyphen ++ start :: rest ∧ (hyphen = [] ∨ hyphen = ['-']) ∧
    isNameStart start = true ∧ IsIdentifierRest rest

/-- What an identifier starts with is a class name for scoping. -/
theorem IsIdentifier.isClassName {name : List Char} (h : IsIdentifier name) :
    IsClassName (name.takeWhile isNameChar) := by
  obtain ⟨hyphen, start, rest, rfl, hhyphen, hstart, -⟩ := h
  refine ⟨hyphen, start, rest.takeWhile isNameChar, ?_, hhyphen, hstart,
    isNameChar_of_mem_takeWhile⟩
  rw [List.takeWhile_append_of_pos (forall_isNameChar_hyphen hhyphen),
    List.takeWhile_cons_of_pos (isNameChar_of_isNameStart hstart)]

theorem IsIdentifierRest.continues {rest : List Char} (h : IsIdentifierRest rest) :
    ∀ c ∈ (rest.dropWhile isNameChar).head?, Continues c := by
  induction h with
  | done => simp
  | name hc _ ih => rwa [List.dropWhile_cons_of_pos hc]
  | @wide c rest hc _ ih =>
      rw [List.dropWhile_cons]
      split
      · exact ih
      · intro d hd
        cases hd
        exact .inr (.inl hc)
  | escape =>
      rw [List.dropWhile_cons_of_neg (by decide)]
      intro d hd
      cases hd
      exact .inr (.inr rfl)

/-- Where the ASCII characters of an identifier end, it goes on. -/
theorem IsIdentifier.continues {name : List Char} (h : IsIdentifier name) :
    ∀ c ∈ (name.dropWhile isNameChar).head?, Continues c := by
  obtain ⟨hyphen, start, rest, rfl, hhyphen, hstart, hrest⟩ := h
  rw [List.dropWhile_append_of_pos (forall_isNameChar_hyphen hhyphen),
    List.dropWhile_cons_of_pos (isNameChar_of_isNameStart hstart)]
  exact hrest.continues

/-! ## Selector lists of rules -/

/-- Text of a selector list with no quotes, semicolons and braces, and with no dot that a class name
follows. -/
structure PlainText (text : List Char) : Prop where
  characters : ∀ c ∈ text, c ∉ ['"', '\'', ';', '\x7b', '\x7d']
  nameless : ∀ rest, '.' :: rest <:+ text → ∀ name, IsClassName name → ¬name <+: rest

theorem PlainText.tail {c : Char} {text : List Char} (h : PlainText (c :: text)) :
    PlainText text where
  characters := (List.forall_mem_cons.mp h.characters).2
  nameless rest hrest := h.nameless rest (hrest.trans (List.suffix_cons c text))

theorem PlainText.of_dotFree {text : List Char}
    (h : ∀ c ∈ text, c ∉ ['.', '"', '\'', ';', '\x7b', '\x7d']) : PlainText text where
  characters c hc hmem := h c hc (List.mem_cons_of_mem _ hmem)
  nameless _ hrest _ _ _ := h '.' (hrest.subset List.mem_cons_self) List.mem_cons_self

/-- A class selector without its dot, and the text between it and the next one. -/
structure ClassSelector where
  name : List Char
  behind : List Char
  identifier : IsIdentifier name
  plain : PlainText behind
  ends : EndsIdentifier behind

namespace ClassSelector

def text (selector : ClassSelector) : List Char := '.' :: (selector.name ++ selector.behind)

/-- The selector with a suffix behind its name. -/
def whole (suffix : List Char) (selector : ClassSelector) : List Char :=
  '.' :: (selector.name ++ '_' :: suffix ++ selector.behind)

/-- The selector with a suffix behind the ASCII characters that its name starts with. -/
def cut (suffix : List Char) (selector : ClassSelector) : List Char :=
  '.' :: (selector.name.takeWhile isNameChar ++ '_' :: suffix ++
    selector.name.dropWhile isNameChar ++ selector.behind)

end ClassSelector

/-- The class selectors of a list, with the text ahead of the first. -/
def selectorText (ahead : List Char) (classes : List ClassSelector) : List Char :=
  ahead ++ classes.flatMap ClassSelector.text

/-- A rule: a selector list that is no at-rule and has no strings and no `url(...)`, and
declarations in braces. -/
structure Rule where
  ahead : List Char
  classes : List ClassSelector
  declarations : List Char
  plain : PlainText ahead
  noUrl : ¬"url(".toList <:+: selectorText ahead classes
  noAtRule : (Text.dropBlanks (selectorText ahead classes)).head? ≠ some '@'
  noBlock : BraceFree declarations

/-! ## Tokens of a selector list -/

theorem tokens_of_readToken?_eq_none {c : Char} {rest : List Char}
    (h : readToken? (c :: rest) = none) : tokens (c :: rest) = .other [c] :: tokens rest := by
  rw [tokens]
  split
  · rename_i hread
    cases h.symm.trans hread
  · rfl

theorem tokens_of_readToken?_eq_some {c : Char} {rest left : List Char} {token : Token}
    (h : readToken? (c :: rest) = some (token, left)) :
    tokens (c :: rest) = token :: tokens left := by
  rw [tokens]
  split
  · rename_i hread
    cases h.symm.trans hread
    rfl
  · rename_i hread
    cases h.symm.trans hread

/-- A class name that nothing goes on with is read as a whole. -/
theorem readName?_append {name rest : List Char} (hname : IsClassName name)
    (hends : EndsName rest) : readName? (name ++ rest) = some (name, rest) := by
  cases hread : readName? (name ++ rest) with
  | none =>
      obtain ⟨hyphen, start, more, rfl, hhyphen, hstart, -⟩ := hname
      rcases hhyphen with rfl | rfl
      · have hother : start ≠ '-' := by rintro rfl; exact absurd hstart (by decide)
        simp [readName?, hother, hstart] at hread
      · simp [readName?, hstart] at hread
  | some found =>
      obtain ⟨name', left⟩ := found
      obtain ⟨happend, hname', hleft⟩ := of_readName?_eq_some hread
      obtain ⟨rfl, rfl⟩ := eq_of_append_eq hname'.forall_isNameChar hleft
        hname.forall_isNameChar hends happend
      rfl

theorem tokens_className {name rest : List Char} (hname : IsClassName name)
    (hends : EndsName rest) : tokens ('.' :: (name ++ rest)) = .className name :: tokens rest := by
  refine tokens_of_readToken?_eq_some ?_
  rw [readToken?, readName?_append hname hends]
  rfl

/-- No token starts with a character of plain text. -/
theorem readToken?_eq_none {c : Char} {text rest : List Char} (htext : PlainText (c :: text))
    (hends : EndsName rest) (hurl : ¬"url(".toList <:+: c :: (text ++ rest)) :
    readToken? (c :: (text ++ rest)) = none := by
  have hc := htext.characters c List.mem_cons_self
  unfold readToken?
  split
  · rename_i heq
    obtain ⟨rfl, -⟩ := List.cons.inj heq
    exact absurd List.mem_cons_self hc
  · rename_i heq
    obtain ⟨rfl, -⟩ := List.cons.inj heq
    exact absurd (by decide) hc
  · rename_i more heq
    rw [heq] at hurl
    exact absurd (List.prefix_append "url(".toList more).isInfix hurl
  · rename_i more heq
    obtain ⟨rfl, rfl⟩ := List.cons.inj heq
    rw [Option.map_eq_none_iff, Option.eq_none_iff_forall_ne_some]
    rintro ⟨name, left⟩ hread
    obtain ⟨happend, hname, -⟩ := of_readName?_eq_some hread
    refine htext.nameless text (List.suffix_refl _) name hname ?_
    -- what is behind the text has no characters of names, so the name ends in the text
    rcases List.append_eq_append_iff.mp happend with ⟨more, rfl, -⟩ | ⟨more, rfl, rfl⟩
    · exact List.prefix_append _ _
    · cases more with
      | nil => exact ⟨[], by simp⟩
      | cons d more =>
          have hd := hname.forall_isNameChar d (List.mem_append_right _ List.mem_cons_self)
          exact absurd (hends d rfl) (by rw [hd]; decide)
  · rfl

/-- Plain text falls into its characters. -/
theorem tokens_append {text rest : List Char} (htext : PlainText text) (hends : EndsName rest)
    (hurl : ¬"url(".toList <:+: text ++ rest) :
    tokens (text ++ rest) = text.map (fun c => .other [c]) ++ tokens rest := by
  induction text with
  | nil => rfl
  | cons c text ih =>
      have hread := readToken?_eq_none htext hends hurl
      rw [List.cons_append, tokens_of_readToken?_eq_none hread, ih htext.tail fun hurl' =>
        hurl (hurl'.trans (List.suffix_cons c _).isInfix)]
      rfl

theorem endsName_classes (classes : List ClassSelector) :
    EndsName (classes.flatMap ClassSelector.text) := by
  cases classes with
  | nil => simp [EndsName]
  | cons selector classes =>
      intro c hc
      cases hc
      rfl

/-- The pieces of a class selector: its name as far as it is ASCII, and single characters. -/
def ClassSelector.tokens (selector : ClassSelector) : List Token :=
  .className (selector.name.takeWhile isNameChar) ::
    (selector.name.dropWhile isNameChar ++ selector.behind).map fun c => .other [c]

/-- A class selector whose name has nothing at which scoping would cut it further. -/
abbrev ClassSelector.Quiet (selector : ClassSelector) : Prop :=
  PlainText (selector.name.dropWhile isNameChar)

theorem tokens_classes {classes : List ClassSelector} (hquiet : ∀ s ∈ classes, s.Quiet)
    (hurl : ¬"url(".toList <:+: classes.flatMap ClassSelector.text) :
    tokens (classes.flatMap ClassSelector.text) = classes.flatMap ClassSelector.tokens := by
  induction classes with
  | nil => rw [List.flatMap_nil, List.flatMap_nil, tokens]
  | cons selector classes ih =>
      obtain ⟨hselector, hclasses⟩ := List.forall_mem_cons.mp hquiet
      let rest := classes.flatMap ClassSelector.text
      let plain := selector.name.takeWhile isNameChar
      let wide := selector.name.dropWhile isNameChar
      have hname : plain ++ wide = selector.name := List.takeWhile_append_dropWhile
      have htext :
          selector.text ++ rest = '.' :: (plain ++ (wide ++ (selector.behind ++ rest))) := by
        simp [ClassSelector.text, ← hname]
      have hbehind : EndsName (selector.behind ++ rest) :=
        selector.ends.endsName.append (endsName_classes classes)
      have hwide : EndsName (wide ++ (selector.behind ++ rest)) :=
        (endsName_dropWhile selector.name).append hbehind
      rw [List.flatMap_cons] at hurl
      have hurl' : ∀ part, part <:+ selector.text ++ rest → ¬"url(".toList <:+: part :=
        fun part hpart hinside => hurl (hinside.trans hpart.isInfix)
      have hsuffix : wide ++ (selector.behind ++ rest) <:+ selector.text ++ rest := by
        rw [htext]
        exact (List.suffix_append _ _).trans (List.suffix_cons _ _)
      rw [List.flatMap_cons, List.flatMap_cons, htext,
        tokens_className selector.identifier.isClassName hwide,
        tokens_append hselector hbehind (hurl' _ hsuffix),
        tokens_append selector.plain (endsName_classes classes)
          (hurl' _ ((List.suffix_append _ _).trans hsuffix)),
        ih hclasses (hurl' _ (List.suffix_append _ _)), ClassSelector.tokens, List.map_append]
      simp only [List.cons_append, List.append_assoc]

theorem tokens_selectorText {ahead : List Char} {classes : List ClassSelector}
    (hplain : PlainText ahead) (hquiet : ∀ s ∈ classes, s.Quiet)
    (hurl : ¬"url(".toList <:+: selectorText ahead classes) :
    tokens (selectorText ahead classes) =
      ahead.map (fun c => .other [c]) ++ classes.flatMap ClassSelector.tokens := by
  have hclasses : ¬"url(".toList <:+: classes.flatMap ClassSelector.text :=
    fun hinside => hurl (hinside.trans (List.suffix_append _ _).isInfix)
  rw [selectorText, tokens_append hplain (endsName_classes classes) hurl,
    tokens_classes hquiet hclasses]

theorem flatMap_withSuffix_characters (suffix text : List Char) :
    (text.map fun c => Token.other [c]).flatMap (Token.withSuffix suffix) = text := by
  induction text with
  | nil => rfl
  | cons c text ih => rw [List.map_cons, List.flatMap_cons, ih, Token.withSuffix,
      List.singleton_append]

theorem filterMap_name?_characters (text : List Char) :
    (text.map fun c => Token.other [c]).filterMap Token.name? = [] := by
  induction text with
  | nil => rfl
  | cons c text ih => rw [List.map_cons, List.filterMap_cons, ih]; rfl

theorem ClassSelector.flatMap_withSuffix_tokens (suffix : List Char) (selector : ClassSelector) :
    selector.tokens.flatMap (Token.withSuffix suffix) = selector.cut suffix := by
  rw [tokens, List.flatMap_cons, flatMap_withSuffix_characters, Token.withSuffix, cut]
  simp only [List.cons_append, List.append_assoc]

theorem ClassSelector.filterMap_name?_tokens (selector : ClassSelector) :
    selector.tokens.filterMap Token.name? = [selector.name.takeWhile isNameChar] := by
  rw [tokens, List.filterMap_cons, filterMap_name?_characters]
  rfl

/-! ## Sheets of rules -/

/-- The text of a rule, with its class selectors written as `write` says. -/
def Rule.withClasses (write : ClassSelector → List Char) (rule : Rule) : List Char :=
  rule.ahead ++ rule.classes.flatMap write ++ '\x7b' :: (rule.declarations ++ ['\x7d'])

/-- Rules in a row, and text behind the last that belongs to no rule. -/
structure RuleSheet where
  rules : List Rule
  trailing : List Char
  noBlock : BraceFree trailing

namespace RuleSheet

def withClasses (write : ClassSelector → List Char) (sheet : RuleSheet) : List Char :=
  sheet.rules.flatMap (Rule.withClasses write) ++ sheet.trailing

def text (sheet : RuleSheet) : List Char := sheet.withClasses ClassSelector.text

def classes (sheet : RuleSheet) : List ClassSelector := sheet.rules.flatMap Rule.classes

end RuleSheet

theorem characters_of_isNameChar {c : Char} (h : isNameChar c = true) :
    c ∉ ['"', '\'', ';', '\x7b', '\x7d'] := by
  simp only [List.mem_cons, List.not_mem_nil, or_false]
  rintro (rfl | rfl | rfl | rfl | rfl) <;> exact absurd h (by decide)

theorem Rule.characters_selectorText {rule : Rule} (hquiet : ∀ s ∈ rule.classes, s.Quiet) :
    ∀ c ∈ selectorText rule.ahead rule.classes, c ∉ ['"', '\'', ';', '\x7b', '\x7d'] := by
  intro c hc
  rcases List.mem_append.mp hc with hc | hc
  · exact rule.plain.characters c hc
  obtain ⟨selector, hselector, hc⟩ := List.mem_flatMap.mp hc
  rcases List.mem_cons.mp hc with rfl | hc
  · decide
  rcases List.mem_append.mp hc with hc | hc
  · rw [← List.takeWhile_append_dropWhile (p := isNameChar) (l := selector.name)] at hc
    rcases List.mem_append.mp hc with hc | hc
    · exact characters_of_isNameChar (isNameChar_of_mem_takeWhile c hc)
    · exact (hquiet selector hselector).characters c hc
  · exact selector.plain.characters c hc

theorem Rule.braceFree_selectorText {rule : Rule} (hquiet : ∀ s ∈ rule.classes, s.Quiet) :
    BraceFree (selectorText rule.ahead rule.classes) := by
  rintro c hc (rfl | rfl) <;> exact characters_selectorText hquiet _ hc (by decide)

theorem Rule.selectorList_selectorText {rule : Rule} (hquiet : ∀ s ∈ rule.classes, s.Quiet) :
    statements (selectorText rule.ahead rule.classes) = [] ∧
      selectorList (selectorText rule.ahead rule.classes) =
        selectorText rule.ahead rule.classes := by
  have hstatements : statements ([] ++ selectorText rule.ahead rule.classes) = [] :=
    statements_append (by simp) fun hmem => characters_selectorText hquiet ';' hmem (by decide)
  have hcut := statements_append_selectorList (selectorText rule.ahead rule.classes)
  rw [List.nil_append] at hstatements
  rw [hstatements] at hcut
  exact ⟨hstatements, hcut⟩

theorem Rule.opensRule {rule : Rule} (hquiet : ∀ s ∈ rule.classes, s.Quiet) :
    (Stretch.mk (selectorText rule.ahead rule.classes) (some '\x7b')).OpensRule := by
  refine ⟨rfl, ?_⟩
  rw [(selectorList_selectorText hquiet).2]
  exact rule.noAtRule

theorem Rule.not_opensRule (rule : Rule) :
    ¬(Stretch.mk rule.declarations (some '\x7d')).OpensRule := by
  rintro ⟨hbrace, -⟩
  exact absurd (Option.some.inj hbrace) (by decide)

theorem Rule.withClasses_append (write : ClassSelector → List Char) (rule : Rule)
    (rest : List Char) :
    rule.withClasses write ++ rest =
      rule.ahead ++ rule.classes.flatMap write ++
        '\x7b' :: (rule.declarations ++ '\x7d' :: rest) := by
  simp [withClasses]

theorem Rule.scopeSheet_append {rule : Rule} (hquiet : ∀ s ∈ rule.classes, s.Quiet)
    (suffix rest : List Char) :
    scopeSheet suffix (rule.withClasses ClassSelector.text ++ rest) =
      rule.withClasses (ClassSelector.cut suffix) ++ scopeSheet suffix rest := by
  have hselectors : (tokens (selectorText rule.ahead rule.classes)).flatMap
      (Token.withSuffix suffix) =
        rule.ahead ++ rule.classes.flatMap (ClassSelector.cut suffix) := by
    rw [tokens_selectorText rule.plain hquiet rule.noUrl, List.flatMap_append,
      flatMap_withSuffix_characters, List.flatMap_assoc]
    simp only [ClassSelector.flatMap_withSuffix_tokens]
  rw [withClasses_append, ← selectorText,
    Css.scopeSheet_append (braceFree_selectorText hquiet) (.inl rfl),
    Css.scopeSheet_append rule.noBlock (.inr rfl),
    Stretch.withSuffix_of_opensRule (opensRule hquiet),
    Stretch.withSuffix_of_not_opensRule rule.not_opensRule,
    (selectorList_selectorText hquiet).1, (selectorList_selectorText hquiet).2, hselectors,
    withClasses_append]
  simp

theorem Rule.classNames_append {rule : Rule} (hquiet : ∀ s ∈ rule.classes, s.Quiet)
    (rest : List Char) : classNames (rule.withClasses ClassSelector.text ++ rest) =
      rule.classes.map (fun s => s.name.takeWhile isNameChar) ++ classNames rest := by
  have hselectors : (tokens (selectorText rule.ahead rule.classes)).filterMap Token.name? =
      rule.classes.map fun s => s.name.takeWhile isNameChar := by
    rw [tokens_selectorText rule.plain hquiet rule.noUrl, List.filterMap_append,
      filterMap_name?_characters, List.filterMap_flatMap]
    simp only [ClassSelector.filterMap_name?_tokens]
    rw [List.nil_append, List.map_eq_flatMap]
  rw [withClasses_append, ← selectorText,
    Css.classNames_append (braceFree_selectorText hquiet) (.inl rfl),
    Css.classNames_append rule.noBlock (.inr rfl), Stretch.selectorTokens,
    if_pos (opensRule hquiet), Stretch.selectorTokens, if_neg rule.not_opensRule,
    (selectorList_selectorText hquiet).2, hselectors]
  rfl

namespace RuleSheet

variable {sheet : RuleSheet}

/-- Scoping puts the suffix behind the ASCII characters that a class name starts with. -/
theorem scopeSheet_text (hquiet : ∀ s ∈ sheet.classes, s.Quiet) (suffix : List Char) :
    scopeSheet suffix sheet.text = sheet.withClasses (ClassSelector.cut suffix) := by
  obtain ⟨rules, trailing, hblock⟩ := sheet
  rw [text, withClasses, withClasses]
  rw [classes, List.forall_mem_flatMap] at hquiet
  induction rules with
  | nil => exact scopeSheet_of_braceFree hblock suffix
  | cons rule rules ih =>
      obtain ⟨hrule, hrules⟩ := List.forall_mem_cons.mp hquiet
      rw [List.flatMap_cons, List.flatMap_cons, List.append_assoc, List.append_assoc,
        Rule.scopeSheet_append hrule, ih hrules]

theorem classNames_text (hquiet : ∀ s ∈ sheet.classes, s.Quiet) :
    classNames sheet.text = sheet.classes.map fun s => s.name.takeWhile isNameChar := by
  obtain ⟨rules, trailing, hblock⟩ := sheet
  rw [text, withClasses, classes]
  rw [classes, List.forall_mem_flatMap] at hquiet
  induction rules with
  | nil => exact classNames_of_braceFree hblock
  | cons rule rules ih =>
      obtain ⟨hrule, hrules⟩ := List.forall_mem_cons.mp hquiet
      rw [List.flatMap_cons, List.flatMap_cons, List.append_assoc,
        Rule.classNames_append hrule, ih hrules, List.map_append]

theorem withClasses_congr {write write' : ClassSelector → List Char}
    (h : ∀ s ∈ sheet.classes, write s = write' s) :
    sheet.withClasses write = sheet.withClasses write' := by
  rw [classes, List.forall_mem_flatMap] at h
  rw [withClasses, withClasses, List.flatMap_congr fun rule hrule => ?_]
  rw [Rule.withClasses, Rule.withClasses, List.flatMap_congr (h rule hrule)]

end RuleSheet

/-! ## Whole names -/

theorem EndsIdentifier.append {left rest : List Char} (hleft : EndsIdentifier left)
    (hrest : EndsIdentifier rest) : EndsIdentifier (left ++ rest) :=
  forall_mem_head?_append hleft hrest

theorem endsIdentifier_cons {c : Char} (hc : ¬Continues c) (rest : List Char) :
    EndsIdentifier (c :: rest) := by
  intro d hd
  cases hd
  exact hc

/-- Suffixes behind whole names are not followed by characters of identifiers. -/
theorem inserts_classes (classes : List ClassSelector) {text result : List Char}
    (hends : EndsIdentifier text)
    (h : ∀ before, Inserts ('_' :: suffix) (fun _ after => EndsIdentifier after) before text result)
    (before : List Char) :
    Inserts ('_' :: suffix) (fun _ after => EndsIdentifier after) before
      (classes.flatMap ClassSelector.text ++ text)
      (classes.flatMap (ClassSelector.whole suffix) ++ result) := by
  induction classes generalizing before with
  | nil => exact h before
  | cons selector classes ih =>
      have hrest : EndsIdentifier (classes.flatMap ClassSelector.text ++ text) := by
        cases classes with
        | nil => exact hends
        | cons next classes => exact endsIdentifier_cons (by decide) _
      have hbehind := Inserts.append selector.behind
        (ih (before ++ '.' :: selector.name ++ selector.behind))
      have hname := hbehind.append_mark (selector.ends.append hrest)
      simpa [ClassSelector.text, ClassSelector.whole] using hname

theorem RuleSheet.inserts_whole (sheet : RuleSheet) (suffix before : List Char) :
    Inserts ('_' :: suffix) (fun _ after => EndsIdentifier after) before sheet.text
      (sheet.withClasses (ClassSelector.whole suffix)) := by
  obtain ⟨rules, trailing, hblock⟩ := sheet
  rw [text, withClasses, withClasses]
  induction rules generalizing before with
  | nil => exact .same before trailing
  | cons rule rules ih =>
      have hblock : ∀ before, Inserts ('_' :: suffix) (fun _ after => EndsIdentifier after) before
          ('\x7b' :: (rule.declarations ++ '\x7d' ::
            (rules.flatMap (Rule.withClasses ClassSelector.text) ++ trailing)))
          ('\x7b' :: (rule.declarations ++ '\x7d' ::
            (rules.flatMap (Rule.withClasses (ClassSelector.whole suffix)) ++ trailing))) :=
        fun _ => .keep (.append _ (.keep (ih _)))
      rw [List.flatMap_cons, List.flatMap_cons, List.append_assoc, List.append_assoc,
        Rule.withClasses_append, Rule.withClasses_append, List.append_assoc, List.append_assoc]
      exact .append _ (inserts_classes rule.classes (endsIdentifier_cons (by decide) _) hblock _)

/-- Marked names have the form of class names. -/
theorem Marks.isClassName {mark text result : List Char} {names : List (List Char)}
    (h : Marks mark text result names) : ∀ name ∈ names, IsClassName name := by
  induction h with
  | done => simp
  | keep _ ih => exact ih
  | name hname _ _ ih => exact List.forall_mem_cons.mpr ⟨hname, ih⟩

theorem ClassSelector.Quiet.of_forall {selector : ClassSelector}
    (h : ∀ c ∈ selector.name, isNameChar c = true) : selector.Quiet := by
  rw [ClassSelector.Quiet, List.dropWhile_eq_nil_iff.mpr h]
  exact .of_dotFree (by simp)

theorem ClassSelector.cut_of_forall {selector : ClassSelector}
    (h : ∀ c ∈ selector.name, isNameChar c = true) (suffix : List Char) :
    selector.cut suffix = selector.whole suffix := by
  rw [cut, whole, List.takeWhile_eq_self_iff.mpr h, List.dropWhile_eq_nil_iff.mpr h,
    List.append_nil]

/-- In a sheet of rules every class selector has the suffix behind the ASCII characters that its
name starts with, and the page is told that much of the name; then a name that is longer goes on
behind the suffix.  So all names have the suffix as a whole, and are exported as a whole, exactly if
they are ASCII and without escapes. -/
theorem class_names_whole_iff (sheet : RuleSheet) (source : String) :
    ((∀ s ∈ sheet.classes, s.Quiet) →
      (scope (String.ofList sheet.text) source).sheet.toList =
          sheet.withClasses (ClassSelector.cut ((digest source).toList.take 8)) ∧
        (∀ key, key ∈ (scope (String.ofList sheet.text) source).classes.keys ↔
          ∃ s ∈ sheet.classes, key.toList = s.name.takeWhile isNameChar) ∧
        ∀ s ∈ sheet.classes, ∀ c ∈ (s.name.dropWhile isNameChar).head?, Continues c) ∧
    ((scope (String.ofList sheet.text) source).sheet.toList =
          sheet.withClasses (ClassSelector.whole ((digest source).toList.take 8)) ∧
        (∀ s ∈ sheet.classes, (String.ofList s.name,
            String.ofList (s.name ++ '_' :: (digest source).toList.take 8)) ∈
          (scope (String.ofList sheet.text) source).classes) ∧
        Inserts ('_' :: (digest source).toList.take 8) (fun _ after => EndsIdentifier after) []
          sheet.text (scope (String.ofList sheet.text) source).sheet.toList ↔
      ∀ s ∈ sheet.classes, ∀ c ∈ s.name, isNameChar c = true) := by
  rw [toList_sheet_scope, String.toList_ofList]
  refine ⟨fun hquiet => ⟨RuleSheet.scopeSheet_text hquiet _, fun key => ?_, fun s _ =>
    s.identifier.continues⟩, fun ⟨_, hexported, _⟩ s hs => ?_, fun hplain => ?_⟩
  · rw [mem_keys_classes_iff, String.toList_ofList, RuleSheet.classNames_text hquiet, List.mem_map]
    exact exists_congr fun s => and_congr_right fun _ => eq_comm
  · have hname := (mem_classes_iff.mp (hexported s hs)).1
    rw [String.toList_ofList, String.toList_ofList] at hname
    exact ((marks_scopeSheet [] sheet.text).isClassName _ hname).forall_isNameChar
  · have hquiet : ∀ s ∈ sheet.classes, s.Quiet := fun s hs => .of_forall (hplain s hs)
    have hwhole : scopeSheet (suffixFor source) sheet.text =
        sheet.withClasses (ClassSelector.whole (suffixFor source)) := by
      rw [RuleSheet.scopeSheet_text hquiet]
      exact RuleSheet.withClasses_congr fun s hs =>
        ClassSelector.cut_of_forall (hplain s hs) _
    refine ⟨hwhole, fun s hs => ?_, ?_⟩
    · rw [mem_classes_iff, String.toList_ofList, String.toList_ofList,
        RuleSheet.classNames_text hquiet, List.mem_map, ← String.toList_inj, toList_scopedName,
        String.toList_ofList, String.toList_ofList]
      exact ⟨⟨s, hs, List.takeWhile_eq_self_iff.mpr (hplain s hs)⟩, rfl⟩
    · have hinserts := sheet.inserts_whole (suffixFor source) []
      rwa [← hwhole] at hinserts

theorem isIdentifier_wide : IsIdentifier "café".toList :=
  ⟨[], 'c', "afé".toList, rfl, .inl rfl, rfl,
    .name rfl (.name rfl (.wide (by decide) .done))⟩

/-- One rule, for one class. -/
def wideSheet : RuleSheet where
  rules := [{
    ahead := []
    classes := [⟨"café".toList, [' '], isIdentifier_wide, .of_dotFree (by simp),
      endsIdentifier_cons (by decide) []⟩]
    declarations := " color: red ".toList
    plain := .of_dotFree (by simp)
    noUrl := by decide
    noAtRule := by decide
    noBlock := by simp [BraceFree] }]
  trailing := []
  noBlock := by simp [BraceFree]

/-- A name that scoping cuts, and cuts only once. -/
theorem class_names_whole_iff_wide :
    (∀ s ∈ wideSheet.classes, s.Quiet) ∧
      (scope (String.ofList wideSheet.text) "m.module.css").sheet.toList =
        wideSheet.withClasses (ClassSelector.cut ((digest "m.module.css").toList.take 8)) ∧
      ∃ s ∈ wideSheet.classes, 'é' ∈ (s.name.dropWhile isNameChar).head? ∧ Continues 'é' := by
  have hquiet : ∀ s ∈ wideSheet.classes, s.Quiet := by
    intro s hs
    rw [List.mem_singleton.mp hs]
    exact .of_dotFree (List.forall_mem_singleton.mpr (by decide))
  obtain ⟨hsheet, -, hcontinues⟩ := (class_names_whole_iff wideSheet "m.module.css").1 hquiet
  exact ⟨hquiet, hsheet, _, List.mem_cons_self, rfl, hcontinues _ List.mem_cons_self 'é' rfl⟩

/-- The name of a class that is not ASCII is cut. -/
theorem wide_class_name_cut :
    wideSheet.text = ".café \x7b color: red \x7d".toList ∧
      scope (String.ofList wideSheet.text) "m.module.css" =
        ⟨".caf_cac1a7b6é \x7b color: red \x7d", [("caf", "caf_cac1a7b6")]⟩ ∧
      (scope (String.ofList wideSheet.text) "m.module.css").classes.find? "café" = none ∧
      Continues 'é' :=
  ⟨by decide +kernel, by decide +kernel, by decide +kernel, by decide⟩

end Assets.Css
