import Assets.Proofs.Css.ClassMap

/-!
# Strings of a scoped sheet

Strings in a sheet are to stay as they are.  But a sheet is cut at its braces and semicolons before
anything looks at quotes, and `url(` goes to the next closing parenthesis.  A string that holds one
of these characters is cut in two, and in its parts a dot can start a class name.

Here the strings are read without regard to how scoping cuts: `readStrings` goes through a text from
left to right, and outside of strings each quote opens one.

* `readOn_scopeSheet`: the strings are kept if none holds a character at which scoping cuts.
* `strings_kept_iff`: they are kept exactly if no suffix is inserted inside of one.  A suffix inside
  of a string makes it longer, and `Reading.size` counts this; outside of strings a suffix is not
  noticed, since it holds no quotes.
* `brace_in_string`: a sheet with a string that is not kept.
-/

namespace Assets.Css

variable {suffix mark : List Char}

/-! ## Reading strings -/

/-- A character that opens a string, and closes it again. -/
abbrev IsQuote (c : Char) : Prop := c = '"' ∨ c = '\''

abbrev Quote := { c : Char // IsQuote c }

def QuoteFree (text : List Char) : Prop := ∀ c ∈ text, ¬IsQuote c

theorem quoteFree_cons {c : Char} {text : List Char} :
    QuoteFree (c :: text) ↔ ¬IsQuote c ∧ QuoteFree text := List.forall_mem_cons

theorem quoteFree_append {text more : List Char} :
    QuoteFree (text ++ more) ↔ QuoteFree text ∧ QuoteFree more := List.forall_mem_append

/-- The complete strings of a text, in order, and the string that is open at its end, with the quote
that it waits for. -/
structure Reading where
  strings : List (List Char)
  opened : Option (Quote × List Char)
  deriving DecidableEq

namespace Reading

def next (reading : Reading) (c : Char) : Reading :=
  match reading.opened with
  | none =>
    if h : IsQuote c then { reading with opened := some (⟨c, h⟩, [c]) } else reading
  | some (quote, string) =>
    if c = quote then ⟨reading.strings ++ [string ++ [c]], none⟩
    else { reading with opened := some (quote, string ++ [c]) }

/-- The strings of a text that goes on behind what has been read. -/
def readOn (reading : Reading) (text : List Char) : Reading := text.foldl next reading

variable {reading : Reading} {text : List Char} {c : Char}

theorem readOn_cons (reading : Reading) (c : Char) (text : List Char) :
    reading.readOn (c :: text) = (reading.next c).readOn text := rfl

theorem readOn_append (reading : Reading) (text more : List Char) :
    reading.readOn (text ++ more) = (reading.readOn text).readOn more := List.foldl_append

theorem readOn_concat (reading : Reading) (text : List Char) (c : Char) :
    reading.readOn (text ++ [c]) = (reading.readOn text).next c := readOn_append reading text [c]

theorem next_of_not_quote (h : reading.opened = none) (hc : ¬IsQuote c) :
    reading.next c = reading := by
  rw [next, h]
  exact dif_neg hc

theorem next_of_quote (h : reading.opened = none) (quote : Quote) :
    reading.next quote = { reading with opened := some (quote, [quote.1]) } := by
  rw [next, h]
  exact dif_pos quote.2

theorem next_of_opened {quote : Quote} {string : List Char}
    (h : reading.opened = some (quote, string)) (c : Char) : reading.next c =
      if c = quote then ⟨reading.strings ++ [string ++ [c]], none⟩
      else { reading with opened := some (quote, string ++ [c]) } := by
  rw [next, h]

/-- Outside of strings a text without quotes changes nothing. -/
theorem readOn_of_quoteFree (h : reading.opened = none) (htext : QuoteFree text) :
    reading.readOn text = reading := by
  induction text with
  | nil => rfl
  | cons c text ih =>
      obtain ⟨hc, htext⟩ := quoteFree_cons.mp htext
      rw [readOn_cons, next_of_not_quote h hc, ih htext]

theorem mem_strings_next {string : List Char} (h : string ∈ reading.strings) (c : Char) :
    string ∈ (reading.next c).strings := by
  unfold next
  split
  · split <;> exact h
  · split
    · exact List.mem_append_left _ h
    · exact h

theorem mem_strings_readOn {string : List Char} (h : string ∈ reading.strings)
    (text : List Char) : string ∈ (reading.readOn text).strings := by
  induction text generalizing reading with
  | nil => exact h
  | cons c text ih => exact ih (mem_strings_next h c)

/-- What stands in a string that is closed later stands in a string. -/
theorem exists_string_of_opened {quote : Quote} {start : List Char} {d : Char}
    (h : reading.opened = some (quote, start)) (hd : d ∈ start)
    (hend : (reading.readOn text).opened = none) :
    ∃ string ∈ (reading.readOn text).strings, d ∈ string := by
  induction text generalizing reading start with
  | nil => cases hend.symm.trans h
  | cons c text ih =>
      rw [readOn_cons, next_of_opened h] at hend ⊢
      split at hend
      · rename_i hclose
        rw [if_pos hclose]
        refine ⟨start ++ [c], mem_strings_readOn ?_ text, List.mem_append_left _ hd⟩
        exact List.mem_append_right _ List.mem_cons_self
      · rename_i hopen
        rw [if_neg hopen]
        exact ih rfl (List.mem_append_left _ hd) hend

/-- No string is open at a character that stands in no string. -/
theorem opened_eq_none_of_notMem {rest : List Char} (hc : ¬IsQuote c)
    (hend : (reading.readOn (text ++ c :: rest)).opened = none)
    (hfree : ∀ string ∈ (reading.readOn (text ++ c :: rest)).strings, c ∉ string) :
    (reading.readOn text).opened = none := by
  rw [readOn_append, readOn_cons] at hend hfree
  cases hopened : (reading.readOn text).opened with
  | none => rfl
  | some opened =>
      obtain ⟨quote, start⟩ := opened
      have hother : c ≠ quote := fun heq => hc (heq ▸ quote.2)
      rw [next_of_opened hopened, if_neg hother] at hend hfree
      obtain ⟨string, hstring, hmem⟩ := exists_string_of_opened rfl
        (List.mem_append_right start (List.mem_singleton.mpr rfl)) hend
      exact absurd hmem (hfree string hstring)

/-- A string goes on where its quote does not come. -/
theorem readOn_of_opened {quote : Quote} {start : List Char}
    (h : reading.opened = some (quote, start)) (htext : quote.1 ∉ text) :
    reading.readOn text = { reading with opened := some (quote, start ++ text) } := by
  induction text generalizing reading start with
  | nil =>
      rw [List.append_nil, ← h]
      rfl
  | cons c text ih =>
      rw [List.mem_cons, not_or] at htext
      rw [readOn_cons, next_of_opened h, if_neg (Ne.symm htext.1), ih rfl htext.2,
        List.append_assoc, List.singleton_append]

/-- A complete string. -/
theorem opened_readOn_string (h : reading.opened = none) (quote : Quote) {body : List Char}
    (hbody : quote.1 ∉ body) : (reading.readOn (quote :: (body ++ [quote.1]))).opened = none := by
  rw [readOn_cons, next_of_quote h, readOn_concat, readOn_of_opened rfl hbody, next_of_opened rfl,
    if_pos rfl]

end Reading

/-- The strings of a text. -/
def readStrings (text : List Char) : Reading := Reading.readOn ⟨[], none⟩ text

/-! ## Tokens and strings -/

/-- Without backslashes a string goes to the next quote of its kind. -/
theorem of_closeString?_eq_some {quote : Char} {cs body left : List Char} (hback : '\\' ∉ cs)
    (h : closeString? quote cs = some (body, left)) :
    ∃ inner, body = inner ++ [quote] ∧ quote ∉ inner := by
  fun_induction closeString? quote cs generalizing body left with
  | case1 => cases h
  | case2 =>
      cases h
      exact ⟨[], rfl, by simp⟩
  | case3 => cases h
  | case4 => cases h
  | case5 => simp at hback
  | case6 c rest hquote _ ih =>
      simp only [Option.map_eq_some_iff, Prod.mk.injEq] at h
      obtain ⟨⟨more, rest'⟩, hclose, rfl, rfl⟩ := h
      obtain ⟨inner, rfl, hinner⟩ := ih (fun hmem => hback (List.mem_cons_of_mem _ hmem)) hclose
      exact ⟨c :: inner, rfl, List.not_mem_cons_of_ne_of_not_mem (Ne.symm hquote) hinner⟩

theorem notMem_of_closeString?_eq_none {quote : Char} {cs : List Char} (hback : '\\' ∉ cs)
    (h : closeString? quote cs = none) : quote ∉ cs := by
  fun_induction closeString? quote cs with
  | case1 => simp
  | case2 => cases h
  | case3 => simp at hback
  | case4 => simp at hback
  | case5 => simp at hback
  | case6 c rest hquote _ ih =>
      rw [Option.map_eq_none_iff] at h
      have hrest := ih (fun hmem => hback (List.mem_cons_of_mem _ hmem)) h
      exact List.not_mem_cons_of_ne_of_not_mem (Ne.symm hquote) hrest

theorem of_closeUrl?_eq_some {cs body left : List Char} (h : closeUrl? cs = some (body, left)) :
    ∃ inner, body = inner ++ [')'] := by
  have hnot := List.head?_dropWhile_not (· ≠ ')') cs
  unfold closeUrl? at h
  split at h
  · cases h
  · rename_i c rest hdrop
    cases h
    rw [hdrop] at hnot
    have hc : c = ')' := by simpa using hnot
    exact ⟨cs.takeWhile (· ≠ ')'), by rw [hc]⟩

/-- Text that scoping takes for a string is one, and what it takes for a `url(...)` ends outside of
strings if no string holds a closing parenthesis. -/
theorem opened_readOn_other {reading : Reading} {cs text left : List Char}
    (hread : readToken? cs = some (.other text, left)) (hback : '\\' ∉ cs)
    (hreading : reading.opened = none) (hend : (reading.readOn cs).opened = none)
    (hfree : ∀ string ∈ (reading.readOn cs).strings, ')' ∉ string) :
    (reading.readOn text).opened = none := by
  have happend := readToken?_append hread
  unfold readToken? at hread
  split at hread
  case h_5 => cases hread
  case h_4 =>
    simp only [Option.map_eq_some_iff, Prod.mk.injEq] at hread
    obtain ⟨_, _, htoken, -⟩ := hread
    cases htoken
  all_goals
    simp only [Option.map_eq_some_iff, Prod.mk.injEq] at hread
    obtain ⟨⟨body, rest⟩, hclose, htoken, rfl⟩ := hread
    cases htoken
  · obtain ⟨inner, rfl, hinner⟩ := of_closeString?_eq_some
      (fun hmem => hback (List.mem_cons_of_mem _ hmem)) hclose
    exact Reading.opened_readOn_string hreading ⟨'"', .inl rfl⟩ hinner
  · obtain ⟨inner, rfl, hinner⟩ := of_closeString?_eq_some
      (fun hmem => hback (List.mem_cons_of_mem _ hmem)) hclose
    exact Reading.opened_readOn_string hreading ⟨'\'', .inr rfl⟩ hinner
  · obtain ⟨inner, rfl⟩ := of_closeUrl?_eq_some hclose
    rw [Token.source, ← List.append_assoc, List.append_assoc, List.singleton_append] at happend
    rw [← happend] at hend hfree
    have hfront := Reading.opened_eq_none_of_notMem (by decide) hend hfree
    rw [← List.append_assoc, Reading.readOn_concat, Reading.next_of_not_quote hfront (by decide)]
    exact hfront

/-- A quote that opens no string for scoping is never closed. -/
theorem not_quote_of_readToken?_eq_none {reading : Reading} {c : Char} {rest : List Char}
    (hread : readToken? (c :: rest) = none) (hback : '\\' ∉ rest)
    (hreading : reading.opened = none) (hend : (reading.readOn (c :: rest)).opened = none) :
    ¬IsQuote c := by
  intro hquote
  have hclose : closeString? c rest = none := by
    rcases hquote with rfl | rfl
    · simpa [readToken?] using hread
    · simpa [readToken?] using hread
  rw [Reading.readOn_cons, Reading.next_of_quote hreading ⟨c, hquote⟩,
    Reading.readOn_of_opened rfl (notMem_of_closeString?_eq_none hback hclose)] at hend
  cases hend

theorem quoteFree_of_isNameChar {text : List Char} (h : ∀ c ∈ text, isNameChar c = true) :
    QuoteFree text := by
  rintro c hc (rfl | rfl) <;> exact absurd (h _ hc) (by decide)

theorem quoteFree_mark (hsuffix : ∀ c ∈ suffix, isNameChar c = true) :
    QuoteFree ('_' :: suffix) :=
  quoteFree_of_isNameChar (List.forall_mem_cons.mpr ⟨rfl, hsuffix⟩)

/-- The strings of a selector list whose classes have a suffix. -/
theorem readOn_tokens (hsuffix : ∀ c ∈ suffix, isNameChar c = true) {reading : Reading}
    {list : List Char} (hback : '\\' ∉ list) (hreading : reading.opened = none)
    (hend : (reading.readOn list).opened = none)
    (hfree : ∀ string ∈ (reading.readOn list).strings, ')' ∉ string) :
    reading.readOn ((tokens list).flatMap (Token.withSuffix suffix)) = reading.readOn list := by
  fun_induction tokens list generalizing reading with
  | case1 => rfl
  | case2 c rest token left hread ih =>
      have hsource := readToken?_append hread
      cases token with
      | className name =>
          obtain ⟨hname, -⟩ := of_readToken?_className hread
          have hplain : QuoteFree ('.' :: name) :=
            quoteFree_cons.mpr ⟨by decide, quoteFree_of_isNameChar hname.forall_isNameChar⟩
          have hmarked : QuoteFree ('.' :: name ++ '_' :: suffix) :=
            quoteFree_append.mpr ⟨hplain, quoteFree_mark hsuffix⟩
          rw [← hsource, Token.source, List.mem_append, not_or] at hback
          rw [← hsource, Token.source, Reading.readOn_append,
            Reading.readOn_of_quoteFree hreading hplain] at hend hfree ⊢
          rw [List.flatMap_cons, Token.withSuffix, Reading.readOn_append,
            Reading.readOn_of_quoteFree hreading hmarked]
          exact ih hback.2 hreading hend hfree
      | other text =>
          have htext := opened_readOn_other hread hback hreading hend hfree
          rw [← hsource, Token.source, List.mem_append, not_or] at hback
          rw [← hsource, Token.source, Reading.readOn_append] at hend hfree ⊢
          rw [List.flatMap_cons, Token.withSuffix, Reading.readOn_append]
          exact ih hback.2 htext hend hfree
  | case3 c rest hread ih =>
      rw [List.mem_cons, not_or] at hback
      have hc := not_quote_of_readToken?_eq_none hread hback.2 hreading hend
      rw [Reading.readOn_cons, Reading.next_of_not_quote hreading hc] at hend hfree ⊢
      rw [List.flatMap_cons, Token.withSuffix, List.singleton_append, Reading.readOn_cons,
        Reading.next_of_not_quote hreading hc]
      exact ih hback.2 hreading hend hfree

/-! ## Sheets and strings -/

/-- A character at which scoping cuts a sheet without a look at quotes. -/
abbrev IsCut (c : Char) : Prop := IsBrace c ∨ c = ';' ∨ c = ')'

theorem not_quote_of_isCut {c : Char} (h : IsCut c) : ¬IsQuote c := by
  rintro (rfl | rfl) <;> exact absurd h (by decide)

/-- The strings of a stretch that opens a rule. -/
theorem readOn_withSuffix (hsuffix : ∀ c ∈ suffix, isNameChar c = true) {reading : Reading}
    {text : List Char} (hback : '\\' ∉ text) (hreading : reading.opened = none)
    (hend : (reading.readOn text).opened = none)
    (hfree : ∀ string ∈ (reading.readOn text).strings, ∀ c ∈ string, ¬IsCut c) :
    reading.readOn (statements text ++
      (tokens (selectorList text)).flatMap (Token.withSuffix suffix)) = reading.readOn text := by
  have hcut := statements_append_selectorList text
  have hfront : (reading.readOn (statements text)).opened = none := by
    cases hlast : (statements text).getLast? with
    | none =>
        rw [List.getLast?_eq_none_iff.mp hlast]
        exact hreading
    | some c =>
        obtain rfl : c = ';' := getLast?_statements text c hlast
        obtain ⟨front, hstatements⟩ := List.getLast?_eq_some_iff.mp hlast
        rw [hstatements, List.append_assoc, List.singleton_append] at hcut
        rw [← hcut] at hend hfree
        have hopened := Reading.opened_eq_none_of_notMem (by decide) hend fun string hstring hmem =>
          hfree string hstring ';' hmem (.inr (.inl rfl))
        rw [hstatements, Reading.readOn_concat, Reading.next_of_not_quote hopened (by decide)]
        exact hopened
  rw [← hcut, List.mem_append, not_or] at hback
  rw [← hcut, Reading.readOn_append] at hend hfree
  rw [Reading.readOn_append, readOn_tokens hsuffix hback.2 hfront hend fun string hstring hmem =>
    hfree string hstring ')' hmem (.inr (.inr rfl)), ← Reading.readOn_append, hcut]

/-- Strings are kept if none holds a character at which scoping cuts. -/
theorem readOn_scopeSheet (hsuffix : ∀ c ∈ suffix, isNameChar c = true) {reading : Reading}
    {sheet : List Char} (hback : '\\' ∉ sheet) (hreading : reading.opened = none)
    (hend : (reading.readOn sheet).opened = none)
    (hfree : ∀ string ∈ (reading.readOn sheet).strings, ∀ c ∈ string, ¬IsCut c) :
    reading.readOn (scopeSheet suffix sheet) = reading.readOn sheet := by
  induction sheet using sheet_induction generalizing reading with
  | last text htext => rw [scopeSheet_of_braceFree htext]
  | brace text brace rest htext hbrace ih =>
      have hquote := not_quote_of_isCut (.inl hbrace)
      have hopened := Reading.opened_eq_none_of_notMem hquote hend fun string hstring hmem =>
        hfree string hstring brace hmem (.inl hbrace)
      rw [List.mem_append, List.mem_cons, not_or, not_or] at hback
      rw [Reading.readOn_append, Reading.readOn_cons,
        Reading.next_of_not_quote hopened hquote] at hend hfree ⊢
      have hrest := ih hback.2.2 hopened hend hfree
      rw [scopeSheet_append htext hbrace]
      by_cases hopens : (Stretch.mk text (some brace)).OpensRule
      case neg =>
        rw [Stretch.withSuffix_of_not_opensRule hopens, Option.toList_some, List.append_assoc,
          List.singleton_append, Reading.readOn_append, Reading.readOn_cons,
          Reading.next_of_not_quote hopened hquote, hrest]
      have hmarked := readOn_withSuffix hsuffix hback.1 hreading hopened fun string hstring =>
        hfree string (Reading.mem_strings_readOn hstring rest)
      rw [Stretch.withSuffix_of_opensRule hopens, Option.toList_some, List.append_assoc,
        List.singleton_append, Reading.readOn_append, hmarked, Reading.readOn_cons,
        Reading.next_of_not_quote hopened hquote, hrest]

/-! ## Suffixes and strings -/

theorem readStrings_concat (text : List Char) (c : Char) :
    readStrings (text ++ [c]) = (readStrings text).next c := Reading.readOn_concat _ _ _

/-- Marks without quotes that all stand outside of strings are not noticed. -/
theorem Inserts.readOn_eq {Site : List Char → List Char → Prop}
    (hmark : QuoteFree mark)
    (hsite : ∀ before after, Site before after → (readStrings before).opened = none)
    {before text result : List Char} (h : Inserts mark Site before text result) :
    (readStrings before).readOn result = (readStrings before).readOn text := by
  induction h with
  | done => rfl
  | keep _ ih =>
      rw [Reading.readOn_cons, Reading.readOn_cons, ← readStrings_concat, ih]
  | insert hplace _ ih =>
      rw [List.cons_append, Reading.readOn_cons, Reading.readOn_cons, ← readStrings_concat,
        Reading.readOn_append, Reading.readOn_of_quoteFree (hsite _ _ hplace) hmark, ih]

namespace Reading

/-- The number of characters in strings. -/
def size (reading : Reading) : Nat :=
  reading.strings.flatten.length + reading.opened.elim 0 (·.2.length)

/-- Two texts that are at the same place, and the second has `extra` more characters in strings. -/
structure Longer (extra : Nat) (reading other : Reading) : Prop where
  place : other.opened.map Prod.fst = reading.opened.map Prod.fst
  size : other.size = reading.size + extra

variable {extra : Nat} {reading other : Reading}

theorem Longer.next (h : Longer extra reading other) (c : Char) :
    Longer extra (reading.next c) (other.next c) := by
  obtain ⟨hplace, hsize⟩ := h
  cases hopened : reading.opened with
  | none =>
      have hother : other.opened = none := by simpa [hopened] using hplace
      by_cases hc : IsQuote c
      · rw [next_of_quote hopened ⟨c, hc⟩, next_of_quote hother ⟨c, hc⟩]
        refine ⟨rfl, ?_⟩
        simp only [Reading.size, hopened, hother, Option.elim] at hsize ⊢
        omega
      · rw [next_of_not_quote hopened hc, next_of_not_quote hother hc]
        exact ⟨hplace, hsize⟩
  | some opened =>
      obtain ⟨quote, start⟩ := opened
      obtain ⟨start', hother⟩ : ∃ start', other.opened = some (quote, start') := by
        simpa [hopened] using hplace
      rw [next_of_opened hopened, next_of_opened hother]
      split
      all_goals
        refine ⟨rfl, ?_⟩
        simp only [Reading.size, hopened, hother, Option.elim, List.flatten_append,
          List.flatten_singleton, List.length_append] at hsize ⊢
        omega

/-- A text without quotes makes the string longer in which it stands. -/
theorem Longer.readOn {text : List Char} (htext : QuoteFree text)
    (h : Longer extra reading other) :
    Longer (extra + if reading.opened = none then 0 else text.length) reading
      (other.readOn text) := by
  obtain ⟨hplace, hsize⟩ := h
  cases hopened : reading.opened with
  | none =>
      have hother : other.opened = none := by simpa [hopened] using hplace
      rw [if_pos rfl, readOn_of_quoteFree hother htext]
      exact ⟨hplace, hsize⟩
  | some opened =>
      obtain ⟨quote, start⟩ := opened
      obtain ⟨start', hother⟩ : ∃ start', other.opened = some (quote, start') := by
        simpa [hopened] using hplace
      rw [if_neg (Option.some_ne_none _),
        readOn_of_opened hother fun hmem => htext quote.1 hmem quote.2]
      refine ⟨by rw [hopened]; rfl, ?_⟩
      simp only [Reading.size, hopened, hother, Option.elim, List.length_append] at hsize ⊢
      omega

end Reading

/-- What a text with marks has in its strings beyond the text itself; it has no more only if all
marks stand outside of strings. -/
theorem Inserts.exists_longer {Site : List Char → List Char → Prop}
    (hmark : QuoteFree mark) (hne : mark ≠ [])
    {before text result : List Char} (h : Inserts mark Site before text result) {extra : Nat}
    {other : Reading} (hother : Reading.Longer extra (readStrings before) other) :
    ∃ more, extra ≤ more ∧
      Reading.Longer more ((readStrings before).readOn text) (other.readOn result) ∧
      (more = extra → Inserts mark
        (fun before after => Site before after ∧ (readStrings before).opened = none)
        before text result) := by
  induction h generalizing extra other with
  | done => exact ⟨extra, Nat.le_refl _, hother, fun _ => .done⟩
  | @keep before c text result _ ih =>
      have hnext := hother.next c
      rw [← readStrings_concat] at hnext
      obtain ⟨more, hle, hlonger, hsame⟩ := ih hnext
      rw [readStrings_concat] at hlonger
      exact ⟨more, hle, hlonger, fun heq => .keep (hsame heq)⟩
  | @insert before c text result hsite _ ih =>
      have hnext := (hother.next c).readOn hmark
      rw [← readStrings_concat] at hnext
      obtain ⟨more, hle, hlonger, hsame⟩ := ih hnext
      rw [← Reading.readOn_append, readStrings_concat] at hlonger
      refine ⟨more, by omega, hlonger, fun heq => ?_⟩
      have hpositive := List.length_pos_iff.mpr hne
      by_cases hopened : (readStrings (before ++ [c])).opened = none
      · rw [if_pos hopened, Nat.add_zero] at hsame
        exact .insert ⟨hsite, hopened⟩ (hsame heq)
      · -- inside of a string the mark would count
        rw [if_neg hopened] at hle
        omega

/-- A scoped sheet has the strings of the sheet exactly if every suffix is inserted outside of
strings.  This is so if no string holds a brace, a semicolon or a closing parenthesis. -/
theorem strings_kept_iff (sheet source : String)
    (hsheet : (readStrings sheet.toList).opened = none) :
    (readStrings (scope sheet source).sheet.toList = readStrings sheet.toList ↔
        Inserts ('_' :: (digest source).toList.take 8)
          (fun before after => IsSite before after ∧ (readStrings before).opened = none) []
          sheet.toList (scope sheet source).sheet.toList) ∧
      ('\\' ∉ sheet.toList →
        (∀ string ∈ (readStrings sheet.toList).strings, ∀ c ∈ string, ¬IsCut c) →
          readStrings (scope sheet source).sheet.toList = readStrings sheet.toList) := by
  have hmark : QuoteFree ('_' :: suffixFor source) := quoteFree_mark isNameChar_of_mem_suffixFor
  rw [toList_sheet_scope]
  refine ⟨⟨fun hkept => ?_, fun hinserts => ?_⟩, fun hback hfree => ?_⟩
  · have hstart : Reading.Longer 0 (readStrings []) (readStrings []) := ⟨rfl, rfl⟩
    have hinserts := inserts_scopeSheet (suffixFor source) sheet.toList
    obtain ⟨more, -, hlonger, hsame⟩ :=
      hinserts.exists_longer hmark (List.cons_ne_nil _ _) hstart
    refine hsame ?_
    have hsize := hlonger.size
    change (readStrings _).size = (readStrings _).size + more at hsize
    rw [hkept] at hsize
    omega
  · exact hinserts.readOn_eq hmark fun _ _ hplace => hplace.2
  · exact readOn_scopeSheet isNameChar_of_mem_suffixFor hback rfl hsheet hfree

/-- A string with a dot in it, ahead of a class. -/
theorem strings_kept_iff_dotted :
    (readStrings "a[href$=\".pdf\"] .b \x7b\x7d".toList).opened = none ∧
      '\\' ∉ "a[href$=\".pdf\"] .b \x7b\x7d".toList ∧
      (readStrings "a[href$=\".pdf\"] .b \x7b\x7d".toList).strings = ["\".pdf\"".toList] ∧
      (∀ string ∈ (readStrings "a[href$=\".pdf\"] .b \x7b\x7d".toList).strings,
        ∀ c ∈ string, ¬IsCut c) ∧
      readStrings (scope "a[href$=\".pdf\"] .b \x7b\x7d" "m.module.css").sheet.toList =
        readStrings "a[href$=\".pdf\"] .b \x7b\x7d".toList := by
  have hsheet : (readStrings "a[href$=\".pdf\"] .b \x7b\x7d".toList).opened = none := by
    decide +kernel
  have hstrings : (readStrings "a[href$=\".pdf\"] .b \x7b\x7d".toList).strings =
      ["\".pdf\"".toList] := by
    decide +kernel
  have hback : '\\' ∉ "a[href$=\".pdf\"] .b \x7b\x7d".toList := by decide
  have hfree : ∀ string ∈ (readStrings "a[href$=\".pdf\"] .b \x7b\x7d".toList).strings,
      ∀ c ∈ string, ¬IsCut c := by
    rw [hstrings]
    simp [IsCut]
  exact ⟨hsheet, hback, hstrings, hfree, (strings_kept_iff _ "m.module.css" hsheet).2 hback hfree⟩

/-- A sheet is cut at a brace in a string, and then the string is no string for scoping. -/
theorem brace_in_string :
    (readStrings "[title=\".a\x7b\"] \x7b color: red \x7d".toList).opened = none ∧
      '\\' ∉ "[title=\".a\x7b\"] \x7b color: red \x7d".toList ∧
      ¬"/*".toList <:+: "[title=\".a\x7b\"] \x7b color: red \x7d".toList ∧
      (readStrings "[title=\".a\x7b\"] \x7b color: red \x7d".toList).strings =
        ["\".a\x7b\"".toList] ∧
      (readStrings (scope "[title=\".a\x7b\"] \x7b color: red \x7d"
        "m.module.css").sheet.toList).strings = ["\".a_cac1a7b6\x7b\"".toList] :=
  ⟨by decide +kernel, by decide +kernel, by decide +kernel, by decide +kernel, by decide +kernel⟩

end Assets.Css
