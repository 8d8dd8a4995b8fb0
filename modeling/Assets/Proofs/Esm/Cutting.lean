import Mathlib.Data.List.TakeWhile
import Assets.Esm.Site

/-!
# How a script is cut at its import sites

Import sites are found by a pattern: a keyword at the start of a word, blanks, a quote, a specifier
and another quote.  Here the pattern is said without the reader (`Site.Matches`), and so is what it
means to cut a text at its leftmost matches that do not overlap (`Cut`): between two matches there
is a gap in which no match begins (`Clear`), not even one that would overlap with what comes next.

* `readSite?_eq_some_iff`: the reader finds a site exactly where the pattern matches.  A keyword
  goes as far as it can, but a quote is neither a blank nor a parenthesis, so it ends there in any
  case.
* `exists_cut`, `Cut.unique`: every text can be cut, and in one way only.  The second is read off
  the pieces of the text: those of a gap are its characters (`pieces_append_of_clear`), so the cut
  can be had back from the pieces (`gather_piecesOf`).
-/

namespace Assets.Esm

/-! ## The pattern -/

def Blanks (cs : List Char) : Prop := ∀ c ∈ cs, Text.isBlank c = true

/-- The keyword of a site: `from` or `import`, blanks, and behind `import` at most one parenthesis
with blanks. -/
inductive IsKeyword : List Char → Prop where
  | exporting {blanks : List Char} (h : Blanks blanks) : IsKeyword ("from".toList ++ blanks)
  | importing {blanks : List Char} (h : Blanks blanks) : IsKeyword ("import".toList ++ blanks)
  | calling {blanks more : List Char} (h : Blanks blanks) (hmore : Blanks more) :
      IsKeyword ("import".toList ++ blanks ++ '(' :: more)

/-- A site that the pattern matches. -/
structure Site.Matches (site : Site) : Prop where
  keyword : IsKeyword site.keyword
  opening : isQuote site.opening = true
  specifier_ne : site.specifier ≠ []
  specifier : ∀ c ∈ site.specifier, isSpecifierChar c = true
  closing : isQuote site.closing = true

def Site.source (site : Site) : List Char := (Piece.site site).source

theorem Site.source_append (site : Site) (rest : List Char) :
    site.source ++ rest =
      site.keyword ++ site.opening :: (site.specifier ++ site.closing :: rest) := by
  simp [Site.source, Piece.source]

theorem Site.source_append_ne_nil (site : Site) (rest : List Char) : site.source ++ rest ≠ [] := by
  simp [Site.source, Piece.source]

theorem isBlank_of_isQuote {c : Char} (h : isQuote c = true) : Text.isBlank c = false := by
  simp only [isQuote, Bool.or_eq_true, beq_iff_eq] at h
  rcases h with rfl | rfl <;> rfl

theorem isSpecifierChar_of_isQuote {c : Char} (h : isQuote c = true) :
    isSpecifierChar c = false := by
  simp [isSpecifierChar, h]

/-- A run of blanks ends at the first character that is none. -/
theorem spanBlanks_of_blanks {blanks : List Char} (h : Blanks blanks) {c : Char}
    (hc : Text.isBlank c = false) (rest : List Char) :
    spanBlanks (blanks ++ c :: rest) = (blanks, c :: rest) := by
  rw [spanBlanks, List.takeWhile_append_of_pos h, List.dropWhile_append_of_pos h,
    List.takeWhile_cons_of_neg (by simp [hc]), List.dropWhile_cons_of_neg (by simp [hc]),
    List.append_nil]

theorem blanks_spanBlanks (cs : List Char) : Blanks (spanBlanks cs).1 :=
  List.all_eq_true.mp List.all_takeWhile

theorem IsKeyword.readKeyword?_append {keyword : List Char} (h : IsKeyword keyword) {quote : Char}
    (hquote : isQuote quote = true) (rest : List Char) :
    readKeyword? (keyword ++ quote :: rest) = some (keyword, quote :: rest) := by
  have hblank := isBlank_of_isQuote hquote
  have hparen : quote ≠ '(' := by
    rintro rfl
    cases hquote
  cases h with
  | @exporting blanks h =>
      show readKeyword? ('f' :: 'r' :: 'o' :: 'm' :: (blanks ++ quote :: rest)) = _
      rw [readKeyword?, spanBlanks_of_blanks h hblank]
  | @importing blanks h =>
      show readKeyword? ('i' :: 'm' :: 'p' :: 'o' :: 'r' :: 't' :: (blanks ++ quote :: rest)) = _
      rw [readKeyword?, spanBlanks_of_blanks h hblank]
      simp [hparen]
  | @calling blanks more h hmore =>
      have htext : "import".toList ++ blanks ++ '(' :: more ++ quote :: rest =
          'i' :: 'm' :: 'p' :: 'o' :: 'r' :: 't' :: (blanks ++ '(' :: (more ++ quote :: rest)) := by
        simp
      rw [htext, readKeyword?, spanBlanks_of_blanks h rfl]
      show some ("import".toList ++ blanks ++ '(' :: (spanBlanks (more ++ quote :: rest)).1,
        (spanBlanks (more ++ quote :: rest)).2) = _
      rw [spanBlanks_of_blanks hmore hblank]

theorem spanBlanks_append (cs : List Char) : (spanBlanks cs).1 ++ (spanBlanks cs).2 = cs :=
  List.takeWhile_append_dropWhile

/-- A keyword is read off the front of a text. -/
theorem readKeyword?_eq_some {cs keyword left : List Char}
    (h : readKeyword? cs = some (keyword, left)) : IsKeyword keyword ∧ cs = keyword ++ left := by
  unfold readKeyword? at h
  split at h
  · rename_i rest
    obtain ⟨rfl, rfl⟩ := Prod.mk.inj (Option.some.inj h)
    refine ⟨.exporting (blanks_spanBlanks rest), ?_⟩
    rw [List.append_assoc, List.takeWhile_append_dropWhile]
    rfl
  · rename_i rest
    have hrest := spanBlanks_append rest
    dsimp only at h
    split at h
    · rename_i more hmore
      obtain ⟨rfl, rfl⟩ := Prod.mk.inj (Option.some.inj h)
      rw [hmore] at hrest
      exact ⟨.calling (blanks_spanBlanks rest) (blanks_spanBlanks more),
        by simp [spanBlanks_append, hrest]⟩
    · obtain ⟨rfl, rfl⟩ := Prod.mk.inj (Option.some.inj h)
      exact ⟨.importing (blanks_spanBlanks rest), by simp [hrest]⟩
  · cases h

/-- A site is read off the front of a text. -/
theorem readSite?_eq_some {cs left : List Char} {site : Site}
    (h : readSite? cs = some (site, left)) : site.Matches ∧ cs = site.source ++ left := by
  unfold readSite? at h
  split at h
  · cases h
  · rename_i keyword rest hread
    obtain ⟨hkeyword, hcs⟩ := readKeyword?_eq_some hread
    split at h
    · cases h
    · rename_i opening rest'
      -- the specifier is cut off at the first character it cannot hold, which has to be a quote
      have hspan := List.takeWhile_append_dropWhile (p := isSpecifierChar) (l := rest')
      split at h
      · cases h
      · rename_i closing tail hdrop
        rw [hdrop] at hspan
        dsimp only at h
        split at h
        · rename_i hquotes
          obtain ⟨rfl, rfl⟩ := Prod.mk.inj (Option.some.inj h)
          simp only [Bool.and_eq_true, Bool.not_eq_true', List.isEmpty_eq_false_iff] at hquotes
          refine ⟨⟨hkeyword, hquotes.1.1, hquotes.1.2, List.all_eq_true.mp List.all_takeWhile,
            hquotes.2⟩, ?_⟩
          rw [Site.source_append, hspan, hcs]
        · cases h

/-- A text starts with a site exactly if it goes on from a match of the pattern. -/
theorem readSite?_eq_some_iff {cs left : List Char} {site : Site} :
    readSite? cs = some (site, left) ↔ site.Matches ∧ cs = site.source ++ left := by
  refine ⟨readSite?_eq_some, ?_⟩
  rintro ⟨hmatches, rfl⟩
  have hclosing := isSpecifierChar_of_isQuote hmatches.closing
  rw [Site.source_append, readSite?, hmatches.keyword.readKeyword?_append hmatches.opening]
  dsimp only
  rw [List.takeWhile_append_of_pos hmatches.specifier,
    List.dropWhile_append_of_pos hmatches.specifier,
    List.takeWhile_cons_of_neg (by simp [hclosing]),
    List.dropWhile_cons_of_neg (by simp [hclosing]), List.append_nil]
  simp [hmatches.opening, hmatches.closing, hmatches.specifier_ne]

/-! ## Leftmost matches -/

/-- A match begins in front of a text, behind the character `before`. -/
def Begins (before : Option Char) (cs : List Char) : Prop :=
  startsWord before = true ∧ ∃ site rest, Site.Matches site ∧ cs = site.source ++ rest

/-- No match begins in a gap, behind the character `before` and in front of `rest`. -/
def Clear (before : Option Char) (gap rest : List Char) : Prop :=
  ∀ front c back, gap = front ++ c :: back →
    ¬Begins (front.getLast?.or before) (c :: back ++ rest)

/-- A text is cut at its matches, from the left: each match begins where the first one begins that
does not overlap with those before it, and in the gaps and behind the last match none begins. -/
inductive Cut : (before : Option Char) → List Char → List (List Char × Site) → List Char → Prop
  | done {before : Option Char} {last : List Char} (h : Clear before last []) :
      Cut before last [] last
  | site {before : Option Char} {gap rest last : List Char} {site : Site}
      {sites : List (List Char × Site)} (hclear : Clear before gap (site.source ++ rest))
      (hword : startsWord (gap.getLast?.or before) = true) (hmatches : site.Matches)
      (hrest : Cut (some site.closing) rest sites last) :
      Cut before (gap ++ (site.source ++ rest)) ((gap, site) :: sites) last

theorem clear_nil (before : Option Char) (rest : List Char) : Clear before [] rest := by
  intro front c back hgap
  cases front <;> cases hgap

/-- The character in front of a place does not depend on where one starts to look. -/
theorem getLast?_cons_or (c : Char) (front : List Char) (before : Option Char) :
    (c :: front).getLast?.or before = front.getLast?.or (some c) := by
  rw [List.getLast?_cons, Option.some_or]
  cases front.getLast? <;> rfl

theorem clear_cons {before : Option Char} {c : Char} {gap rest : List Char} :
    Clear before (c :: gap) rest ↔ ¬Begins before (c :: gap ++ rest) ∧ Clear (some c) gap rest := by
  constructor
  · intro h
    refine ⟨h [] c gap rfl, fun front d back hgap => ?_⟩
    have hlater := h (c :: front) d back (by rw [hgap, List.cons_append])
    rwa [getLast?_cons_or] at hlater
  · rintro ⟨hfirst, hlater⟩ front d back hgap
    cases front with
    | nil =>
        obtain ⟨rfl, rfl⟩ := List.cons.inj hgap
        exact hfirst
    | cons first front =>
        obtain ⟨rfl, hback⟩ := List.cons.inj hgap
        rw [getLast?_cons_or]
        exact hlater front d back hback

/-! ## Pieces are cut at the leftmost matches -/

theorem begins_iff {before : Option Char} {cs : List Char} :
    Begins before cs ↔
      ∃ site rest, (if startsWord before then readSite? cs else none) = some (site, rest) := by
  unfold Begins
  cases startsWord before with
  | false => simp
  | true => simp [readSite?_eq_some_iff]

theorem pieces_of_not_begins {before : Option Char} {c : Char} {rest : List Char}
    (h : ¬Begins before (c :: rest)) :
    pieces before (c :: rest) = .text c :: pieces (some c) rest := by
  rw [pieces]
  split
  · rename_i site left hread
    exact absurd (begins_iff.mpr ⟨site, left, hread⟩) h
  · rfl

theorem pieces_of_matches {before : Option Char} {site : Site} (hword : startsWord before = true)
    (hmatches : site.Matches) (rest : List Char) :
    pieces before (site.source ++ rest) = .site site :: pieces (some site.closing) rest := by
  obtain ⟨c, cs, hcs⟩ := List.exists_cons_of_ne_nil (site.source_append_ne_nil rest)
  have hread : readSite? (c :: cs) = some (site, rest) :=
    readSite?_eq_some_iff.mpr ⟨hmatches, hcs.symm⟩
  rw [hcs, pieces, if_pos hword]
  split
  · rename_i found left hfound
    obtain ⟨rfl, rfl⟩ := Prod.mk.inj (Option.some.inj (hfound.symm.trans hread))
    rfl
  · rename_i hfound
    cases hfound.symm.trans hread

/-- Where no match begins, a script falls into its characters. -/
theorem pieces_append_of_clear {before : Option Char} {gap rest : List Char}
    (h : Clear before gap rest) :
    pieces before (gap ++ rest) =
      gap.map Piece.text ++ pieces (gap.getLast?.or before) rest := by
  induction gap generalizing before with
  | nil => rfl
  | cons c gap ih =>
      obtain ⟨hfirst, hlater⟩ := clear_cons.mp h
      have hpieces : pieces before (c :: (gap ++ rest)) =
          .text c :: pieces (some c) (gap ++ rest) := pieces_of_not_begins hfirst
      rw [List.cons_append, hpieces, ih hlater, getLast?_cons_or, List.map_cons, List.cons_append]

/-- The pieces of a script that is cut into gaps and sites. -/
def piecesOf (sites : List (List Char × Site)) (last : List Char) : List Piece :=
  sites.flatMap (fun (gap, site) => gap.map Piece.text ++ [.site site]) ++ last.map Piece.text

theorem piecesOf_cons (gap : List Char) (site : Site) (sites : List (List Char × Site))
    (last : List Char) :
    piecesOf ((gap, site) :: sites) last =
      gap.map Piece.text ++ .site site :: piecesOf sites last := by
  simp [piecesOf]

theorem Cut.pieces_eq {before : Option Char} {cs last : List Char}
    {sites : List (List Char × Site)} (h : Cut before cs sites last) :
    pieces before cs = piecesOf sites last := by
  induction h with
  | @done before last hclear =>
      have hpieces := pieces_append_of_clear hclear
      rw [List.append_nil] at hpieces
      rw [hpieces]
      simp [piecesOf, pieces]
  | @site before gap rest last site sites hclear hword hmatches hrest ih =>
      rw [pieces_append_of_clear hclear, pieces_of_matches hword hmatches, ih, piecesOf_cons]

/-- The gaps and sites of some pieces, of which the first come behind the characters `gap`. -/
def gather (gap : List Char) : List Piece → List (List Char × Site) × List Char
  | [] => ([], gap)
  | .text c :: pieces => gather (gap ++ [c]) pieces
  | .site site :: pieces =>
    let (sites, last) := gather [] pieces
    ((gap, site) :: sites, last)

theorem gather_text (gap cs : List Char) (pieces : List Piece) :
    gather gap (cs.map Piece.text ++ pieces) = gather (gap ++ cs) pieces := by
  induction cs generalizing gap with
  | nil => rw [List.append_nil]; rfl
  | cons c cs ih =>
      rw [List.map_cons, List.cons_append, gather, ih, List.append_assoc, List.singleton_append]

theorem gather_piecesOf (sites : List (List Char × Site)) (last : List Char) :
    gather [] (piecesOf sites last) = (sites, last) := by
  induction sites with
  | nil =>
      have hlast := gather_text [] last []
      rwa [List.append_nil] at hlast
  | cons found sites ih =>
      obtain ⟨gap, site⟩ := found
      rw [piecesOf_cons, gather_text, List.nil_append, gather, ih]

/-- A text can be cut in one way only. -/
theorem Cut.unique {before : Option Char} {cs last otherLast : List Char}
    {sites otherSites : List (List Char × Site)} (h : Cut before cs sites last)
    (hother : Cut before cs otherSites otherLast) : otherSites = sites ∧ otherLast = last := by
  have hpieces : piecesOf otherSites otherLast = piecesOf sites last := by
    rw [← hother.pieces_eq, ← h.pieces_eq]
  have hgather := gather_piecesOf otherSites otherLast
  rw [hpieces, gather_piecesOf] at hgather
  exact Prod.mk.inj hgather.symm

theorem Cut.cons {before : Option Char} {c : Char} {rest last : List Char}
    {sites : List (List Char × Site)} (hfirst : ¬Begins before (c :: rest))
    (h : Cut (some c) rest sites last) :
    ∃ sites last, Cut before (c :: rest) sites last := by
  cases h with
  | done h =>
      refine ⟨[], c :: rest, .done (clear_cons.mpr ⟨?_, h⟩)⟩
      rwa [List.append_nil]
  | @site _ gap rest last site sites hclear hword hmatches hrest =>
      refine ⟨(c :: gap, site) :: sites, last,
        .site (clear_cons.mpr ⟨hfirst, hclear⟩) ?_ hmatches hrest⟩
      rwa [getLast?_cons_or]

/-- Every text can be cut. -/
theorem exists_cut (before : Option Char) (cs : List Char) :
    ∃ sites last, Cut before cs sites last := by
  by_cases h : Begins before cs
  · obtain ⟨hword, site, rest, hmatches, hcs⟩ := h
    have hlt : rest.length < cs.length := by
      simp only [hcs, Site.source, Piece.source, List.length_append, List.length_cons]
      omega
    obtain ⟨sites, last, hcut⟩ := exists_cut (some site.closing) rest
    rw [hcs]
    exact ⟨([], site) :: sites, last, .site (clear_nil before _) hword hmatches hcut⟩
  · cases cs with
    | nil => exact ⟨[], [], .done (clear_nil before [])⟩
    | cons c rest =>
        obtain ⟨sites, last, hcut⟩ := exists_cut (some c) rest
        exact hcut.cons h
termination_by cs.length
decreasing_by
  · exact hlt
  · exact Nat.lt_succ_self _

/-- The cut of a text can be computed. -/
theorem cut_gather_pieces (before : Option Char) (cs : List Char) :
    Cut before cs (gather [] (pieces before cs)).1 (gather [] (pieces before cs)).2 := by
  obtain ⟨sites, last, hcut⟩ := exists_cut before cs
  rw [hcut.pieces_eq, gather_piecesOf]
  exact hcut

end Assets.Esm
