import Assets.Proofs.Dictionary.Union
import Assets.Proofs.Esm.Specifiers

/-!
# Rewriting twice

A URL that is put into a script is not rewritten again, since it is not bare (`isBare_resolve`).
But the second time another text is read, and its matches have to be where the matches of the script
were.

* A match that begins in a gap of the new text ends at the next opening quote or before it, or else
  its keyword goes right to this quote (`Site.Matches.keyword_or_source`).  In the first case it
  does not see the new specifier and was there before.
* In the second case the keyword of the site would be the end of a longer one, but the first letter
  of a keyword does not come again in it (`IsKeyword.eq_nil_of_append`).
* So gaps stay clear whatever is put behind an opening quote (`Clear.congr_tail`), and the new text
  is cut where the script was (`cut_exchange`).  From behind the closing quote on, nothing depends
  on what came before it.

`rewritten_script_left_alone` is for options with which targets have no quotes and line breaks and
are never bare (`Options.Settled`).
-/

namespace Assets.Esm

/-! ## Matches in front of an exchanged specifier -/

/-- A character that neither starts a keyword nor encloses a specifier. -/
abbrev IsInner (c : Char) : Prop := c ≠ 'f' ∧ c ≠ 'i' ∧ isQuote c = false

theorem Blanks.isInner {blanks : List Char} (h : Blanks blanks) : ∀ c ∈ blanks, IsInner c := by
  intro c hc
  have hblank := h c hc
  refine ⟨?_, ?_, ?_⟩
  · rintro rfl
    cases hblank
  · rintro rfl
    cases hblank
  · by_contra hquote
    rw [isBlank_of_isQuote (by simpa using hquote)] at hblank
    cases hblank

/-- The first letter of a keyword comes once. -/
theorem IsKeyword.exists_cons {keyword : List Char} (h : IsKeyword keyword) :
    ∃ first inner, keyword = first :: inner ∧ (first = 'f' ∨ first = 'i') ∧
      ∀ c ∈ inner, IsInner c := by
  have hrom : ∀ c ∈ "rom".toList, IsInner c := by simp [IsInner, isQuote]
  have hmport : ∀ c ∈ "mport".toList, IsInner c := by simp [IsInner, isQuote]
  cases h with
  | @exporting blanks h =>
      exact ⟨'f', "rom".toList ++ blanks, rfl, .inl rfl,
        List.forall_mem_append.mpr ⟨hrom, h.isInner⟩⟩
  | @importing blanks h =>
      exact ⟨'i', "mport".toList ++ blanks, rfl, .inr rfl,
        List.forall_mem_append.mpr ⟨hmport, h.isInner⟩⟩
  | @calling blanks more h hmore =>
      exact ⟨'i', "mport".toList ++ blanks ++ '(' :: more, rfl, .inr rfl,
        List.forall_mem_append.mpr ⟨List.forall_mem_append.mpr ⟨hmport, h.isInner⟩,
          List.forall_mem_cons.mpr ⟨by decide, hmore.isInner⟩⟩⟩

theorem IsKeyword.notMem {keyword : List Char} (h : IsKeyword keyword) {quote : Char}
    (hquote : isQuote quote = true) : quote ∉ keyword := by
  obtain ⟨first, inner, rfl, hfirst, hinner⟩ := h.exists_cons
  intro hmem
  rcases List.mem_cons.mp hmem with rfl | hmem
  · rcases hfirst with rfl | rfl <;> cases hquote
  · rw [(hinner quote hmem).2.2] at hquote
    cases hquote

/-- A keyword does not start inside of another one. -/
theorem IsKeyword.eq_nil_of_append {front keyword : List Char} (h : IsKeyword keyword)
    (happend : IsKeyword (front ++ keyword)) : front = [] := by
  obtain ⟨first, inner, rfl, hfirst, -⟩ := h.exists_cons
  obtain ⟨other, outer, hcons, -, houter⟩ := happend.exists_cons
  cases front with
  | nil => rfl
  | cons c front =>
      obtain ⟨rfl, rfl⟩ := List.cons.inj hcons
      have hinner := houter first (List.mem_append_right _ List.mem_cons_self)
      exact (hfirst.elim hinner.1 hinner.2.1).elim

theorem Site.Matches.notMem_specifier {site : Site} (h : site.Matches) {quote : Char}
    (hquote : isQuote quote = true) : quote ∉ site.specifier := by
  intro hmem
  have hchar := h.specifier quote hmem
  rw [isSpecifierChar_of_isQuote hquote] at hchar
  cases hchar

/-- A match that begins in front of a quote ends there at the latest, unless its keyword goes right
to the quote. -/
theorem Site.Matches.keyword_or_source {site : Site} (h : site.Matches)
    {front tail rest : List Char} {quote : Char} (hquote : isQuote quote = true)
    (happend : site.source ++ rest = front ++ quote :: tail) :
    site.keyword = front ∨ ∃ more, site.source ++ more = front ++ [quote] := by
  have hfront : front ++ quote :: tail = front ++ [quote] ++ tail := by simp
  rw [hfront] at happend
  obtain ⟨more, hmore, -⟩ | ⟨more, hsource, -⟩ := List.append_eq_append_iff.mp happend
  · exact .inr ⟨more, hmore.symm⟩
  · obtain rfl | ⟨inner, last, rfl⟩ := List.eq_nil_or_concat more
    · exact .inr ⟨[], by rw [List.append_nil, hsource, List.append_nil]⟩
    · -- the quote is not the last one of the match, and there is only one other
      left
      have hopening : site.keyword ++ site.opening :: site.specifier = front ++ quote :: inner := by
        have hlast : (site.keyword ++ site.opening :: site.specifier) ++ [site.closing] =
            (front ++ quote :: inner) ++ [last] := by
          simpa [Site.source, Piece.source] using hsource
        exact (List.append_inj' hlast rfl).1
      exact ((List.append_cons_inj_of_notMem (h.keyword.notMem hquote)
        (h.notMem_specifier hquote)).mp hopening).1

/-- What stands behind an opening quote does not matter for the matches that begin in front of its
keyword. -/
theorem Clear.congr_tail {before : Option Char} {gap keyword tail : List Char} {quote : Char}
    (h : Clear before gap (keyword ++ quote :: tail)) (hkeyword : IsKeyword keyword)
    (hquote : isQuote quote = true) (other : List Char) :
    Clear before gap (keyword ++ quote :: other) := by
  rintro front c back hgap ⟨hword, site, rest, hmatches, hsource⟩
  rw [← List.append_assoc] at hsource
  obtain hkeywords | ⟨more, hmore⟩ := hmatches.keyword_or_source hquote hsource.symm
  · have hnil := hkeyword.eq_nil_of_append (hkeywords ▸ hmatches.keyword)
    cases hnil
  · refine h front c back hgap ⟨hword, site, more ++ tail, hmatches, ?_⟩
    rw [← List.append_assoc, ← List.append_assoc, hmore]
    simp

/-! ## Targets are settled -/

/-- Options whose network is a URL or a path, and which bring neither quotes nor line breaks into a
script. -/
structure Options.Settled (options : Options) : Prop where
  absolute : ':' ∈ options.cdn.toList ∨
    ∃ c ∈ options.cdn.toList.head?, c = '/' ∨ c = '.' ∨ c = '#'
  cdn : ∀ c ∈ options.cdn.toList, isSpecifierChar c = true
  pins : ∀ package, ∀ version ∈ options.dependencies.find? package,
    ∀ c ∈ version.toList, isSpecifierChar c = true

theorem isBare_eq_false_of_mem {specifier : List Char} (h : ':' ∈ specifier) :
    isBare specifier = false := by
  simp [isBare, h]

theorem isBare_eq_false_of_head? {specifier : List Char} {c : Char}
    (h : c ∈ specifier.head?) (hc : c = '/' ∨ c = '.' ∨ c = '#') : isBare specifier = false := by
  obtain ⟨rest, rfl⟩ := List.head?_eq_some_iff.mp h
  rcases hc with rfl | rfl | rfl <;> rfl

/-- The sites of a script after it is rewritten. -/
def Options.resolveSites (options : Options) (sites : List (List Char × Site)) :
    List (List Char × Site) :=
  sites.map fun (gap, site) => (gap, site.withSpecifier (options.resolve site.specifier))

section

variable {options : Options} (hoptions : options.Settled)

include hoptions

theorem Options.Settled.isSpecifierChar_of_supplies {c : Char} (h : options.Supplies c) :
    isSpecifierChar c = true := by
  rcases h with rfl | rfl | hcdn | ⟨package, version, hversion, hc⟩
  · rfl
  · rfl
  · exact hoptions.cdn c hcdn
  · exact hoptions.pins package version hversion c hc

/-- A URL is absolute as the network is: trailing slashes do not make the difference. -/
theorem Options.Settled.isBare_url (specifier : List Char) :
    isBare (options.url specifier) = false := by
  obtain ⟨⟨slashes, hcdn, hslashes⟩, -⟩ := isTrimmed_base options
  have hurl : ∃ path, options.url specifier = options.base ++ '/' :: path :=
    ⟨(splitPackage specifier).1 ++ options.pin (splitPackage specifier).1 ++
      (splitPackage specifier).2, by simp [Options.url]⟩
  obtain ⟨path, hurl⟩ := hurl
  rw [hurl]
  rcases hoptions.absolute with hcolon | ⟨c, hhead, hc⟩
  · rw [hcdn, List.mem_append] at hcolon
    have hbase : ':' ∈ options.base := hcolon.resolve_right fun hmem => by cases hslashes _ hmem
    exact isBare_eq_false_of_mem (List.mem_append_left _ hbase)
  · cases hbase : options.base with
    | nil => exact isBare_eq_false_of_head? rfl (.inl rfl)
    | cons first base =>
        rw [hcdn, hbase] at hhead
        exact isBare_eq_false_of_head? hhead hc

theorem Options.Settled.isBare_resolve (specifier : List Char) :
    isBare (options.resolve specifier) = false := by
  rw [Options.resolve]
  split
  case isTrue => exact hoptions.isBare_url specifier
  case isFalse hbare => simpa using hbare

theorem Options.Settled.matches_resolve {site : Site} (h : site.Matches) :
    (site.withSpecifier (options.resolve site.specifier)).Matches where
  keyword := h.keyword
  opening := h.opening
  specifier_ne := by
    show options.resolve site.specifier ≠ []
    by_cases hbare : isBare site.specifier = true
    · have hlonger := lt_length_resolve options hbare
      exact List.ne_nil_of_length_pos (Nat.zero_lt_of_lt hlonger)
    · rw [Options.resolve, if_neg hbare]
      exact h.specifier_ne
  specifier := by
    show ∀ c ∈ options.resolve site.specifier, isSpecifierChar c = true
    intro c hc
    rw [Options.resolve] at hc
    split at hc
    case isTrue =>
        rcases mem_url hc with hspecifier | hsupplies
        · exact h.specifier c hspecifier
        · exact hoptions.isSpecifierChar_of_supplies hsupplies
    case isFalse => exact h.specifier c hc
  closing := h.closing

/-- The rewritten script is cut where the script is: the gaps stay clear, and each site is matched
with its target. -/
theorem Options.Settled.cut_exchange {before : Option Char} {cs last : List Char}
    {sites : List (List Char × Site)} (h : Cut before cs sites last) :
    Cut before (exchange options.resolve sites last)
      (options.resolveSites sites) last := by
  induction h with
  | done hclear => exact .done hclear
  | @site before gap rest last site sites hclear hword hmatches hrest ih =>
      rw [exchange_cons]
      rw [Site.source_append] at hclear
      have hexchanged := hclear.congr_tail hmatches.keyword hmatches.opening
        (options.resolve site.specifier ++ site.closing :: exchange options.resolve sites last)
      refine .site ?_ hword (hoptions.matches_resolve hmatches) ih
      rw [Site.source_append]
      exact hexchanged

end

/-- **Rewriting is done after the first time.**  What comes out of rewriting is left alone when it
is rewritten with the same options. -/
theorem rewritten_script_left_alone (options : Options) (hoptions : options.Settled)
    (file rewritten : File)
    (h : (transformer options file).outcome = .value (some rewritten)) :
    (transformer options rewritten).outcome = .value none := by
  obtain ⟨sites, last, hcut⟩ := exists_cut none file.content.toList
  rw [outcome_of_cut options hcut] at h
  split at h
  case isFalse => cases h
  case isTrue =>
      have hrewritten := Option.some.inj (Outcome.value.inj h)
      have hagain : Cut none rewritten.content.toList (options.resolveSites sites) last := by
        rw [← hrewritten, String.toList_ofList]
        exact hoptions.cut_exchange hcut
      have hnone : ¬∃ found ∈ options.resolveSites sites, isBare found.2.specifier = true := by
        rintro ⟨found, hfound, hbare⟩
        obtain ⟨⟨gap, site⟩, -, rfl⟩ := List.mem_map.mp hfound
        have hresolved : isBare (options.resolve site.specifier) = true := hbare
        rw [hoptions.isBare_resolve] at hresolved
        cases hresolved
      rw [outcome_of_cut options hagain, if_neg hnone]

/-- Keywords inside of specifiers, and a specifier between two texts. -/
theorem rewritten_script_left_alone_keywords :
    let options : Options := ⟨"/lib/", [("import", "1.0.0")]⟩
    let file : File := ⟨"a.js", "export * from'import'; f(\"from\",'@a/from/b')"⟩
    let rewritten : File := ⟨"a.js",
      "export * from'/lib/import@1.0.0'; f(\"from\"/lib/,'@a/from/b')"⟩
    options.Settled ∧ (transformer options file).outcome = .value (some rewritten) ∧
      (transformer options rewritten).outcome = .value none := by
  intro options file rewritten
  have hoptions : options.Settled := by
    refine ⟨.inr ⟨'/', by decide, .inl rfl⟩, List.all_eq_true.mp (by decide), ?_⟩
    intro package version hversion
    have hpin : version = "1.0.0" := by
      rw [Option.mem_def, Dictionary.find?_cons, Dictionary.find?_nil] at hversion
      split at hversion
      · exact (Option.some.inj hversion).symm
      · cases hversion
    rw [hpin]
    exact List.all_eq_true.mp (by decide)
  have hrewritten : (transformer options file).outcome = .value (some rewritten) := by
    decide +kernel
  exact ⟨hoptions, hrewritten,
    rewritten_script_left_alone options hoptions file rewritten hrewritten⟩

end Assets.Esm
