import Mathlib.Data.List.DropRight
import Assets.Proofs.Esm.Rewriting

/-!
# What becomes of specifiers

A script is left alone if rewriting does not change its text, so that it has to be known that
rewriting a bare specifier always shows: its target is longer, and no other specifier gets shorter
(`rewriteScript_eq_iff`).

* `isPackage_splitPackage`: a specifier is cut behind the first or second part, as the `@` says.
* `resolves_resolve`: the target of a specifier, in each of three cases.
* `only_bare_specifiers_change`: gaps, keywords and quotes stay as they are, and every specifier is
  exchanged for its target.
-/

namespace Assets.Esm

/-! ## The target of a specifier -/

/-- A text without the slashes at its end. -/
structure IsTrimmed (text trimmed : List Char) : Prop where
  append : ∃ slashes, text = trimmed ++ slashes ∧ ∀ c ∈ slashes, c = '/'
  getLast?_ne : trimmed.getLast? ≠ some '/'

theorem isTrimmed_base (options : Options) : IsTrimmed options.cdn.toList options.base where
  append := by
    refine ⟨options.cdn.toList.rtakeWhile (· = '/'), List.rdropWhile_append_rtakeWhile.symm, ?_⟩
    intro c hc
    simpa using List.mem_rtakeWhile_imp hc
  getLast?_ne := by
    intro hlast
    have hnot := List.rdropWhile_last_not (· = '/') options.cdn.toList
      (List.ne_nil_of_mem (List.mem_of_getLast? hlast))
    exact hnot (decide_eq_true (List.getLast_of_getLast?_eq_some hlast))

/-- The number of parts of a package name: two if it starts with `@`. -/
def partCount (specifier : List Char) : Nat := if specifier.head? = some '@' then 2 else 1

/-- A specifier is cut at the slash behind the last part of its package name, if there is one. -/
structure IsPackage (specifier package path : List Char) : Prop where
  append : package ++ path = specifier
  head? : ∀ c ∈ path.head?, c = '/'
  count_of_nil : path = [] → package.count '/' < partCount specifier
  count_of_ne_nil : path ≠ [] → package.count '/' + 1 = partCount specifier

theorem count_splitSlash (cs : List Char) : (splitSlash cs).1.count '/' = 0 := by
  refine List.count_eq_zero.mpr fun hmem => ?_
  have hne := List.all_eq_true.mp List.all_takeWhile '/' hmem
  simp at hne

theorem head?_splitSlash {cs : List Char} : ∀ c ∈ (splitSlash cs).2.head?, c = '/' := by
  intro c hc
  have hnot := List.head?_dropWhile_not (· ≠ '/') cs
  have hdrop : (cs.dropWhile (· ≠ '/')).head? = some c := hc
  rw [hdrop] at hnot
  simpa using hnot

/-- The first part of a package name is the whole name, unless the name starts with `@` and a second
part follows. -/
theorem splitPackage_cases (cs : List Char) :
    (∃ rest, partCount cs = 2 ∧ splitPackage cs =
        ((splitSlash cs).1 ++ '/' :: (splitSlash rest).1, (splitSlash rest).2)) ∨
      splitPackage cs = splitSlash cs ∧ (partCount cs = 1 ∨ (splitSlash cs).2 = []) := by
  unfold splitPackage
  dsimp only
  split
  · rename_i tail slash rest hrest
    have hslash : slash = '/' := head?_splitSlash slash (by rw [hrest]; rfl)
    exact .inl ⟨rest, rfl, by rw [hslash]⟩
  · rename_i cs _ _ hnot
    refine .inr ⟨rfl, ?_⟩
    by_cases hat : cs.head? = some '@'
    · obtain ⟨tail, rfl⟩ := List.head?_eq_some_iff.mp hat
      cases hrest : (splitSlash ('@' :: tail)).2 with
      | nil => exact .inr rfl
      | cons slash rest => exact (hnot tail slash rest rfl hrest).elim
    · exact .inl (if_neg hat)

theorem isPackage_splitPackage (specifier : List Char) :
    IsPackage specifier (splitPackage specifier).1 (splitPackage specifier).2 := by
  have happend := splitPackage_append specifier
  have hfirst := count_splitSlash specifier
  obtain ⟨rest, hparts, hsplit⟩ | ⟨hsplit, hparts⟩ := splitPackage_cases specifier
  · have hcount : ((splitSlash specifier).1 ++ '/' :: (splitSlash rest).1).count '/' = 1 := by
      rw [List.count_append, hfirst, List.count_cons_self, count_splitSlash]
    rw [hsplit] at happend ⊢
    refine ⟨happend, head?_splitSlash, fun _ => ?_, fun _ => ?_⟩
    · rw [hparts, hcount]
      decide
    · rw [hparts, hcount]
  · rw [hsplit] at happend ⊢
    refine ⟨happend, head?_splitSlash, fun _ => ?_, fun hne => ?_⟩
    · rw [hfirst, partCount]
      split <;> decide
    · rw [hfirst, hparts.resolve_right hne]

/-- What a specifier becomes. -/
inductive Options.Resolves (options : Options) : (specifier target : List Char) → Prop
  | kept {specifier : List Char} (h : isBare specifier = false) :
      options.Resolves specifier specifier
  | pinned {specifier base package path : List Char} {version : String}
      (h : isBare specifier = true) (hbase : IsTrimmed options.cdn.toList base)
      (hpackage : IsPackage specifier package path)
      (hpin : options.dependencies.find? (String.ofList package) = some version) :
      options.Resolves specifier (base ++ '/' :: package ++ '@' :: version.toList ++ path)
  | unpinned {specifier base package path : List Char}
      (h : isBare specifier = true) (hbase : IsTrimmed options.cdn.toList base)
      (hpackage : IsPackage specifier package path)
      (hpin : options.dependencies.find? (String.ofList package) = none) :
      options.Resolves specifier (base ++ '/' :: specifier)

theorem resolves_resolve (options : Options) (specifier : List Char) :
    options.Resolves specifier (options.resolve specifier) := by
  have hbase := isTrimmed_base options
  have hpackage := isPackage_splitPackage specifier
  cases hbare : isBare specifier with
  | false =>
      rw [Options.resolve, if_neg (by simp [hbare])]
      exact .kept hbare
  | true =>
      rw [Options.resolve, if_pos hbare, Options.url]
      dsimp only
      cases hpin : options.dependencies.find? (String.ofList (splitPackage specifier).1) with
      | some version =>
          rw [Options.pin, hpin]
          exact .pinned hbare hbase hpackage hpin
      | none =>
          rw [Options.pin, hpin]
          have htarget : options.base ++ '/' :: (splitPackage specifier).1 ++ [] ++
              (splitPackage specifier).2 = options.base ++ '/' :: specifier := by
            rw [List.append_nil, List.append_assoc, List.cons_append, splitPackage_append]
          dsimp only
          rw [htarget]
          exact .unpinned hbare hbase hpackage hpin

/-! ## Exchanged specifiers -/

def Site.withSpecifier (site : Site) (specifier : List Char) : Site :=
  { site with specifier := specifier }

/-- A script with other specifiers: its gaps, keywords and quotes as they are. -/
def exchange (target : List Char → List Char) (sites : List (List Char × Site))
    (last : List Char) : List Char :=
  sites.flatMap (fun (gap, site) =>
    gap ++ (site.withSpecifier (target site.specifier)).source) ++ last

theorem exchange_cons (target : List Char → List Char) (gap : List Char) (site : Site)
    (sites : List (List Char × Site)) (last : List Char) :
    exchange target ((gap, site) :: sites) last =
      gap ++ ((site.withSpecifier (target site.specifier)).source ++
        exchange target sites last) := by
  simp [exchange]

theorem Cut.exchange_id {before : Option Char} {cs last : List Char}
    {sites : List (List Char × Site)} (h : Cut before cs sites last) :
    exchange id sites last = cs := by
  induction h with
  | done h => rfl
  | site hclear hword hmatches hrest ih =>
      rw [exchange_cons, ih]
      rfl

theorem flatMap_rewritten_piecesOf (options : Options) (sites : List (List Char × Site))
    (last : List Char) :
    (piecesOf sites last).flatMap (Piece.rewritten options) =
      exchange options.resolve sites last := by
  have htext (cs : List Char) : (cs.map Piece.text).flatMap (Piece.rewritten options) = cs := by
    induction cs with
    | nil => rfl
    | cons c cs ih => rw [List.map_cons, List.flatMap_cons, ih]; rfl
  induction sites with
  | nil => exact htext last
  | cons found sites ih =>
      obtain ⟨gap, site⟩ := found
      rw [piecesOf_cons, List.flatMap_append, htext, List.flatMap_cons, ih, exchange_cons]
      rfl

theorem any_isBareSite_piecesOf (sites : List (List Char × Site)) (last : List Char) :
    (piecesOf sites last).any Piece.isBareSite =
      sites.any fun found => isBare found.2.specifier := by
  have htext (cs : List Char) : (cs.map Piece.text).any Piece.isBareSite = false := by
    induction cs with
    | nil => rfl
    | cons c cs ih => rw [List.map_cons, List.any_cons, ih]; rfl
  induction sites with
  | nil => exact htext last
  | cons found sites ih =>
      obtain ⟨gap, site⟩ := found
      rw [piecesOf_cons, List.any_append, htext, List.any_cons, ih, List.any_cons]
      rfl

theorem rewrite?_of_cut (options : Options) {script : String} {last : List Char}
    {sites : List (List Char × Site)} (h : Cut none script.toList sites last) :
    rewrite? options script =
      if sites.any fun found => isBare found.2.specifier then
        some (String.ofList (exchange options.resolve sites last))
      else none := by
  have htext : rewriteScript options script =
      String.ofList (exchange options.resolve sites last) := by
    rw [← String.toList_inj, String.toList_ofList, toList_rewriteScript, h.pieces_eq,
      flatMap_rewritten_piecesOf]
  have hsame := rewriteScript_eq_iff options script
  rw [htext, h.pieces_eq, any_isBareSite_piecesOf] at hsame
  rw [rewrite?, h.pieces_eq, flatMap_rewritten_piecesOf]
  cases hany : sites.any fun found => isBare found.2.specifier with
  | false => rw [if_pos (hsame.mpr hany)]; rfl
  | true =>
      rw [hany] at hsame
      rw [if_neg (by simp [hsame])]
      rfl

theorem outcome_of_cut (options : Options) {file : File} {last : List Char}
    {sites : List (List Char × Site)} (h : Cut none file.content.toList sites last) :
    (transformer options file).outcome =
      .value (if ∃ found ∈ sites, isBare found.2.specifier = true then
        some ⟨file.name, String.ofList (exchange options.resolve sites last)⟩ else none) := by
  rw [transformer, rewrite?_of_cut options h]
  by_cases hbare : ∃ found ∈ sites, isBare found.2.specifier = true
  · rw [if_pos hbare, if_pos (List.any_eq_true.mpr hbare)]
  · rw [if_neg hbare, if_neg (mt List.any_eq_true.mp hbare)]
    rfl

theorem lt_length_resolve (options : Options) {specifier : List Char}
    (h : isBare specifier = true) : specifier.length < (options.resolve specifier).length := by
  rw [Options.resolve, if_pos h]
  exact lt_length_url options specifier

/-- **Bare specifiers are exchanged, and nothing else is.**  A script is cut at the leftmost matches
of the pattern, which can be done in one way.  If none of the specifiers in them is bare, the script
is left alone; else each of them is exchanged for its target, and bare ones for longer ones. -/
theorem only_bare_specifiers_change (options : Options) (file : File) :
    ∃ sites last, Cut none file.content.toList sites last ∧
      (∀ otherSites otherLast, Cut none file.content.toList otherSites otherLast →
        otherSites = sites ∧ otherLast = last) ∧
      file.content.toList = exchange id sites last ∧
      (transformer options file).outcome =
        .value (if ∃ found ∈ sites, isBare found.2.specifier = true then
          some ⟨file.name, String.ofList (exchange options.resolve sites last)⟩ else none) ∧
      ∀ found ∈ sites, options.Resolves found.2.specifier (options.resolve found.2.specifier) ∧
        (isBare found.2.specifier = true →
          found.2.specifier.length < (options.resolve found.2.specifier).length) := by
  obtain ⟨sites, last, hcut⟩ := exists_cut none file.content.toList
  refine ⟨sites, last, hcut, fun _ _ hother => hcut.unique hother, hcut.exchange_id.symm,
    outcome_of_cut options hcut, fun found hfound => ?_⟩
  exact ⟨resolves_resolve options found.2.specifier, lt_length_resolve options⟩

end Assets.Esm
