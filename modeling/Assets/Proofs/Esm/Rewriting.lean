import Assets.Esm.Rewrite
import Assets.Proofs.Esm.Cutting

/-!
# What rewriting changes

A script is the concatenation of its pieces (`flatMap_source_pieces`), and rewriting acts on one
piece at a time.  A piece that is no bare site keeps its text, and the text of a bare site grows:
its URL holds the whole specifier behind a base and a slash (`lt_length_url`).  Since no piece ever
shrinks, growth in one place is not made up for elsewhere, and so

* `rewriteScript_eq_iff`: a script is left as it is if and only if it has no bare site.

Of a bare site only the specifier is exchanged, and its URL is put together from the specifier and
the options (`mem_url`).  So

* `mem_rewriteScript`: every character of a rewritten script is one of the script or one that the
  options supply.
-/

namespace Assets.Esm

/-! ## The pieces are the script -/

/-- Nothing of a script is lost between its pieces. -/
theorem flatMap_source_pieces (before : Option Char) (cs : List Char) :
    (pieces before cs).flatMap Piece.source = cs := by
  fun_induction pieces before cs with
  | case1 => rfl
  | case2 before c rest site left hread ih =>
      have hsite : readSite? (c :: rest) = some (site, left) := by
        split at hread
        · exact hread
        · simp at hread
      rw [List.flatMap_cons, ih]
      exact (readSite?_eq_some_iff.mp hsite).2.symm
  | case3 before c rest hread ih =>
      rw [List.flatMap_cons, ih]
      rfl

/-! ## Only bare sites change -/

theorem splitSlash_append (cs : List Char) : (splitSlash cs).1 ++ (splitSlash cs).2 = cs :=
  List.takeWhile_append_dropWhile

/-- The package and the path of a specifier are the specifier. -/
theorem splitPackage_append (specifier : List Char) :
    (splitPackage specifier).1 ++ (splitPackage specifier).2 = specifier := by
  have hfirst := splitSlash_append specifier
  unfold splitPackage
  dsimp only
  split
  · rename_i slash rest hrest
    rw [hrest] at hfirst
    rw [List.append_assoc, List.cons_append, splitSlash_append, hfirst]
  · exact hfirst

/-- A URL is longer than the specifier it stands for: it has a slash more. -/
theorem lt_length_url (options : Options) (specifier : List Char) :
    specifier.length < (options.url specifier).length := by
  have hsplit := congrArg List.length (splitPackage_append specifier)
  simp only [Options.url, List.length_append, List.length_cons] at hsplit ⊢
  omega

/-- Whether a piece is a site with a bare specifier. -/
def Piece.isBareSite : Piece → Bool
  | text _ => false
  | site s => isBare s.specifier

theorem rewritten_of_not_isBareSite {options : Options} {piece : Piece}
    (h : piece.isBareSite = false) : piece.rewritten options = piece.source := by
  cases piece with
  | text c => rfl
  | site s =>
      have hspecifier : isBare s.specifier = false := h
      simp [Piece.rewritten, Piece.source, Options.resolve, hspecifier]

theorem length_source_lt_of_isBareSite (options : Options) {piece : Piece}
    (h : piece.isBareSite = true) : piece.source.length < (piece.rewritten options).length := by
  cases piece with
  | text c => simp [Piece.isBareSite] at h
  | site s =>
      have hspecifier : isBare s.specifier = true := h
      have hlonger := lt_length_url options s.specifier
      simp only [Piece.rewritten, Piece.source, Options.resolve, hspecifier, if_true,
        List.length_append, List.length_cons]
      omega

theorem length_source_le_rewritten (options : Options) (piece : Piece) :
    piece.source.length ≤ (piece.rewritten options).length := by
  cases h : piece.isBareSite with
  | false => simp [rewritten_of_not_isBareSite h]
  | true => exact Nat.le_of_lt (length_source_lt_of_isBareSite options h)

/-! ## Whole scripts -/

theorem flatMap_rewritten_of_not_any {options : Options} {pieces : List Piece}
    (h : pieces.any Piece.isBareSite = false) :
    pieces.flatMap (Piece.rewritten options) = pieces.flatMap Piece.source := by
  simp only [List.any_eq_false, Bool.not_eq_true] at h
  induction pieces with
  | nil => rfl
  | cons piece pieces ih =>
      rw [List.flatMap_cons, List.flatMap_cons,
        rewritten_of_not_isBareSite (h piece (List.mem_cons_self ..)),
        ih fun other hother => h other (List.mem_cons_of_mem _ hother)]

theorem length_flatMap_source_le (options : Options) (pieces : List Piece) :
    (pieces.flatMap Piece.source).length ≤
      (pieces.flatMap (Piece.rewritten options)).length := by
  induction pieces with
  | nil => simp
  | cons piece pieces ih =>
      have := length_source_le_rewritten options piece
      simp only [List.flatMap_cons, List.length_append]
      omega

/-- One bare site makes a script longer, since no piece gets shorter. -/
theorem length_flatMap_source_lt (options : Options) {pieces : List Piece}
    (h : pieces.any Piece.isBareSite = true) :
    (pieces.flatMap Piece.source).length <
      (pieces.flatMap (Piece.rewritten options)).length := by
  induction pieces with
  | nil => simp at h
  | cons piece pieces ih =>
      simp only [List.flatMap_cons, List.length_append]
      rw [List.any_cons, Bool.or_eq_true] at h
      -- the bare site is this piece or a later one; the other pieces do not shrink
      rcases h with hpiece | hpieces
      · have := length_source_lt_of_isBareSite options hpiece
        have := length_flatMap_source_le options pieces
        omega
      · have := length_source_le_rewritten options piece
        have := ih hpieces
        omega

/-- The text of a script once its bare sites are rewritten. -/
def rewriteScript (options : Options) (script : String) : String :=
  (rewrite? options script).getD script

theorem toList_rewriteScript (options : Options) (script : String) :
    (rewriteScript options script).toList =
      (pieces none script.toList).flatMap (Piece.rewritten options) := by
  unfold rewriteScript rewrite?
  dsimp only
  split
  case isTrue hsame => exact (congrArg String.toList hsame).symm.trans String.toList_ofList
  case isFalse => exact String.toList_ofList

/-- A script without bare sites is left alone, and no other script is. -/
theorem rewriteScript_eq_iff (options : Options) (script : String) :
    rewriteScript options script = script ↔
      (pieces none script.toList).any Piece.isBareSite = false := by
  rw [← String.toList_inj, toList_rewriteScript]
  cases h : (pieces none script.toList).any Piece.isBareSite with
  | false => simp [flatMap_rewritten_of_not_any h, flatMap_source_pieces]
  | true =>
      have hlonger := length_flatMap_source_lt options h
      rw [flatMap_source_pieces] at hlonger
      simp only [Bool.true_eq_false, iff_false]
      intro hsame
      rw [hsame] at hlonger
      exact Nat.lt_irrefl _ hlonger

theorem length_le_rewriteScript (options : Options) (script : String) :
    script.toList.length ≤ (rewriteScript options script).toList.length := by
  have hle := length_flatMap_source_le options (pieces none script.toList)
  rwa [flatMap_source_pieces, ← toList_rewriteScript] at hle

/-! ## Where the characters of a rewritten script come from -/

/-- The characters that the options can bring into a script: those of the base and of the pins, and
the two that hold a URL together. -/
def Options.Supplies (options : Options) (c : Char) : Prop :=
  c = '/' ∨ c = '@' ∨ c ∈ options.cdn.toList ∨
    ∃ package, ∃ version ∈ options.dependencies.find? package, c ∈ version.toList

theorem supplies_of_mem_base {options : Options} {c : Char} (h : c ∈ options.base) :
    options.Supplies c := by
  have hsub := (List.dropWhile_sublist (l := options.cdn.toList.reverse) (· = '/')).subset
  exact .inr (.inr (.inl (List.mem_reverse.mp (hsub (List.mem_reverse.mp h)))))

theorem supplies_of_mem_pin {options : Options} {package : List Char} {c : Char}
    (h : c ∈ options.pin package) : options.Supplies c := by
  unfold Options.pin at h
  split at h
  · rename_i version hversion
    rcases List.mem_cons.mp h with rfl | hc
    · exact .inr (.inl rfl)
    · exact .inr (.inr (.inr ⟨_, version, hversion, hc⟩))
  · simp at h

theorem mem_url {options : Options} {specifier : List Char} {c : Char}
    (h : c ∈ options.url specifier) : c ∈ specifier ∨ options.Supplies c := by
  simp only [Options.url, List.mem_append, List.mem_cons] at h
  rw [← splitPackage_append specifier, List.mem_append]
  rcases h with ((hbase | hslash | hpackage) | hpin) | hpath
  · exact .inr (supplies_of_mem_base hbase)
  · exact .inr (.inl hslash)
  · exact .inl (.inl hpackage)
  · exact .inr (supplies_of_mem_pin hpin)
  · exact .inl (.inr hpath)

theorem mem_rewritten {options : Options} {piece : Piece} {c : Char}
    (h : c ∈ piece.rewritten options) : c ∈ piece.source ∨ options.Supplies c := by
  cases hbare : piece.isBareSite with
  | false => exact .inl (rewritten_of_not_isBareSite hbare ▸ h)
  | true =>
      cases piece with
      | text c => simp [Piece.isBareSite] at hbare
      | site s =>
          have hspecifier : isBare s.specifier = true := hbare
          simp only [Piece.rewritten, Options.resolve, hspecifier, if_true, List.mem_append,
            List.mem_cons] at h
          simp only [Piece.source, List.mem_append, List.mem_cons]
          -- only the specifier is exchanged; keyword and quotes stay
          rcases h with (hkeyword | hopening | hurl) | hclosing
          · exact .inl (.inl (.inl hkeyword))
          · exact .inl (.inl (.inr (.inl hopening)))
          · exact (mem_url hurl).imp_left fun hmem => .inl (.inr (.inr hmem))
          · exact .inl (.inr hclosing)

/-- Rewriting brings no character into a script but those of the options. -/
theorem mem_rewriteScript {options : Options} {script : String} {c : Char}
    (h : c ∈ (rewriteScript options script).toList) :
    c ∈ script.toList ∨ options.Supplies c := by
  rw [toList_rewriteScript] at h
  obtain ⟨piece, hpiece, hc⟩ := List.mem_flatMap.mp h
  refine (mem_rewritten hc).imp_left fun hsource => ?_
  rw [← flatMap_source_pieces none script.toList]
  exact List.mem_flatMap.mpr ⟨piece, hpiece, hsource⟩

end Assets.Esm
