import Assets.Text.Blank
import Assets.Text.Word

/-!
# Import sites

The places of a script where a module specifier stands: the keyword `from` or `import`, the latter
with or without an opening parenthesis, blanks, and a quoted text that is not empty and holds
neither quotes nor line breaks.  The keyword starts a word.  The two quotes need not be of one
kind.
-/

namespace Assets.Esm

structure Site where
  /-- The keyword with the blanks, and the parenthesis if there is one, after it. -/
  keyword : List Char
  opening : Char
  specifier : List Char
  closing : Char
  deriving DecidableEq, Repr

inductive Piece where
  | text (c : Char)
  | site (site : Site)
  deriving DecidableEq, Repr

def isQuote (c : Char) : Bool := c == '"' || c == '\''

def isSpecifierChar (c : Char) : Bool := !isQuote c && c != '\n'

def spanBlanks (cs : List Char) : List Char × List Char :=
  (cs.takeWhile Text.isBlank, cs.dropWhile Text.isBlank)

/-- The keyword at the start of a text, with what belongs to it. -/
def readKeyword? : List Char → Option (List Char × List Char)
  | 'f' :: 'r' :: 'o' :: 'm' :: rest =>
    let (blanks, rest) := spanBlanks rest
    some ("from".toList ++ blanks, rest)
  | 'i' :: 'm' :: 'p' :: 'o' :: 'r' :: 't' :: rest =>
    let (blanks, rest) := spanBlanks rest
    match rest with
    | '(' :: rest =>
      let (more, rest) := spanBlanks rest
      some ("import".toList ++ blanks ++ '(' :: more, rest)
    | rest => some ("import".toList ++ blanks, rest)
  | _ => none

/-- The site at the start of a text. -/
def readSite? (cs : List Char) : Option (Site × List Char) :=
  match readKeyword? cs with
  | none => none
  | some (keyword, rest) =>
    match rest with
    | [] => none
    | opening :: rest =>
      let specifier := rest.takeWhile isSpecifierChar
      match rest.dropWhile isSpecifierChar with
      | [] => none
      | closing :: rest =>
        if isQuote opening && !specifier.isEmpty && isQuote closing then
          some (⟨keyword, opening, specifier, closing⟩, rest)
        else none

theorem readKeyword?_length {cs keyword left : List Char}
    (h : readKeyword? cs = some (keyword, left)) : left.length < cs.length := by
  have hdrop : ∀ l : List Char, (spanBlanks l).2.length ≤ l.length :=
    fun l => (List.dropWhile_sublist Text.isBlank).length_le
  unfold readKeyword? at h
  split at h
  · rename_i rest
    simp only [Option.some.injEq, Prod.mk.injEq] at h
    have := hdrop rest
    rw [← h.2]; simp only [List.length_cons]; omega
  · rename_i rest
    have hrest := hdrop rest
    dsimp only at h
    split at h
    · rename_i more hmore
      have := hdrop more
      rw [hmore] at hrest
      simp only [Option.some.injEq, Prod.mk.injEq] at h
      simp only [List.length_cons] at hrest
      rw [← h.2]; simp only [List.length_cons]; omega
    · simp only [Option.some.injEq, Prod.mk.injEq] at h
      rw [← h.2]; simp only [List.length_cons]; omega
  · simp at h

theorem readSite?_length {cs left : List Char} {site : Site}
    (h : readSite? cs = some (site, left)) : left.length < cs.length := by
  unfold readSite? at h
  split at h
  · simp at h
  · rename_i keyword rest hkeyword
    have hlt := readKeyword?_length hkeyword
    split at h
    · simp at h
    · rename_i opening rest'
      split at h
      · simp at h
      · rename_i closing tail hdrop
        have hle := (List.dropWhile_sublist (l := rest') isSpecifierChar).length_le
        rw [hdrop] at hle
        dsimp only at h
        split at h
        · simp only [Option.some.injEq, Prod.mk.injEq] at h
          simp only [List.length_cons] at hlt hle
          rw [← h.2]; omega
        · simp at h

/-- Whether a keyword may start after a character. -/
def startsWord (before : Option Char) : Bool := !before.any Text.isWord

/-- Cuts a script into its import sites and all other characters, from the left.  `before` is the
character before the text. -/
def pieces (before : Option Char) : List Char → List Piece
  | [] => []
  | c :: rest =>
    match _hread : if startsWord before then readSite? (c :: rest) else none with
    | some (site, left) => .site site :: pieces (some site.closing) left
    | none => .text c :: pieces (some c) rest
termination_by cs => cs.length
decreasing_by
  · split at _hread
    · exact readSite?_length _hread
    · simp at _hread
  · simp

/-- The text of a piece. -/
def Piece.source : Piece → List Char
  | text c => [c]
  | site s => s.keyword ++ s.opening :: s.specifier ++ [s.closing]

end Assets.Esm
