import Assets.Css.Selector
import Assets.Dictionary
import Assets.Digest.Sha256
import Assets.Text.Blank

/-!
# Scoped stylesheets

The class names of a stylesheet are made local to it by a suffix: the first eight hexadecimal
digits of the digest of the name of its file.  A sheet is cut at its braces.  Only text that is
directly followed by an opening brace can hold class selectors, there only the part after its last
semicolon, and that part only if it is no at-rule.
-/

namespace Assets.Css

/-- A stretch of a sheet without braces, and the brace that ends it. -/
structure Stretch where
  text : List Char
  brace : Option Char
  deriving DecidableEq, Repr

/-- Cuts a sheet at its braces. -/
def stretches : List Char → List Stretch
  | [] => [⟨[], none⟩]
  | c :: rest =>
    if c = '\x7b' ∨ c = '\x7d' then ⟨[], some c⟩ :: stretches rest
    else match stretches rest with
      | [] => [⟨[c], none⟩]
      | stretch :: more => ⟨c :: stretch.text, stretch.brace⟩ :: more

/-- The part of a text up to and including its last semicolon. -/
def statements (text : List Char) : List Char := (text.reverse.dropWhile (· ≠ ';')).reverse

/-- The part of a text after its last semicolon. -/
def selectorList (text : List Char) : List Char := (text.reverse.takeWhile (· ≠ ';')).reverse

namespace Stretch

/-- The tokens of the selector list that a stretch ends with; none if it does not open a block of
a selector list. -/
def selectorTokens (stretch : Stretch) : List Token :=
  if stretch.brace = some '\x7b' ∧ (Text.dropBlanks (selectorList stretch.text)).head? ≠ some '@'
  then tokens (selectorList stretch.text) else []

/-- The text of a stretch with a suffix on its class names. -/
def withSuffix (suffix : List Char) (stretch : Stretch) : List Char :=
  let text :=
    if stretch.brace = some '\x7b' ∧ (Text.dropBlanks (selectorList stretch.text)).head? ≠ some '@'
    then statements stretch.text ++ stretch.selectorTokens.flatMap (Token.withSuffix suffix)
    else stretch.text
  text ++ stretch.brace.toList

end Stretch

def suffixFor (source : String) : List Char := (digest source).toList.take 8

/-- The class names of a sheet, in the order of their places. -/
def classNames (sheet : List Char) : List (List Char) :=
  (stretches sheet).flatMap fun stretch => stretch.selectorTokens.filterMap Token.name?

/-- A sheet with a suffix on every class name. -/
def scopeSheet (suffix sheet : List Char) : List Char :=
  (stretches sheet).flatMap (Stretch.withSuffix suffix)

/-- What scoping gives: the sheet, and the scoped name of every class. -/
structure ScopedSheet where
  sheet : String
  classes : Dictionary String
  deriving DecidableEq, Repr

/-- Scopes a sheet to a file. -/
def scope (sheet source : String) : ScopedSheet :=
  let suffix := suffixFor source
  ⟨String.ofList (scopeSheet suffix sheet.toList),
    Dictionary.ofList ((classNames sheet.toList).map fun name =>
      (String.ofList name, String.ofList (name ++ '_' :: suffix)))⟩

end Assets.Css
