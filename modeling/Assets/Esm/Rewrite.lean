import Assets.Dictionary
import Assets.Esm.Site
import Assets.Plugin.Capability

/-!
# Rewriting imports

A bare specifier names a package; every other specifier is a path, a fragment or a URL.  Bare
specifiers are pointed at a content delivery network, with a version if their package is pinned to
one.  Nothing else in a script is changed.
-/

namespace Assets.Esm

/-- Where bare specifiers point, and the versions that packages are pinned to. -/
structure Options where
  cdn : String := "https://esm.sh"
  dependencies : Dictionary String := []
  deriving DecidableEq, Repr, Inhabited

/-- A specifier that names a package: it starts with no dot, slash or hash, and has no colon. -/
def isBare (specifier : List Char) : Bool :=
  (match specifier with
    | c :: _ => c != '.' && c != '/' && c != '#'
    | [] => true) && !specifier.contains ':'

/-- Everything before the first slash, and everything from it on. -/
def splitSlash (cs : List Char) : List Char × List Char :=
  (cs.takeWhile (· ≠ '/'), cs.dropWhile (· ≠ '/'))

/-- The package of a specifier, and the path in the package.  The name of a package whose first
character is `@` has two parts. -/
def splitPackage (specifier : List Char) : List Char × List Char :=
  let (first, rest) := splitSlash specifier
  match specifier, rest with
  | '@' :: _, slash :: rest =>
    let (second, rest) := splitSlash rest
    (first ++ slash :: second, rest)
  | _, _ => (first, rest)

/-- The base of every rewritten specifier: the network without its trailing slashes. -/
def Options.base (options : Options) : List Char :=
  (options.cdn.toList.reverse.dropWhile (· = '/')).reverse

/-- The version that a package is pinned to, with the `@` before it. -/
def Options.pin (options : Options) (package : List Char) : List Char :=
  match options.dependencies.find? (String.ofList package) with
  | some version => '@' :: version.toList
  | none => []

def Options.url (options : Options) (specifier : List Char) : List Char :=
  let (package, path) := splitPackage specifier
  options.base ++ '/' :: package ++ options.pin package ++ path

def Options.resolve (options : Options) (specifier : List Char) : List Char :=
  if isBare specifier then options.url specifier else specifier

def Piece.rewritten (options : Options) : Piece → List Char
  | text c => [c]
  | site s => s.keyword ++ s.opening :: options.resolve s.specifier ++ [s.closing]

/-- A script with its bare specifiers rewritten, or nothing if that does not change it. -/
def rewrite? (options : Options) (script : String) : Option String :=
  let rewritten :=
    String.ofList ((pieces none script.toList).flatMap (Piece.rewritten options))
  if rewritten = script then none else some rewritten

/-- Takes scripts, which keep their names. -/
def resolver : Resolver :=
  fun id => .value (if hasSuffix ".js" id || hasSuffix ".mjs" id then some id else none)

def transformer (options : Options) : Transformer := fun file =>
  match rewrite? options file.content with
  | none => .value none
  | some script =>
    ⟨[.report ⟨.debug, "Rewrote bare imports", [("file", file.name)]⟩],
      .value (some ⟨file.name, script⟩)⟩

def plugin (options : Options) : Plugin := ⟨"esm", some resolver, none, some (transformer options)⟩

end Assets.Esm
