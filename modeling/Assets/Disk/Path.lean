import Assets.Text.Bytes

/-!
# Paths

A path is a sequence of bytes with slashes between its names.  The operations here look at the
text of a path alone, and at no disk: a path has components, of which repeated slashes and inner
dots are no part, and it is cleaned by letting each `..` cancel the name before it.
-/

namespace Assets

/-- One name of a path, or a part between two slashes. -/
abbrev Name := List UInt8

abbrev Path := List UInt8

namespace Path

def slash : UInt8 := 0x2f

def dot : UInt8 := 0x2e

def ofString (s : String) : Path := Text.bytes s

def toShown (path : Path) : String := String.ofList (Text.lossy path)

/-- Cuts a path at every slash. -/
def split : Path → List Name
  | [] => [[]]
  | b :: rest =>
    if b = slash then [] :: split rest
    else match split rest with
      | [] => [[b]]
      | name :: names => (b :: name) :: names

def isAbsolute (path : Path) : Bool := path.head? == some slash

def endsInSlash (path : Path) : Bool := path.getLast? == some slash

inductive Component where
  | root
  /-- A dot at the start of a path. -/
  | current
  | parent
  | name (name : Name)
  deriving DecidableEq, Repr

/-- The components among parts of a path, each with the offset of its end.  `offset` is where the
first of the parts starts. -/
def mark : (offset : Nat) → List Name → List (Component × Nat)
  | _, [] => []
  | offset, part :: parts =>
    let stop := offset + part.length
    let rest := mark (stop + 1) parts
    if part = [] then rest
    else if part = [dot] then
      if offset = 0 then (.current, stop) :: rest else rest
    else if part = [dot, dot] then (.parent, stop) :: rest
    else (.name part, stop) :: rest

/-- The components of a path, each with the offset of its end. -/
def marked (path : Path) : List (Component × Nat) :=
  (if path.isAbsolute then [(.root, 1)] else []) ++ mark 0 (split path)

def components (path : Path) : List Component := path.marked.map Prod.fst

/-- The path without its last component, if it has one other than the root. -/
def parent? (path : Path) : Option Path :=
  match path.marked.reverse with
  | [] => none
  | (.root, _) :: _ => none
  | [_] => some []
  | _ :: (_, stop) :: _ => some (path.take stop)

/-- A path as seen from another one. -/
def join (base path : Path) : Path :=
  if path.isAbsolute || base.isEmpty then path
  else if base.endsInSlash then base ++ path
  else base ++ slash :: path

def Component.text : Component → Path
  | root => [slash]
  | current => [dot]
  | parent => [dot, dot]
  | name n => n

/-- Adds a component to cleaned components, the latest first.  A `..` cancels the name before it,
and is lost at the root. -/
def cancel (done : List Component) (next : Component) : List Component :=
  match next, done with
  | .current, done => done
  | .parent, .root :: rest => .root :: rest
  | .parent, .name _ :: rest => rest
  | next, done => next :: done

/-- The components that are left when every `..` has cancelled what it can. -/
def cleanComponents (path : Path) : List Component := (path.components.foldl cancel []).reverse

/-- The path of cleaned components; a single dot stands for none. -/
def clean (path : Path) : Path :=
  match path.cleanComponents with
  | [] => [dot]
  | components => (components.map Component.text).foldl join []

/-- Whether a path stays below wherever it is seen from. -/
def staysBelow (path : Path) : Bool :=
  path.components.all fun
    | .name _ => true
    | .current => true
    | _ => false

end Path

end Assets
