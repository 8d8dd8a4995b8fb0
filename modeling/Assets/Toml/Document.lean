import Assets.Toml.Scalar

/-!
# TOML documents

A document is read as a list of statements, which are then put together into one table.  A table
may be made by a header, by a dotted key, or on the way to another table.  It keeps how it was
made, because a header may open a table once, and only if it was made on the way to another table,
and a dotted key may add only to tables that dotted keys made.
-/

namespace Assets.Toml

/-- How a table came to be. -/
inductive Origin where
  /-- On the way to the table of a header. -/
  | implied
  /-- On the way to the value of a dotted key. -/
  | dotted
  /-- By a header of its own, or as the root. -/
  | explicit
  deriving DecidableEq, Repr

/-- What stands under a key. -/
inductive Node where
  | value (data : Data)
  | table (origin : Origin) (entries : List (String × Node))
  /-- Tables of one name, each opened by a header of its own; the latest is first. -/
  | tables (items : List (List (String × Node)))
  deriving Inhabited

/-- Keys in the order in which they came. -/
abbrev Entries := List (String × Node)

namespace Entries

/-- Changes what stands under a key in place, or appends it. -/
def put (key : String) (node : Node) : Entries → Entries
  | [] => [(key, node)]
  | entry :: rest => if entry.1 = key then (key, node) :: rest else entry :: put key node rest

def remove (key : String) (entries : Entries) : Entries := entries.filter (·.1 ≠ key)

/-- Goes down a path, making the tables that are missing, and changes the entries at its end.
`made` is the origin of the tables that are made. -/
def update (made : Origin) (change : Origin → Entries → Option Entries) :
    (path : List String) → Origin → Entries → Option Entries
  | [], origin, entries => change origin entries
  | key :: path, _, entries => do
    match entries.lookup key with
    | none => return entries.put key (.table made (← update made change path made []))
    | some (.table origin inner) =>
      if made = .dotted ∧ origin = .explicit then none
      else return entries.put key (.table origin (← update made change path origin inner))
    | some (.tables (last :: earlier)) =>
      return entries.put key (.tables ((← update made change path .explicit last) :: earlier))
    | some _ => none

/-- The entries at the end of a path. -/
def find? : List String → Entries → Option Entries
  | [], entries => some entries
  | key :: path, entries =>
    match entries.lookup key with
    | some (.table _ inner) => find? path inner
    | some (.tables (last :: _)) => find? path last
    | _ => none

/-- Gives a key a value.  The key must be new, and the table at the end of a dotted path must have
been made by dotted keys. -/
def assign (path : List String) (key : String) (data : Data) (entries : Entries) :
    Option Entries :=
  update .dotted (fun origin inner =>
    if path.isEmpty = (origin = .dotted : Bool) then none
    else if (inner.lookup key).isSome then none
    else some (inner.put key (.value data))) path .explicit entries

end Entries

mutual

def Node.toData : Node → Data
  | .value data => data
  | .table _ entries => .mapping (entriesToData entries)
  | .tables items => .sequence (itemsToData items).reverse

def entriesToData : List (String × Node) → List (String × Data)
  | [] => []
  | (key, node) :: entries => (key, node.toData) :: entriesToData entries

def itemsToData : List (List (String × Node)) → List Data
  | [] => []
  | entries :: items => .mapping (entriesToData entries) :: itemsToData items

end

/-! ## Reading -/

/-- Keys and values may nest or be dotted up to this many levels, not included. -/
def nestingLimit : Nat := 80

def isBareKeyChar (c : Char) : Bool := c.isAlphanum || c == '-' || c == '_'

def readKeyPart (cs : List Char) : Option (String × List Char) :=
  match cs with
  | '"' :: rest => (readBasic (rest.length + 1) rest).map fun (s, left) => (String.ofList s, left)
  | '\'' :: rest => (readLiteral rest).map fun (s, left) => (String.ofList s, left)
  | cs =>
    match cs.takeWhile isBareKeyChar with
    | [] => none
    | key => some (String.ofList key, cs.dropWhile isBareKeyChar)

/-- A key with its dots, and the blanks around it.  Every part takes a character. -/
def readKeyParts : (fuel : Nat) → List Char → Option (List String × List Char)
  | 0, _ => none
  | fuel + 1, cs => do
    let (part, rest) ← readKeyPart (skipBlanks cs)
    match skipBlanks rest with
    | '.' :: rest =>
      let (parts, rest) ← readKeyParts fuel rest
      return (part :: parts, rest)
    | rest => return ([part], rest)

/-- A key: the path to its table, and its last part. -/
def readKey (cs : List Char) : Option ((List String × String) × List Char) := do
  let (parts, rest) ← readKeyParts (cs.length + 1) cs
  match parts.getLast? with
  | some last => if parts.length < nestingLimit then some ((parts.dropLast, last), rest) else none
  | none => none

/-- Skips blanks, line breaks and comments between the items of a list. -/
def skipTrivia : (fuel : Nat) → List Char → List Char
  | 0, cs => cs
  | fuel + 1, cs =>
    match skipBlanks cs with
    | '#' :: rest =>
      match dropNewline? (rest.dropWhile isPlain) with
      | some rest => skipTrivia fuel rest
      | none => '#' :: rest
    | cs =>
      match dropNewline? cs with
      | some rest => skipTrivia fuel rest
      | none => cs

/-- The items of a list, after its opening bracket and through its closing one. -/
def readItems (item : List Char → Option (Data × List Char)) :
    (fuel : Nat) → List Char → Option (List Data × List Char)
  | 0, _ => none
  | fuel + 1, cs =>
    match skipTrivia (cs.length + 1) cs with
    | ']' :: rest => some ([], rest)
    | cs => do
      let (x, rest) ← item cs
      match skipTrivia (rest.length + 1) rest with
      | ']' :: rest => return ([x], rest)
      | ',' :: rest =>
        let (xs, rest) ← readItems item fuel rest
        return (x :: xs, rest)
      | _ => none

/-- A key with its value, and the blanks after it. -/
def readPair (value : List Char → Option (Data × List Char)) (cs : List Char) :
    Option (((List String × String) × Data) × List Char) := do
  let (key, rest) ← readKey cs
  let (_, rest) ← readMark '=' rest
  let (data, rest) ← value (skipBlanks rest)
  return ((key, data), skipBlanks rest)

/-- The pairs of an inline table, at its first key or after a comma, through its closing brace. -/
def readPairs (value : List Char → Option (Data × List Char)) :
    (fuel : Nat) → Entries → List Char → Option (Entries × List Char)
  | 0, _, _ => none
  | fuel + 1, entries, cs => do
    let (((path, key), data), rest) ← readPair value cs
    let entries ← entries.assign path key data
    match rest with
    | '\x7d' :: rest => return (entries, rest)
    | ',' :: rest => readPairs value fuel entries rest
    | _ => none

/-- A value in which lists and inline tables nest at most `depth` deep. -/
def readValue : (depth : Nat) → List Char → Option (Data × List Char)
  | 0, cs =>
    match cs with
    | '[' :: _ => none
    | '\x7b' :: _ => none
    | cs => readScalar cs
  | depth + 1, cs =>
    match cs with
    | '[' :: rest =>
      (readItems (readValue depth) (rest.length + 1) rest).map fun (items, left) =>
        (.sequence items, left)
    | '\x7b' :: rest =>
      match skipBlanks rest with
      | '\x7d' :: rest => some (.mapping [], rest)
      | rest =>
        (readPairs (readValue depth) (rest.length + 1) [] rest).map fun (entries, left) =>
          (.mapping (entriesToData entries), left)
    | cs => readScalar cs

inductive Statement where
  /-- A header: the key of a table. -/
  | table (path : List String) (key : String)
  /-- A header of one table of a list. -/
  | item (path : List String) (key : String)
  | pair (path : List String) (key : String) (data : Data)

/-- The end of a statement: blanks, a comment and a line break, or the end of the text. -/
def endLine (cs : List Char) : Option (List Char) :=
  let rest := match skipBlanks cs with
    | '#' :: rest => rest.dropWhile isPlain
    | rest => rest
  match rest with
  | [] => some []
  | rest => dropNewline? rest

def readStatement (cs : List Char) : Option (Statement × List Char) :=
  match cs with
  | '[' :: '[' :: rest => do
    let ((path, key), rest) ← readKey rest
    let (_, rest) ← readMark ']' rest
    let (_, rest) ← readMark ']' rest
    return (.item path key, rest)
  | '[' :: rest => do
    let ((path, key), rest) ← readKey rest
    let (_, rest) ← readMark ']' rest
    return (.table path key, rest)
  | cs => do
    let (((path, key), data), rest) ← readPair (readValue (nestingLimit - 1)) cs
    return (.pair path key data, rest)

/-- The statements of a text.  Every line takes a character. -/
def readStatements : (fuel : Nat) → List Char → Option (List Statement)
  | 0, _ => none
  | fuel + 1, cs =>
    match skipBlanks cs with
    | [] => some []
    | '#' :: rest => do readStatements fuel (← endLine ('#' :: rest))
    | cs =>
      match dropNewline? cs with
      | some rest => readStatements fuel rest
      | none => do
        let (statement, rest) ← readStatement cs
        return statement :: (← readStatements fuel (← endLine rest))

/-! ## Putting the table together -/

/-- The tables that are closed, and the one that pairs go to: its key, and whether it is one of a
list.  Before the first header that is the root. -/
structure Builder where
  root : Entries := []
  place : Option (List String × String × Bool) := none
  entries : Entries := []

namespace Builder

/-- Puts the open table into its place. -/
def close (builder : Builder) : Option Entries :=
  match builder.place with
  | none => some builder.entries
  | some (path, key, isItem) =>
    Entries.update .implied (fun _ parent =>
      if isItem then
        match parent.lookup key with
        | none => some (parent.put key (.tables [builder.entries]))
        | some (.tables items) => some (parent.put key (.tables (builder.entries :: items)))
        | some _ => none
      else if (parent.lookup key).isSome then none
      else some (parent.put key (.table .explicit builder.entries))) path .explicit builder.root

/-- Opens the table of a header.  A table that was made on the way to another one is taken out,
and comes back with its entries, last in its parent, when it is closed. -/
def openTable (builder : Builder) (path : List String) (key : String) : Option Builder := do
  let root ← Entries.update .implied (fun _ parent => some parent) path .explicit (← builder.close)
  let entries ← match (Entries.find? path root).bind (·.lookup key) with
    | none => some []
    | some (.table .implied entries) => some entries
    | some _ => none
  let root ← Entries.update .implied (fun _ parent => some (parent.remove key)) path .explicit root
  return ⟨root, some (path, key, false), entries⟩

def openItem (builder : Builder) (path : List String) (key : String) : Option Builder := do
  let root ← builder.close
  let root ← Entries.update .implied (fun _ parent =>
    match parent.lookup key with
    | none => some (parent.put key (.tables []))
    | some (.tables _) => some parent
    | some _ => none) path .explicit root
  return ⟨root, some (path, key, true), []⟩

def add (builder : Builder) : Statement → Option Builder
  | .table path key => builder.openTable path key
  | .item path key => builder.openItem path key
  | .pair path key data => do
    return { builder with entries := ← builder.entries.assign path key data }

end Builder

/-- The table of a document, or nothing if the text is no well-formed document.  A byte order mark
at its start is ignored. -/
def parse? (text : String) : Option Data := do
  let cs := match text.toList with
    | '\ufeff' :: rest => rest
    | cs => cs
  let statements ← readStatements (cs.length + 1) cs
  let builder ← statements.foldlM Builder.add {}
  return .mapping (entriesToData (← builder.close))

end Assets.Toml
