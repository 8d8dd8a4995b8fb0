import Assets.Failure

/-!
# Files and file sets

A file is a name with a content; its name is also its id in the plugin chain and a path with `/`
between the parts.  A file set is a list of files whose order carries no meaning: it is canonical
once sorted by name.
-/

namespace Assets

/-- A named source file. -/
structure File where
  name : String
  content : String
  deriving DecidableEq, Repr, Inhabited

/-- Files in the order in which they were produced. -/
abbrev FileSet := List File

namespace FileSet

/-- The canonical order: ascending by name, files of one name in the order given.  Strings are
compared by code points, which agrees with the order of their UTF-8 bytes. -/
def sorted (files : FileSet) : FileSet := files.mergeSort fun a b => a.name ≤ b.name

def names (files : FileSet) : List String := files.map File.name

def byName? (files : FileSet) (name : String) : Option File := files.find? (·.name = name)

/-- The first name that occurs in `seen` or before it in the set. -/
def firstRepeat? (seen : List String) : FileSet → Option String
  | [] => none
  | file :: rest =>
    if file.name ∈ seen then some file.name else firstRepeat? (file.name :: seen) rest

/-- Refuses a set that holds a name twice, and reports the first repeated one. -/
def ensureUniqueNames (files : FileSet) : Except Failure Unit :=
  match firstRepeat? [] files with
  | none => .ok ()
  | some name => .error (.duplicateName name)

end FileSet

end Assets
