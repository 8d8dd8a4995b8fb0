/-!
# Dictionaries

Maps from names to values, held as a list of entries in ascending order of the names, one entry a
name.  The order is that of the code points, which is also the order of the UTF-8 bytes.
-/

namespace Assets

/-- Entries in ascending order of their names. -/
abbrev Dictionary (α : Type) := List (String × α)

namespace Dictionary

variable {α β : Type}

def find? (entries : Dictionary α) (name : String) : Option α := entries.lookup name

/-- Puts a value under a name, in place of the value that stood there. -/
def insert (name : String) (value : α) : Dictionary α → Dictionary α
  | [] => [(name, value)]
  | entry :: rest =>
    if name < entry.1 then (name, value) :: entry :: rest
    else if name = entry.1 then (name, value) :: rest
    else entry :: insert name value rest

/-- Collects entries given in any order; of several values under one name the last counts. -/
def ofList (entries : List (String × α)) : Dictionary α :=
  entries.foldl (fun dictionary entry => insert entry.1 entry.2 dictionary) []

def keys (entries : Dictionary α) : List String := List.map Prod.fst entries

end Dictionary

end Assets
