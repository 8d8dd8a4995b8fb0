import Assets.Data
import Assets.Dictionary
import Assets.Plugin.Standard

/-!
# Reading options

Options are read from structured data.  A record is given by its fields in any order, each of
which may be left out but none of which may be unknown, or by a list of its values in order.
Formats differ in whether such a list may be too long.
-/

namespace Assets

namespace Data

def asText (expected : String) : Data → Except Mismatch String
  | text s => .ok s
  | other => .error (.invalidType other.found expected)

def asDictionary : Data → Except Mismatch (Dictionary String)
  | mapping fields =>
    (fields.mapM fun (field : String × Data) =>
      (field.2.asText "a string").map fun value => (field.1, value)).map Dictionary.ofList
  | other => .error (.invalidType other.found "a map")

/-- Reads a record, one field after the other.  `set` gives a field its value. -/
def asRecord {α : Type} (name : String) (fields : List String) (bounded : Bool) (default : α)
    (set : α → String → Data → Except Mismatch α) : Data → Except Mismatch α
  | mapping given =>
    given.foldlM (fun record (field, value) =>
      if field ∈ fields then set record field value
      else .error (.unknownField field fields)) default
  | sequence items => do
    let record ← (fields.zip items).foldlM (fun record (field, value) => set record field value)
      default
    if bounded ∧ fields.length < items.length then
      .error (.invalidLength items.length "fewer elements in array")
    else .ok record
  | other => .error (.invalidType other.found ("struct " ++ name))

end Data

def Esm.Options.ofData (bounded : Bool) : Data → Except Mismatch Esm.Options :=
  Data.asRecord "EsmOptions" ["cdn", "dependencies"] bounded {} fun options field value => do
    if field = "cdn" then return { options with cdn := ← value.asText "a string" }
    else return { options with dependencies := ← value.asDictionary }

def PluginOptions.ofData (bounded : Bool) : Data → Except Mismatch PluginOptions :=
  Data.asRecord "StdOptions" ["esm"] bounded {} fun options _ value => do
    return { options with esm := ← Esm.Options.ofData bounded value }

end Assets
