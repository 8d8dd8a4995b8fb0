import Assets.Archive
import Assets.Json.Record

/-!
# Files and archives as JSON

A file and an archive can be read back from JSON text.  An archive is taken as it stands: its blob
and its digest are not computed anew.
-/

namespace Assets

/-- The text under a name, empty if there is none. -/
def Json.Value.textMember (name : String) (value : Json.Value) : String :=
  match value.member? name with
  | some (.text s) => s
  | _ => ""

namespace File

def shape : Json.RecordShape :=
  ⟨"File", [("name", Json.readText), ("content", Json.readText)]⟩

def ofValue (value : Json.Value) : File := ⟨value.textMember "name", value.textMember "content"⟩

def ofJson (text : String) : Except Json.Fault File :=
  (Json.readAll (Json.readRecord shape) text).map ofValue

end File

namespace Archive

def shape : Json.RecordShape :=
  ⟨"Bundle", [("files", Json.readList (Json.readRecord File.shape)), ("hash", Json.readText),
    ("content", Json.readText)]⟩

def ofValue (value : Json.Value) : Archive :=
  let files := match value.member? "files" with
    | some (.array items) => items.map File.ofValue
    | _ => []
  ⟨files, value.textMember "content", value.textMember "hash"⟩

def ofJson (text : String) : Except Json.Fault Archive :=
  (Json.readAll (Json.readRecord shape) text).map ofValue

end Archive

end Assets
