import Assets.File

/-!
# Blobs

A blob is a file set as one text.  Each record is a name and a content with one NUL between them,
and two NULs stand between records.  Nothing is escaped, so a blob is read by cutting it at each
pair of NULs from the left, then each record at its NULs; a record that is not one non-empty name
with one non-empty content is dropped.  Reading never fails.
-/

namespace Assets.Blob

/-- Separates a name from its content. -/
def separator : Char := '\x00'

/-- Cuts a text at each single NUL. -/
def cutFields : List Char → List (List Char)
  | [] => [[]]
  | c :: rest =>
    if c = separator then [] :: cutFields rest
    else match cutFields rest with
      | [] => [[c]]
      | field :: fields => (c :: field) :: fields

/-- Cuts a text at each pair of NULs, from the left and without overlap. -/
def cutRecords : List Char → List (List Char)
  | [] => [[]]
  | [c] => [[c]]
  | c :: d :: rest =>
    if c = separator ∧ d = separator then [] :: cutRecords rest
    else match cutRecords (d :: rest) with
      | [] => [[c]]
      | record :: records => (c :: record) :: records

/-- The file that a record holds: exactly one non-empty name and one non-empty content. -/
def readRecord? (record : List Char) : Option File :=
  match cutFields record with
  | [name, content] =>
    if name.isEmpty || content.isEmpty then none
    else some ⟨String.ofList name, String.ofList content⟩
  | _ => none

def decode (blob : String) : FileSet := (cutRecords blob.toList).filterMap readRecord?

/-- The malformed records of a blob.  They have more than one field and still hold no file; text
without any separator is dropped as well, but counts as no record. -/
def malformed (blob : String) : List (List Char) :=
  (cutRecords blob.toList).filter fun record =>
    record.contains separator && (readRecord? record).isNone

def writeRecord (file : File) : String := file.name ++ "\x00" ++ file.content

/-- The blob of the files in the order given. -/
def encodeUnsorted (files : FileSet) : String :=
  String.intercalate "\x00\x00" (files.map writeRecord)

/-- The canonical blob: the files in canonical order. -/
def encode (files : FileSet) : String := encodeUnsorted files.sorted

/-- What keeps a file from coming back unchanged, if anything does. -/
def refusal? (file : File) : Option Failure :=
  if file.name.isEmpty then some .emptyName
  else if file.name.toList.contains separator || file.content.toList.contains separator then
    some (.separator file.name)
  else if file.content.isEmpty then some (.emptyContent file.name)
  else none

/-- Accepts a file set whose every file comes back unchanged from its blob, and otherwise reports
the first file that does not. -/
def validate (files : FileSet) : Except Failure Unit :=
  match files.findSome? refusal? with
  | none => .ok ()
  | some failure => .error failure

end Assets.Blob
