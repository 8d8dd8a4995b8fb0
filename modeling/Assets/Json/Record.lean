import Assets.Json.Reader

/-!
# Reading records from JSON text

A record is read straight from its text: from an object, whose unknown members are skipped, or
from a list of the field values in order.  A field given twice, a missing field and a list of the
wrong length are noticed while reading, so that the first fault in the text is the one reported.
A skipped member must be well formed, but its numbers may be out of range, its escapes may be lone
surrogates, and it may nest as deep as it likes.
-/

namespace Assets.Json

/-! ## Skipping -/

/-- An escape in a skipped string, after its backslash. -/
def skipEscape : List Char → Reading Unit
  | [] => stopAfter .eofInString []
  | c :: rest =>
    if c = 'u' then (readUnit rest).map fun _ => ()
    else if (simpleEscape? c).isSome then .ok ((), rest)
    else stopAt .invalidEscape (c :: rest)

theorem skipEscape_length {cs rest : List Char} (h : skipEscape cs = .ok ((), rest)) :
    rest.length < cs.length := by
  unfold skipEscape at h
  split at h
  · simp [stopAfter] at h
  · split at h
    · obtain ⟨unit, left, hunit, h⟩ := Reading.andThen_eq_ok h
      have := readUnit_length hunit
      simp only [Except.ok.injEq, Prod.mk.injEq] at h
      rw [← h.2]; simp only [List.length_cons]; omega
    · split at h
      · simp only [Except.ok.injEq, Prod.mk.injEq] at h
        rw [← h.2]; simp
      · simp [stopAt] at h

/-- A skipped string, after its opening quote.  A control character in it is refused before it is
read. -/
def skipString : List Char → Reading Unit
  | [] => stopAfter .eofInString []
  | c :: rest =>
    if c = '"' then .ok ((), rest)
    else if c = '\\' then
      match _hescape : skipEscape rest with
      | .error stop => .error stop
      | .ok ((), rest') => skipString rest'
    else if c.toNat < 0x20 then stopAfter .controlCharacter (c :: rest)
    else skipString rest
termination_by cs => cs.length
decreasing_by
  · have := skipEscape_length _hescape; simp only [List.length_cons]; omega
  · simp

/-- A skipped exponent, after its letter. -/
def skipExponent (cs : List Char) : Reading Unit :=
  let cs := match cs with
    | '+' :: rest => rest
    | '-' :: rest => rest
    | rest => rest
  if startsWithDigit cs then .ok ((), cs.dropWhile isDigit)
  else stopAt .invalidNumber cs

/-- What may follow the digits of a skipped number. -/
def skipTail : List Char → Reading Unit
  | [] => .ok ((), [])
  | c :: rest =>
    if c = 'e' ∨ c = 'E' then skipExponent rest else .ok ((), c :: rest)

/-- A skipped number, after its sign. -/
def skipNumber : List Char → Reading Unit
  | [] => stopAfter .invalidNumber []
  | c :: rest =>
    if c = '0' ∧ startsWithDigit rest then stopAt .invalidNumber rest
    else if isDigit c then
      match if c = '0' then rest else rest.dropWhile isDigit with
      | '.' :: rest =>
        if startsWithDigit rest then skipTail (rest.dropWhile isDigit)
        else stopAt .invalidNumber rest
      | rest => skipTail rest
    else stopAt .invalidNumber (c :: rest)

/-- The items of a skipped list, after its opening bracket or an item. -/
def skipItems (item : List Char → Reading Unit) :
    (fuel : Nat) → (first : Bool) → List Char → Reading Unit
  | 0, _, _ => stopAfter .eofInList []
  | fuel + 1, first, cs =>
    match skipSpaces cs with
    | [] => stopAt .eofInList []
    | c :: rest =>
      if c = ']' then .ok ((), rest)
      else if first then
        (item (c :: rest)).andThen fun _ rest => skipItems item fuel false rest
      else if c = ',' then (item rest).andThen fun _ rest => skipItems item fuel false rest
      else stopAt .expectedListEnd (c :: rest)

/-- The members of a skipped object, after its opening brace or a member. -/
def skipMembers (value : List Char → Reading Unit) :
    (fuel : Nat) → (first : Bool) → List Char → Reading Unit
  | 0, _, _ => stopAfter .eofInObject []
  | fuel + 1, first, cs =>
    let next (cs : List Char) : Reading Unit :=
      match skipSpaces cs with
      | [] => stopAt .eofInObject []
      | '"' :: rest =>
        (skipString rest).andThen fun _ rest =>
          (readColon rest).andThen fun _ rest =>
            (value rest).andThen fun _ rest => skipMembers value fuel false rest
      | cs => stopAt .keyNotString cs
    match skipSpaces cs with
    | [] => stopAt .eofInObject []
    | c :: rest =>
      if c = '\x7d' then .ok ((), rest)
      else if first then next (c :: rest)
      else if c = ',' then next rest
      else stopAt .expectedObjectEnd (c :: rest)

/-- Skips a value.  Each level of nesting takes a character, so the fuel is the number of
characters. -/
def skipValue : (fuel : Nat) → List Char → Reading Unit
  | 0, _ => stopAfter .eofInValue []
  | fuel + 1, cs =>
    match skipSpaces cs with
    | [] => stopAt .eofInValue []
    | c :: rest =>
      if c = 'n' then readWord () "ull".toList rest
      else if c = 't' then readWord () "rue".toList rest
      else if c = 'f' then readWord () "alse".toList rest
      else if c = '"' then skipString rest
      else if c = '-' then skipNumber rest
      else if isDigit c then skipNumber (c :: rest)
      else if c = '[' then skipItems (skipValue fuel) (rest.length + 1) true rest
      else if c = '\x7b' then skipMembers (skipValue fuel) (rest.length + 1) true rest
      else stopAt .expectedValue (c :: rest)

/-! ## Fields, lists and records -/

/-- Refuses a value of another kind than `expected`.  A scalar is read first, and counts as
read. -/
def refuseKind (expected : String) (cs : List Char) : Reading Value :=
  let refuse (found : Found) (rest : List Char) : Reading Value :=
    stopAfter (.mismatch (.invalidType found expected)) rest
  match cs with
  | [] => stopAt .expectedValue []
  | c :: rest =>
    if c = '[' then refuse .sequence (c :: rest)
    else if c = '\x7b' then refuse .mapping (c :: rest)
    else (readValue 0 (c :: rest)).andThen fun value rest => refuse value.toData.found rest

def readText (cs : List Char) : Reading Value :=
  match skipSpaces cs with
  | [] => stopAt .eofInValue []
  | '"' :: rest => (readString rest).map fun s => .text (String.ofList s)
  | cs => refuseKind "a string" cs

def readList (item : List Char → Reading Value) (cs : List Char) : Reading Value :=
  match skipSpaces cs with
  | [] => stopAt .eofInValue []
  | '[' :: rest => (readItems item (rest.length + 1) true rest).map .array
  | cs => refuseKind "a sequence" cs

/-- A field of a record: its name and how its value is read. -/
abbrev Field := String × (List Char → Reading Value)

/-- The name and the fields of a record. -/
structure RecordShape where
  name : String
  fields : List Field

/-- What was gathered of a record when its body ended: the values, or a mismatch that is reported
at the end of the record. -/
abbrev Body := Except Mismatch (List (String × Value))

/-- The members of a record, after its opening brace or a member, and before the closing brace. -/
def readFields (fields : List Field) :
    (fuel : Nat) → (first : Bool) → (seen : List (String × Value)) → List Char → Reading Body
  | 0, _, _, _ => stopAfter .eofInObject []
  | fuel + 1, first, seen, cs =>
    let next (cs : List Char) : Reading Body :=
      match cs with
      | '"' :: rest =>
        (readString rest).andThen fun name rest =>
          let name := String.ofList name
          match fields.lookup name with
          | none =>
            (readColon rest).andThen fun _ rest =>
              (skipValue (rest.length + 1) rest).andThen fun _ rest =>
                readFields fields fuel false seen rest
          | some read =>
            if (seen.lookup name).isSome then .ok (.error (.duplicateField name), rest)
            else
              (readColon rest).andThen fun _ rest =>
                (read rest).andThen fun value rest =>
                  readFields fields fuel false ((name, value) :: seen) rest
      | cs => stopAt .keyNotString cs
    match skipSpaces cs with
    | [] => stopAt .eofInObject []
    | c :: rest =>
      if c = '\x7d' then
        match fields.find? fun field => (seen.lookup field.1).isNone with
        | some field => .ok (.error (.missingField field.1), c :: rest)
        | none => .ok (.ok seen, c :: rest)
      else if first then next (c :: rest)
      else if c = ',' then
        match skipSpaces rest with
        | [] => stopAt .eofInValue []
        | d :: rest => if d = '\x7d' then stopAt .trailingComma (d :: rest) else next (d :: rest)
      else stopAt .expectedObjectEnd (c :: rest)

/-- The values of a record given as a list, after its opening bracket or a value, and before the
closing bracket or whatever else follows the last field. -/
def readInOrder (shape : RecordShape) :
    List Field → (seen : List (String × Value)) → List Char → Reading Body
  | [], seen, cs => .ok (.ok seen, cs)
  | (name, read) :: fields, seen, cs =>
    let next (cs : List Char) : Reading Body :=
      (read cs).andThen fun value rest => readInOrder shape fields ((name, value) :: seen) rest
    match skipSpaces cs with
    | [] => stopAt .eofInList []
    | c :: rest =>
      if c = ']' then
        .ok (.error (.invalidLength seen.length ("struct " ++ shape.name ++ " with " ++
          toString shape.fields.length ++ " elements")), c :: rest)
      else if seen.isEmpty then next (c :: rest)
      else if c = ',' then
        match skipSpaces rest with
        | [] => stopAt .eofInValue []
        | d :: rest => if d = ']' then stopAt .trailingComma (d :: rest) else next (d :: rest)
      else stopAt .expectedListEnd (c :: rest)

/-- The closing brace of a record, or the characters before which one is missing. -/
def closeObject (cs : List Char) : Reading Unit :=
  match skipSpaces cs with
  | [] => stopAt .eofInObject []
  | c :: rest =>
    if c = '\x7d' then .ok ((), rest)
    else if c = ',' then stopAt .trailingComma (c :: rest)
    else stopAt .trailingCharacters (c :: rest)

def closeList (cs : List Char) : Reading Unit :=
  match skipSpaces cs with
  | [] => stopAt .eofInList []
  | c :: rest =>
    if c = ']' then .ok ((), rest)
    else if c = ',' then
      match skipSpaces rest with
      | d :: rest =>
        stopAt (if d = ']' then .trailingComma else .trailingCharacters) (d :: rest)
      | [] => stopAt .trailingCharacters []
    else stopAt .trailingCharacters (c :: rest)

/-- Where a mismatch of a whole record is reported: after the closing mark if it comes next, else
before the character in its place. -/
def afterClosing (mark : Char) (cs : List Char) : List Char :=
  match skipSpaces cs with
  | c :: rest => if c = mark then rest else c :: rest
  | [] => []

/-- Ends a record: its values as an object, or the mismatch found in it. -/
def finishRecord (mark : Char) (close : List Char → Reading Unit) (body : Body) (cs : List Char) :
    Reading Value :=
  match body with
  | .ok seen => (close cs).map fun _ => .object (Dictionary.ofList seen)
  | .error mismatch => stopAfter (.mismatch mismatch) (afterClosing mark cs)

def readRecord (shape : RecordShape) (cs : List Char) : Reading Value :=
  match skipSpaces cs with
  | [] => stopAt .eofInValue []
  | '[' :: rest =>
    (readInOrder shape shape.fields [] rest).andThen (finishRecord ']' closeList)
  | '\x7b' :: rest =>
    (readFields shape.fields (rest.length + 1) true [] rest).andThen
      (finishRecord '\x7d' closeObject)
  | cs => refuseKind ("struct " ++ shape.name) cs

end Assets.Json
