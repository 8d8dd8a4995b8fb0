import Assets.Text.Quoted

/-!
# Structured data

The values that options and configuration are read from, whatever format they were written in, and
the ways in which a value can fail to have the structure that is asked of it.
-/

namespace Assets

/-- A value of a structured document.  A float is kept as the text that messages show. -/
inductive Data where
  | null
  | boolean (value : Bool)
  | integer (value : Int)
  | float (shown : String)
  | text (value : String)
  | sequence (items : List Data)
  | mapping (fields : List (String × Data))
  deriving Inhabited, Repr

/-- What was found in place of the expected value: a value without its parts. -/
inductive Found where
  | null
  | boolean (value : Bool)
  | integer (value : Int)
  | float (shown : String)
  | text (value : String)
  | sequence
  | mapping
  deriving DecidableEq, Repr

def Data.found : Data → Found
  | .null => .null
  | .boolean b => .boolean b
  | .integer n => .integer n
  | .float shown => .float shown
  | .text s => .text s
  | .sequence _ => .sequence
  | .mapping _ => .mapping

namespace Found

def describe : Found → String
  | null => "null"
  | boolean b => "boolean `" ++ (if b then "true" else "false") ++ "`"
  | integer n => "integer `" ++ toString n ++ "`"
  | float shown => "floating point `" ++ shown ++ "`"
  | text s => "string " ++ Text.quoted s
  | sequence => "sequence"
  | mapping => "map"

end Found

/-- A way in which data misses the expected structure. -/
inductive Mismatch where
  /-- A record has a field that its type does not know. -/
  | unknownField (name : String) (expected : List String)
  /-- A value of another kind stands where `expected` is asked for. -/
  | invalidType (found : Found) (expected : String)
  /-- A record lacks a field without a default. -/
  | missingField (name : String)
  /-- A record gives a field twice. -/
  | duplicateField (name : String)
  /-- A sequence has the wrong number of items. -/
  | invalidLength (length : Nat) (expected : String)
  deriving DecidableEq, Repr

namespace Mismatch

def ticked (name : String) : String := "`" ++ name ++ "`"

def oneOf : List String → String
  | [] => "there are no fields"
  | [a] => "expected " ++ ticked a
  | [a, b] => "expected " ++ ticked a ++ " or " ++ ticked b
  | names => "expected one of " ++ String.intercalate ", " (names.map ticked)

def message : Mismatch → String
  | unknownField name expected => "unknown field " ++ ticked name ++ ", " ++ oneOf expected
  | invalidType found expected => "invalid type: " ++ found.describe ++ ", expected " ++ expected
  | missingField name => "missing field " ++ ticked name
  | duplicateField name => "duplicate field " ++ ticked name
  | invalidLength length expected =>
    "invalid length " ++ toString length ++ ", expected " ++ expected

end Mismatch

end Assets
