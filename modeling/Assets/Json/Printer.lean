import Assets.Json.Value
import Assets.Text.Hex

/-!
# Writing JSON

The compact text of a document: no blanks outside strings, and inside strings only the quote, the
backslash and the control characters are escaped.
-/

namespace Assets.Json

/-- One character inside a string literal. -/
def escapeChar (c : Char) : List Char :=
  if c = '"' then ['\\', '"']
  else if c = '\\' then ['\\', '\\']
  else if c = '\x08' then ['\\', 'b']
  else if c = '\t' then ['\\', 't']
  else if c = '\n' then ['\\', 'n']
  else if c = '\x0c' then ['\\', 'f']
  else if c = '\r' then ['\\', 'r']
  else if c.toNat < 0x20 then '\\' :: 'u' :: Text.hexDigits 4 c.toNat
  else [c]

/-- The string literal of a text. -/
def literal (s : List Char) : List Char := '"' :: s.flatMap escapeChar ++ ['"']

namespace Value

mutual

def write : Value → List Char
  | null => "null".toList
  | boolean true => "true".toList
  | boolean false => "false".toList
  | number n => n.render.toList
  | text s => literal s.toList
  | array items => '[' :: writeItems items ++ [']']
  | object members => '\x7b' :: writeMembers members ++ ['\x7d']

def writeItems : List Value → List Char
  | [] => []
  | [item] => item.write
  | item :: items => item.write ++ ',' :: writeItems items

def writeMembers : List (String × Value) → List Char
  | [] => []
  | [(name, value)] => literal name.toList ++ ':' :: value.write
  | (name, value) :: members =>
    literal name.toList ++ ':' :: value.write ++ ',' :: writeMembers members

end

def render (value : Value) : String := String.ofList value.write

end Value

/-- The string literal of a text. -/
def quote (s : String) : String := String.ofList (literal s.toList)

end Assets.Json
