import Assets.Decimal.Shortest
import Assets.Dictionary
import Assets.Data

/-!
# JSON values

Documents as values.  An integer that fits 64 bits stays an integer; every other number is a
binary float with a sign, so that a negative zero is kept.  The members of an object are held in
ascending order of their names, one member a name.
-/

namespace Assets.Json

inductive Number where
  | integer (value : Int)
  | float (negative : Bool) (magnitude : Binary64)
  deriving DecidableEq, Repr

inductive Value where
  | null
  | boolean (value : Bool)
  | number (value : Number)
  | text (value : String)
  | array (items : List Value)
  | object (members : List (String × Value))
  deriving Inhabited, Repr

/-- Floats are positional from 10⁻⁵ up to, not including, 10¹⁶. -/
def floatFormat : FloatFormat := ⟨some (-4), some 16⟩

def Number.render : Number → String
  | integer n => toString n
  | float negative magnitude => floatFormat.render negative magnitude

/-- A number as messages name it. -/
def Number.found : Number → Found
  | integer n => .integer n
  | float negative magnitude => .float (floatFormat.render negative magnitude)

namespace Value

mutual

/-- The document as structured data. -/
def toData : Value → Data
  | null => .null
  | boolean b => .boolean b
  | number (.integer n) => .integer n
  | number (.float negative magnitude) => .float (floatFormat.render negative magnitude)
  | text s => .text s
  | array items => .sequence (itemsToData items)
  | object members => .mapping (membersToData members)

def itemsToData : List Value → List Data
  | [] => []
  | item :: items => item.toData :: itemsToData items

def membersToData : List (String × Value) → List (String × Data)
  | [] => []
  | (name, value) :: members => (name, value.toData) :: membersToData members

end

def member? (name : String) : Value → Option Value
  | object members => members.lookup name
  | _ => none

end Value

end Assets.Json
