import Assets.Text.Hex

/-!
# Compile log

Records that a compilation leaves in its log, and the diagnostics that it and the commands report
beside it, each at a level of detail.
-/

namespace Assets

/-- One line of the compile log. -/
structure LogRecord where
  scope : String
  tag : String
  message : String
  deriving DecidableEq, Repr

namespace LogRecord

def render (record : LogRecord) : String :=
  "[" ++ record.scope ++ "] [" ++ record.tag ++ "] " ++ record.message

/-- The messages of the records with a tag, in order. -/
def messages (records : List LogRecord) (tag : String) : List String :=
  (records.filter (·.tag = tag)).map (·.message)

end LogRecord

/-- How much detail a diagnostic carries, from what always matters to what rarely does. -/
inductive Level where
  | warn
  | info
  | debug
  | trace
  deriving DecidableEq, Repr

namespace Level

def rank : Level → Nat
  | warn => 0
  | info => 1
  | debug => 2
  | trace => 3

def name : Level → String
  | warn => "WARN"
  | info => "INFO"
  | debug => "DEBUG"
  | trace => "TRACE"

end Level

/-- A message with named values, reported at a level. -/
structure Diagnostic where
  level : Level
  message : String
  fields : List (String × String) := []
  deriving DecidableEq, Repr

namespace Diagnostic

/-- The characters of a message as they are shown.  Bell, backspace, form feed, escape, delete and
the second block of controls would steer the terminal, so their numbers stand for them. -/
def shownChar (c : Char) : List Char :=
  if c = '\x07' ∨ c = '\x08' ∨ c = '\x0c' ∨ c = '\x1b' ∨ c = '\x7f' then
    ['\\', 'x'] ++ Text.hexDigits 2 c.toNat
  else if 0x80 ≤ c.toNat ∧ c.toNat ≤ 0x9f then
    "\\u\x7b".toList ++ Text.hexDigits 2 c.toNat ++ "\x7d".toList
  else [c]

def shownMessage (message : String) : String := String.ofList (message.toList.flatMap shownChar)

/-- Level, message and fields.  The fields are shown as they are. -/
def render (d : Diagnostic) : String :=
  d.level.name ++ " " ++ shownMessage d.message ++
    String.join (d.fields.map fun field => " " ++ field.1 ++ "=" ++ field.2)

end Diagnostic

def LogRecord.toDiagnostic (record : LogRecord) : Diagnostic :=
  ⟨.debug, record.message, [("scope", record.scope), ("tag", record.tag)]⟩

end Assets
