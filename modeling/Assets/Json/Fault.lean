import Assets.Data

/-!
# Faults in JSON text

Why a JSON text was refused, and where.  A position counts lines from one and, within a line, the
bytes read so far.
-/

namespace Assets.Json

/-- Why reading stopped. -/
inductive Cause where
  | eofInValue
  | eofInList
  | eofInObject
  | eofInString
  | expectedValue
  | expectedWord
  | expectedColon
  | expectedListEnd
  | expectedObjectEnd
  | keyNotString
  | trailingComma
  | trailingCharacters
  | invalidEscape
  | invalidNumber
  | numberOutOfRange
  | controlCharacter
  | loneSurrogate
  | unfinishedSurrogate
  | recursionLimit
  /-- The text is JSON, but not of the structure asked for. -/
  | mismatch (mismatch : Mismatch)
  deriving DecidableEq, Repr

def Cause.message : Cause → String
  | eofInValue => "EOF while parsing a value"
  | eofInList => "EOF while parsing a list"
  | eofInObject => "EOF while parsing an object"
  | eofInString => "EOF while parsing a string"
  | expectedValue => "expected value"
  | expectedWord => "expected ident"
  | expectedColon => "expected `:`"
  | expectedListEnd => "expected `,` or `]`"
  | expectedObjectEnd => "expected `,` or `\x7d`"
  | keyNotString => "key must be a string"
  | trailingComma => "trailing comma"
  | trailingCharacters => "trailing characters"
  | invalidEscape => "invalid escape"
  | invalidNumber => "invalid number"
  | numberOutOfRange => "number out of range"
  | controlCharacter => "control character (\\u0000-\\u001F) found while parsing a string"
  | loneSurrogate => "lone leading surrogate in hex escape"
  | unfinishedSurrogate => "unexpected end of hex escape"
  | recursionLimit => "recursion limit exceeded"
  | mismatch m => m.message

structure Position where
  line : Nat
  column : Nat
  deriving DecidableEq, Repr

/-- Moves a position over the first `offset` bytes of a text. -/
def Position.advance (start : Position) : (offset : Nat) → List Char → Position
  | 0, _ => start
  | _, [] => start
  | offset, c :: rest =>
    if c = '\n' then advance ⟨start.line + 1, 0⟩ (offset - 1) rest
    else advance ⟨start.line, start.column + min c.utf8Size offset⟩ (offset - c.utf8Size) rest

/-- The position after the first `offset` bytes of a text. -/
def Position.after (offset : Nat) (text : List Char) : Position := advance ⟨1, 0⟩ offset text

/-- A refusal.  Data that was not read from a text has no position. -/
structure Fault where
  cause : Cause
  position : Option Position := none
  deriving DecidableEq, Repr

def Fault.message (fault : Fault) : String :=
  match fault.position with
  | none => fault.cause.message
  | some position =>
    fault.cause.message ++ " at line " ++ toString position.line ++
      " column " ++ toString position.column

end Assets.Json
