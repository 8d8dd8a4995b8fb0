import Assets.Data
import Assets.Decimal.Shortest
import Assets.Text.Hex

/-!
# Scalars of TOML

Strings, numbers, booleans and dates.  A reader takes the characters that are left and gives a
value with the characters after it, or nothing when they start no well-formed scalar.
-/

namespace Assets.Toml

def isBlank (c : Char) : Bool := c == ' ' || c == '\t'

def skipBlanks (cs : List Char) : List Char := cs.dropWhile isBlank

/-- A line break, as a line feed or as a carriage return and a line feed. -/
def dropNewline? : List Char → Option (List Char)
  | '\n' :: rest => some rest
  | '\r' :: '\n' :: rest => some rest
  | _ => none

/-- A character that strings and comments may hold as it is: no control character but the tab. -/
def isPlain (c : Char) : Bool := c == '\t' || (0x20 ≤ c.toNat && c.toNat != 0x7f)

/-! ## Strings -/

/-- The character whose number is written by exactly `width` hexadecimal digits. -/
def readCodePoint (width : Nat) (cs : List Char) : Option (Char × List Char) := do
  let digits := cs.take width
  let n ← Text.hexNumber? digits
  if digits.length = width ∧ n.isValidChar then some (Char.ofNat n, cs.drop width) else none

def readEscape : List Char → Option (Char × List Char)
  | 'b' :: rest => some ('\x08', rest)
  | 't' :: rest => some ('\t', rest)
  | 'n' :: rest => some ('\n', rest)
  | 'f' :: rest => some ('\x0c', rest)
  | 'r' :: rest => some ('\r', rest)
  | '"' :: rest => some ('"', rest)
  | '\\' :: rest => some ('\\', rest)
  | 'u' :: rest => readCodePoint 4 rest
  | 'U' :: rest => readCodePoint 8 rest
  | _ => none

/-- A string on one line, after its opening quote.  Every step takes a character. -/
def readBasic : (fuel : Nat) → List Char → Option (List Char × List Char)
  | 0, _ => none
  | fuel + 1, cs =>
    match cs with
    | [] => none
    | '"' :: rest => some ([], rest)
    | '\\' :: rest => do
      let (c, rest) ← readEscape rest
      let (s, rest) ← readBasic fuel rest
      return (c :: s, rest)
    | c :: rest =>
      if isPlain c then do
        let (s, rest) ← readBasic fuel rest
        return (c :: s, rest)
      else none

/-- A string without escapes on one line, after its opening quote. -/
def readLiteral (cs : List Char) : Option (List Char × List Char) :=
  match cs.dropWhile fun c => isPlain c && c != '\'' with
  | '\'' :: rest => some (cs.takeWhile fun c => isPlain c && c != '\'', rest)
  | _ => none

/-- Skips a backslash at the end of a line, after the backslash, with all blank space after it. -/
def skipContinuation? (cs : List Char) : Option (List Char) :=
  (dropNewline? (skipBlanks cs)).map skipSpace
where
  skipSpace : List Char → List Char
    | '\r' :: '\n' :: rest => skipSpace rest
    | c :: rest => if isBlank c || c == '\n' then skipSpace rest else c :: rest
    | [] => []

/-- A string over several lines, after its opening quotes.  Up to two quotes may stand before the
three that close it. -/
def readMultiline (quote : Char) (escapes : Bool) :
    (fuel : Nat) → List Char → Option (List Char × List Char)
  | 0, _ => none
  | fuel + 1, cs =>
    let quotes := (cs.takeWhile (· == quote)).length
    if 3 ≤ quotes then
      let inner := min (quotes - 3) 2
      some (List.replicate inner quote, cs.drop (inner + 3))
    else
      let push (c : Char) (rest : List Char) : Option (List Char × List Char) := do
        let (s, rest) ← readMultiline quote escapes fuel rest
        return (c :: s, rest)
      match cs with
      | [] => none
      | c :: rest =>
        if c == '\\' && escapes then
          match skipContinuation? rest with
          | some rest => readMultiline quote escapes fuel rest
          | none => do
            let (d, rest) ← readEscape rest
            push d rest
        else if isPlain c then push c rest
        else do push '\n' (← dropNewline? cs)

/-- A string of any of the four kinds, if one starts here. -/
def readString : List Char → Option (String × List Char)
  | '"' :: '"' :: '"' :: rest =>
    (readMultiline '"' true (rest.length + 1) ((dropNewline? rest).getD rest)).map ofChars
  | '\'' :: '\'' :: '\'' :: rest =>
    (readMultiline '\'' false (rest.length + 1) ((dropNewline? rest).getD rest)).map ofChars
  | '"' :: rest => (readBasic (rest.length + 1) rest).map ofChars
  | '\'' :: rest => (readLiteral rest).map ofChars
  | _ => none
where
  ofChars (p : List Char × List Char) : String × List Char := (String.ofList p.1, p.2)

/-! ## Numbers -/

def isDigit (c : Char) : Bool := '0' ≤ c && c ≤ '9'

/-- Digits of a class with single underscores between them; at least one. -/
def readDigits (digit : Char → Bool) : List Char → Option (List Char × List Char)
  | [] => none
  | c :: rest => if digit c then (more rest).map fun (ds, left) => (c :: ds, left) else none
where
  more : List Char → Option (List Char × List Char)
    | '_' :: c :: rest =>
      if digit c then (more rest).map fun (ds, left) => (c :: ds, left) else none
    | '_' :: [] => none
    | c :: rest =>
      if digit c then (more rest).map fun (ds, left) => (c :: ds, left) else some ([], c :: rest)
    | [] => some ([], [])

def decimalValue (digits : List Char) : Nat :=
  digits.foldl (fun n c => 10 * n + (c.toNat - 48)) 0

/-- The integer part of a number: one zero, or digits that start with none. -/
def readIntegerPart : List Char → Option (List Char × List Char)
  | '0' :: rest => some (['0'], rest)
  | cs => readDigits isDigit cs

/-- Integers lie below this and not below its negative: they have 64 bits. -/
def integerLimit : Int := Nat.pow 2 63

def integer? (n : Int) : Option Data :=
  if -integerLimit ≤ n ∧ n < integerLimit then some (.integer n) else none

/-- An integer in a base that is a power of two, after the mark of its base. -/
def readRadix (base : Nat) (cs : List Char) : Option (Data × List Char) := do
  let digit (c : Char) : Bool := (Text.hexValue? c).any (· < base)
  let (digits, rest) ← readDigits digit cs
  let n := digits.foldl (fun n c => base * n + (Text.hexValue? c).getD 0) 0
  return (← integer? n, rest)

/-- Floats in messages are always positional. -/
def floatFormat : FloatFormat := ⟨none, none⟩

/-- A float as messages show it, from its digits and the exponent of the last of them.  A number
beyond the greatest float is refused if it is positive. -/
def float? (negative : Bool) (digits : List Char) (exponent : Int) : Option Data :=
  let digits := digits.dropWhile (· == '0')
  let n := decimalValue digits
  let magnitude : Int := digits.length + exponent
  let value :=
    if n = 0 ∨ magnitude < -400 then some Binary64.zero
    else if 400 < magnitude then none
    else if 0 ≤ exponent then Binary64.ofRatio? (n * Nat.pow 10 exponent.toNat) 1
    else Binary64.ofRatio? n (Nat.pow 10 (-exponent).toNat)
  match value with
  | some x => some (.float (floatFormat.render negative x))
  | none => if negative then some (.float "-inf") else none

def readExponent (cs : List Char) : Option (Int × List Char) :=
  match cs with
  | '-' :: rest => (readDigits isDigit rest).map fun (ds, left) => (-(decimalValue ds : Int), left)
  | '+' :: rest => (readDigits isDigit rest).map fun (ds, left) => ((decimalValue ds : Int), left)
  | cs => (readDigits isDigit cs).map fun (ds, left) => ((decimalValue ds : Int), left)

/-- A decimal number, after its sign. -/
def readDecimal (negative : Bool) (cs : List Char) : Option (Data × List Char) := do
  let (whole, rest) ← readIntegerPart cs
  match rest with
  | '.' :: rest =>
    let (fraction, rest) ← readDigits isDigit rest
    match rest with
    | c :: tail =>
      if c == 'e' || c == 'E' then
        let (e, rest) ← readExponent tail
        return (← float? negative (whole ++ fraction) (e - fraction.length), rest)
      else return (← float? negative (whole ++ fraction) (-fraction.length), rest)
    | [] => return (← float? negative (whole ++ fraction) (-fraction.length), [])
  | c :: tail =>
    if c == 'e' || c == 'E' then
      let (e, rest) ← readExponent tail
      return (← float? negative whole e, rest)
    else
      let n : Int := decimalValue whole
      return (← integer? (if negative then -n else n), rest)
  | [] =>
    let n : Int := decimalValue whole
    return (← integer? (if negative then -n else n), [])

/-- A number with a sign, or one of the floats that are no numbers. -/
def readSigned (negative : Bool) : List Char → Option (Data × List Char)
  | 'i' :: 'n' :: 'f' :: rest => some (.float (if negative then "-inf" else "inf"), rest)
  | 'n' :: 'a' :: 'n' :: rest => some (.float "NaN", rest)
  | cs => readDecimal negative cs

/-! ## Dates -/

/-- A number of exactly `width` digits within bounds. -/
def readField (width low high : Nat) (cs : List Char) : Option (List Char × List Char) :=
  let digits := cs.take width
  if digits.length = width ∧ digits.all isDigit ∧ low ≤ decimalValue digits ∧
      decimalValue digits ≤ high
  then some (digits, cs.drop width) else none

def readMark (mark : Char) : List Char → Option (Char × List Char)
  | c :: rest => if c = mark then some (c, rest) else none
  | [] => none

def daysIn (year month : Nat) : Nat :=
  if month = 2 then
    if year % 4 = 0 ∧ (year % 100 ≠ 0 ∨ year % 400 = 0) then 29 else 28
  else if month = 4 ∨ month = 6 ∨ month = 9 ∨ month = 11 then 30
  else 31

def readDate (cs : List Char) : Option (List Char × List Char) := do
  let (year, rest) ← readField 4 0 9999 cs
  let (_, rest) ← readMark '-' rest
  let (month, rest) ← readField 2 1 12 rest
  let (_, rest) ← readMark '-' rest
  let (day, rest) ← readField 2 1 (daysIn (decimalValue year) (decimalValue month)) rest
  return (year ++ '-' :: month ++ '-' :: day, rest)

/-- The fraction of a second as it is shown: at most nine digits, without trailing zeros. -/
def shownFraction (digits : List Char) : List Char :=
  match (((digits.take 9).reverse.dropWhile (· == '0')).reverse) with
  | [] => []
  | ds => '.' :: ds

def readTime (cs : List Char) : Option (List Char × List Char) := do
  let (hour, rest) ← readField 2 0 23 cs
  let (_, rest) ← readMark ':' rest
  let (minute, rest) ← readField 2 0 59 rest
  let (_, rest) ← readMark ':' rest
  let (second, rest) ← readField 2 0 60 rest
  let time := hour ++ ':' :: minute ++ ':' :: second
  match rest with
  | '.' :: tail =>
    match tail.takeWhile isDigit with
    | [] => return (time, rest)
    | digits => return (time ++ shownFraction digits, tail.dropWhile isDigit)
  | rest => return (time, rest)

/-- The offset of a time from universal time, if there is one. -/
def readOffset : List Char → Option (List Char × List Char)
  | [] => some ([], [])
  | c :: rest =>
    if c == 'Z' || c == 'z' then some (['Z'], rest)
    else if c == '+' || c == '-' then do
      let (hour, rest) ← readField 2 0 23 rest
      let (_, rest) ← readMark ':' rest
      let (minute, rest) ← readField 2 0 59 rest
      let isZero := decimalValue hour == 0 && decimalValue minute == 0
      return ((if isZero then '+' else c) :: hour ++ ':' :: minute, rest)
    else some ([], c :: rest)

/-- Whether a time starts here: two digits of an hour and a colon. -/
def startsTime (cs : List Char) : Bool :=
  match readField 2 0 23 cs with
  | some (_, ':' :: _) => true
  | _ => false

/-- Whether a date starts here: four digits and a hyphen. -/
def startsDate (cs : List Char) : Bool :=
  match readField 4 0 9999 cs with
  | some (_, '-' :: _) => true
  | _ => false

/-- A date as data: a record with one field of a reserved name. -/
def dateData (shown : List Char) : Data :=
  .mapping [("$__toml_private_datetime", .text (String.ofList shown))]

/-- A date, with a time after it if one follows. -/
def readDateTime (cs : List Char) : Option (Data × List Char) := do
  let (date, rest) ← readDate cs
  match rest with
  | c :: tail =>
    if (c == 'T' || c == 't' || c == ' ') && startsTime tail then
      let (time, rest) ← readTime tail
      let (offset, rest) ← readOffset rest
      return (dateData (date ++ 'T' :: time ++ offset), rest)
    else return (dateData date, rest)
  | [] => return (dateData date, [])

/-! ## Scalars -/

def readPlainScalar (cs : List Char) : Option (Data × List Char) :=
  if startsDate cs then readDateTime cs
  else if startsTime cs then (readTime cs).map fun (time, rest) => (dateData time, rest)
  else match cs with
    | 't' :: 'r' :: 'u' :: 'e' :: rest => some (.boolean true, rest)
    | 'f' :: 'a' :: 'l' :: 's' :: 'e' :: rest => some (.boolean false, rest)
    | '0' :: 'x' :: rest => readRadix 16 rest
    | '0' :: 'o' :: rest => readRadix 8 rest
    | '0' :: 'b' :: rest => readRadix 2 rest
    | '+' :: rest => readSigned false rest
    | '-' :: rest => readSigned true rest
    | cs => readSigned false cs

def readScalar (cs : List Char) : Option (Data × List Char) :=
  match cs with
  | c :: _ =>
    if c == '"' || c == '\'' then (readString cs).map fun (s, rest) => (.text s, rest)
    else readPlainScalar cs
  | [] => none

end Assets.Toml
