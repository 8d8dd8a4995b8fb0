import Assets.Json.Fault
import Assets.Json.Value
import Assets.Text.Hex

/-!
# Reading JSON

A reader takes the characters that are left and gives a result with the characters left after it,
or stops.  Where it stops is told by the number of bytes not yet read; a stop at a character that
was only looked at counts the first byte of that character as read.

Numbers are read in the way of a fast reader: digits are gathered into 64 bits as long as they
fit, and the decimal exponent is applied to the gathered significand by rounded binary operations,
so that a float is not always the nearest one to its text.
-/

namespace Assets.Json

/-- A refusal with the number of bytes left. -/
structure Stop where
  cause : Cause
  unread : Nat
  deriving DecidableEq, Repr

/-- The result of a reader: a value with the characters left, or a stop. -/
abbrev Reading (α : Type) := Except Stop (α × List Char)

namespace Reading

/-- Goes on with the result of a reading and the characters after it. -/
def andThen {α β : Type} (reading : Reading α) (next : α → List Char → Reading β) : Reading β :=
  match reading with
  | .ok (x, rest) => next x rest
  | .error stop => .error stop

def map {α β : Type} (f : α → β) (reading : Reading α) : Reading β :=
  reading.andThen fun x rest => .ok (f x, rest)

variable {α β : Type}

@[simp] theorem andThen_ok (x : α) (rest : List Char) (next : α → List Char → Reading β) :
    andThen (.ok (x, rest)) next = next x rest := rfl

@[simp] theorem andThen_error (stop : Stop) (next : α → List Char → Reading β) :
    andThen (.error stop) next = .error stop := rfl

theorem andThen_eq_ok {reading : Reading α} {next : α → List Char → Reading β}
    {p : β × List Char} (h : reading.andThen next = .ok p) :
    ∃ x rest, reading = .ok (x, rest) ∧ next x rest = .ok p := by
  match reading, h with
  | .ok (x, rest), h => exact ⟨x, rest, rfl, h⟩

end Reading

def byteCount (cs : List Char) : Nat := cs.foldl (fun n c => n + c.utf8Size) 0

/-- Stops with everything up to `rest` read. -/
def stopAfter {α : Type} (cause : Cause) (rest : List Char) : Except Stop α :=
  .error ⟨cause, byteCount rest⟩

/-- Stops at the first byte of `rest`. -/
def stopAt {α : Type} (cause : Cause) (rest : List Char) : Except Stop α :=
  .error ⟨cause, byteCount rest - 1⟩

def isSpace (c : Char) : Bool := c == ' ' || c == '\n' || c == '\t' || c == '\r'

def skipSpaces (cs : List Char) : List Char := cs.dropWhile isSpace

/-! ## Strings -/

/-- The number of four hexadecimal digits.  Four bytes are taken before their digits are looked
at. -/
def readUnit : List Char → Reading Nat
  | a :: b :: c :: d :: rest =>
    match Text.hexNumber? [a, b, c, d] with
    | some n => .ok (n, rest)
    | none => .error ⟨.invalidEscape, byteCount (a :: b :: c :: d :: rest) - 4⟩
  | rest =>
    if byteCount rest < 4 then stopAfter .eofInString []
    else .error ⟨.invalidEscape, byteCount rest - 4⟩

/-- The second half of a pair of surrogates, whose first half is `high`. -/
def readLowSurrogate (high : Nat) : List Char → Reading Char
  | '\\' :: 'u' :: rest =>
    (readUnit rest).andThen fun low rest =>
      if 0xdc00 ≤ low ∧ low ≤ 0xdfff then
        .ok (Char.ofNat (0x10000 + (high - 0xd800) * 0x400 + (low - 0xdc00)), rest)
      else stopAfter .loneSurrogate rest
  | '\\' :: [] => stopAfter .eofInString []
  | '\\' :: rest => stopAt .unfinishedSurrogate rest
  | [] => stopAfter .eofInString []
  | rest => stopAt .unfinishedSurrogate rest

def simpleEscape? : Char → Option Char
  | '"' => some '"'
  | '\\' => some '\\'
  | '/' => some '/'
  | 'b' => some '\x08'
  | 'f' => some '\x0c'
  | 'n' => some '\n'
  | 'r' => some '\r'
  | 't' => some '\t'
  | _ => none

def readEscape : List Char → Reading Char
  | [] => stopAfter .eofInString []
  | c :: rest =>
    if c = 'u' then
      (readUnit rest).andThen fun unit rest =>
        if 0xdc00 ≤ unit ∧ unit ≤ 0xdfff then stopAfter .loneSurrogate rest
        else if 0xd800 ≤ unit ∧ unit ≤ 0xdbff then readLowSurrogate unit rest
        else .ok (Char.ofNat unit, rest)
    else match simpleEscape? c with
      | some d => .ok (d, rest)
      | none => stopAt .invalidEscape (c :: rest)

theorem readUnit_length {cs rest : List Char} {n : Nat} (h : readUnit cs = .ok (n, rest)) :
    rest.length < cs.length := by
  unfold readUnit at h
  split at h
  · split at h
    · cases h
      simp only [List.length_cons]
      omega
    · cases h
  · split at h <;> simp [stopAfter] at h

theorem readLowSurrogate_length {high : Nat} {cs rest : List Char} {c : Char}
    (h : readLowSurrogate high cs = .ok (c, rest)) : rest.length < cs.length := by
  unfold readLowSurrogate at h
  split at h
  · obtain ⟨low, left, hunit, h⟩ := Reading.andThen_eq_ok h
    have := readUnit_length hunit
    split at h
    · simp only [Except.ok.injEq, Prod.mk.injEq] at h
      rw [← h.2]; simp only [List.length_cons]; omega
    · simp [stopAfter] at h
  all_goals simp [stopAfter, stopAt] at h

theorem readEscape_length {cs rest : List Char} {c : Char} (h : readEscape cs = .ok (c, rest)) :
    rest.length < cs.length := by
  unfold readEscape at h
  split at h
  · simp [stopAfter] at h
  · split at h
    · obtain ⟨unit, left, hunit, h⟩ := Reading.andThen_eq_ok h
      have := readUnit_length hunit
      split at h
      · simp [stopAfter] at h
      · split at h
        · have := readLowSurrogate_length h
          simp only [List.length_cons]; omega
        · simp only [Except.ok.injEq, Prod.mk.injEq] at h
          rw [← h.2]; simp only [List.length_cons]; omega
    · split at h
      · simp only [Except.ok.injEq, Prod.mk.injEq] at h
        rw [← h.2]; simp
      · simp [stopAt] at h

/-- The characters of a string, after its opening quote and through its closing one. -/
def readString : List Char → Reading (List Char)
  | [] => stopAfter .eofInString []
  | c :: rest =>
    if c = '"' then .ok ([], rest)
    else if c = '\\' then
      match _hescape : readEscape rest with
      | .error stop => .error stop
      | .ok (d, rest') => (readString rest').map (d :: ·)
    else if c.toNat < 0x20 then stopAfter .controlCharacter rest
    else (readString rest).map (c :: ·)
termination_by cs => cs.length
decreasing_by
  · have := readEscape_length _hescape; simp only [List.length_cons]; omega
  · simp

/-! ## Numbers -/

def isDigit (c : Char) : Bool := '0' ≤ c && c ≤ '9'

def digitValue (c : Char) : Nat := c.toNat - 48

def startsWithDigit : List Char → Bool
  | c :: _ => isDigit c
  | [] => false

/-- Gathers digits into `n` as long as the result stays below `limit`: the number, how many digits
were taken, and the characters left. -/
def gather (limit : Nat) (n : Nat) : List Char → Nat × Nat × List Char
  | [] => (n, 0, [])
  | c :: rest =>
    if isDigit c ∧ 10 * n + digitValue c < limit then
      let (m, taken, left) := gather limit (10 * n + digitValue c) rest
      (m, taken + 1, left)
    else (n, 0, c :: rest)

def significandLimit : Nat := Nat.pow 2 64

/-- Divides by 10³⁰⁸ at most `steps` times, and no further than zero. -/
def shrink : (steps : Nat) → Binary64 → Binary64
  | 0, x => x
  | steps + 1, x =>
    if x.isZero then x
    else shrink steps (((Binary64.pow10? 308).bind x.div?).getD .zero)

/-- The float of a significand and a decimal exponent, or nothing when it is out of range. -/
def scale? (significand : Nat) (exponent : Int) : Option Binary64 := do
  let x ← Binary64.ofRatio? significand 1
  if 0 ≤ exponent then
    if exponent ≤ 308 then (Binary64.pow10? exponent.toNat).bind x.mul?
    else if x.isZero then some x
    else none
  else
    let e := (-exponent).toNat
    let steps := (e - 1) / 308
    let x := shrink steps x
    if x.isZero then some x else (Binary64.pow10? (e - 308 * steps)).bind x.div?

/-- A float, after the last character of its text. -/
def finishFloat (negative : Bool) (significand : Nat) (exponent : Int) (rest : List Char) :
    Reading Number :=
  match scale? significand exponent with
  | some x => .ok (.float negative x, rest)
  | none => stopAfter .numberOutOfRange rest

def exponentLimit : Nat := Nat.pow 2 31

def readExponent (negative : Bool) (significand : Nat) (start : Int) (cs : List Char) :
    Reading Number :=
  let (down, cs) := match cs with
    | '+' :: rest => (false, rest)
    | '-' :: rest => (true, rest)
    | rest => (false, rest)
  match cs with
  | [] => stopAfter .eofInValue []
  | c :: rest =>
    if isDigit c then
      let (e, _, rest) := gather exponentLimit (digitValue c) rest
      if startsWithDigit rest then
        if significand ≠ 0 ∧ !down then stopAfter .numberOutOfRange (rest.drop 1)
        else .ok (.float negative .zero, rest.dropWhile isDigit)
      else finishFloat negative significand (if down then start - e else start + e) rest
    else stopAt .invalidNumber (c :: rest)

/-- The part of a number after the digits gathered so far, from the exponent on. -/
def readTail (negative : Bool) (significand : Nat) (exponent : Int) (cs : List Char) :
    Reading Number :=
  match cs with
  | c :: rest =>
    if c = 'e' ∨ c = 'E' then readExponent negative significand exponent rest
    else finishFloat negative significand exponent cs
  | [] => finishFloat negative significand exponent []

def readFraction (negative : Bool) (significand : Nat) (start : Int) (cs : List Char) :
    Reading Number :=
  let (n, taken, rest) := gather significandLimit significand cs
  if startsWithDigit rest then readTail negative n (start - taken) (rest.dropWhile isDigit)
  else if taken = 0 then
    match rest with
    | [] => stopAfter .eofInValue []
    | rest => stopAt .invalidNumber rest
  else readTail negative n (start - taken) rest

/-- An integer as it is kept: within 64 bits as it is, else as a float, as is negative zero. -/
def ofInteger (negative : Bool) (n : Nat) : Number :=
  if !negative then .integer n
  else if n ≠ 0 ∧ n ≤ Nat.pow 2 63 then .integer (-n)
  else .float true ((Binary64.ofRatio? n 1).getD .zero)

/-- A number, after its integer part. -/
def finishNumber (negative : Bool) (n : Nat) (cs : List Char) : Reading Number :=
  match cs with
  | c :: rest =>
    if c = '.' then readFraction negative n 0 rest
    else if c = 'e' ∨ c = 'E' then readExponent negative n 0 rest
    else .ok (ofInteger negative n, cs)
  | [] => .ok (ofInteger negative n, [])

def readNumber (negative : Bool) : List Char → Reading Number
  | [] => stopAfter .eofInValue []
  | c :: rest =>
    if c = '0' then
      if startsWithDigit rest then stopAt .invalidNumber rest
      else finishNumber negative 0 rest
    else if isDigit c then
      let (n, _, rest) := gather significandLimit (digitValue c) rest
      if startsWithDigit rest then
        let more := rest.takeWhile isDigit
        match rest.dropWhile isDigit with
        | '.' :: rest => readFraction negative n more.length rest
        | rest => readTail negative n more.length rest
      else finishNumber negative n rest
    else stopAt .invalidNumber (c :: rest)

/-! ## Documents -/

/-- The rest of a word whose first character was read. -/
def readWord {α : Type} (value : α) : (word cs : List Char) → Reading α
  | [], cs => .ok (value, cs)
  | _ :: _, [] => stopAfter .eofInValue []
  | w :: word, c :: cs =>
    if w = c then readWord value word cs else stopAt .expectedWord (c :: cs)

/-- The items of a list, after its opening bracket or an item and through the closing bracket.
Every item takes at least one character, so the fuel is the number of characters left. -/
def readItems {α : Type} (item : List Char → Reading α) :
    (fuel : Nat) → (first : Bool) → List Char → Reading (List α)
  | 0, _, _ => stopAfter .eofInList []
  | fuel + 1, first, cs =>
    let next (cs : List Char) : Reading (List α) :=
      (item cs).andThen fun x rest => (readItems item fuel false rest).map (x :: ·)
    match skipSpaces cs with
    | [] => stopAt .eofInList []
    | c :: rest =>
      if c = ']' then .ok ([], rest)
      else if first then next (c :: rest)
      else if c = ',' then
        match skipSpaces rest with
        | [] => stopAt .eofInValue []
        | d :: rest => if d = ']' then stopAt .trailingComma (d :: rest) else next (d :: rest)
      else stopAt .expectedListEnd (c :: rest)

/-- The colon between the name and the value of a member. -/
def readColon (cs : List Char) : Reading Unit :=
  match skipSpaces cs with
  | [] => stopAt .eofInObject []
  | c :: rest => if c = ':' then .ok ((), rest) else stopAt .expectedColon (c :: rest)

/-- The members of an object, after its opening brace or a member and through the closing
brace. -/
def readMembers {α : Type} (value : List Char → Reading α) :
    (fuel : Nat) → (first : Bool) → List Char → Reading (List (String × α))
  | 0, _, _ => stopAfter .eofInObject []
  | fuel + 1, first, cs =>
    let next (cs : List Char) : Reading (List (String × α)) :=
      match cs with
      | '"' :: rest =>
        (readString rest).andThen fun name rest =>
          (readColon rest).andThen fun _ rest =>
            (value rest).andThen fun x rest =>
              (readMembers value fuel false rest).map ((String.ofList name, x) :: ·)
      | cs => stopAt .keyNotString cs
    match skipSpaces cs with
    | [] => stopAt .eofInObject []
    | c :: rest =>
      if c = '\x7d' then .ok ([], rest)
      else if first then next (c :: rest)
      else if c = ',' then
        match skipSpaces rest with
        | [] => stopAt .eofInValue []
        | d :: rest => if d = '\x7d' then stopAt .trailingComma (d :: rest) else next (d :: rest)
      else stopAt .expectedObjectEnd (c :: rest)

/-- A document in which lists and objects nest at most `depth` deep. -/
def readValue : (depth : Nat) → List Char → Reading Value
  | depth, cs =>
    match skipSpaces cs with
    | [] => stopAt .eofInValue []
    | c :: rest =>
      if c = 'n' then readWord .null "ull".toList rest
      else if c = 't' then readWord (.boolean true) "rue".toList rest
      else if c = 'f' then readWord (.boolean false) "alse".toList rest
      else if c = '"' then (readString rest).map fun s => .text (String.ofList s)
      else if c = '-' then (readNumber true rest).map .number
      else if isDigit c then (readNumber false (c :: rest)).map .number
      else if c = '[' then
        match depth with
        | 0 => stopAt .recursionLimit (c :: rest)
        | depth + 1 => (readItems (readValue depth) (rest.length + 1) true rest).map .array
      else if c = '\x7b' then
        match depth with
        | 0 => stopAt .recursionLimit (c :: rest)
        | depth + 1 =>
          (readMembers (readValue depth) (rest.length + 1) true rest).map fun members =>
            .object (Dictionary.ofList members)
      else stopAt .expectedValue (c :: rest)

def maxDepth : Nat := 127

/-- Turns a stop into a refusal at a position of the whole text. -/
def Stop.toFault (stop : Stop) (text : List Char) : Fault :=
  ⟨stop.cause, some (Position.after (byteCount text - stop.unread) text)⟩

/-- Refuses what is left after a whole document, blanks apart. -/
def finish {α : Type} (x : α) (rest : List Char) : Reading α :=
  match skipSpaces rest with
  | [] => .ok (x, [])
  | rest => stopAt .trailingCharacters rest

/-- Reads a whole text. -/
def readAll {α : Type} (read : List Char → Reading α) (text : String) : Except Fault α :=
  match (read text.toList).andThen finish with
  | .ok (x, _) => .ok x
  | .error stop => .error (stop.toFault text.toList)

def parse (text : String) : Except Fault Value := readAll (readValue maxDepth) text

end Assets.Json
