/-!
# Text as bytes

Text is stored as UTF-8.  Bytes that are not UTF-8 can still be shown: each longest start of a
character that breaks off is replaced by one replacement character.
-/

namespace Assets.Text

def bytes (s : String) : List UInt8 := s.toUTF8.data.toList

/-- The text that bytes encode, if they are UTF-8. -/
def ofBytes? (bs : List UInt8) : Option String := String.fromUTF8? ⟨bs.toArray⟩

/-- A byte that continues a character. -/
def isTail (b : UInt8) : Bool := 0x80 ≤ b && b ≤ 0xbf

/-- The length of a character by its first byte, and the bounds of its second byte; nothing if no
character starts with the byte. -/
def leadByte? (b : UInt8) : Option (Nat × UInt8 × UInt8) :=
  if 0xc2 ≤ b && b ≤ 0xdf then some (2, 0x80, 0xbf)
  else if b == 0xe0 then some (3, 0xa0, 0xbf)
  else if b == 0xed then some (3, 0x80, 0x9f)
  else if 0xe1 ≤ b && b ≤ 0xef then some (3, 0x80, 0xbf)
  else if b == 0xf0 then some (4, 0x90, 0xbf)
  else if 0xf1 ≤ b && b ≤ 0xf3 then some (4, 0x80, 0xbf)
  else if b == 0xf4 then some (4, 0x80, 0x8f)
  else none

/-- How many of the bytes after a first byte belong to its character, up to `length - 1`. -/
def tailCount (length : Nat) (low high : UInt8) : List UInt8 → Nat
  | [] => 0
  | b :: rest =>
    if low ≤ b && b ≤ high then 1 + ((rest.take (length - 2)).takeWhile isTail).length
    else 0

/-- The code point of a character from its first byte and the bytes after it. -/
def codePoint (lead : UInt8) (tail : List UInt8) : Nat :=
  tail.foldl (fun n b => 64 * n + b.toNat % 64) (lead.toNat % Nat.pow 2 (6 - tail.length))

/-- The text of bytes, with a replacement character for every sequence that is not UTF-8. -/
def lossy : List UInt8 → List Char
  | [] => []
  | b :: rest =>
    if b < 0x80 then Char.ofNat b.toNat :: lossy rest
    else match leadByte? b with
      | none => '\ufffd' :: lossy rest
      | some (length, low, high) =>
        let count := tailCount length low high rest
        let c := if count + 1 = length then Char.ofNat (codePoint b (rest.take count))
          else '\ufffd'
        c :: lossy (rest.drop count)
termination_by bs => bs.length
decreasing_by
  all_goals simp only [List.length_cons, List.length_drop]; omega

end Assets.Text
