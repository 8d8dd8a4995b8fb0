import Mathlib.Algebra.Group.Nat.Defs
import Mathlib.Tactic.SplitIfs
import Assets.Json.Printer
import Assets.Json.Reader

/-!
# String literals read back

The writer of literals treats one character at a time, but the reader does not see where the text of
one character ends.  So everything here is about a text and whatever follows it.

* `escapeChar_cases`: a character is written with a short escape, with an escape by number, or as it
  is.  Only quotes, backslashes and control characters are escaped, and of these only the ones that
  `readEscape` knows by a letter are written with a letter.
* `readString_escapeChar`: what is written for a character is read as this character, and reading
  goes on behind it.
* `readString_literal`: a literal ends at its closing quote and gives back its text.
-/

namespace Assets

/-! ## Hexadecimal digits -/

theorem Text.hexValue?_hexDigit (n : Nat) : hexValue? (hexDigit n) = some (n % 16) := by
  have hdigit : ∀ d < 16,
      hexValue? (if d < 10 then Char.ofNat (48 + d) else Char.ofNat (87 + d)) = some d := by
    decide
  exact hdigit _ (Nat.mod_lt n (by decide))

theorem Text.hexNumber?_concat {cs : List Char} {c : Char} {n d : Nat}
    (hcs : hexNumber? cs = some n) (hc : hexValue? c = some d) :
    hexNumber? (cs ++ [c]) = some (16 * n + d) := by
  unfold hexNumber? at hcs ⊢
  rw [List.foldl_append, hcs]
  simp [hc]

/-- The digits of a number are read as the number. -/
theorem Text.hexNumber?_hexDigits {width n : Nat} (h : n < 16 ^ width) :
    hexNumber? (hexDigits width n) = some n := by
  induction width generalizing n with
  | zero =>
      have hzero : n = 0 := by simpa using h
      rw [hzero]
      rfl
  | succ width ih =>
      have hfront : n / 16 < 16 ^ width := Nat.div_lt_of_lt_mul (by rwa [Nat.pow_succ'] at h)
      rw [hexDigits, hexNumber?_concat (ih hfront) (hexValue?_hexDigit n), Nat.div_add_mod]

namespace Json

theorem readUnit_hexDigits {n : Nat} (h : n < 16 ^ 4) (rest : List Char) :
    readUnit (Text.hexDigits 4 n ++ rest) = .ok (n, rest) := by
  have hnumber := Text.hexNumber?_hexDigits h
  simp only [Text.hexDigits, List.nil_append, List.cons_append] at hnumber ⊢
  rw [readUnit, hnumber]

/-! ## Literals -/

theorem readString_quote (rest : List Char) : readString ('"' :: rest) = .ok ([], rest) := by
  rw [readString]
  rfl

theorem readString_plain {c : Char} (hquote : c ≠ '"') (hbackslash : c ≠ '\\')
    (hcontrol : ¬c.toNat < 0x20) (rest : List Char) :
    readString (c :: rest) = (readString rest).map (c :: ·) := by
  rw [readString, if_neg hquote, if_neg hbackslash, if_neg hcontrol]

theorem readString_escape {rest left : List Char} {c : Char}
    (h : readEscape rest = .ok (c, left)) :
    readString ('\\' :: rest) = (readString left).map (c :: ·) := by
  rw [readString, if_neg (by decide), if_pos rfl]
  split
  · rename_i stop hstop
    rw [h] at hstop
    cases hstop
  · rename_i d rest' hread
    rw [h] at hread
    cases hread
    rfl

theorem readEscape_simple {c d : Char} (h : simpleEscape? c = some d) (rest : List Char) :
    readEscape (c :: rest) = .ok (d, rest) := by
  have hc : c ≠ 'u' := by
    rintro rfl
    cases h
  rw [readEscape, if_neg hc, h]

/-- A control character is escaped by its number. -/
theorem readEscape_unit {c : Char} (h : c.toNat < 0x20) (rest : List Char) :
    readEscape ('u' :: Text.hexDigits 4 c.toNat ++ rest) = .ok (c, rest) := by
  have hunit := readUnit_hexDigits (n := c.toNat) (by omega) rest
  rw [List.cons_append, readEscape, if_pos rfl, hunit, Reading.andThen_ok, if_neg (by omega),
    if_neg (by omega), Char.ofNat_toNat]

/-- A character has a short escape, or is a control character with an escape by number, or stands
for itself. -/
theorem escapeChar_cases (c : Char) :
    (∃ e, escapeChar c = ['\\', e] ∧ simpleEscape? e = some c) ∨
      (c.toNat < 0x20 ∧ escapeChar c = '\\' :: 'u' :: Text.hexDigits 4 c.toNat) ∨
      (c ≠ '"' ∧ c ≠ '\\' ∧ ¬c.toNat < 0x20 ∧ escapeChar c = [c]) := by
  unfold escapeChar
  split_ifs with hquote hbackslash hback htab hline hform hreturn hcontrol
  · exact .inl ⟨'"', rfl, congrArg some hquote.symm⟩
  · exact .inl ⟨'\\', rfl, congrArg some hbackslash.symm⟩
  · exact .inl ⟨'b', rfl, congrArg some hback.symm⟩
  · exact .inl ⟨'t', rfl, congrArg some htab.symm⟩
  · exact .inl ⟨'n', rfl, congrArg some hline.symm⟩
  · exact .inl ⟨'f', rfl, congrArg some hform.symm⟩
  · exact .inl ⟨'r', rfl, congrArg some hreturn.symm⟩
  · exact .inr (.inl ⟨hcontrol, rfl⟩)
  · exact .inr (.inr ⟨hquote, hbackslash, hcontrol, rfl⟩)

/-- Each character of a literal is read back as it was before it was escaped. -/
theorem readString_escapeChar (c : Char) (rest : List Char) :
    readString (escapeChar c ++ rest) = (readString rest).map (c :: ·) := by
  rcases escapeChar_cases c with ⟨e, hc, he⟩ | ⟨hcontrol, hc⟩ | ⟨hquote, hbackslash, hcontrol, hc⟩
  · rw [hc]
    exact readString_escape (readEscape_simple he rest)
  · rw [hc]
    exact readString_escape (readEscape_unit hcontrol rest)
  · rw [hc]
    exact readString_plain hquote hbackslash hcontrol rest

/-- A literal ends at its closing quote, whatever text follows it. -/
theorem readString_literal (s rest : List Char) :
    readString (s.flatMap escapeChar ++ '"' :: rest) = .ok (s, rest) := by
  induction s with
  | nil => exact readString_quote rest
  | cons c s ih =>
      rw [List.flatMap_cons, List.append_assoc, readString_escapeChar, ih]
      rfl

end Json
end Assets
