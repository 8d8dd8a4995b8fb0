import Mathlib.Algebra.Group.Int.Defs
import Mathlib.Algebra.Group.Nat.Defs
import Assets.Json.Reader

/-!
# Integers read back

A number is read in several stages, and each of them may turn it into a float: digits that do not
fit 64 bits, a point, an exponent.  An integer in decimal notation goes through without any of
these, if it fits (`IsStored`) and if what follows does not go on with the number (`EndsNumber`).

* `gather_digits`: digits are gathered to the end if the number that they make is small enough.
  Numbers only grow while they are gathered, so that it is enough to ask this of the whole.
* `head?_toDigits_ne`: there is no leading zero, at which the reader would stop.
* `readNumber_toDigits`: digits are read as their number.
-/

namespace Assets.Json

/-- An integer that is kept as one: it fits 64 bits, with a sign or without. -/
def IsStored (n : Int) : Prop := -2 ^ 63 ≤ n ∧ n < 2 ^ 64

/-- A character that can stand in a number. -/
def isNumeric (c : Char) : Bool :=
  isDigit c || c == '-' || c == '+' || c == '.' || c == 'e' || c == 'E'

/-- A text that does not go on with a number in front of it. -/
def EndsNumber (rest : List Char) : Prop := ∀ c ∈ rest.head?, isNumeric c = false

@[simp] theorem endsNumber_nil : EndsNumber [] := by simp [EndsNumber]

@[simp] theorem endsNumber_cons {c : Char} {rest : List Char} :
    EndsNumber (c :: rest) ↔ isNumeric c = false := by
  simp [EndsNumber]

theorem endsNumber_dropWhile (cs : List Char) : EndsNumber (cs.dropWhile isNumeric) := by
  intro c hc
  have hnot := List.head?_dropWhile_not isNumeric cs
  rw [Option.mem_def.mp hc] at hnot
  exact hnot

theorem EndsNumber.startsWithDigit {rest : List Char} (h : EndsNumber rest) :
    startsWithDigit rest = false := by
  cases rest with
  | nil => rfl
  | cons c rest =>
      have hc : isNumeric c = false := endsNumber_cons.mp h
      simp only [isNumeric, Bool.or_eq_false_iff] at hc
      exact hc.1.1.1.1.1

/-! ## Decimal digits -/

theorem isDigit_iff {c : Char} : isDigit c = true ↔ 48 ≤ c.toNat ∧ c.toNat ≤ 57 := by
  simp only [isDigit, Bool.and_eq_true, decide_eq_true_eq]
  rfl

theorem isDigit_of_mem_toDigits {n : Nat} {c : Char} (h : c ∈ Nat.toDigits 10 n) :
    isDigit c = true := by
  have hdigit := Nat.isDigit_of_mem_toDigits (by decide) (by decide) h
  exact isDigit_iff.mpr (Char.isDigit_iff_toNat.mp hdigit)

theorem le_ofDigitChars (digits : List Char) (m : Nat) : m ≤ Nat.ofDigitChars 10 digits m := by
  induction digits generalizing m with
  | nil => exact Nat.le_of_eq Nat.ofDigitChars_nil.symm
  | cons c digits ih =>
      rw [Nat.ofDigitChars_cons]
      calc m ≤ 10 * m + (c.toNat - '0'.toNat) := by omega
        _ ≤ _ := ih _

/-- Only the number zero starts with a zero. -/
theorem head?_toDigits_ne {n : Nat} (h : 0 < n) : (Nat.toDigits 10 n).head? ≠ some '0' := by
  induction n using Nat.strongRecOn with
  | ind n ih =>
      rcases Nat.lt_or_ge n 10 with hlt | hge
      · rw [Nat.toDigits_of_lt_base hlt, List.head?_cons, ne_eq, Option.some.injEq,
          Nat.digitChar_eq_zero]
        omega
      · have hfront := ih (n / 10) (by omega) (by omega)
        obtain ⟨c, digits, hdigits⟩ :=
          List.exists_cons_of_ne_nil (Nat.toDigits_ne_nil (n := n / 10) (b := 10))
        rw [Nat.toDigits_of_base_le (by decide) hge]
        rw [hdigits] at hfront ⊢
        exact hfront

/-! ## Reading -/

/-- All digits are gathered as long as the number they make stays below the limit. -/
theorem gather_digits {limit m : Nat} {digits rest : List Char}
    (hdigits : ∀ c ∈ digits, isDigit c = true) (hrest : startsWithDigit rest = false)
    (hlt : Nat.ofDigitChars 10 digits m < limit) :
    gather limit m (digits ++ rest) = (Nat.ofDigitChars 10 digits m, digits.length, rest) := by
  induction digits generalizing m with
  | nil =>
      cases rest with
      | nil => rw [List.append_nil, gather, Nat.ofDigitChars_nil]; rfl
      | cons c rest =>
          have hc : isDigit c = false := hrest
          rw [List.nil_append, gather, if_neg (by simp [hc]), Nat.ofDigitChars_nil]
          rfl
  | cons c digits ih =>
      rw [Nat.ofDigitChars_cons] at hlt ⊢
      have hbelow : 10 * m + digitValue c < limit := Nat.lt_of_le_of_lt (le_ofDigitChars _ _) hlt
      have hmore := ih (fun d hd => hdigits d (List.mem_cons_of_mem _ hd)) hlt
      rw [List.cons_append, gather, if_pos ⟨hdigits c List.mem_cons_self, hbelow⟩]
      exact congrArg (fun gathered : Nat × Nat × List Char =>
        (gathered.1, gathered.2.1 + 1, gathered.2.2)) hmore

theorem finishNumber_of_ends (negative : Bool) (n : Nat) {rest : List Char} (h : EndsNumber rest) :
    finishNumber negative n rest = .ok (ofInteger negative n, rest) := by
  cases rest with
  | nil => rfl
  | cons c rest =>
      have hc : isNumeric c = false := endsNumber_cons.mp h
      simp only [isNumeric, Bool.or_eq_false_iff, beq_eq_false_iff_ne] at hc
      obtain ⟨⟨⟨-, hpoint⟩, he⟩, hE⟩ := hc
      rw [finishNumber, if_neg hpoint, if_neg (by simp [he, hE])]

/-- A number in decimal notation is read as an integer. -/
theorem readNumber_toDigits (negative : Bool) {n : Nat} (h : n < 2 ^ 64) {rest : List Char}
    (hrest : EndsNumber rest) :
    readNumber negative (Nat.toDigits 10 n ++ rest) = .ok (ofInteger negative n, rest) := by
  have hends := hrest.startsWithDigit
  rcases Nat.eq_zero_or_pos n with rfl | hpos
  · rw [Nat.toDigits_zero, List.singleton_append, readNumber, if_pos rfl, if_neg (by simp [hends])]
    exact finishNumber_of_ends negative 0 hrest
  · obtain ⟨c, digits, hdigits⟩ :=
      List.exists_cons_of_ne_nil (Nat.toDigits_ne_nil (n := n) (b := 10))
    have hzero : c ≠ '0' := by
      have hhead := head?_toDigits_ne hpos
      rw [hdigits] at hhead
      exact fun heq => hhead (congrArg some heq)
    have hall : ∀ d ∈ c :: digits, isDigit d = true := fun d hd =>
      isDigit_of_mem_toDigits (hdigits ▸ hd)
    have hvalue : Nat.ofDigitChars 10 digits (digitValue c) = n := by
      have hread := Nat.ofDigitChars_ten_toDigits (n := n)
      rw [hdigits, Nat.ofDigitChars_cons, Nat.mul_zero, Nat.zero_add] at hread
      exact hread
    have hbelow : Nat.ofDigitChars 10 digits (digitValue c) < significandLimit := hvalue ▸ h
    have hgather := gather_digits (fun d hd => hall d (List.mem_cons_of_mem _ hd)) hends hbelow
    rw [hdigits, List.cons_append, readNumber, if_neg hzero, if_pos (hall c List.mem_cons_self),
      hgather, hvalue]
    dsimp only
    rw [if_neg (by simp [hends])]
    exact finishNumber_of_ends negative n hrest

end Assets.Json
