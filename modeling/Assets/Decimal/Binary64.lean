/-!
# Binary floating-point magnitudes

Non-negative finite numbers with a significand below 2⁵³ and a bounded binary exponent.  Every
operation is exact arithmetic on natural numbers followed by one rounding to the nearest number of
that kind, a tie going to the even significand.
-/

namespace Assets

/-- The magnitude `significand · 2 ^ exponent`. -/
structure Binary64 where
  significand : Nat
  exponent : Int
  deriving DecidableEq, Repr, Inhabited

namespace Binary64

def minExponent : Int := -1074

def maxExponent : Int := 971

def zero : Binary64 := ⟨0, minExponent⟩

def isZero (x : Binary64) : Bool := x.significand == 0

/-- The integer nearest to `num / den`; a half goes to the even one. -/
def roundDiv (num den : Nat) : Nat :=
  let q := num / den
  let r := num % den
  if 2 * r < den then q else if 2 * r = den then q + q % 2 else q + 1

/-- `num / den` times two to the power `-e`, as a fraction. -/
def descale (num den : Nat) (e : Int) : Nat × Nat :=
  if 0 ≤ e then (num, den * Nat.pow 2 e.toNat) else (num * Nat.pow 2 (-e).toNat, den)

/-- The exponent at which `num / den` has a significand of fifty-three bits, and not less than the
least exponent. -/
def exponentFor (num den : Nat) : Int :=
  let k : Int := (num.log2 : Int) - den.log2
  let scaled := descale num den k
  let log := if scaled.2 ≤ scaled.1 then k else k - 1
  max minExponent (log - 52)

/-- The nearest magnitude to `num / den`, or nothing when it exceeds the greatest one. -/
def ofRatio? (num den : Nat) : Option Binary64 :=
  if num = 0 then some zero
  else
    let e := exponentFor num den
    let scaled := descale num den e
    let m := roundDiv scaled.1 scaled.2
    let x : Binary64 := if m = Nat.pow 2 53 then ⟨Nat.pow 2 52, e + 1⟩ else ⟨m, e⟩
    if maxExponent < x.exponent then none else some x

def toRatio (x : Binary64) : Nat × Nat :=
  if 0 ≤ x.exponent then (x.significand * Nat.pow 2 x.exponent.toNat, 1)
  else (x.significand, Nat.pow 2 (-x.exponent).toNat)

/-- Product, rounded. -/
def mul? (x y : Binary64) : Option Binary64 :=
  let a := x.toRatio
  let b := y.toRatio
  ofRatio? (a.1 * b.1) (a.2 * b.2)

/-- Quotient, rounded. -/
def div? (x y : Binary64) : Option Binary64 :=
  let a := x.toRatio
  let b := y.toRatio
  ofRatio? (a.1 * b.2) (a.2 * b.1)

/-- The nearest magnitude to a power of ten. -/
def pow10? (k : Nat) : Option Binary64 := ofRatio? (Nat.pow 10 k) 1

end Binary64

end Assets
