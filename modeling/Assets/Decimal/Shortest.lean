import Assets.Decimal.Binary64

/-!
# Shortest decimals

The fewest decimal digits that read back as a given magnitude.  The reals that round to a
magnitude form an interval around it, whose ends belong to it when the significand is even.  For
one digit, two digits, and so on, the two neighbours of the magnitude on the grid of that many
digits are tried; the first grid with a neighbour in the interval wins, and of two such neighbours
the nearer one, the even one on a tie.
-/

namespace Assets

/-- The decimal `digits · 10 ^ exponent`. -/
structure Decimal where
  digits : Nat
  exponent : Int
  deriving DecidableEq, Repr, Inhabited

namespace Decimal

/-- Moves trailing zeros of the digits into the exponent, at most `fuel` of them. -/
def trimZeros : (fuel : Nat) → Decimal → Decimal
  | 0, d => d
  | fuel + 1, d =>
    if d.digits ≠ 0 ∧ d.digits % 10 = 0 then trimZeros fuel ⟨d.digits / 10, d.exponent + 1⟩ else d

end Decimal

namespace Binary64

/-- Numerators, over one denominator, of a magnitude and of the ends of the interval of reals that
round to it. -/
structure Interval where
  low : Nat
  value : Nat
  high : Nat
  den : Nat
  /-- Whether the ends themselves round to the magnitude. -/
  closed : Bool
  deriving Repr

/-- The reals that round to `x`.  Below a power of two the neighbours lie twice as dense. -/
def interval (x : Binary64) : Interval :=
  let m := x.significand
  let below := if m = Nat.pow 2 52 ∧ minExponent < x.exponent then 1 else 2
  let e := x.exponent - 2
  let up := if 0 ≤ e then Nat.pow 2 e.toNat else 1
  let den := if 0 ≤ e then 1 else Nat.pow 2 (-e).toNat
  ⟨(4 * m - below) * up, 4 * m * up, (4 * m + 2) * up, den, m % 2 == 0⟩

/-- Whether `d · num / den` lies in an interval. -/
def Interval.contains (i : Interval) (num den : Nat) (d : Nat) : Bool :=
  let v := d * num * i.den
  let low := i.low * den
  let high := i.high * den
  if i.closed then low ≤ v && v ≤ high else low < v && v < high

/-- The exponent `p` with `10 ^ (p - 1) ≤ num / den < 10 ^ p`, for a binary fraction. -/
def pointOf (num den : Nat) : Int :=
  if den ≤ num then ((Nat.toDigits 10 (num / den)).length : Int)
  else 1 - ((Nat.toDigits 10 (den / num)).length : Int)

/-- The neighbour to take on the grid `10 ^ k`, if one lies in the interval. -/
def onGrid? (i : Interval) (k : Int) : Option Decimal :=
  let num := if 0 ≤ k then Nat.pow 10 k.toNat else 1
  let den := if 0 ≤ k then 1 else Nat.pow 10 (-k).toNat
  let d := (i.value * den) / (i.den * num)
  let r := (i.value * den) % (i.den * num)
  let lower := i.contains num den d
  let upper := i.contains num den (d + 1)
  if lower && upper then
    if 2 * r < i.den * num then some ⟨d, k⟩
    else if 2 * r = i.den * num then some ⟨d + d % 2, k⟩
    else some ⟨d + 1, k⟩
  else if lower then some ⟨d, k⟩
  else if upper then some ⟨d + 1, k⟩
  else none

/-- The shortest decimal that reads back as `x`; seventeen digits always do. -/
def shortest (x : Binary64) : Decimal :=
  if x.isZero then ⟨0, 0⟩
  else
    let i := x.interval
    let p := pointOf i.value i.den
    let found := (List.range 17).findSome? fun (n : Nat) => onGrid? i (p - (n + 1))
    Decimal.trimZeros 400 (found.getD ⟨0, 0⟩)

end Binary64

/-- Where positional notation gives way to an exponent: the number of digits before the decimal
point, negative when zeros follow the point, must lie between the two bounds. -/
structure FloatFormat where
  leastPoint : Option Int
  greatestPoint : Option Int
  deriving Repr

namespace FloatFormat

/-- A decimal with a given count of digits before the point in positional notation.  An integral
number keeps one zero after the point. -/
def positional (digits : List Char) (point : Int) : List Char :=
  if point ≤ 0 then
    '0' :: '.' :: List.replicate (-point).toNat '0' ++ digits
  else
    let before := point.toNat
    if digits.length ≤ before then
      digits ++ List.replicate (before - digits.length) '0' ++ ['.', '0']
    else digits.take before ++ '.' :: digits.drop before

/-- One digit before the point, and an exponent that always has a sign. -/
def scientific (digits : List Char) (point : Int) : List Char :=
  let fraction := match digits.drop 1 with
    | [] => []
    | rest => '.' :: rest
  let e := point - 1
  digits.take 1 ++ fraction ++ 'e' :: (if e < 0 then '-' else '+') ::
    (toString e.natAbs).toList

/-- The text of a magnitude with a sign. -/
def render (format : FloatFormat) (negative : Bool) (x : Binary64) : String :=
  let d := x.shortest
  let digits := (toString d.digits).toList
  let point := d.exponent + digits.length
  let body :=
    if x.isZero then ['0', '.', '0']
    else if (format.leastPoint.all (· ≤ point)) && (format.greatestPoint.all (point ≤ ·)) then
      positional digits point
    else scientific digits point
  String.ofList ((if negative then ['-'] else []) ++ body)

end FloatFormat

end Assets
