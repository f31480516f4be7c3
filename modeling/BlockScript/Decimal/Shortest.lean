import BlockScript.Double

/-!
# Shortest decimals

The reals that round to a given double form an interval. Among the decimals in it the shortest one is the point of the
coarsest grid `10^k` that has a point there, and of two such points the nearer to the double. Everything is exact arithmetic
on natural numbers.
-/

namespace BlockScript

/-- The decimal `digits · 10^exponent`. -/
structure Decimal where
  digits : Nat
  exponent : Int
  deriving DecidableEq, Repr

namespace Decimal

/-- An interval around a value, all three ends over one denominator; `closed` says whether the ends belong to it. -/
structure Interval where
  low : Nat
  value : Nat
  high : Nat
  closed : Bool
  deriving DecidableEq, Repr

/-- Whether a number lies in an interval. -/
def Interval.contains (i : Interval) (x : Nat) : Bool :=
  if i.closed then decide (i.low ≤ x ∧ x ≤ i.high) else decide (i.low < x ∧ x < i.high)

/-- The interval scaled by a factor. -/
def Interval.scale (i : Interval) (factor : Nat) : Interval :=
  { i with low := i.low * factor, value := i.value * factor, high := i.high * factor }

/-- The multiple of `unit` in the interval that is nearest to its value, counted in units; the larger one of a tie. If a
multiple lies in the interval at all, so does one of the two neighbours of the value. -/
def Interval.onGrid (i : Interval) (unit : Nat) : Option Nat :=
  let below := i.value / unit
  let above := below + 1
  match i.contains (below * unit), i.contains (above * unit) with
  | true, true => some (if i.value - below * unit < above * unit - i.value then below else above)
  | true, false => some below
  | false, true => some above
  | false, false => none

/-- The reals that round to `significand · 2^exponent`, in quarters of `2^exponent`. Below the least significand of a binade
the doubles stand twice as close; a tie rounds to the even significand, so the ends belong to an even one. -/
def roundingInterval (significand : Nat) (exponent : Int) : Interval :=
  { low := if significand = Double.hiddenBit ∧ -1074 < exponent then 4 * significand - 1 else 4 * significand - 2
    value := 4 * significand
    high := 4 * significand + 2
    closed := significand % 2 = 0 }

/-- A power of ten that exceeds `significand · 2^exponent`: `log₁₀ 2` is a little less than 30103/100000. -/
def exponentAbove (significand : Nat) (exponent : Int) : Int :=
  ((Nat.log2 significand : Int) + 2 + exponent) * 30103 / 100000 + 2

/-- The decimal of `significand · 2^exponent` on the grid `10^k`, if the rounding interval has a point there. -/
def onPowerOfTen (significand : Nat) (exponent k : Int) : Option Decimal :=
  let interval := roundingInterval significand exponent
  let scaled := interval.scale (Nat.pow 2 exponent.toNat * Nat.pow 10 (-k).toNat)
  (scaled.onGrid (4 * Nat.pow 2 (-exponent).toNat * Nat.pow 10 k.toNat)).map (⟨·, k⟩)

/-- The decimal that is exactly `significand · 2^exponent`. -/
def exact (significand : Nat) (exponent : Int) : Decimal :=
  if 0 ≤ exponent then ⟨significand * Nat.pow 2 exponent.toNat, 0⟩
  else ⟨significand * Nat.pow 5 (-exponent).toNat, exponent⟩

/-- The shortest decimal that reads back as `significand · 2^exponent`. Seventeen digits always suffice, so the search ends
well before its last grid; the exact decimal, which also reads back, stands behind it. -/
def shortest (significand : Nat) (exponent : Int) : Decimal :=
  let top := exponentAbove significand exponent
  ((List.range 24).findSome? fun (i : Nat) => onPowerOfTen significand exponent (top - i)).getD
    (exact significand exponent)

end Decimal

end BlockScript
