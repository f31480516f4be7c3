/-!
# Doubles, read exactly

A double is known here by its bits. `Double.read` says which real number a double stands for, as `±significand · 2^exponent`,
and `Double.rank` where it stands among the others. Both are exact: no rounding takes place in this module.
-/

namespace BlockScript

/-- What a double stands for. -/
inductive Double.Reading where
  /-- Not a number. -/
  | nan
  /-- An infinity of either sign. -/
  | infinite (negative : Bool)
  /-- The number `±significand · 2^exponent`; the two zeros differ in their sign alone. -/
  | finite (negative : Bool) (significand : Nat) (exponent : Int)
  deriving DecidableEq, Repr

namespace Double

/-- The topmost bit, which tells the sign. -/
def signBit : Nat := 0x8000000000000000

/-- The bit above the stored bits of a significand, which leads it wherever the exponent field is not zero. -/
def hiddenBit : Nat := 0x10000000000000

/-- The bits below the sign. -/
def magnitude (x : Float) : Nat := x.toBits.toNat % signBit

/-- Whether the sign bit is set. -/
def negative (x : Float) : Bool := decide (signBit ≤ x.toBits.toNat)

/-- The magnitude bits of an infinity: every finite double lies below, every NaN above. -/
def infinityBits : Nat := 0x7FF0000000000000

/-- The number a double stands for. A double whose exponent field is zero has no hidden leading bit. -/
def read (x : Float) : Reading :=
  let bits : Nat := magnitude x
  if infinityBits < bits then .nan
  else if bits = infinityBits then .infinite (negative x)
  else
    let field : Nat := bits / hiddenBit
    let fraction : Nat := bits % hiddenBit
    if field = 0 then .finite (negative x) fraction (-1074)
    else .finite (negative x) (hiddenBit + fraction) ((field : Int) - 1075)

/-- The place of a double in the order of doubles, the two zeros at one place; a NaN has none. -/
def rank (x : Float) : Option Int :=
  if infinityBits < magnitude x then none
  else if negative x then some (-(magnitude x : Int))
  else some (magnitude x : Int)

/-- How two doubles compare; nothing compares with a NaN. -/
def compare? (x y : Float) : Option Ordering :=
  match rank x, rank y with
  | some i, some j => some (compare i j)
  | _, _ => none

/-- Whether a double is a zero of either sign. -/
def isZero (x : Float) : Bool := rank x == some 0

/-- The magnitude of a finite double that is a whole number. -/
def whole? (x : Float) : Option Nat :=
  match read x with
  | .finite _ m q =>
    if 0 ≤ q then some (m * Nat.pow 2 q.toNat)
    else if m % Nat.pow 2 (-q).toNat = 0 then some (m / Nat.pow 2 (-q).toNat)
    else none
  | _ => none

/-- The double nearest to a whole number. -/
def ofInt (n : Int) : Float :=
  let magnitude := Float.ofScientific n.natAbs false 0
  if n < 0 then -magnitude else magnitude

end Double

end BlockScript
