import BlockScript.Decimal.Shortest

/-!
# Texts of doubles

Three ways to write a double. `plainText` writes the shortest decimal that reads back, always by position. `debugText` writes
the same digits with a point or an exponent, so that a double never looks like a whole number. `fixedText` writes two places
of the exact value.
-/

namespace BlockScript.Decimal

/-- The decimal digits of a natural number. -/
def digitChars (n : Nat) : List Char := Nat.toDigits 10 n

/-- A decimal by position: a point only between digits, and a zero before a leading point. -/
def positional (d : Decimal) : List Char :=
  let digits := digitChars d.digits
  let places := (-d.exponent).toNat
  if 0 ≤ d.exponent then digits ++ List.replicate d.exponent.toNat '0'
  else if places < digits.length then
    digits.take (digits.length - places) ++ '.' :: digits.drop (digits.length - places)
  else '0' :: '.' :: List.replicate (places - digits.length) '0' ++ digits

/-- A decimal as one digit, the others after a point, and a power of ten. -/
def scientific (d : Decimal) : List Char :=
  let digits := digitChars d.digits
  let power := d.exponent + digits.length - 1
  let mantissa := match digits with
    | [] => []
    | [c] => [c]
    | c :: rest => c :: '.' :: rest
  mantissa ++ 'e' :: (if power < 0 then '-' :: digitChars (-power).toNat else digitChars power.toNat)

/-- Puts the sign in front. -/
def signed (negative : Bool) (text : List Char) : String :=
  String.ofList (if negative then '-' :: text else text)

/-- The decimal of a finite double, zero included. -/
def ofFinite (significand : Nat) (exponent : Int) : Decimal :=
  if significand = 0 then ⟨0, 0⟩ else shortest significand exponent

/-- The shortest digits by position, without a point on whole numbers and never with an exponent. -/
def plainText (x : Float) : String :=
  match Double.read x with
  | .nan => "NaN"
  | .infinite negative => signed negative "inf".toList
  | .finite negative m q => signed negative (positional (ofFinite m q))

/-- Whether a decimal is written with an exponent where values are shown for inspection: from `1e16` up and below `1e-4`. -/
def usesExponent (d : Decimal) : Bool :=
  let length : Int := (digitChars d.digits).length
  d.digits != 0 && (decide (16 < d.exponent + length) || decide (d.exponent + length < -3))

/-- A double as values are shown for inspection: with `.0` on whole numbers, and with an exponent where it is very large or
very small. -/
def debugText (x : Float) : String :=
  match Double.read x with
  | .nan => "NaN"
  | .infinite negative => signed negative "inf".toList
  | .finite negative m q =>
    let d := ofFinite m q
    if usesExponent d then signed negative (scientific d)
    else if 0 ≤ d.exponent then signed negative (positional d ++ ".0".toList)
    else signed negative (positional d)

/-- A double as it is named in messages about values of a wrong type: by position, with `.0` on whole numbers. -/
def pointText (x : Float) : String :=
  match Double.read x with
  | .finite .. => if (plainText x).contains '.' then plainText x else plainText x ++ ".0"
  | _ => plainText x

/-- `numerator / denominator` to the nearest whole number, a half to the even one. -/
def roundDiv (numerator denominator : Nat) : Nat :=
  let quotient := numerator / denominator
  let twice := 2 * (numerator % denominator)
  if denominator < twice then quotient + 1
  else if twice = denominator then quotient + quotient % 2
  else quotient

/-- A count of hundredths with a point before its last two digits. -/
def hundredths (n : Nat) : List Char :=
  let cents := digitChars (n % 100)
  digitChars (n / 100) ++ '.' :: (List.replicate (2 - cents.length) '0' ++ cents)

/-- The exact value of a double rounded to two places, a half to the even neighbour. -/
def fixedText (x : Float) : String :=
  match Double.read x with
  | .nan => "NaN"
  | .infinite negative => signed negative "inf".toList
  | .finite negative m q => signed negative (hundredths (roundDiv (m * 100 * Nat.pow 2 q.toNat) (Nat.pow 2 (-q).toNat)))

end BlockScript.Decimal
