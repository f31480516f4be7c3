import BlockScript.Decimal.Shortest

/-!
# Numerals

Reading numbers from text. `Decimal.toFloat` rounds a decimal to the nearest double, and `readFloat?` accepts the numerals that
the arguments of a command are written in.
-/

namespace BlockScript.Decimal

/-- The double nearest to a decimal, with a sign. Beyond every double the answer is an infinity and below every one a zero,
which is decided on the count of digits before any power of ten is computed. -/
def toFloat (negative : Bool) (d : Decimal) : Float :=
  let size : Int := (Nat.log2 d.digits : Int) * 30103 / 100000 + d.exponent
  let magnitude : Float :=
    if d.digits = 0 then 0.0
    else if 310 < size then Float.ofBits 0x7FF0000000000000
    else if size < -330 then 0.0
    else if 0 ≤ d.exponent then Float.ofScientific d.digits false d.exponent.toNat
    else Float.ofScientific d.digits true (-d.exponent).toNat
  if negative then -magnitude else magnitude

/-- The value of a digit. -/
def digitValue (c : Char) : Nat := c.toNat - '0'.toNat

/-- The number that a run of digits writes. -/
def ofDigits (cs : List Char) : Nat := cs.foldl (fun n c => 10 * n + digitValue c) 0

/-- Splits a sign off: whether it is a minus, and the rest. -/
def splitSign : List Char → Bool × List Char
  | '-' :: rest => (true, rest)
  | '+' :: rest => (false, rest)
  | cs => (false, cs)

/-- The exponent after the mantissa of a numeral: nothing, or `e`, an optional sign and digits. -/
def readExponent? : List Char → Option Int
  | [] => some 0
  | c :: rest =>
    let (negative, digits) := splitSign rest
    if (c = 'e' ∨ c = 'E') ∧ digits ≠ [] ∧ digits.all Char.isDigit then
      some (if negative then -(ofDigits digits : Int) else ofDigits digits)
    else none

/-- A decimal numeral without a sign: digits with an optional point among or beside them, and an optional exponent. -/
def readUnsigned? (cs : List Char) : Option Decimal := do
  let whole := cs.takeWhile Char.isDigit
  let afterWhole := cs.dropWhile Char.isDigit
  let (fraction, rest) := match afterWhole with
    | '.' :: more => (more.takeWhile Char.isDigit, more.dropWhile Char.isDigit)
    | _ => ([], afterWhole)
  if whole = [] ∧ fraction = [] then none
  else
    let exponent ← readExponent? rest
    some ⟨ofDigits (whole ++ fraction), exponent - fraction.length⟩

/-- A double as an argument: an optional sign before a decimal numeral or, in any case of letters, `inf`, `infinity` or
`nan`. -/
def readFloat? (text : String) : Option Float :=
  let (negative, cs) := splitSign text.toList
  let word := String.ofList (cs.map Char.toLower)
  if word = "inf" ∨ word = "infinity" then
    some (Float.ofBits (if negative then 0xFFF0000000000000 else 0x7FF0000000000000))
  else if word = "nan" then some (Float.ofBits 0x7FF8000000000000)
  else (readUnsigned? cs).map (toFloat negative)

end BlockScript.Decimal
