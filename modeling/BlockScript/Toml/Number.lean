import BlockScript.Decimal.Numeral
import BlockScript.Toml.Text

/-!
# TOML numbers

Integers are those of 64 bits with a sign. A float may overflow to negative infinity but not to the positive one.
-/

namespace BlockScript.Toml.Reader

/-- Digits with single underscores between them, without the underscores. -/
def digitsWhere (isDigit : Char → Bool) : Reader (List Char) := do
  let groups ← sepBy1 (takeWhile1 isDigit) (char '_')
  pure groups.flatten

/-- Decimal digits without a leading zero, unless it is the only one. -/
def wholeDigits : Reader (List Char) :=
  (do char '0'; pure ['0']) <|> digitsWhere Char.isDigit

/-- A sign; whether it is a minus. -/
def sign : Reader Bool := do
  match ← peek? with
  | some '-' => char '-'; pure true
  | some '+' => char '+'; pure false
  | _ => pure false

/-- Whether a number fits into 64 bits with a sign. -/
def fitsInt64 (n : Int) : Bool := decide (-0x8000000000000000 ≤ n ∧ n < 0x8000000000000000)

/-- The digits of an integer written in a base that is a power of two. -/
def basedDigits (mark : String) (base : Nat) (isDigit : Char → Bool) : Reader Int := do
  word mark
  let digits ← digitsWhere isDigit
  pure ((digits.foldl (fun n c => base * n + (hexValue? c).getD 0) 0 : Nat) : Int)

/-- An integer in base ten. -/
def decimalInteger : Reader Int := do
  let negative ← sign
  let digits ← wholeDigits
  let n : Int := Decimal.ofDigits digits
  pure (if negative then -n else n)

/-- An integer. -/
def integer : Reader Int := do
  let n ← basedDigits "0x" 16 (fun c => (hexValue? c).isSome)
    <|> basedDigits "0o" 8 (fun c => decide ('0' ≤ c ∧ c ≤ '7'))
    <|> basedDigits "0b" 2 (fun c => c == '0' || c == '1')
    <|> decimalInteger
  guard (fitsInt64 n)
  pure n

/-- The exponent of a float. -/
def exponentPart : Reader Int := do
  let _ ← satisfy fun c => c == 'e' || c == 'E'
  let negative ← sign
  let digits ← digitsWhere Char.isDigit
  let n : Int := Decimal.ofDigits digits
  pure (if negative then -n else n)

/-- The digits after the point of a float. -/
def fractionPart : Reader (List Char) := do
  char '.'
  digitsWhere Char.isDigit

/-- A float in digits. -/
def digitFloat : Reader Float := do
  let negative ← sign
  let whole ← wholeDigits
  let (fraction, exponent) ←
    (do
      let fraction ← fractionPart
      let exponent ← optional exponentPart
      pure (fraction, exponent.getD 0))
    <|> (do pure ([], ← exponentPart))
  let x := Decimal.toFloat negative ⟨Decimal.ofDigits (whole ++ fraction), exponent - fraction.length⟩
  guard (Double.read x != .infinite false)
  pure x

/-- A float by name. -/
def namedFloat : Reader Float := do
  let negative ← sign
  (do word "inf"; pure (Float.ofBits (if negative then 0xFFF0000000000000 else 0x7FF0000000000000)))
    <|> (do word "nan"; pure (Float.ofBits 0x7FF8000000000000))

/-- A float. -/
def float : Reader Float := digitFloat <|> namedFloat

end BlockScript.Toml.Reader
