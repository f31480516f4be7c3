import BlockScript.Decimal.Numeral
import BlockScript.Toml.Cursor

/-!
# TOML dates and times

They are kept as text in normal form: `T` before the time, `Z` for no offset, and no trailing zeros in a fraction of a second,
of which nine digits count.
-/

namespace BlockScript.Toml.Reader

/-- A number in a given count of digits within bounds, as it was written. -/
def fieldWithin (width least most : Nat) : Reader (List Char) := do
  let mut digits := []
  for _ in List.range width do
    digits := digits ++ [← satisfy Char.isDigit]
  let n := Decimal.ofDigits digits
  guard (least ≤ n ∧ n ≤ most)
  pure digits

/-- The count of days of a month. -/
def daysIn (year month : Nat) : Nat :=
  if month = 2 then (if year % 4 = 0 ∧ (year % 100 ≠ 0 ∨ year % 400 = 0) then 29 else 28)
  else if month = 4 ∨ month = 6 ∨ month = 9 ∨ month = 11 then 30
  else 31

/-- A date. -/
def date : Reader (List Char) := do
  let year ← fieldWithin 4 0 9999
  char '-'
  let month ← fieldWithin 2 1 12
  char '-'
  let day ← fieldWithin 2 1 (daysIn (Decimal.ofDigits year) (Decimal.ofDigits month))
  pure (year ++ '-' :: month ++ '-' :: day)

/-- Takes trailing zeros off. -/
def trimZeros (digits : List Char) : List Char := (digits.reverse.dropWhile (· == '0')).reverse

/-- A fraction of a second. -/
def secondFraction : Reader (List Char) := do
  char '.'
  let digits ← takeWhile1 Char.isDigit
  let kept := trimZeros (digits.take 9)
  pure (if kept.isEmpty then [] else '.' :: kept)

/-- A time of day; a leap second is allowed. -/
def time : Reader (List Char) := do
  let hour ← fieldWithin 2 0 23
  char ':'
  let minute ← fieldWithin 2 0 59
  char ':'
  let second ← fieldWithin 2 0 60
  let fraction ← optional secondFraction
  pure (hour ++ ':' :: minute ++ ':' :: second ++ fraction.getD [])

/-- An offset from universal time. -/
def timeOffset : Reader (List Char) :=
  (do let _ ← satisfy (fun c => c == 'Z' || c == 'z'); pure ['Z'])
  <|> (do
    let mark ← satisfy fun c => c == '+' || c == '-'
    let hour ← fieldWithin 2 0 23
    char ':'
    let minute ← fieldWithin 2 0 59
    let none := Decimal.ofDigits hour = 0 ∧ Decimal.ofDigits minute = 0
    pure ((if none then '+' else mark) :: hour ++ ':' :: minute))

/-- A date, a time, or a date with a time and perhaps an offset. -/
def moment : Reader String :=
  (do
    let day ← date
    let clock ← optional do
      let _ ← satisfy fun c => c == 'T' || c == 't' || c == ' '
      let t ← time
      let z ← optional timeOffset
      pure ('T' :: t ++ z.getD [])
    pure (String.ofList (day ++ clock.getD [])))
  <|> (do pure (String.ofList (← time)))

end BlockScript.Toml.Reader
