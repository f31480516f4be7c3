import BlockScript.Decimal.Text

/-!
# Variable values

A variable cell is loosely typed and every reading of it is total. Truth values read as `1` and `0` through the number and
text readings; text never reads as a number.
-/

namespace BlockScript

/-- The contents of a variable cell. -/
inductive Value where
  | nil
  | boolean (b : Bool)
  | number (x : Float)
  | text (s : String)
  deriving Inhabited

namespace Value

/-- A whole number as a cell: the nearest double. -/
def ofInt (n : Int) : Value := .number (Double.ofInt n)

/-- The number reading. -/
def asNumber : Value → Float
  | boolean b => if b then 1.0 else 0.0
  | number x => x
  | text _ | nil => 0.0

/-- How a number reads as text: a whole number below `10^15` as its digits, with no sign on zero, and any other number as its
shortest decimal. -/
def numberText (x : Float) : String :=
  match Double.whole? x with
  | some n =>
    if n < Nat.pow 10 15 then Decimal.signed (Double.negative x && n != 0) (Decimal.digitChars n) else Decimal.plainText x
  | none => Decimal.plainText x

/-- The text reading. -/
def asText : Value → String
  | boolean b => if b then "1" else "0"
  | number x => numberText x
  | text s => s
  | nil => ""

/-- The truth reading: every number but the zeros is true, also a NaN. -/
def asBool : Value → Bool
  | boolean b => b
  | number x => !Double.isZero x
  | text _ | nil => false

/-- Whether the number reading means anything. -/
def isNumeric : Value → Bool
  | boolean _ | number _ => true
  | text _ | nil => false

/-- Whether the cell is empty. -/
def isNil : Value → Bool
  | nil => true
  | _ => false

/-- The name of the kind of value held. -/
def typeName : Value → String
  | nil => "Nil"
  | boolean _ => "Boolean"
  | number _ => "Number"
  | text _ => "String"

/-- Whether two cells hold the same kind of value and the same value; a NaN equals nothing and the two zeros are equal. -/
def same : Value → Value → Bool
  | nil, nil => true
  | boolean a, boolean b => a == b
  | number x, number y => Double.compare? x y == some .eq
  | text s, text t => s == t
  | _, _ => false

instance : BEq Value := ⟨same⟩

instance : ToString Value := ⟨asText⟩

end Value

end BlockScript
