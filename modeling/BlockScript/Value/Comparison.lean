import BlockScript.Value

/-!
# Comparing values

Two numeric values compare as numbers, any other two as text. Nothing compares with a NaN as a number, and of the six
comparisons only `ne` then holds.
-/

namespace BlockScript

/-- The comparisons a condition can ask for. -/
inductive Comparison where
  | eq | ne | lt | le | gt | ge
  deriving DecidableEq, Repr

/-- How two values compare, if they do. Text is ordered by its bytes, which is the order of its characters. -/
def Value.compare? (a b : Value) : Option Ordering :=
  if a.isNumeric && b.isNumeric then Double.compare? a.asNumber b.asNumber
  else some (compareOfLessAndEq a.asText b.asText)

namespace Comparison

/-- Whether a comparison holds of an ordering, `none` being the ordering of values that do not compare. -/
def accepts : Comparison → Option Ordering → Bool
  | ne, none => true
  | _, none => false
  | eq, some o => o == .eq
  | ne, some o => o != .eq
  | lt, some o => o == .lt
  | le, some o => o != .gt
  | gt, some o => o == .gt
  | ge, some o => o != .lt

/-- Whether a comparison holds between two values. -/
def holds (c : Comparison) (a b : Value) : Bool := c.accepts (a.compare? b)

/-- The name of a comparison. -/
def name : Comparison → String
  | eq => "eq" | ne => "ne" | lt => "lt" | le => "le" | gt => "gt" | ge => "ge"

end Comparison

end BlockScript
