import BlockScript.Dictionary
import BlockScript.Value

/-!
# Tables

A table is a list of values counted from one and, beside it, named fields. The two parts do not see each other. Reading is
total: a place outside the list reads as the number zero and an absent field as nil.
-/

namespace BlockScript

/-- A list of values counted from one, and named fields. -/
structure Table where
  items : Array Value
  fields : Dictionary Value

/-- Why a table refuses a write. -/
inductive TableError where
  | indexOutOfRange (index : Int) (length : Nat)
  deriving DecidableEq, Repr

/-- The wording of a refused write. -/
def TableError.message : TableError → String
  | .indexOutOfRange index length => s!"table index {index} out of range (length {length})"

namespace Table

/-- The table that holds nothing. -/
def empty : Table := ⟨#[], ∅⟩

instance : EmptyCollection Table := ⟨empty⟩
instance : Inhabited Table := ⟨empty⟩

/-- The offset in the list of a place counted from one. -/
def offset? (t : Table) (index : Int) : Option Nat :=
  if 1 ≤ index ∧ index ≤ t.items.size then some (index - 1).toNat else none

/-- The count of the list; fields do not count. -/
def size (t : Table) : Nat := t.items.size

/-- Whether the list holds nothing; fields do not count. -/
def isEmpty (t : Table) : Bool := t.items.isEmpty

/-- The list. -/
def values (t : Table) : List Value := t.items.toList

/-- Puts a value at the end of the list. -/
def add (t : Table) (v : Value) : Table := { t with items := t.items.push v }

/-- The value at a place; outside the list the number zero. -/
def get (t : Table) (index : Int) : Value :=
  ((t.offset? index).bind (t.items[·]?)).getD (.number 0.0)

/-- Writes an existing place; the list never grows here. -/
def set (t : Table) (index : Int) (v : Value) : Except TableError Table :=
  match t.offset? index with
  | some i => .ok { t with items := t.items.setIfInBounds i v }
  | none => .error (.indexOutOfRange index t.size)

/-- The value of a field; nil where there is none. -/
def getField (t : Table) (key : String) : Value := t.fields.getD key .nil

/-- Writes a field. -/
def setField (t : Table) (key : String) (v : Value) : Table := { t with fields := t.fields.insert key v }

/-- Whether a field is there, be its value nil. -/
def hasField (t : Table) (key : String) : Bool := t.fields.contains key

/-- Takes a field out, answering its value. -/
def removeField (t : Table) (key : String) : Option Value × Table :=
  (t.fields.get? key, { t with fields := t.fields.erase key })

/-- Changes a field in place, answering whether there was one. -/
def updateField (t : Table) (key : String) (f : Value → Value) : Bool × Table :=
  (t.hasField key, { t with fields := t.fields.modify key f })

/-- The names of the fields, in ascending order. -/
def fieldNames (t : Table) : List String := t.fields.keys

/-- Whether two tables hold equal values at the same places and in the same fields. -/
def same (t u : Table) : Bool := t.items.toList == u.items.toList && t.fields == u.fields

instance : BEq Table := ⟨same⟩

end Table

end BlockScript
