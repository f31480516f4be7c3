import BlockScript.Value.Comparison
import Mathlib.Data.String.Basic

/-!
# Laws of comparison

The six comparisons are read off one ordering (`Value.compare?`), which turns around when the values change places (`compare?_swap`). Two
values have no ordering exactly if both are numeric and one of them is a NaN (`compare?_eq_none_iff`). The laws that tie the comparisons
together (`comparison_laws`) follow from these two facts and from the order of doubles and that of texts.

A NaN does compare with a text, namely as its own text does. So it is beside numeric values alone that it satisfies nothing but `ne`
(`nan_satisfies_ne_alone_iff`).
-/

namespace BlockScript

/-! ## Doubles and texts -/

namespace Double

variable {x y z : Float}

/-- Only a NaN has no rank. -/
theorem rank_eq_none_iff : rank x = none ↔ read x = .nan := by
  unfold rank read
  by_cases hnan : infinityBits < magnitude x
  · simp only [if_pos hnan]
  · simp only [if_neg hnan]
    constructor
    · split <;> nofun
    · split
      · nofun
      · split <;> nofun

/-- Turning a comparison around turns its answer around. -/
theorem compare?_swap : compare? y x = (compare? x y).map Ordering.swap := by
  unfold compare?
  cases rank x <;> cases rank y <;> simp [Int.compare_swap]

/-- Floats cannot be compared exactly if one of them is a NaN. -/
theorem compare?_eq_none_iff : compare? x y = none ↔ read x = .nan ∨ read y = .nan := by
  rw [← rank_eq_none_iff, ← rank_eq_none_iff]
  unfold compare?
  cases rank x <;> cases rank y <;> simp

/-- A float is less if its rank is. -/
theorem compare?_eq_lt_iff : compare? x y = some .lt ↔ ∃ i j, rank x = some i ∧ rank y = some j ∧ i < j := by
  unfold compare?
  cases rank x <;> cases rank y <;> simp [Int.compare_eq_lt]

/-- What is less than a lesser float is less. -/
theorem compare?_lt_trans (hxy : compare? x y = some .lt) (hyz : compare? y z = some .lt) : compare? x z = some .lt := by
  obtain ⟨i, j, hi, hj, hij⟩ := compare?_eq_lt_iff.mp hxy
  obtain ⟨j', k, hj', hk, hjk⟩ := compare?_eq_lt_iff.mp hyz
  obtain rfl : j = j' := Option.some.inj (hj.symm.trans hj')
  exact compare?_eq_lt_iff.mpr ⟨i, k, hi, hk, hij.trans hjk⟩

end Double

/-! ## Values -/

namespace Value

/-- A number that is none. -/
def IsNaN : Value → Prop
  | number x => Double.read x = .nan
  | nil | boolean _ | text _ => False

/-- Two numeric values of which at least one is a NaN. -/
structure Unordered (a b : Value) : Prop where
  left : a.isNumeric = true
  right : b.isNumeric = true
  nan : a.IsNaN ∨ b.IsNaN

variable {a b c : Value}

/-- A numeric value is a NaN if its number is. -/
theorem isNaN_iff (ha : a.isNumeric = true) : a.IsNaN ↔ Double.read a.asNumber = .nan := by
  cases a with
  | number x => rfl
  | boolean b => cases b <;> exact iff_of_false id (by decide)
  | text s => nomatch ha
  | nil => nomatch ha

/-- The text of a NaN. -/
theorem asText_of_isNaN (h : a.IsNaN) : a.asText = "NaN" := by
  cases a with
  | number x =>
    have hread : Double.read x = .nan := h
    simp [asText, numberText, Double.whole?, Decimal.plainText, hread]
  | _ => exact h.elim

/-- Numeric values are compared as numbers. -/
theorem compare?_of_numeric (ha : a.isNumeric = true) (hb : b.isNumeric = true) :
    a.compare? b = Double.compare? a.asNumber b.asNumber := by
  simp [compare?, ha, hb]

/-- All other pairs are compared as texts. -/
theorem compare?_of_text (h : ¬(a.isNumeric = true ∧ b.isNumeric = true)) : a.compare? b = some (compare a.asText b.asText) := by
  rw [compare?, if_neg (by simpa using h), LinearOrder.compare_eq_compareOfLessAndEq]

/-- The ordering turns around when the values change places. -/
theorem compare?_swap : b.compare? a = (a.compare? b).map Ordering.swap := by
  by_cases h : a.isNumeric = true ∧ b.isNumeric = true
  · rw [compare?_of_numeric h.1 h.2, compare?_of_numeric h.2 h.1, Double.compare?_swap]
  · rw [compare?_of_text h, compare?_of_text (mt And.symm h), Option.map_some, Std.OrientedOrd.eq_swap]

/-- Values that do not compare are numeric, and one of them is a NaN. -/
theorem compare?_eq_none_iff : a.compare? b = none ↔ Unordered a b := by
  by_cases h : a.isNumeric = true ∧ b.isNumeric = true
  · rw [compare?_of_numeric h.1 h.2, Double.compare?_eq_none_iff, ← isNaN_iff h.1, ← isNaN_iff h.2]
    exact ⟨fun hnan => ⟨h.1, h.2, hnan⟩, Unordered.nan⟩
  · rw [compare?_of_text h]
    exact iff_of_false nofun fun hu => h ⟨hu.left, hu.right⟩

/-- Values that are the same compare as equal. -/
theorem compare?_of_same (h : a.same b = true) : a.compare? b = some .eq := by
  cases a <;> cases b <;> simp only [same, beq_iff_eq, Bool.false_eq_true] at h
  case nil.nil => rfl
  case boolean.boolean x y =>
    subst h
    cases x <;> rfl
  case number.number x y => exact h
  case text.text s t =>
    subst h
    rw [compare?_of_text (by simp [isNumeric]), compare_eq_iff_eq.mpr rfl]

/-- Coming before is transitive among numeric values, and among the others. -/
theorem compare?_lt_trans (hnumeric : a.isNumeric = b.isNumeric ∧ b.isNumeric = c.isNumeric) (hab : a.compare? b = some .lt)
    (hbc : b.compare? c = some .lt) : a.compare? c = some .lt := by
  by_cases hb : b.isNumeric = true
  · have ha := hnumeric.1.trans hb
    have hc := hnumeric.2.symm.trans hb
    rw [compare?_of_numeric ha hb] at hab
    rw [compare?_of_numeric hb hc] at hbc
    rw [compare?_of_numeric ha hc]
    exact Double.compare?_lt_trans hab hbc
  · have ha : ¬a.isNumeric = true := hnumeric.1 ▸ hb
    rw [compare?_of_text fun h => hb h.2, Option.some.injEq, compare_lt_iff_lt] at hab
    rw [compare?_of_text fun h => hb h.1, Option.some.injEq, compare_lt_iff_lt] at hbc
    rw [compare?_of_text fun h => ha h.1, Option.some.injEq, compare_lt_iff_lt]
    exact hab.trans hbc

end Value

/-! ## Comparisons -/

namespace Comparison

/-- The laws that tie the six comparisons together. -/
structure Laws : Prop where
  ne_eq_not : ∀ a b, ne.holds a b = !eq.holds a b
  le_eq_or : ∀ a b, le.holds a b = (lt.holds a b || eq.holds a b)
  ge_eq_or : ∀ a b, ge.holds a b = (gt.holds a b || eq.holds a b)
  lt_swap : ∀ a b, lt.holds a b = gt.holds b a
  le_swap : ∀ a b, le.holds a b = ge.holds b a
  eq_swap : ∀ a b, eq.holds a b = eq.holds b a
  /-- At most one of the three strict answers is given. -/
  at_most_one : ∀ a b, ∀ c ∈ [lt, eq, gt], ∀ d ∈ [lt, eq, gt], c.holds a b = true → d.holds a b = true → c = d
  /-- One of them is given unless both values are numeric and one of them is a NaN. -/
  at_least_one : ∀ a b, ¬Value.Unordered a b → ∃ c ∈ [lt, eq, gt], c.holds a b = true
  /-- In that case `ne` is all that holds. -/
  ne_alone : ∀ a b, Value.Unordered a b → ∀ c : Comparison, c.holds a b = true ↔ c = ne
  eq_of_same : ∀ a b, Value.same a b = true → eq.holds a b = true
  /-- Coming before is transitive among numeric values, and among the empty cell and texts. -/
  lt_trans : ∀ numeric a b c, Value.isNumeric a = numeric → Value.isNumeric b = numeric → Value.isNumeric c = numeric →
    lt.holds a b = true → lt.holds b c = true → lt.holds a c = true

variable {a b : Value}

/-- A comparison holds if it accepts how the values compare. -/
theorem holds_of_compare? {o : Option Ordering} (h : a.compare? b = o) (c : Comparison) : c.holds a b = c.accepts o := by
  rw [holds, h]

/-- Less holds of a value that compares less. -/
theorem holds_lt_iff : lt.holds a b = true ↔ a.compare? b = some .lt := by
  rw [holds]
  rcases a.compare? b with _ | _ | _ | _ <;> simp [accepts]

/-- Of no ordering `ne` is all that holds. -/
theorem accepts_none_iff (c : Comparison) : c.accepts none = true ↔ c = ne := by
  cases c <;> simp [accepts]

/-- Three comparisons are made of the other ones. -/
theorem accepts_composed (o : Option Ordering) : ne.accepts o = !eq.accepts o ∧
    le.accepts o = (lt.accepts o || eq.accepts o) ∧ ge.accepts o = (gt.accepts o || eq.accepts o) := by
  rcases o with _ | _ | _ | _ <;> decide

/-- What holds of an ordering when it is turned around. -/
theorem accepts_swap (o : Option Ordering) : gt.accepts (o.map Ordering.swap) = lt.accepts o ∧
    ge.accepts (o.map Ordering.swap) = le.accepts o ∧ eq.accepts (o.map Ordering.swap) = eq.accepts o := by
  rcases o with _ | _ | _ | _ <;> decide

/-- The comparisons of all values obey these laws. -/
theorem comparison_laws : Laws where
  ne_eq_not a b := (accepts_composed (a.compare? b)).1
  le_eq_or a b := (accepts_composed (a.compare? b)).2.1
  ge_eq_or a b := (accepts_composed (a.compare? b)).2.2
  lt_swap a b := by
    rw [holds_of_compare? (a := b) Value.compare?_swap, (accepts_swap _).1, holds]
  le_swap a b := by
    rw [holds_of_compare? (a := b) Value.compare?_swap, (accepts_swap _).2.1, holds]
  eq_swap a b := by
    rw [holds_of_compare? (a := b) Value.compare?_swap, (accepts_swap _).2.2, holds]
  at_most_one a b := by
    simp only [holds]
    rcases a.compare? b with _ | _ | _ | _ <;> decide
  at_least_one a b h := by
    obtain ⟨o, ho⟩ := Option.ne_none_iff_exists'.mp (mt Value.compare?_eq_none_iff.mp h)
    simp only [holds, ho]
    cases o <;> decide
  ne_alone a b h c := by
    rw [holds_of_compare? (Value.compare?_eq_none_iff.mpr h), accepts_none_iff]
  eq_of_same a b h := by
    rw [holds_of_compare? (Value.compare?_of_same h)]
    rfl
  lt_trans numeric a b c ha hb hc hab hbc := by
    rw [holds_lt_iff] at *
    exact Value.compare?_lt_trans ⟨ha.trans hb.symm, hb.trans hc.symm⟩ hab hbc

/-! ## NaN -/

/-- Values that do compare satisfy one of `eq`, `lt` and `gt`, and so not `ne` alone. -/
theorem ne_alone_iff : (∀ c : Comparison, c.holds a b = true ↔ c = ne) ↔ Value.Unordered a b := by
  rw [← Value.compare?_eq_none_iff]
  constructor
  · intro halone
    rcases hcompare : a.compare? b with _ | _ | _ | _
    · rfl
    · exact absurd ((halone lt).mp (holds_of_compare? hcompare lt)) nofun
    · exact absurd ((halone eq).mp (holds_of_compare? hcompare eq)) nofun
    · exact absurd ((halone gt).mp (holds_of_compare? hcompare gt)) nofun
  · intro hcompare c
    rw [holds_of_compare? hcompare, accepts_none_iff]

/-- What a NaN satisfies. Beside a numeric value, on either side, that is `ne` and nothing else, and beside no other value is it so: with the
empty cell or a text a NaN compares as the text `NaN` does, so that one of `eq`, `lt` and `gt` holds. -/
theorem nan_satisfies_ne_alone_iff {x : Float} (hx : Double.read x = .nan) (v : Value) :
    ((∀ c : Comparison, c.holds (.number x) v = true ↔ c = ne) ↔ v.isNumeric = true) ∧
      ((∀ c : Comparison, c.holds v (.number x) = true ↔ c = ne) ↔ v.isNumeric = true) ∧
      (v.isNumeric = false → ∀ c : Comparison,
        c.holds (.number x) v = c.holds (.text "NaN") v ∧ c.holds v (.number x) = c.holds v (.text "NaN")) := by
  have htext : (Value.number x).asText = "NaN" := Value.asText_of_isNaN hx
  refine ⟨?_, ?_, fun hv c => ?_⟩
  · rw [ne_alone_iff]
    exact ⟨Value.Unordered.right, fun hv => ⟨rfl, hv, .inl hx⟩⟩
  · rw [ne_alone_iff]
    exact ⟨Value.Unordered.left, fun hv => ⟨hv, rfl, .inr hx⟩⟩
  · have hright : ∀ w : Value, ¬(w.isNumeric = true ∧ v.isNumeric = true) := fun w h => nomatch hv.symm.trans h.2
    have hleft : ∀ w : Value, ¬(v.isNumeric = true ∧ w.isNumeric = true) := fun w h => nomatch hv.symm.trans h.1
    constructor
    · rw [holds_of_compare? (Value.compare?_of_text (hright _)), holds_of_compare? (Value.compare?_of_text (hright _)), htext]
      rfl
    · rw [holds_of_compare? (Value.compare?_of_text (hleft _)), holds_of_compare? (Value.compare?_of_text (hleft _)), htext]
      rfl

/-- The NaN that has only the topmost bit of its fraction set. -/
def quietNaN : Float := Float.ofBits 0x7FF8000000000000

theorem read_quietNaN : Double.read quietNaN = .nan := by decide +kernel

/-- A NaN against a boolean and against a text. -/
theorem nan_satisfies_ne_alone_moon : Double.read quietNaN = .nan ∧
    (∀ c : Comparison, c.holds (.number quietNaN) (.boolean true) = true ↔ c = ne) ∧
    ∀ c : Comparison, c.holds (.number quietNaN) (.text "moon") = c.holds (.text "NaN") (.text "moon") := by
  obtain ⟨hnumeric, -, -⟩ := nan_satisfies_ne_alone_iff read_quietNaN (.boolean true)
  obtain ⟨-, -, htext⟩ := nan_satisfies_ne_alone_iff read_quietNaN (.text "moon")
  exact ⟨read_quietNaN, hnumeric.mpr rfl, fun c => (htext rfl c).1⟩

/-- A NaN equals its own text. -/
theorem nan_equals_its_text : Double.read quietNaN = .nan ∧ eq.holds (.number quietNaN) (.text "NaN") = true ∧
    ne.holds (.number quietNaN) (.text "NaN") = false :=
  ⟨read_quietNaN, by decide +kernel, by decide +kernel⟩

end Comparison

end BlockScript
