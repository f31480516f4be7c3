import BlockScript.Proofs.Double.Whole
import BlockScript.Proofs.Decimal.Reading
import Mathlib

/-!
# Shortest decimals round to their doubles

A number that lies in the rounding interval of a double is one that rounds to it (`RoundsTo`). The shortest decimal of a double is such a number
(`roundsTo_shortest`), whichever grid it was found on, and no number rounds to two doubles (`RoundsTo.unique`): two intervals meet in a common
end at most, and then one of the two significands is odd, so that the end does not belong to its interval.
-/

namespace BlockScript

/-! ## What is read of a double -/

namespace Double

/-- A significand and an exponent as they are read of a finite double: in normal form, or a shorter significand with the least exponent. -/
def Canonical (significand : Nat) (exponent : Int) : Prop :=
  exponent = -1074 ∧ significand < 2 ^ 52 ∨ Normal significand exponent

variable {m : Nat} {e : Int}

/-- A finite float is read in canonical form. -/
theorem canonical_of_read {x : Float} {b : Bool} (h : read x = .finite b m e) : Canonical m e := by
  obtain ⟨-, ⟨he, hm, -⟩ | ⟨hnormal, -⟩⟩ := read_finite h
  · exact .inl ⟨he, hm⟩
  · exact .inr hnormal

/-- A canonical mantissa has at most 53 bits. -/
theorem Canonical.bounded (h : Canonical m e) : m < 2 ^ 53 := by
  obtain ⟨-, hm⟩ | hnormal := h
  · omega
  · exact hnormal.bounded

/-- A canonical exponent is that of the least float or a greater one. -/
theorem Canonical.least (h : Canonical m e) : -1074 ≤ e := by
  obtain ⟨rfl, -⟩ | hnormal := h
  · exact le_refl _
  · exact hnormal.least

/-- Above the least exponent a canonical mantissa has all its bits. -/
theorem Canonical.leading (h : Canonical m e) (he : -1074 < e) : 2 ^ 52 ≤ m := by
  obtain ⟨rfl, -⟩ | hnormal := h
  · exact absurd he (lt_irrefl _)
  · exact hnormal.leading

end Double

/-! ## Numbers in intervals -/

namespace Decimal

/-- The number that a decimal writes. -/
def value (d : Decimal) : ℚ := d.digits * 10 ^ d.exponent

/-- A power with any exponent as a quotient of two powers with natural ones. -/
theorem zpow_mul_pow_toNat_neg {b : ℚ} (hb : b ≠ 0) (z : Int) : b ^ z * b ^ (-z).toNat = b ^ z.toNat := by
  have hexp : z + (-z).toNat = z.toNat := by omega
  rw [← zpow_natCast, ← zpow_add₀ hb, hexp, zpow_natCast]

/-- A power with an exponent that is not negative is one with a natural number. -/
theorem zpow_of_nonneg (b : ℚ) {z : Int} (hz : 0 ≤ z) : b ^ z = b ^ z.toNat := by
  rw [← zpow_natCast, Int.toNat_of_nonneg hz]

/-- Writing out the zeros of a decimal does not change its value. -/
theorem value_expanded (d : Decimal) : d.expanded.value = d.value := by
  unfold expanded
  split
  · next hexponent => simp [value, zpow_of_nonneg 10 hexponent]
  · rfl

namespace Interval

/-- A number in an interval of which the ends are counted in a unit. -/
structure Covers (i : Interval) (unit q : ℚ) : Prop where
  lower : i.low * unit ≤ q
  upper : q ≤ i.high * unit
  inside : i.closed = false → i.low * unit < q ∧ q < i.high * unit

variable {i : Interval} {unit q : ℚ}

/-- An interval that contains a number covers it, counted in ones. -/
theorem covers_of_contains {n : Nat} (h : i.contains n = true) : i.Covers 1 n := by
  unfold contains at h
  by_cases hclosed : i.closed = true
  · rw [if_pos hclosed, decide_eq_true_eq] at h
    constructor
    · rw [mul_one]
      exact_mod_cast h.1
    · rw [mul_one]
      exact_mod_cast h.2
    · intro hopen
      exact absurd (hclosed.symm.trans hopen) nofun
  · rw [if_neg hclosed, decide_eq_true_eq] at h
    have hlow : (i.low : ℚ) * 1 < n := by
      rw [mul_one]
      exact_mod_cast h.1
    have hhigh : (n : ℚ) < i.high * 1 := by
      rw [mul_one]
      exact_mod_cast h.2
    exact ⟨hlow.le, hhigh.le, fun _ => ⟨hlow, hhigh⟩⟩

/-- What a scaled interval covers the interval covers in a greater unit. -/
theorem Covers.of_scale {factor : Nat} (h : (i.scale factor).Covers unit q) : i.Covers (factor * unit) q := by
  obtain ⟨hlower, hupper, hinside⟩ := h
  simp only [scale, Nat.cast_mul, mul_assoc] at hlower hupper hinside
  exact ⟨hlower, hupper, hinside⟩

/-- A common factor of the unit and the number does not matter. -/
theorem Covers.of_mul {c : ℚ} (hc : 0 < c) (h : i.Covers (c * unit) (c * q)) : i.Covers unit q := by
  obtain ⟨hlower, hupper, hinside⟩ := h
  simp only [mul_left_comm _ c, mul_le_mul_iff_right₀ hc, mul_lt_mul_iff_right₀ hc] at hlower hupper hinside
  exact ⟨hlower, hupper, hinside⟩

/-- What is found on a grid lies in the interval. -/
theorem contains_of_onGrid {unit n : Nat} (h : i.onGrid unit = some n) : i.contains (n * unit) = true := by
  unfold onGrid at h
  cases hbelow : i.contains (i.value / unit * unit) <;> cases habove : i.contains ((i.value / unit + 1) * unit) <;>
    simp only [hbelow, habove, Option.some.injEq, reduceCtorEq] at h
  case false.true => rwa [← h]
  case true.false => rwa [← h]
  case true.true =>
    rw [← h]
    split
    · exact hbelow
    · exact habove

end Interval

/-! ## The numbers that round to a double -/

/-- A number that rounds to `significand · 2^exponent`. -/
def RoundsTo (q : ℚ) (significand : Nat) (exponent : Int) : Prop :=
  (roundingInterval significand exponent).Covers (2 ^ exponent / 4) q

/-- The interval begins before its value, or with it if that is zero. -/
theorem low_le (m : Nat) (e : Int) : (roundingInterval m e).low ≤ 4 * m ∧ (m ≠ 0 → (roundingInterval m e).low < 4 * m) := by
  unfold roundingInterval
  dsimp only
  split <;> omega

/-- A number that a double stands for rounds to that double. -/
theorem roundsTo_self (m : Nat) (e : Int) : RoundsTo (m * 2 ^ e) m e := by
  have hunit : (0 : ℚ) < 2 ^ e / 4 := by positivity
  have hvalue : (m * 2 ^ e : ℚ) = (4 * m : Nat) * (2 ^ e / 4) := by
    push_cast
    ring
  have hhigh : 4 * m < (roundingInterval m e).high := Nat.lt_add_of_pos_right (by decide)
  have hupper : ((4 * m : Nat) : ℚ) * (2 ^ e / 4) < (roundingInterval m e).high * (2 ^ e / 4) :=
    mul_lt_mul_of_pos_right (Nat.cast_lt.mpr hhigh) hunit
  unfold RoundsTo
  rw [hvalue]
  obtain ⟨hlow, hlow'⟩ := low_le m e
  refine ⟨mul_le_mul_of_nonneg_right (Nat.cast_le.mpr hlow) hunit.le, hupper.le, ?_⟩
  intro hopen
  have hodd : ¬m % 2 = 0 := of_decide_eq_false hopen
  have hlow := hlow' (by omega)
  exact ⟨mul_lt_mul_of_pos_right (Nat.cast_lt.mpr hlow) hunit, hupper⟩

/-- The exact decimal of a mantissa and an exponent has their value. -/
theorem value_exact (m : Nat) (e : Int) : (exact m e).value = m * 2 ^ e := by
  unfold exact
  split
  · next hexponent => simp [value, zpow_of_nonneg 2 hexponent]
  · next hexponent =>
    have hfive : (5 : ℚ) ^ (-e).toNat * 5 ^ e = 1 := by
      have hzero : e.toNat = 0 := by omega
      rw [mul_comm, zpow_mul_pow_toNat_neg (by norm_num), hzero, pow_zero]
    have hten : (10 : ℚ) ^ e = 5 ^ e * 2 ^ e := by
      rw [← mul_zpow]
      norm_num
    calc (m * Nat.pow 5 (-e).toNat : Nat) * (10 : ℚ) ^ e
        = m * (5 ^ (-e).toNat * 5 ^ e) * 2 ^ e := by
          push_cast [Nat.pow_eq, hten]
          ring
      _ = m * 2 ^ e := by rw [hfive, mul_one]

/-- A decimal found on a grid rounds to the double. -/
theorem roundsTo_of_onPowerOfTen {m : Nat} {e k : Int} {d : Decimal} (h : onPowerOfTen m e k = some d) : RoundsTo d.value m e := by
  unfold onPowerOfTen at h
  obtain ⟨n, hn, rfl⟩ := Option.map_eq_some_iff.mp h
  have hcovers := (Interval.covers_of_contains (Interval.contains_of_onGrid hn)).of_scale
  -- Both sides come with the denominators of the two powers.
  have hc : (0 : ℚ) < 4 * 2 ^ (-e).toNat * 10 ^ (-k).toNat := by positivity
  refine Interval.Covers.of_mul hc ?_
  have htwo := zpow_mul_pow_toNat_neg (b := 2) (by norm_num) e
  have hten := zpow_mul_pow_toNat_neg (b := 10) (by norm_num) k
  have hunit : (4 * 2 ^ (-e).toNat * 10 ^ (-k).toNat : ℚ) * (2 ^ e / 4) =
      ((Nat.pow 2 e.toNat * Nat.pow 10 (-k).toNat : Nat) : ℚ) * 1 := by
    push_cast [Nat.pow_eq]
    rw [← htwo]
    ring
  have hvalue : (4 * 2 ^ (-e).toNat * 10 ^ (-k).toNat : ℚ) * value ⟨n, k⟩ =
      (n * (4 * Nat.pow 2 (-e).toNat * Nat.pow 10 k.toNat) : Nat) := by
    push_cast [Nat.pow_eq]
    rw [← hten, value]
    ring
  rw [hunit, hvalue]
  exact hcovers

/-- The shortest decimal of a double rounds to it. -/
theorem roundsTo_shortest (m : Nat) (e : Int) : RoundsTo (shortest m e).value m e := by
  unfold shortest
  dsimp only
  cases hfound : (List.range 24).findSome? fun (i : Nat) => onPowerOfTen m e (exponentAbove m e - i) with
  | none =>
    rw [Option.getD_none, value_exact]
    exact roundsTo_self m e
  | some d =>
    obtain ⟨i, -, hi⟩ := List.exists_of_findSome?_eq_some hfound
    exact roundsTo_of_onPowerOfTen hi

/-! ## No number rounds to two doubles -/

open Double (Canonical)

variable {m m' : Nat} {e e' : Int}

/-- The interval of a smaller number ends where that of a greater one begins, or before. If they meet, one of the significands is odd: they are
neighbours, or the lower one is the greatest significand of its exponent. -/
theorem high_le_low (hm : Canonical m e) (hm' : Canonical m' e') {k : Nat} (hk : e' = e + k) (hlt : 0 < k ∨ m < m') :
    (roundingInterval m e).high ≤ (roundingInterval m' e').low * 2 ^ k ∧
    ((roundingInterval m e).high = (roundingInterval m' e').low * 2 ^ k →
      (roundingInterval m e).closed = true → (roundingInterval m' e').closed = false) := by
  have hhigh : (roundingInterval m e).high = 4 * m + 2 := rfl
  rcases Nat.eq_zero_or_pos k with rfl | hpos
  · have hlow : (roundingInterval m' e').low = 4 * m' - 1 ∨ (roundingInterval m' e').low = 4 * m' - 2 := ite_eq_or_eq _ _ _
    have hsignificand : m < m' := by omega
    rw [pow_zero, mul_one]
    constructor
    · omega
    · intro hmeet hclosed
      have heven : m % 2 = 0 := of_decide_eq_true hclosed
      have hodd : ¬m' % 2 = 0 := by omega
      exact decide_eq_false hodd
  · have hleast := hm.least
    have hbounded := hm.bounded
    have hleading := hm'.leading (by omega)
    have hlow : 2 ^ 54 - 1 ≤ (roundingInterval m' e').low := by
      unfold roundingInterval Double.hiddenBit
      dsimp only
      split <;> omega
    have hscaled : (2 ^ 54 - 1) * 2 ^ 1 ≤ (roundingInterval m' e').low * 2 ^ k :=
      Nat.mul_le_mul hlow (Nat.pow_le_pow_right (by decide) hpos)
    constructor
    · omega
    · intro hmeet hclosed
      have heven : m % 2 = 0 := of_decide_eq_true hclosed
      omega

/-- A number in two intervals of which one lies above the other is their common end, which one of them lacks. -/
theorem Interval.Covers.false_of_le {i i' : Interval} {unit unit' q : ℚ} (h : i.Covers unit q) (h' : i'.Covers unit' q)
    (hle : i.high * unit ≤ i'.low * unit') (hmeet : i.high * unit = i'.low * unit' → i.closed = true → i'.closed = false) :
    False := by
  have heq : i.high * unit = i'.low * unit' := le_antisymm hle (h'.lower.trans h.upper)
  cases hclosed : i.closed with
  | true =>
    have hopen := hmeet heq hclosed
    exact absurd h.upper (not_le.mpr (heq.trans_lt (h'.inside hopen).1))
  | false => exact absurd h'.lower (not_le.mpr ((h.inside hclosed).2.trans_eq heq))

/-- No number rounds both to a double and to a greater one. -/
theorem RoundsTo.false_of_lt (hm : Canonical m e) (hm' : Canonical m' e') (hlt : e < e' ∨ e = e' ∧ m < m') {q : ℚ}
    (h : RoundsTo q m e) (h' : RoundsTo q m' e') : False := by
  obtain ⟨k, hk⟩ : ∃ k : Nat, e' = e + k := ⟨(e' - e).toNat, by omega⟩
  obtain ⟨hle, hmeet⟩ := high_le_low hm hm' hk (by omega)
  have hpos : (0 : ℚ) < 2 ^ e / 4 := by positivity
  have hunit : (2 : ℚ) ^ e' / 4 = 2 ^ k * (2 ^ e / 4) := by
    rw [hk, zpow_add₀ (by norm_num), zpow_natCast]
    ring
  refine Interval.Covers.false_of_le h h' ?_ ?_
  · rw [hunit, ← mul_assoc]
    exact mul_le_mul_of_nonneg_right (by exact_mod_cast hle) hpos.le
  · intro heq
    rw [hunit, ← mul_assoc] at heq
    exact hmeet (by exact_mod_cast mul_right_cancel₀ hpos.ne' heq)

/-- A number rounds to one double alone. -/
theorem RoundsTo.unique (hm : Canonical m e) (hm' : Canonical m' e') {q : ℚ} (h : RoundsTo q m e) (h' : RoundsTo q m' e') :
    m = m' ∧ e = e' := by
  rcases lt_trichotomy e e' with hexponent | rfl | hexponent
  · exact (h.false_of_lt hm hm' (.inl hexponent) h').elim
  · rcases lt_trichotomy m m' with hsignificand | rfl | hsignificand
    · exact (h.false_of_lt hm hm' (.inr ⟨rfl, hsignificand⟩) h').elim
    · exact ⟨rfl, rfl⟩
    · exact (h'.false_of_lt hm' hm (.inr ⟨rfl, hsignificand⟩) h).elim
  · exact (h'.false_of_lt hm' hm (.inl hexponent) h).elim

end Decimal

end BlockScript
