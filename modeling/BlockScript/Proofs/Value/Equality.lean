import BlockScript.Proofs.Decimal.Rounding
import BlockScript.Proofs.Value.Laws

/-!
# Equality across kinds of values

Numbers are equal exactly if they read as the same text (`numberText_eq_iff`). In one direction, a text determines the decimal it was written
from, and the decimal rounds to one double alone; in the other, equal numbers have the same bits but for the sign of a zero, which is not
written. So two values that are not NaN are equal exactly if their texts are (`eq_holds_iff`), also where one of them is numeric and the other
is not, and equality is an equivalence.
-/

namespace BlockScript

/-! ## Equal doubles -/

namespace Double

variable {x y : Float} {b : Bool} {m : Nat} {e : Int}

/-- A number has the rank of its magnitude, with its sign. -/
theorem rank_of_number (hx : read x ≠ .nan) : rank x = some (if negative x then -(magnitude x : Int) else magnitude x) := by
  have hnan : ¬infinityBits < magnitude x := by
    intro hlt
    exact hx (rank_eq_none_iff.mp (if_pos hlt))
  unfold rank
  rw [if_neg hnan]
  split <;> rfl

/-- Equal numbers have the same bits but for the sign of a zero. -/
theorem compare?_eq_eq_iff (hx : read x ≠ .nan) (hy : read y ≠ .nan) :
    compare? x y = some .eq ↔ magnitude x = magnitude y ∧ (negative x = negative y ∨ magnitude x = 0) := by
  unfold compare?
  simp only [rank_of_number hx, rank_of_number hy, Option.some.injEq, Int.compare_eq_eq]
  cases negative x <;> cases negative y <;> simp <;> omega

/-- Floats of the same magnitude and sign are read alike. -/
theorem read_congr (hmagnitude : magnitude x = magnitude y) (hnegative : negative x = negative y) : read x = read y := by
  unfold read
  rw [hmagnitude, hnegative]

/-- A float of no magnitude is read as zero. -/
theorem read_zero (h : magnitude x = 0) : read x = .finite (negative x) 0 (-1074) := by
  unfold read
  rw [h]
  rfl

/-- An infinite float has the magnitude of infinity. -/
theorem read_infinite (h : read x = .infinite b) : b = negative x ∧ magnitude x = infinityBits := by
  unfold read at h
  by_cases hnan : infinityBits < magnitude x
  · simp [hnan] at h
  by_cases hinfinite : magnitude x = infinityBits
  · simp only [hinfinite, lt_irrefl, if_true, if_false, Reading.infinite.injEq] at h
    exact ⟨h.symm, hinfinite⟩
  · simp only [if_neg hnan, if_neg hinfinite] at h
    split at h <;> nomatch h

/-- Significand and exponent determine the bits below the sign. -/
theorem magnitude_of_read {b' : Bool} (hx : read x = .finite b m e) (hy : read y = .finite b' m e) : magnitude x = magnitude y := by
  obtain ⟨-, hx⟩ := read_finite hx
  obtain ⟨-, hy⟩ := read_finite hy
  obtain ⟨-, hm, hx⟩ | ⟨hnormal, hx⟩ := hx <;> obtain ⟨-, hm', hy⟩ | ⟨hnormal', hy⟩ := hy
  · rw [hx, hy]
  · exact absurd hnormal'.leading (not_le.mpr hm)
  · exact absurd hnormal.leading (not_le.mpr hm')
  · rw [hx, hy]

/-- A float that is read as zero has no magnitude. -/
theorem magnitude_eq_zero (hx : read x = .finite b 0 e) : magnitude x = 0 := by
  obtain ⟨-, ⟨-, -, hmagnitude⟩ | ⟨hnormal, -⟩⟩ := read_finite hx
  · exact hmagnitude
  · exact absurd hnormal.pos (lt_irrefl 0)

end Double

/-! ## The texts of numbers -/

namespace Value

open Double Decimal

variable {x y : Float} {b : Bool} {m : Nat} {e : Int}

/-- Zero is a whole number. -/
theorem whole?_zero (hx : read x = .finite b 0 e) : whole? x = some 0 := by
  unfold whole?
  simp [hx]

/-- A whole number is a decimal that rounds to its double. -/
theorem roundsTo_of_whole {n : Nat} (h : m * 2 ^ e.toNat = n * 2 ^ (-e).toNat) : RoundsTo (Decimal.value ⟨n, 0⟩) m e := by
  have hscaled : (n : ℚ) * 2 ^ (-e).toNat = m * 2 ^ e * 2 ^ (-e).toNat := by
    rw [mul_assoc, zpow_mul_pow_toNat_neg (by norm_num)]
    exact_mod_cast h.symm
  have hvalue : Decimal.value ⟨n, 0⟩ = m * 2 ^ e := by
    rw [value, zpow_zero, mul_one]
    exact mul_right_cancel₀ (by positivity) hscaled
  rw [hvalue]
  exact roundsTo_self m e

/-- A finite double is written by position, with a sign unless it is a zero. On either branch what is written rounds to the double. -/
theorem numberText_of_finite (hx : read x = .finite b m e) :
    ∃ d : Decimal, numberText x = signed (b && m != 0) (positional d) ∧ RoundsTo d.value m e := by
  by_cases hwritten : ∃ n, whole? x = some n ∧ n < Nat.pow 10 15
  · obtain ⟨n, hwhole, hshort⟩ := hwritten
    obtain ⟨b', m', e', hx', hvalue⟩ := read_of_whole hwhole
    obtain ⟨rfl, rfl, rfl⟩ := Reading.finite.inj (hx.symm.trans hx')
    have hzero : n = 0 ↔ m = 0 := by
      have hiff : n * 2 ^ (-e).toNat = 0 ↔ m * 2 ^ e.toNat = 0 := by rw [hvalue]
      simpa using hiff
    have hsign : (n != 0) = (m != 0) := by rw [Bool.eq_iff_iff, bne_iff_ne, bne_iff_ne, Ne, hzero]
    refine ⟨⟨n, 0⟩, ?_, roundsTo_of_whole hvalue⟩
    unfold numberText
    simp only [hwhole, if_pos hshort, hsign, ← (read_finite hx).1, positional, le_refl, if_true, Int.toNat_zero, List.replicate_zero,
      List.append_nil]
  · have hm : m ≠ 0 := by
      rintro rfl
      exact hwritten ⟨0, whole?_zero hx, by decide⟩
    have htext : numberText x = plainText x := by
      unfold numberText
      split
      · next n hwhole => exact if_neg fun hshort => hwritten ⟨n, hwhole, hshort⟩
      · rfl
    refine ⟨shortest m e, ?_, roundsTo_shortest m e⟩
    rw [htext, bne_iff_ne.mpr hm, Bool.and_true]
    simp only [plainText, hx, ofFinite, if_neg hm]

/-- A zero is written without a sign. -/
theorem numberText_of_zero (h : magnitude x = 0) : numberText x = "0" := by
  unfold numberText
  simp only [whole?_zero (read_zero h), bne_self_eq_false, Bool.and_false]
  rfl

/-- The text of an infinite float. -/
theorem numberText_of_infinite (hx : read x = .infinite b) : numberText x = signed b "inf".toList := by
  simp [numberText, whole?, plainText, hx]

theorem infinite_unsigned : "inf".toList.head? ≠ some '-' := by decide

/-- The infinities are told apart from finite numbers by their first letter. -/
theorem positional_ne_infinite (d : Decimal) : positional d ≠ "inf".toList := by
  intro heq
  obtain ⟨c, hhead, hdigit⟩ := positional_head? d
  rw [heq] at hhead
  obtain rfl : 'i' = c := Option.some.inj hhead
  exact absurd hdigit (by decide)

/-- Finite numbers with the same text are equal. -/
theorem finite_of_numberText {b' : Bool} {m' : Nat} {e' : Int} (hx : read x = .finite b m e) (hy : read y = .finite b' m' e')
    (h : numberText x = numberText y) : m = m' ∧ e = e' ∧ (b = b' ∨ m = 0) := by
  obtain ⟨d, hd, hrounds⟩ := numberText_of_finite hx
  obtain ⟨d', hd', hrounds'⟩ := numberText_of_finite hy
  rw [hd, hd'] at h
  obtain ⟨hsign, htext⟩ := signed_inj (positional_unsigned d) (positional_unsigned d') h
  have hvalue : d.value = d'.value := by rw [← value_expanded, expanded_eq_of_positional htext, value_expanded]
  rw [← hvalue] at hrounds'
  obtain ⟨rfl, rfl⟩ := hrounds.unique (canonical_of_read hx) (canonical_of_read hy) hrounds'
  refine ⟨rfl, rfl, ?_⟩
  by_cases hm : m = 0
  · exact .inr hm
  · rw [bne_iff_ne.mpr hm, Bool.and_true, Bool.and_true] at hsign
    exact .inl hsign

/-- A finite number is not written as an infinity is. -/
theorem numberText_ne_infinite (hx : read x = .finite b m e) (b' : Bool) : numberText x ≠ signed b' "inf".toList := by
  intro h
  obtain ⟨d, hd, -⟩ := numberText_of_finite hx
  rw [hd] at h
  exact positional_ne_infinite d (signed_inj (positional_unsigned d) infinite_unsigned h).2

/-- Numbers with the same text are equal. -/
theorem equal_of_numberText (hx : read x ≠ .nan) (hy : read y ≠ .nan) (h : numberText x = numberText y) :
    magnitude x = magnitude y ∧ (negative x = negative y ∨ magnitude x = 0) := by
  cases hreadx : read x with
  | nan => exact absurd hreadx hx
  | infinite b =>
    cases hready : read y with
    | nan => exact absurd hready hy
    | infinite b' =>
      obtain ⟨hb, hmagnitude⟩ := read_infinite hreadx
      obtain ⟨hb', hmagnitude'⟩ := read_infinite hready
      rw [numberText_of_infinite hreadx, numberText_of_infinite hready] at h
      obtain ⟨rfl, -⟩ := signed_inj infinite_unsigned infinite_unsigned h
      exact ⟨hmagnitude.trans hmagnitude'.symm, .inl (hb.symm.trans hb')⟩
    | finite b' m' e' => exact absurd (h.symm.trans (numberText_of_infinite hreadx)) (numberText_ne_infinite hready b)
  | finite b m e =>
    cases hready : read y with
    | nan => exact absurd hready hy
    | infinite b' => exact absurd (h.trans (numberText_of_infinite hready)) (numberText_ne_infinite hreadx b')
    | finite b' m' e' =>
      obtain ⟨rfl, rfl, hsign⟩ := finite_of_numberText hreadx hready h
      refine ⟨magnitude_of_read hreadx hready, ?_⟩
      rw [← (read_finite hreadx).1, ← (read_finite hready).1]
      refine hsign.imp_right ?_
      rintro rfl
      exact magnitude_eq_zero hreadx

/-- Numbers with the same bits have the same text. -/
theorem numberText_congr (hmagnitude : magnitude x = magnitude y) (hnegative : negative x = negative y) :
    numberText x = numberText y := by
  have hread : read x = read y := read_congr hmagnitude hnegative
  unfold numberText whole? plainText
  rw [hread, hnegative]

/-- Numbers read as the same text exactly if they are equal. -/
theorem numberText_eq_iff (hx : read x ≠ .nan) (hy : read y ≠ .nan) :
    numberText x = numberText y ↔ Double.compare? x y = some .eq := by
  rw [compare?_eq_eq_iff hx hy]
  constructor
  · exact equal_of_numberText hx hy
  · rintro ⟨hmagnitude, hnegative | hzero⟩
    · exact numberText_congr hmagnitude hnegative
    · rw [numberText_of_zero hzero, numberText_of_zero (hmagnitude.symm.trans hzero)]

/-! ## Equal values -/

variable {a b : Value}

/-- The text of a numeric value is that of its number. -/
theorem asText_of_numeric (h : a.isNumeric = true) : a.asText = numberText a.asNumber := by
  cases a with
  | number x => rfl
  | boolean b => cases b <;> decide +kernel
  | text s => nomatch h
  | nil => nomatch h

/-- Of values that are not NaN those are equal that read as the same text. -/
theorem compare?_eq_eq_iff (ha : ¬a.IsNaN) (hb : ¬b.IsNaN) : a.compare? b = some .eq ↔ a.asText = b.asText := by
  by_cases h : a.isNumeric = true ∧ b.isNumeric = true
  · rw [compare?_of_numeric h.1 h.2, asText_of_numeric h.1, asText_of_numeric h.2,
      numberText_eq_iff (mt (isNaN_iff h.1).mpr ha) (mt (isNaN_iff h.2).mpr hb)]
  · rw [compare?_of_text h, Option.some.injEq, compare_eq_iff_eq]

end Value

namespace Comparison

variable {a b : Value}

/-- Equality of values that are not NaN is equality of their texts. -/
theorem eq_holds_iff (ha : ¬a.IsNaN) (hb : ¬b.IsNaN) : eq.holds a b = true ↔ a.asText = b.asText := by
  rw [← Value.compare?_eq_eq_iff ha hb, holds]
  rcases a.compare? b with _ | _ | _ | _ <;> simp [accepts]

/-- Among all values but the NaN, of whatever kinds, equality is an equivalence. Its classes are told apart by their texts. -/
theorem eq_equivalence : Equivalence (fun a b : {v : Value // ¬v.IsNaN} => eq.holds a b = true) ∧
    ∀ a b : {v : Value // ¬v.IsNaN}, eq.holds a b = true ↔ a.val.asText = b.val.asText := by
  have htexts : ∀ a b : {v : Value // ¬v.IsNaN}, eq.holds a b = true ↔ a.val.asText = b.val.asText := by
    intro a b
    exact eq_holds_iff a.property b.property
  refine ⟨⟨?_, ?_, ?_⟩, htexts⟩
  · intro a
    exact (htexts a a).mpr rfl
  · intro a b hab
    have htext := (htexts a b).mp hab
    exact (htexts b a).mpr htext.symm
  · intro a b c hab hbc
    have htext := (htexts a b).mp hab
    have htext' := (htexts b c).mp hbc
    exact (htexts a c).mpr (htext.trans htext')

-- The negative zero, the text of zero and the truth value that reads as zero.
example : eq.holds (.number (-0.0)) (.text "0") = true ∧ eq.holds (.text "0") (.boolean false) = true ∧
    eq.holds (.number (-0.0)) (.boolean false) = true := by
  decide +kernel

end Comparison

end BlockScript
