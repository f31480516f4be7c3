import BlockScript.Decimal.Numeral
import BlockScript.Decimal.Text
import Mathlib

/-!
# Reading positional texts

A decimal written by position is read back without loss: the reader of numerals finds the same number in the text, with the zeros that stand
for a positive power of ten among its digits (`readUnsigned?_positional`). So the text determines the number.
-/

namespace BlockScript.Decimal

/-! ## Runs of digits -/

/-- Nothing but digits. -/
def Digits (cs : List Char) : Prop := ∀ c ∈ cs, c.isDigit = true

/-- A numeral is made of digits. -/
theorem digits_digitChars (n : Nat) : Digits (digitChars n) := by
  intro c hc
  exact Nat.isDigit_of_mem_toDigits (by decide) (by decide) hc

/-- Zeros are digits. -/
theorem digits_zeros (k : Nat) : Digits (List.replicate k '0') := by
  intro c hc
  obtain rfl := List.eq_of_mem_replicate hc
  rfl

theorem Digits.append {cs ds : List Char} (hcs : Digits cs) (hds : Digits ds) : Digits (cs ++ ds) := by
  intro c hc
  rcases List.mem_append.mp hc with hc | hc
  · exact hcs c hc
  · exact hds c hc

/-- Reading digits takes all of them. -/
theorem Digits.takeWhile {cs : List Char} (h : Digits cs) : cs.takeWhile Char.isDigit = cs := by
  have happend : (cs ++ []).takeWhile Char.isDigit = cs ++ [].takeWhile Char.isDigit := List.takeWhile_append_of_pos h
  rwa [List.append_nil, List.takeWhile_nil, List.append_nil] at happend

/-- Reading digits leaves nothing after them. -/
theorem Digits.dropWhile {cs : List Char} (h : Digits cs) : cs.dropWhile Char.isDigit = [] := by
  have happend : (cs ++ []).dropWhile Char.isDigit = [].dropWhile Char.isDigit := List.dropWhile_append_of_pos h
  rwa [List.append_nil, List.dropWhile_nil] at happend

/-- A numeral has a digit. -/
theorem digitChars_ne_nil (n : Nat) : digitChars n ≠ [] := Nat.toDigits_ne_nil

/-- A numeral is read as its number. -/
theorem ofDigits_digitChars (n : Nat) : ofDigits (digitChars n) = n := Nat.ofDigitChars_ten_toDigits

theorem ofDigits_append (cs ds : List Char) : ofDigits (cs ++ ds) = Nat.ofDigitChars 10 ds (ofDigits cs) :=
  Nat.ofDigitChars_append 0

/-- Zeros behind a number multiply it. -/
theorem ofDigits_append_zeros (cs : List Char) (k : Nat) : ofDigits (cs ++ List.replicate k '0') = ofDigits cs * 10 ^ k := by
  rw [ofDigits_append, Nat.ofDigitChars_replicate_zero, Nat.mul_comm]

/-- Zeros before a number do not change it. -/
theorem ofDigits_zeros_append (k : Nat) (cs : List Char) : ofDigits (List.replicate k '0' ++ cs) = ofDigits cs := by
  have hzeros : ofDigits (List.replicate k '0') = 0 := Nat.ofDigitChars_replicate_zero
  rw [ofDigits_append, hzeros]
  rfl

/-! ## The two forms of a text -/

variable {d d' : Decimal} {whole fraction : List Char}

/-- Digits are read as their number, with no exponent. -/
theorem readUnsigned?_whole (hwhole : Digits whole) (hne : whole ≠ []) : readUnsigned? whole = some ⟨ofDigits whole, 0⟩ := by
  unfold readUnsigned?
  simp [hwhole.takeWhile, hwhole.dropWhile, hne, readExponent?]

/-- Digits with a point are read as the number without it, which the exponent puts back. -/
theorem readUnsigned?_point (hwhole : Digits whole) (hne : whole ≠ []) (hfraction : Digits fraction) :
    readUnsigned? (whole ++ '.' :: fraction) = some ⟨ofDigits (whole ++ fraction), -fraction.length⟩ := by
  have htake : (whole ++ '.' :: fraction).takeWhile Char.isDigit = whole := by
    rw [List.takeWhile_append_of_pos hwhole, List.takeWhile_cons_of_neg (by decide), List.append_nil]
  have hdrop : (whole ++ '.' :: fraction).dropWhile Char.isDigit = '.' :: fraction := by
    rw [List.dropWhile_append_of_pos hwhole, List.dropWhile_cons_of_neg (by decide)]
  unfold readUnsigned?
  simp [htake, hdrop, hfraction.takeWhile, hfraction.dropWhile, hne, readExponent?]

/-- A decimal with no digits after the point is written as its digits and zeros. -/
theorem positional_of_nonneg (h : 0 ≤ d.exponent) :
    positional d = digitChars d.digits ++ List.replicate d.exponent.toNat '0' := by
  unfold positional
  rw [if_pos h]

/-- With places behind the point, the digits before and behind it together write the number. -/
theorem positional_of_neg (h : d.exponent < 0) : ∃ whole fraction, positional d = whole ++ '.' :: fraction ∧ Digits whole ∧
    whole ≠ [] ∧ Digits fraction ∧ ofDigits (whole ++ fraction) = d.digits ∧ (fraction.length : Int) = -d.exponent := by
  have hpos : 0 < (digitChars d.digits).length := Nat.length_toDigits_pos
  have hdigits : Digits (digitChars d.digits) := digits_digitChars d.digits
  unfold positional
  rw [if_neg (by omega)]
  by_cases hplaces : (-d.exponent).toNat < (digitChars d.digits).length
  · rw [if_pos hplaces]
    refine ⟨_, _, rfl, fun c hc => hdigits c (List.mem_of_mem_take hc), ?_, fun c hc => hdigits c (List.mem_of_mem_drop hc), ?_, ?_⟩
    · rw [Ne, List.take_eq_nil_iff, not_or]
      exact ⟨by omega, digitChars_ne_nil d.digits⟩
    · rw [List.take_append_drop, ofDigits_digitChars]
    · rw [List.length_drop]
      omega
  · rw [if_neg hplaces]
    refine ⟨['0'], List.replicate _ '0' ++ digitChars d.digits, rfl, digits_zeros 1, List.cons_ne_nil _ _,
      (digits_zeros _).append hdigits, ?_, ?_⟩
    · calc ofDigits (List.replicate 1 '0' ++ (List.replicate _ '0' ++ digitChars d.digits))
          = ofDigits (digitChars d.digits) := by rw [ofDigits_zeros_append, ofDigits_zeros_append]
        _ = d.digits := ofDigits_digitChars d.digits
    · rw [List.length_append, List.length_replicate]
      omega

/-- A text that begins with digits has one first. -/
theorem Digits.head? {cs : List Char} (h : Digits cs) (hne : cs ≠ []) (more : List Char) :
    ∃ c, (cs ++ more).head? = some c ∧ c.isDigit = true := by
  obtain ⟨c, rest, rfl⟩ := List.exists_cons_of_ne_nil hne
  exact ⟨c, rfl, h c List.mem_cons_self⟩

/-- A text by position begins with a digit. -/
theorem positional_head? (d : Decimal) : ∃ c, (positional d).head? = some c ∧ c.isDigit = true := by
  by_cases hexponent : 0 ≤ d.exponent
  · rw [positional_of_nonneg hexponent]
    exact (digits_digitChars d.digits).head? (digitChars_ne_nil d.digits) _
  · obtain ⟨whole, fraction, htext, hwhole, hne, -⟩ := positional_of_neg (Int.not_le.mp hexponent)
    rw [htext]
    exact hwhole.head? hne _

/-- A decimal is written without a sign. -/
theorem positional_unsigned (d : Decimal) : (positional d).head? ≠ some '-' := by
  obtain ⟨c, hhead, hdigit⟩ := positional_head? d
  rw [hhead]
  rintro ⟨⟩
  exact absurd hdigit (by decide)

/-- The sign of a text that has none of its own can be told from the text. -/
theorem signed_inj {b b' : Bool} {cs cs' : List Char} (hcs : cs.head? ≠ some '-') (hcs' : cs'.head? ≠ some '-')
    (h : signed b cs = signed b' cs') : b = b' ∧ cs = cs' := by
  have hlist := String.ofList_injective h
  cases b <;> cases b' <;> simp only [Bool.false_eq_true, if_false, if_true] at hlist
  case false.false => exact ⟨rfl, hlist⟩
  case false.true =>
    rw [hlist] at hcs
    exact absurd rfl hcs
  case true.false =>
    rw [← hlist] at hcs'
    exact absurd rfl hcs'
  case true.true => exact ⟨rfl, (List.cons.inj hlist).2⟩

/-! ## The round trip -/

/-- A decimal with the zeros of a positive power of ten among its digits. -/
def expanded (d : Decimal) : Decimal :=
  if 0 ≤ d.exponent then ⟨d.digits * 10 ^ d.exponent.toNat, 0⟩ else d

/-- What is written by position is read back. -/
theorem readUnsigned?_positional (d : Decimal) : readUnsigned? (positional d) = some d.expanded := by
  unfold expanded
  by_cases hexponent : 0 ≤ d.exponent
  · have hdigits : Digits (digitChars d.digits ++ List.replicate d.exponent.toNat '0') :=
      (digits_digitChars d.digits).append (digits_zeros d.exponent.toNat)
    have hne := List.append_ne_nil_of_left_ne_nil (digitChars_ne_nil d.digits) (List.replicate d.exponent.toNat '0')
    rw [if_pos hexponent, positional_of_nonneg hexponent, readUnsigned?_whole hdigits hne, ofDigits_append_zeros, ofDigits_digitChars]
  · obtain ⟨whole, fraction, htext, hwhole, hne, hfraction, hdigits, hlength⟩ := positional_of_neg (Int.not_le.mp hexponent)
    have hexp : -(fraction.length : Int) = d.exponent := by omega
    rw [if_neg hexponent, htext, readUnsigned?_point hwhole hne hfraction, hdigits, hexp]

/-- Decimals with the same text are the same but for the zeros of their powers of ten. -/
theorem expanded_eq_of_positional (h : positional d = positional d') : d.expanded = d'.expanded := by
  have hread : some d.expanded = some d'.expanded := by
    rw [← readUnsigned?_positional, h, readUnsigned?_positional]
  exact Option.some.inj hread

end BlockScript.Decimal
