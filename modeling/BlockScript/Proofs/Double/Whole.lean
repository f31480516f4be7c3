import BlockScript.Double
import Mathlib

/-!
# Whole numbers as doubles

A whole number that a double stands for exactly converts to that double: `Double.ofInt` gives back the double of which `Double.whole?`
and `Double.negative` read the number (`ofInt_of_whole`). The conversion rounds several times on its way. On a significand in normal
form, also one with further zeros behind it, none of the roundings changes anything (`Normal.roundWithAccuracy_scaled`).
-/

namespace BlockScript.Double

open Float.Model Float.Model.UnpackedFloat

/-- A significand with its leading bit in place, and an exponent in range. -/
structure Normal (m : Nat) (e : Int) : Prop where
  leading : 2 ^ 52 ≤ m
  bounded : m < 2 ^ 53
  least : -1074 ≤ e
  most : e ≤ 971

/-! ## Rounding changes nothing -/

/-- Zeros behind a number add to its length. -/
theorem log2_mul_two_pow {n : Nat} (h : n ≠ 0) (k : Nat) : (n * 2 ^ k).log2 = n.log2 + k := by
  induction k with
  | zero => rw [Nat.pow_zero, Nat.mul_one, Nat.add_zero]
  | succ k ih =>
    have hne : n * 2 ^ k ≠ 0 := Nat.mul_ne_zero h (Nat.two_pow_pos k).ne'
    have hscaled : n * 2 ^ (k + 1) = 2 * (n * 2 ^ k) := by rw [Nat.pow_succ, Nat.mul_comm 2, Nat.mul_assoc]
    rw [hscaled, Nat.log2_two_mul hne, ih, Nat.add_assoc]

/-- Shifting out zeros loses nothing. -/
theorem shiftRight_scaled (m k : Nat) :
    ExtendedMantissa.ofMantissaAndAccuracy (m * 2 ^ k) .exact >>> k = ExtendedMantissa.ofMantissaAndAccuracy m .exact := by
  change k.repeat ExtendedMantissa.shiftRightOne _ = _
  induction k generalizing m with
  | zero => rw [Nat.pow_zero, Nat.mul_one, Nat.repeat]
  | succ k ih =>
    have hscaled : m * 2 ^ (k + 1) = m * 2 * 2 ^ k := by rw [Nat.pow_succ, Nat.mul_comm (2 ^ k), Nat.mul_assoc]
    rw [hscaled, Nat.repeat, ih]
    simp [ExtendedMantissa.ofMantissaAndAccuracy, ExtendedMantissa.shiftRightOne]

namespace Normal

variable {m : Nat} {e : Int}

theorem pos (h : Normal m e) : 0 < m := Nat.lt_of_lt_of_le (by decide) h.leading

theorem log2 (h : Normal m e) : m.log2 = 52 := (Nat.log2_eq_iff h.pos.ne').mpr ⟨h.leading, h.bounded⟩

/-- The target exponent of a normal float is its own, however the float is scaled. -/
theorem targetExponent_scaled (h : Normal m e) (k : Nat) :
    Format.binary64.targetExponent (totalExponent (m * 2 ^ k) (e - k)) = e := by
  have hleast := h.least
  simp only [Format.targetExponent, totalExponent, log2_mul_two_pow h.pos.ne' k, h.log2, Format.mantissaBits, Format.minExponent]
  omega

/-- Shifting gives a normal float back exactly, however it is scaled. -/
theorem shiftToTargetExponent_scaled (h : Normal m e) (k : Nat) :
    shiftToTargetExponent Format.binary64 (m * 2 ^ k) (e - k) .exact = (ExtendedMantissa.ofMantissaAndAccuracy m .exact, e) := by
  have hshift : (e - (e - k)).toNat = k := by omega
  have hexp : e - k + k = e := by omega
  rw [shiftToTargetExponent, shiftToExponent, h.targetExponent_scaled, hshift, shiftRight_scaled, hexp]

/-- A significand in normal form, with zeros behind it, is rounded to itself. -/
theorem roundWithAccuracy_scaled (h : Normal m e) (s : Sign) (k : Nat) :
    roundWithAccuracy Format.binary64 s (m * 2 ^ k) (e - k) .exact = .finite s m e h.pos := by
  have hrounded : (ExtendedMantissa.ofMantissaAndAccuracy m .exact).roundedMantissa = m := rfl
  have hagain : shiftToTargetExponent Format.binary64 m e .exact = (ExtendedMantissa.ofMantissaAndAccuracy m .exact, e) := by
    simpa using h.shiftToTargetExponent_scaled 0
  have hmantissa : (ExtendedMantissa.ofMantissaAndAccuracy m .exact).mantissa = m := rfl
  simp only [roundWithAccuracy, h.shiftToTargetExponent_scaled k, hrounded, hagain, hmantissa, dif_neg h.pos.ne']

/-- A number with no more bits than a significand has is brought into normal form. -/
theorem round_small {n k : Nat} (h : Normal (n * 2 ^ k) (-(k : Int))) (s : Sign) :
    UnpackedFloat.round Format.binary64 s n 0 = .finite s (n * 2 ^ k) (-(k : Int)) h.pos := by
  have hne : n ≠ 0 := by
    rintro rfl
    exact h.pos.ne' (Nat.zero_mul _)
  have hlog : n.log2 + k = 52 := by rw [← log2_mul_two_pow hne, h.log2]
  have htarget : Format.binary64.targetExponent (totalExponent n 0) = -(k : Int) := by
    simp only [Format.targetExponent, totalExponent, Format.mantissaBits, Format.minExponent]
    omega
  have hshift : decreaseExponent n 0 (-(k : Int)) = (n * 2 ^ k, -(k : Int)) := by
    simp [decreaseExponent, Nat.shiftLeft_eq]
  simp only [UnpackedFloat.round, htarget, hshift]
  simpa using h.roundWithAccuracy_scaled s 0

end Normal

/-! ## Packing loses nothing -/

/-- The word with the given fields: a sign, eleven bits of exponent and the 52 bits below. -/
def word (s : Sign) (field fraction : Nat) : BitVec 64 :=
  packComponents Format.binary64 s (BitVec.ofNat 11 field) (BitVec.ofNat 52 fraction)

/-- A word as a number, from its sign, its exponent field and its fraction. -/
theorem toNat_word (s : Sign) {field : Nat} (hfield : field < 2 ^ 11) (fraction : Nat) :
    (word s field fraction).toNat = s.toBitVec.toNat * 2 ^ 63 + field * 2 ^ 52 + fraction % 2 ^ 52 := by
  change (s.toBitVec ++ BitVec.ofNat 11 field ++ BitVec.ofNat 52 fraction).toNat = _
  have hfraction : fraction % 2 ^ 52 < 2 ^ 52 := Nat.mod_lt _ (Nat.two_pow_pos 52)
  rw [BitVec.toNat_append, BitVec.toNat_append, BitVec.toNat_ofNat, BitVec.toNat_ofNat, Nat.mod_eq_of_lt hfield,
    ← Nat.shiftLeft_add_eq_or_of_lt hfield, ← Nat.shiftLeft_add_eq_or_of_lt hfraction]
  simp only [Nat.shiftLeft_eq]
  ring

namespace Normal

variable {m : Nat} {e : Int}

/-- The word that a normal float is packed to. -/
theorem pack_eq_word (h : Normal m e) (s : Sign) :
    (Float.Model.pack (.finite s m e h.pos)).toBits.toBitVec = word s (e + 1075).toNat m := by
  have hleast := h.least
  have hmost := h.most
  have hfield : (e + Format.binary64.exponentBias + Format.binary64.mantissaBitsWithoutImplicit).toNat = (e + 1075).toNat := by
    simp only [Format.exponentBias]
    omega
  have hfinite : ¬2 ^ Format.binary64.exponentBits ≤ (e + 1075).toNat + 1 := by
    change ¬2048 ≤ (e + 1075).toNat + 1
    omega
  change UnpackedFloat.pack Format.binary64 (.finite s m e h.pos) = _
  simp only [UnpackedFloat.pack, hfield, if_neg hfinite, h.log2]
  rfl

/-- The word of a normal float is unpacked to the float. -/
theorem unpack_word (h : Normal m e) (s : Sign) :
    UnpackedFloat.unpack Format.binary64 (word s (e + 1075).toNat m) = .finite s m e h.pos := by
  have hleast := h.least
  have hmost := h.most
  have hlow := h.leading
  have hhigh := h.bounded
  have hfield : (BitVec.ofNat 11 (e + 1075).toNat).toNat = (e + 1075).toNat := by
    rw [BitVec.toNat_ofNat]
    omega
  have hfinite : BitVec.ofNat 11 (e + 1075).toNat ≠ -1#11 := by
    intro heq
    have : (e + 1075).toNat = 2047 := hfield ▸ congrArg BitVec.toNat heq
    omega
  have hnormal : BitVec.ofNat 11 (e + 1075).toNat ≠ 0#11 := by
    intro heq
    have : (e + 1075).toNat = 0 := hfield ▸ congrArg BitVec.toNat heq
    omega
  have hmantissa : (1#1 ++ BitVec.ofNat 52 m).toNat = m := by
    rw [BitVec.toNat_append, ← Nat.shiftLeft_add_eq_or_of_lt (BitVec.ofNat 52 m).isLt, BitVec.toNat_ofNat, Nat.shiftLeft_eq]
    change 1 * 2 ^ 52 + m % 2 ^ 52 = m
    omega
  have hexponent : ((e + 1075).toNat : Int) - (Format.binary64.exponentBias + Format.binary64.mantissaBitsWithoutImplicit) = e := by
    simp only [Format.exponentBias]
    omega
  simp only [UnpackedFloat.unpack, word, unpackExponent_packComponents, unpackMantissa_packComponents, unpackSign_packComponents,
    if_neg hfinite, if_neg hnormal, hfield, hmantissa, hexponent, Sign.ofBitVec_toBitVec]

/-- A normal float survives packing and unpacking. -/
theorem unpack_pack (h : Normal m e) (s : Sign) : (Float.Model.pack (.finite s m e h.pos)).unpack = .finite s m e h.pos := by
  rw [Float.Model.unpack, h.pack_eq_word, h.unpack_word]

/-! ## The conversion -/

/-- The negative of a packed float is the packed negative. -/
theorem neg_pack (h : Normal m e) (s : Sign) : -Float.Model.pack (.finite s m e h.pos) = Float.Model.pack (.finite (-s) m e h.pos) := by
  change Float.Model.pack (Float.Model.pack (.finite s m e h.pos)).unpack.neg = _
  rw [h.unpack_pack]
  rfl

/-- A number with no more bits than a significand has is multiplied with one after it was brought into normal form. -/
theorem ofScientific_small {n k : Nat} (h : Normal (n * 2 ^ k) (-(k : Int))) (hn : n < 2 ^ 53) :
    (Float.ofScientific n false 0).toModel = Float.Model.pack (.finite .positive (n * 2 ^ k) (-(k : Int)) h.pos) := by
  have hone : (Float.Model.ofBits 0x3FF0000000000000).unpack = .finite .positive (2 ^ 52) (-52) (by decide) := rfl
  have hword : n.toUInt64.toNat = n := by
    rw [Nat.toUInt64]
    exact UInt64.toNat_ofNat_of_lt' (Nat.lt_trans hn (by decide))
  have hpos : compare (n : Int) 0 = .gt := by
    have : n ≠ 0 := by
      rintro rfl
      exact h.pos.ne' (Nat.zero_mul _)
    exact Int.compare_eq_gt.mpr (by omega)
  have hconverted : Float.Model.ofUInt64 n.toUInt64 = Float.Model.pack (.finite .positive (n * 2 ^ k) (-(k : Int)) h.pos) := by
    simp only [Float.Model.ofUInt64, UnpackedFloat.ofUInt64, UnpackedFloat.ofNat, UnpackedFloat.ofInt, UnpackedFloat.normalize, hword, hpos,
      Int.toNat_natCast, h.round_small]
  have hfast : Float.ofScientific n false 0 = n.toUInt64.toFloat * Float.ofBits 0x3FF0000000000000 := by
    rw [Float.ofScientific, dif_pos ⟨hn, by decide⟩]
    rfl
  rw [hfast]
  change Float.Model.pack (UnpackedFloat.mul _ (Float.Model.ofUInt64 n.toUInt64).unpack (Float.Model.ofBits 0x3FF0000000000000).unpack) = _
  rw [hconverted, h.unpack_pack, hone]
  exact congrArg Float.Model.pack (h.roundWithAccuracy_scaled .positive 52)

end Normal

/-- A number given in full is written with further zeros behind it and rounded once. -/
theorem ofScientific_whole {n : Nat} (hn : n ≠ 0) :
    UnpackedFloat.ofScientific Format.binary64 n 0 = roundWithAccuracy Format.binary64 .positive (n * 2 ^ 53) (-53) .exact := by
  have hsmall : ¬(0 : Int) < -(2 ^ Format.binary64.exponentBits + n.log2) := by
    change ¬(0 : Int) < -(2 ^ 11 + n.log2)
    omega
  have hsign : Sign.positive * Sign.positive = Sign.positive := rfl
  rw [UnpackedFloat.ofScientific, dif_neg hn, if_neg (by decide), if_neg hsmall, if_pos (by decide)]
  simp [UnpackedFloat.mul, Nat.shiftLeft_eq, Format.mantissaBits, hsign]

/-- A number that is too long for a significand is rounded from its full length. -/
theorem Normal.ofScientific_large {m k : Nat} (h : Normal m k) (hm : ¬m * 2 ^ k < 2 ^ 53) :
    (Float.ofScientific (m * 2 ^ k) false 0).toModel = Float.Model.pack (.finite .positive m k h.pos) := by
  have hne : m * 2 ^ k ≠ 0 := Nat.mul_ne_zero h.pos.ne' (Nat.two_pow_pos k).ne'
  have hscaled : m * 2 ^ k * 2 ^ 53 = m * 2 ^ (k + 53) := by rw [Nat.mul_assoc, Nat.pow_add]
  have hexp : (-53 : Int) = k - (k + 53 : Nat) := by omega
  have hslow : (Float.ofScientific (m * 2 ^ k) false 0).toModel =
      Float.Model.pack (UnpackedFloat.ofScientific Format.binary64 (m * 2 ^ k) 0) := by
    rw [Float.ofScientific, dif_neg fun hfast => hm hfast.1]
    rfl
  rw [hslow, ofScientific_whole hne, hscaled, hexp, h.roundWithAccuracy_scaled]

/-- The sign of which the bit is set. -/
def signOf (negative : Bool) : Sign := if negative then .negative else .positive

/-- Models with the same bits are the same. -/
theorem toModel_inj {a b : Float.Model} (h : a.toBits = b.toBits) : a = b := by
  cases a
  cases b
  cases h
  rfl

theorem toModel_neg (x : Float) : (-x).toModel = -x.toModel := rfl

/-- A whole number with a normal mantissa is turned into that float. -/
theorem Normal.toModel_ofScientific {m : Nat} {e : Int} (h : Normal m e) {n : Nat} (hn : m * 2 ^ e.toNat = n * 2 ^ (-e).toNat) :
    (Float.ofScientific n false 0).toModel = Float.Model.pack (.finite .positive m e h.pos) := by
  rcases le_or_gt e 0 with hneg | hpos
  · obtain ⟨k, rfl⟩ : ∃ k : Nat, e = -(k : Int) := ⟨(-e).toNat, by omega⟩
    obtain rfl : m = n * 2 ^ k := by simpa using hn
    refine h.ofScientific_small ?_
    exact Nat.lt_of_le_of_lt (Nat.le_mul_of_pos_right _ (Nat.two_pow_pos k)) h.bounded
  · obtain ⟨k, rfl⟩ : ∃ k : Nat, e = (k + 1 : Nat) := ⟨e.toNat - 1, by omega⟩
    have hzero : (-((k + 1 : Nat) : Int)).toNat = 0 := by omega
    obtain rfl : m * 2 ^ (k + 1) = n := by
      rw [hzero, Int.toNat_natCast, Nat.pow_zero, Nat.mul_one] at hn
      exact hn
    refine h.ofScientific_large ?_
    have hlong : 2 ^ 52 * 2 ^ 1 ≤ m * 2 ^ (k + 1) := Nat.mul_le_mul h.leading (Nat.pow_le_pow_right (by decide) (by omega))
    omega

/-- A number that fits a significand in normal form converts to the double of that form. -/
theorem Normal.toModel_ofInt {m : Nat} {e : Int} (h : Normal m e) {n : Int} (hn : m * 2 ^ e.toNat = n.natAbs * 2 ^ (-e).toNat) :
    (ofInt n).toModel = Float.Model.pack (.finite (signOf (n < 0)) m e h.pos) := by
  have hmagnitude : (Float.ofScientific n.natAbs false 0).toModel = Float.Model.pack (.finite .positive m e h.pos) :=
    h.toModel_ofScientific hn
  unfold ofInt
  by_cases hlt : n < 0
  · have hsign : signOf (n < 0) = -.positive := by
      rw [signOf, decide_eq_true hlt]
      rfl
    rw [if_pos hlt, toModel_neg, hmagnitude, h.neg_pack, hsign]
  · have hsign : signOf (n < 0) = .positive := by
      rw [signOf, decide_eq_false hlt]
      rfl
    rw [if_neg hlt, hmagnitude, hsign]

/-- The sign is the highest bit. -/
theorem signOf_negative (x : Float) : (signOf (negative x)).toBitVec.toNat = x.toBits.toNat / 2 ^ 63 := by
  have hbits : x.toBits.toNat < 2 ^ 64 := x.toBits.toNat_lt
  unfold negative signBit
  by_cases hset : 0x8000000000000000 ≤ x.toBits.toNat
  · rw [decide_eq_true hset]
    change 1 = _
    omega
  · rw [decide_eq_false hset]
    change 0 = _
    omega

/-- What is read of a finite double: below the numbers in normal form its bits as they are, else a number in normal form. -/
theorem read_finite {x : Float} {b : Bool} {m : Nat} {e : Int} (hx : read x = .finite b m e) :
    b = negative x ∧ (e = -1074 ∧ m < 2 ^ 52 ∧ magnitude x = m ∨
      Normal m e ∧ magnitude x = (e + 1075).toNat * 2 ^ 52 + (m - 2 ^ 52)) := by
  unfold read infinityBits hiddenBit at hx
  by_cases hnan : 0x7FF0000000000000 < magnitude x
  · simp [hnan] at hx
  by_cases hinfinite : magnitude x = 0x7FF0000000000000
  · simp [hinfinite] at hx
  by_cases hsubnormal : magnitude x / 0x10000000000000 = 0
  · simp only [if_neg hnan, if_neg hinfinite, if_pos hsubnormal] at hx
    obtain ⟨hsign, hsignificand, hexponent⟩ := Reading.finite.inj hx
    refine ⟨hsign.symm, .inl ⟨hexponent.symm, ?_, ?_⟩⟩ <;> omega
  · simp only [if_neg hnan, if_neg hinfinite, if_neg hsubnormal] at hx
    obtain ⟨hsign, hsignificand, hexponent⟩ := Reading.finite.inj hx
    refine ⟨hsign.symm, .inr ⟨?_, ?_⟩⟩
    · constructor <;> omega
    · omega

/-- A double of which a number in normal form is read is packed from that number. -/
theorem Normal.toModel_eq {x : Float} {m : Nat} {e : Int} (h : Normal m e)
    (hx : magnitude x = (e + 1075).toNat * 2 ^ 52 + (m - 2 ^ 52)) :
    x.toModel = Float.Model.pack (.finite (signOf (negative x)) m e h.pos) := by
  have hbits : x.toBits.toNat < 2 ^ 64 := x.toBits.toNat_lt
  have hmagnitude : magnitude x = x.toBits.toNat % 2 ^ 63 := rfl
  have hlow := h.leading
  have hhigh := h.bounded
  have hmost := h.most
  have hword : x.toBits.toBitVec = (Float.Model.pack (.finite (signOf (negative x)) m e h.pos)).toBits.toBitVec := by
    apply BitVec.eq_of_toNat_eq
    rw [h.pack_eq_word, toNat_word _ (by omega), signOf_negative]
    change x.toBits.toNat = _
    omega
  exact toModel_inj (UInt64.toBitVec_inj.mp hword)

/-- What `whole?` reads: the number of which significand and exponent are the two parts. -/
theorem read_of_whole {x : Float} {n : Nat} (h : whole? x = some n) :
    ∃ b m e, read x = .finite b m e ∧ m * 2 ^ e.toNat = n * 2 ^ (-e).toNat := by
  unfold whole? at h
  cases hx : read x with
  | nan => simp [hx] at h
  | infinite b => simp [hx] at h
  | finite b m e =>
    refine ⟨b, m, e, rfl, ?_⟩
    simp only [hx] at h
    by_cases he : 0 ≤ e
    · have hzero : (-e).toNat = 0 := by omega
      rw [if_pos he] at h
      rw [hzero, Nat.pow_zero, Nat.mul_one]
      exact Option.some.inj h
    · have hzero : e.toNat = 0 := by omega
      rw [if_neg he] at h
      by_cases hdvd : m % 2 ^ (-e).toNat = 0
      · have hdiv : m / 2 ^ (-e).toNat = n := by simpa [hdvd] using h
        rw [hzero, Nat.pow_zero, Nat.mul_one, ← hdiv, Nat.div_mul_cancel (Nat.dvd_of_mod_eq_zero hdvd)]
      · simp [hdvd] at h

/-- Floats with the same bits are the same. -/
theorem eq_of_toBits {x y : Float} (h : x.toBits = y.toBits) : x = y := by
  cases x
  cases y
  exact congrArg Float.ofModel (toModel_inj h)

/-- All bits of zero are clear. -/
theorem toBits_ofInt_zero : (ofInt 0).toBits = 0 := rfl

/-- A short number is no other multiple of a large power of two than zero. -/
theorem eq_zero_of_short {m n k : Nat} (hm : m < 2 ^ 52) (hk : 52 ≤ k) (h : m = n * 2 ^ k) : n = 0 := by
  by_contra hne
  have hlarge : 1 * 2 ^ 52 ≤ n * 2 ^ k := Nat.mul_le_mul (Nat.pos_of_ne_zero hne) (Nat.pow_le_pow_right (by decide) hk)
  omega

/-- The integer that a double stands for exactly, the negative zero apart, converts to that double. -/
theorem ofInt_of_whole {x : Float} {n : Int} (hwhole : whole? x = some n.natAbs) (hsign : negative x = decide (n < 0)) : ofInt n = x := by
  obtain ⟨b, m, e, hx, hvalue⟩ := read_of_whole hwhole
  obtain ⟨-, ⟨hleast, hm, hmagnitude⟩ | ⟨hnormal, hmagnitude⟩⟩ := read_finite hx
  · -- Below the numbers in normal form only zero is whole.
    have hexponent : e.toNat = 0 := by omega
    rw [hexponent, Nat.pow_zero, Nat.mul_one] at hvalue
    have hzero : n.natAbs = 0 := eq_zero_of_short hm (by omega) hvalue
    have hm0 : m = 0 := by rw [hvalue, hzero, Nat.zero_mul]
    obtain rfl : n = 0 := Int.natAbs_eq_zero.mp hzero
    have hpositive : ¬signBit ≤ x.toBits.toNat := of_decide_eq_false hsign
    have hbits : x.toBits.toNat % signBit = 0 := hmagnitude.trans hm0
    have hword : x.toBits.toNat = 0 := by rwa [Nat.mod_eq_of_lt (Nat.lt_of_not_le hpositive)] at hbits
    exact eq_of_toBits (toBits_ofInt_zero.trans (UInt64.toNat_inj.mp hword).symm)
  · have hmodel : (ofInt n).toModel = x.toModel := by rw [hnormal.toModel_ofInt hvalue, hnormal.toModel_eq hmagnitude, hsign]
    exact eq_of_toBits (congrArg Float.Model.toBits hmodel)

end BlockScript.Double
