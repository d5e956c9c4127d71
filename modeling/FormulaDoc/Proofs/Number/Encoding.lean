import Mathlib
import FormulaDoc.Number.Integral

/-!
# Doubles and their bits

A double is packed from a sign, an exponent field and a fraction field. Only a NaN does not keep the
bits that it is made from, so that the magnitude and the sign of any other double read back. An integer
within `2 ^ 53` has a mantissa that needs no rounding, and reads back too.
-/
namespace FormulaDoc.Binary64

open Float.Model (Format)
open Float.Model.UnpackedFloat

/-! ## Bit patterns -/

section Patterns

variable {b : BitVec Format.binary64.numBits} {sign : Sign} {field : BitVec 11} {fraction : BitVec 52}

/-- A bit pattern is its sign, its exponent field and its fraction field in this order. -/
theorem packComponents_fields (sameField : unpackExponent b = field)
    (sameFraction : unpackMantissa b = fraction) :
    packComponents .binary64 (Sign.ofBitVec (unpackSign b)) field fraction = b := by
  have sign : (Sign.ofBitVec (unpackSign b)).toBitVec = unpackSign b := by
    generalize unpackSign b = bit
    revert bit
    decide
  subst sameField sameFraction
  rw [packComponents, sign]
  simp only [unpackSign, unpackExponent, unpackMantissa, BitVec.extractLsb]
  ext i below
  grind

/-- The exponent field of a number whose mantissa counts `2 ^ e`. -/
theorem biased_eq (e : Int) :
    (e + Format.binary64.exponentBias + (52 : Nat)).toNat = (e + 1075).toNat := by
  have bias : (Format.binary64.exponentBias : Int) = 1023 := rfl
  omega

/-- A mantissa that fills its 53 bits is stored without its first bit. -/
theorem pack_normal {mantissa : Nat} {e : Int} (pos : 0 < mantissa)
    (bits : mantissa = 2 ^ 52 + fraction.toNat) (power : (e + 1075).toNat = field.toNat)
    (finite : field.toNat < 2047) :
    pack .binary64 (.finite sign mantissa e pos) = packComponents .binary64 sign field fraction := by
  have bound := fraction.isLt
  have log : mantissa.log2 = 52 := (Nat.log2_eq_iff (by omega)).mpr ⟨by omega, by omega⟩
  have kept : BitVec.ofNat 52 mantissa = fraction := by
    apply BitVec.eq_of_toNat_eq
    rw [BitVec.toNat_ofNat, bits]
    omega
  simp only [pack, biased_eq, power, log, kept, BitVec.ofNat_toNat, BitVec.setWidth_eq]
  rw [if_neg (by omega), if_pos (by decide)]

/-- A shorter mantissa is stored under the exponent field zero. -/
theorem pack_subnormal {e : Int} (pos : 0 < fraction.toNat) (least : e = -1074) :
    pack .binary64 (.finite sign fraction.toNat e pos) =
      packComponents .binary64 sign 0#11 fraction := by
  have short : fraction.toNat.log2 + 1 ≠ Format.binary64.mantissaBits := by
    have below : fraction.toNat.log2 < 52 := (Nat.log2_lt (by omega)).mpr fraction.isLt
    have : Format.binary64.mantissaBits = 53 := rfl
    omega
  simp only [pack, biased_eq, least, BitVec.ofNat_toNat, BitVec.setWidth_eq]
  rw [if_neg (by decide), if_neg short]

/-- Every bit pattern but those of NaN is kept. -/
theorem pack_unpack (number : unpackExponent b = -1#11 → unpackMantissa b = 0#52) :
    pack .binary64 (unpack .binary64 b) = b := by
  have bias : (Format.binary64.exponentBias + Format.binary64.mantissaBitsWithoutImplicit : Int) = 1075 :=
    rfl
  rw [unpack]
  -- By the exponent field: full for what is not finite, zero below the normal numbers.
  split
  next infinite =>
    rw [if_pos (number infinite)]
    exact packComponents_fields infinite (number infinite)
  next finite =>
    split
    next zero =>
      split
      next none => exact packComponents_fields zero none
      next some =>
        rw [pack_subnormal _ (by rw [bias, zero]; rfl)]
        exact packComponents_fields zero rfl
    next normal =>
      have field : (unpackExponent b).toNat < 2047 := by
        have bound : (unpackExponent b).toNat < 2 ^ 11 := (unpackExponent b).isLt
        have : (unpackExponent b).toNat ≠ 2047 := fun full =>
          finite (BitVec.eq_of_toNat_eq full)
        omega
      have bits : (1#1 ++ unpackMantissa b).toNat = 2 ^ 52 + (unpackMantissa b).toNat := by
        rw [BitVec.toNat_append, ← Nat.shiftLeft_add_eq_or_of_lt (unpackMantissa b).isLt]
        rfl
      rw [pack_normal _ bits (by rw [bias]; omega) field]
      exact packComponents_fields rfl rfl

end Patterns

/-- A double has the bits that it is made from, if they are no NaN. -/
theorem toBits_ofBits {w : UInt64} (number : w.toNat % signWeight ≤ infinity) :
    (Float.ofBits w).toBits = w := by
  have kept : pack .binary64 (unpack .binary64 w.toBitVec) = w.toBitVec := by
    refine pack_unpack fun full => BitVec.eq_of_toNat_eq ?_
    have field : w.toNat / 2 ^ 52 % 2 ^ 11 = 2 ^ 11 - 1 := by
      simpa [unpackExponent, BitVec.extractLsb, Nat.shiftRight_eq_div_pow] using
        congrArg BitVec.toNat full
    have fraction : (@unpackMantissa .binary64 w.toBitVec).toNat = w.toNat % 2 ^ 52 := by
      simp [unpackMantissa]
    rw [fraction]
    simp only [signWeight, infinity, binade] at number
    simp only [BitVec.toNat_ofNat]
    omega
  exact congrArg UInt64.ofBitVec kept

/-! ## Magnitudes -/

section Magnitudes

variable {negative : Bool} {m : Nat}

theorem bits_ofMagnitude (number : m ≤ infinity) :
    bits (ofMagnitude negative m) = if negative then signWeight + m else m := by
  have word : (if negative then signWeight + m else m) < 2 ^ 64 := by
    simp only [signWeight, infinity, binade] at number ⊢
    split <;> omega
  have same : (UInt64.ofNat (if negative then signWeight + m else m)).toNat =
      if negative then signWeight + m else m := UInt64.toNat_ofNat_of_lt' word
  rw [bits, ofMagnitude, toBits_ofBits, same]
  rw [same]
  split
  · rw [Nat.add_mod_left]
    exact Nat.le_trans (Nat.mod_le _ _) number
  · exact Nat.le_trans (Nat.mod_le _ _) number

theorem magnitude_ofMagnitude (number : m ≤ infinity) : magnitude (ofMagnitude negative m) = m := by
  have below : m < signWeight := Nat.lt_of_le_of_lt number (by decide)
  rw [magnitude, bits_ofMagnitude number]
  cases negative
  · exact Nat.mod_eq_of_lt below
  · exact (Nat.add_mod_left _ _).trans (Nat.mod_eq_of_lt below)

theorem isNegative_ofMagnitude (number : m ≤ infinity) :
    isNegative (ofMagnitude negative m) = negative := by
  have below : m < signWeight := Nat.lt_of_le_of_lt number (by decide)
  rw [isNegative, bits_ofMagnitude number]
  cases negative
  · exact decide_eq_false (Nat.not_le_of_lt below)
  · exact decide_eq_true (Nat.le_add_right _ _)

end Magnitudes

/-! ## Whole numbers -/

theorem mantissa_of_binade {e m : Nat} (least : binade ≤ m) (most : m < 2 * binade) :
    mantissa (e * binade + m) = m := by
  rw [mantissa, if_neg (by omega)]
  simp only [binade] at *
  omega

theorem exponent_of_binade {e m : Nat} (least : binade ≤ m) (most : m < 2 * binade) :
    exponent (e * binade + m) = e - 1074 := by
  have whole : (e * binade + m) / binade = e + 1 := by
    simp only [binade] at *
    omega
  rw [exponent, if_neg (by omega), whole]
  simp only [Int.ofNat_eq_natCast]
  omega

theorem ratioLog2_one {n : Nat} (pos : n ≠ 0) : ratioLog2 n 1 = n.log2 := by
  have one : Nat.log2 1 = 0 := by decide
  simp only [ratioLog2, one, Int.ofNat_eq_natCast]
  rw [if_pos]
  · omega
  · simpa [Nat.shiftLeft_eq] using Nat.log2_self_le pos

theorem roundDiv_one (n : Nat) : roundDiv n 1 = n := by
  simp [roundDiv, Nat.mod_one]

/-- A whole number below `2 ^ 53` fills a mantissa when its first bit is shifted to the 53rd. -/
theorem shifted_bounds {n : Nat} (pos : n ≠ 0) (below : n.log2 ≤ 52) :
    binade ≤ n * 2 ^ (52 - n.log2) ∧ n * 2 ^ (52 - n.log2) < 2 * binade := by
  have scale : 2 ^ n.log2 * 2 ^ (52 - n.log2) = binade := by
    rw [← Nat.pow_add, Nat.add_sub_of_le below]
    rfl
  have unit : 0 < 2 ^ (52 - n.log2) := Nat.two_pow_pos _
  constructor
  · rw [← scale]
    exact Nat.mul_le_mul_right _ (Nat.log2_self_le pos)
  · rw [← scale, ← Nat.mul_assoc, ← Nat.pow_succ']
    exact Nat.mul_lt_mul_of_pos_right Nat.lt_log2_self unit

theorem nearest_one {n : Nat} (pos : n ≠ 0) (below : n.log2 ≤ 52) :
    nearest n 1 = (n.log2 + 1022) * binade + n * 2 ^ (52 - n.log2) := by
  have power : Max.max ((n.log2 : Int) - 52) (-1074) = -((52 - n.log2 : Nat) : Int) := by omega
  have least : (-((52 - n.log2 : Nat) : Int) + 1074).toNat = n.log2 + 1022 := by omega
  have finite : (n.log2 + 1022) * binade + n * 2 ^ (52 - n.log2) ≤ infinity := by
    have bounds := shifted_bounds pos below
    simp only [binade, infinity] at *
    omega
  simp only [nearest, if_neg pos, ratioLog2_one pos, power, least, Int.neg_neg, Int.toNat_natCast,
    Int.toNat_neg_natCast, Nat.shiftLeft_eq, Nat.pow_zero, Nat.mul_one, roundDiv_one]
  exact Nat.min_eq_left finite

theorem exact_cases {n : Nat} (exact : n ≤ maxExactInt) :
    n = 0 ∨ n = maxExactInt ∨ n ≠ 0 ∧ n.log2 ≤ 52 := by
  by_cases pos : n = 0
  · exact .inl pos
  by_cases below : n.log2 ≤ 52
  · exact .inr (.inr ⟨pos, below⟩)
  · have top : maxExactInt ≤ n := (Nat.le_log2 pos).mp (Nat.lt_of_not_le below)
    exact .inr (.inl (Nat.le_antisymm exact top))

theorem nearest_lt_infinity {n : Nat} (exact : n ≤ maxExactInt) : nearest n 1 < infinity := by
  obtain rfl | rfl | ⟨pos, below⟩ := exact_cases exact
  · decide
  · decide
  · have bounds := shifted_bounds pos below
    rw [nearest_one pos below]
    simp only [binade, infinity] at *
    omega

/-- The double nearest to a whole number within `2 ^ 53` is that number. -/
theorem numerator_nearest {n : Nat} (exact : n ≤ maxExactInt) :
    numerator (nearest n 1) = n * denominator (nearest n 1) := by
  obtain rfl | rfl | ⟨pos, below⟩ := exact_cases exact
  · decide
  · decide
  · obtain ⟨least, most⟩ := shifted_bounds pos below
    have power : ((n.log2 + 1022 : Nat) : Int) - 1074 = -((52 - n.log2 : Nat) : Int) := by omega
    rw [nearest_one pos below, numerator, denominator, mantissa_of_binade least most,
      exponent_of_binade least most, power, Int.toNat_neg_natCast, Int.neg_neg, Int.toNat_natCast,
      Nat.shiftLeft_zero, Nat.one_shiftLeft]

theorem denominator_pos (m : Nat) : 0 < denominator m := by
  rw [denominator, Nat.one_shiftLeft]
  exact Nat.two_pow_pos _

theorem toInt?_ofInt {i : Int} (exact : i.natAbs ≤ maxExactInt) : toInt? (ofInt i) = some i := by
  have finite := nearest_lt_infinity exact
  have number := Nat.le_of_lt finite
  have whole := numerator_nearest exact
  have pos := denominator_pos (nearest i.natAbs 1)
  simp only [toInt?, ofInt, isFinite, magnitude_ofMagnitude number, isNegative_ofMagnitude number,
    whole, decide_eq_true finite, Nat.mul_mod_left, Nat.mul_div_cancel _ pos, decide_eq_true_eq,
    if_true]
  split <;> simp only [Int.ofNat_eq_natCast, Option.some.injEq] <;> omega

theorem exactInt?_ofInt {i : Int} (exact : i.natAbs ≤ maxExactInt) : exactInt? (ofInt i) = some i := by
  rw [exactInt?, toInt?_ofInt exact, Option.filter_some, if_pos (decide_eq_true exact)]

end FormulaDoc.Binary64
