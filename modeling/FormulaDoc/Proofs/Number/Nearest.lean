import Mathlib
import FormulaDoc.Proofs.Number.Encoding

/-!
# The numbers that doubles stand for

A finite double is a whole number of units of `2 ^ -1074`, and more units have a greater magnitude. So
a double is known by its number and its sign, and an integer is rounded to a double that no other one is
nearer to.
-/
namespace FormulaDoc.Binary64

/-- How often one is halved to make the least positive double. -/
def halvings : Nat := 1074

/-- A finite magnitude in units of the least positive double. -/
def units (magnitude : Nat) : Nat := mantissa magnitude * 2 ^ (exponent magnitude + halvings).toNat

/-- How many units one is. -/
def unit : Nat := 2 ^ halvings

def signedUnits (x : Float) : Int :=
  if isNegative x then -(units (magnitude x) : Int) else units (magnitude x)

/-- The number that a finite double stands for. -/
def value (x : Float) : ℚ := signedUnits x / unit

theorem unit_pos : 0 < unit := Nat.two_pow_pos _

theorem two_pow_add_halvings (q : Nat) : 2 ^ (q + halvings) = 2 ^ q * unit := Nat.pow_add 2 q halvings

theorem abs_value_sub (x : Float) (i : Int) :
    |value x - i| = (|signedUnits x - i * unit| : Int) / (unit : ℚ) := by
  have pos : (0 : ℚ) < unit := Nat.cast_pos.mpr unit_pos
  rw [value, div_sub' (ne_of_gt pos), abs_div, abs_of_pos pos, mul_comm (unit : ℚ)]
  push_cast
  rfl

/-! ## Magnitudes in units -/

/-- A mantissa that fills its bits, or the carry out of them, counts powers of two. -/
theorem units_of_binade {e m : Nat} (least : e = 0 ∨ binade ≤ m) (most : m ≤ 2 * binade) :
    units (e * binade + m) = m * 2 ^ e := by
  by_cases subnormal : m < binade
  · obtain rfl := least.resolve_right (Nat.not_le_of_lt subnormal)
    rw [Nat.zero_mul, Nat.zero_add, units, mantissa, if_pos subnormal, exponent, if_pos subnormal]
    rfl
  · have least := Nat.le_of_not_lt subnormal
    rcases Nat.lt_or_eq_of_le most with below | rfl
    · have power : ((e : Int) - 1074 + halvings).toNat = e := by simp only [halvings]; omega
      rw [units, mantissa_of_binade least below, exponent_of_binade least below, power]
    · have carry : e * binade + 2 * binade = (e + 1) * binade + binade := by ring
      have power : (((e + 1 : Nat) : Int) - 1074 + halvings).toNat = e + 1 := by
        simp only [halvings]
        omega
      rw [units, carry, mantissa_of_binade (Nat.le_refl _) (by decide),
        exponent_of_binade (Nat.le_refl _) (by decide), power]
      ring

/-- Every magnitude is a power of two that its mantissa counts. -/
theorem exists_binade (magnitude : Nat) :
    ∃ e m, magnitude = e * binade + m ∧ (e = 0 ∨ binade ≤ m) ∧ m < 2 * binade := by
  by_cases subnormal : magnitude < 2 * binade
  · exact ⟨0, magnitude, by rw [Nat.zero_mul, Nat.zero_add], .inl rfl, subnormal⟩
  · refine ⟨magnitude / binade - 1, magnitude % binade + binade, ?_, .inr (Nat.le_add_left _ _), ?_⟩ <;>
      simp only [binade] at * <;> omega

theorem units_lt_succ (magnitude : Nat) : units magnitude < units (magnitude + 1) := by
  obtain ⟨e, m, rfl, least, most⟩ := exists_binade magnitude
  rw [Nat.add_assoc, units_of_binade least (Nat.le_of_lt most),
    units_of_binade (least.imp_right Nat.le_succ_of_le) most]
  exact Nat.mul_lt_mul_of_pos_right (Nat.lt_succ_self m) (Nat.two_pow_pos e)

theorem units_strictMono : StrictMono units := strictMono_nat_of_lt_succ units_lt_succ

theorem units_zero : units 0 = 0 := by
  simpa using units_of_binade (e := 0) (m := 0) (.inl rfl) (Nat.zero_le _)

theorem neg_exponent_le (magnitude : Nat) : -1074 ≤ exponent magnitude := by
  rw [exponent]
  split
  · omega
  · have : 1 ≤ magnitude / binade := Nat.div_pos (Nat.le_of_not_lt ‹_›) (by decide)
    simp only [Int.ofNat_eq_natCast]
    omega

/-- The exact fraction of a magnitude is its number of units over the number that one is. -/
theorem numerator_mul_unit (magnitude : Nat) :
    numerator magnitude * unit = units magnitude * denominator magnitude := by
  have least := neg_exponent_le magnitude
  have powers : (exponent magnitude).toNat + halvings =
      (exponent magnitude + halvings).toNat + (-exponent magnitude).toNat := by
    simp only [halvings]
    omega
  rw [numerator, denominator, units, Nat.shiftLeft_eq, Nat.one_shiftLeft, Nat.mul_assoc,
    ← two_pow_add_halvings, powers, Nat.pow_add, Nat.mul_assoc]

/-! ## Doubles by their numbers -/

theorem ofMagnitude_magnitude (x : Float) : ofMagnitude (isNegative x) (magnitude x) = x := by
  have word : x.toBits.toNat < 2 ^ 64 := x.toBits.toNat_lt
  have same : (if isNegative x then signWeight + magnitude x else magnitude x) = x.toBits.toNat := by
    cases mark : isNegative x with
    | true =>
      have high : signWeight ≤ bits x := of_decide_eq_true mark
      simp only [magnitude, bits, signWeight, if_true] at *
      omega
    | false =>
      have low : ¬ signWeight ≤ bits x := of_decide_eq_false mark
      exact Nat.mod_eq_of_lt (Nat.lt_of_not_le low)
  rw [ofMagnitude, same, UInt64.ofNat_toNat, Float.ofBits_toBits]

/-- A double that stands for an integer has as many units as the integer, and its sign. -/
theorem units_of_toInt? {x : Float} {i : Int} (h : toInt? x = some i) :
    units (magnitude x) = i.natAbs * unit ∧
      i = if isNegative x then -(i.natAbs : Int) else i.natAbs := by
  rw [toInt?] at h
  split at h
  · simp only [Option.ite_none_right_eq_some, Option.some.injEq] at h
    obtain ⟨whole, quotient⟩ := h
    have size : i.natAbs = numerator (magnitude x) / denominator (magnitude x) := by
      rw [← quotient]
      split <;> simp only [Int.ofNat_eq_natCast, Int.natAbs_neg, Int.natAbs_natCast]
    refine ⟨Nat.eq_of_mul_eq_mul_right (denominator_pos (magnitude x)) ?_, ?_⟩
    · rw [← numerator_mul_unit, Nat.mul_right_comm, size,
        Nat.div_mul_cancel (Nat.dvd_of_mod_eq_zero whole)]
    · rw [size]
      exact quotient.symm
  · cases h

theorem value_of_toInt? {x : Float} {i : Int} (h : toInt? x = some i) : value x = i := by
  obtain ⟨size, sign⟩ := units_of_toInt? h
  have whole : signedUnits x = i * unit := by
    rw [sign, signedUnits, size]
    split <;> push_cast <;> ring
  rw [value, whole, Int.cast_mul, Int.cast_natCast]
  exact mul_div_cancel_right₀ _ (Nat.cast_ne_zero.mpr (Nat.ne_of_gt unit_pos))

theorem isFinite_of_toInt? {x : Float} {i : Int} (h : toInt? x = some i) : isFinite x = true := by
  rw [toInt?] at h
  split at h
  · assumption
  · cases h

theorem toInt?_of_exactInt? {x : Float} {i : Int} (h : exactInt? x = some i) :
    toInt? x = some i ∧ i.natAbs ≤ maxExactInt := by
  obtain ⟨whole, small⟩ := Option.filter_eq_some_iff.mp h
  exact ⟨whole, of_decide_eq_true small⟩

theorem units_nearest_of_exact {n : Nat} (exact : n ≤ maxExactInt) :
    units (nearest n 1) = n * unit := by
  refine Nat.eq_of_mul_eq_mul_right (denominator_pos (nearest n 1)) ?_
  rw [← numerator_mul_unit, numerator_nearest exact, Nat.mul_right_comm]

/-- The double of an integer within `2 ^ 53` is the only one that stands for it, the negative zero
apart. -/
theorem ofInt_of_exactInt? {x : Float} {i : Int} (h : exactInt? x = some i)
    (notNegativeZero : x ≠ -0.0) :
    ofInt i = x := by
  obtain ⟨whole, exact⟩ := toInt?_of_exactInt? h
  obtain ⟨size, sign⟩ := units_of_toInt? whole
  have same : nearest i.natAbs 1 = magnitude x :=
    units_strictMono.injective ((units_nearest_of_exact exact).trans size.symm)
  have negative : decide (i < 0) = isNegative x := by
    cases mark : isNegative x with
    | false =>
      rw [mark] at sign
      simp only [Bool.false_eq_true, if_false] at sign
      exact decide_eq_false (by omega)
    | true =>
      have nonzero : i ≠ 0 := by
        rintro rfl
        have zero : magnitude x = 0 := same.symm.trans (by decide)
        refine notNegativeZero ?_
        rw [← ofMagnitude_magnitude x, mark, zero]
        rfl
      rw [mark] at sign
      simp only [if_true] at sign
      exact decide_eq_true (by omega)
  rw [ofInt, same, negative, ofMagnitude_magnitude]

/-- The double of zero has no sign. -/
theorem ofInt_ne_negative_zero {i : Int} (exact : i.natAbs ≤ maxExactInt) : ofInt i ≠ -0.0 := by
  intro same
  have whole := exactInt?_ofInt exact
  rw [same] at whole
  obtain rfl : 0 = i := Option.some.inj ((show exactInt? (-0.0) = some 0 by decide).symm.trans whole)
  exact absurd same (by decide)

/-! ## Rounding -/

/-- A rounded quotient is a multiple of the divisor that no other one is nearer to the dividend. -/
theorem roundDiv_nearest {n d : Nat} (pos : 0 < d) (k : Nat) :
    |(roundDiv n d * d : Int) - n| ≤ |(k * d : Int) - n| := by
  have short : n % d < d := Nat.mod_lt n pos
  have parts : (n / d) * d + n % d = n := by
    rw [Nat.mul_comm]
    exact Nat.div_add_mod n d
  have apart : k * d ≤ (n / d) * d ∨ (n / d) * d + d ≤ k * d := by
    rcases Nat.lt_or_ge (n / d) k with above | below
    · right
      rw [← Nat.succ_mul]
      exact Nat.mul_le_mul_right d above
    · exact .inl (Nat.mul_le_mul_right d below)
  have next : (n / d + 1) * d = (n / d) * d + d := Nat.succ_mul _ _
  have chosen : roundDiv n d * d = (n / d) * d ∧ 2 * (n % d) ≤ d ∨
      roundDiv n d * d = (n / d) * d + d ∧ d ≤ 2 * (n % d) := by
    rw [roundDiv]
    split
    · exact .inl ⟨rfl, by omega⟩
    · split
      · exact .inr ⟨next, by omega⟩
      · rcases Nat.mod_two_eq_zero_or_one (n / d) with even | odd
        · exact .inl ⟨by rw [even, Nat.add_zero], by omega⟩
        · exact .inr ⟨by rw [odd, next], by omega⟩
  rw [← Nat.cast_mul, ← Nat.cast_mul]
  rcases abs_cases (((roundDiv n d * d : Nat) : Int) - n) with ⟨size, _⟩ | ⟨size, _⟩ <;>
    rcases abs_cases (((k * d : Nat) : Int) - n) with ⟨size', _⟩ | ⟨size', _⟩ <;>
    rw [size, size'] <;>
    omega

theorem roundDiv_bounds {n d : Nat} : n / d ≤ roundDiv n d ∧ roundDiv n d ≤ n / d + 1 := by
  simp only [roundDiv]
  split
  · omega
  · split <;> omega

/-- A whole number past `2 ^ 53` is rounded to a multiple of the power that its mantissa counts. -/
theorem nearest_of_large {n q : Nat} (power : n.log2 = q + 52) (finite : q ≤ 970) :
    nearest n 1 = (q + halvings) * binade + roundDiv n (2 ^ q) ∧
      binade ≤ roundDiv n (2 ^ q) ∧ roundDiv n (2 ^ q) ≤ 2 * binade := by
  have pos : n ≠ 0 := by
    rintro rfl
    simp at power
  have bounds : binade ≤ n / 2 ^ q ∧ n / 2 ^ q < 2 * binade := by
    have least := Nat.log2_self_le pos
    have most := @Nat.lt_log2_self n
    rw [power, Nat.pow_add] at least
    rw [power, show q + 52 + 1 = q + 53 from rfl, Nat.pow_add, Nat.mul_comm] at most
    exact ⟨(Nat.le_div_iff_mul_le (Nat.two_pow_pos q)).mpr (by rwa [Nat.mul_comm] at least),
      (Nat.div_lt_iff_lt_mul (Nat.two_pow_pos q)).mpr most⟩
  have rounded := @roundDiv_bounds n (2 ^ q)
  refine ⟨?_, Nat.le_trans bounds.1 rounded.1, Nat.le_trans rounded.2 bounds.2⟩
  have scale : Max.max (((q + 52 : Nat) : Int) - 52) (-1074) = (q : Int) := by omega
  have shift : ((q : Int) + 1074).toNat = q + halvings := by simp only [halvings]; omega
  simp only [nearest, if_neg pos, ratioLog2_one pos, power, scale, shift, Int.toNat_natCast,
    Int.toNat_neg_natCast, Nat.shiftLeft_zero, Nat.one_shiftLeft]
  refine Nat.min_eq_left ?_
  simp only [binade, infinity, halvings] at *
  omega

theorem units_nearest_of_large {n q : Nat} (power : n.log2 = q + 52) (finite : q ≤ 970) :
    units (nearest n 1) = roundDiv n (2 ^ q) * 2 ^ q * unit := by
  obtain ⟨same, least, most⟩ := nearest_of_large power finite
  rw [same, units_of_binade (.inr least) most, two_pow_add_halvings, Nat.mul_assoc]

theorem exists_power {n : Nat} (large : maxExactInt ≤ n) (finite : n.log2 < 1023) :
    ∃ q, n.log2 = q + 52 ∧ q ≤ 970 := by
  have pos : n ≠ 0 := by
    rintro rfl
    exact absurd large (by decide)
  have least : 53 ≤ n.log2 := (Nat.le_log2 pos).mpr large
  exact ⟨n.log2 - 52, by omega, by omega⟩

/-- A magnitude is a multiple of a power of two, or it lies below the least mantissa of that power. -/
theorem units_cases (magnitude q : Nat) :
    (∃ k, units magnitude = k * 2 ^ q) ∨ units magnitude ≤ binade * 2 ^ q := by
  obtain ⟨e, m, rfl, least, most⟩ := exists_binade magnitude
  rw [units_of_binade least (Nat.le_of_lt most)]
  rcases Nat.lt_or_ge e q with below | above
  · right
    calc m * 2 ^ e ≤ 2 * binade * 2 ^ e := Nat.mul_le_mul_right _ (Nat.le_of_lt most)
      _ = binade * 2 ^ (e + 1) := by ring
      _ ≤ binade * 2 ^ q := Nat.mul_le_mul_left _ (Nat.pow_le_pow_right Nat.two_pos below)
  · left
    obtain ⟨more, rfl⟩ := Nat.exists_eq_add_of_le above
    exact ⟨m * 2 ^ more, by ring⟩

/-- No magnitude is nearer to a whole number than the one that it is rounded to. -/
theorem nearest_one_nearest {n : Nat} (finite : n.log2 < 1023) (magnitude : Nat) :
    |(units (nearest n 1) : Int) - n * unit| ≤ |(units magnitude : Int) - n * unit| := by
  by_cases exact : n ≤ maxExactInt
  · rw [units_nearest_of_exact exact, Nat.cast_mul, sub_self, abs_zero]
    exact abs_nonneg _
  have pos : n ≠ 0 := by
    rintro rfl
    exact exact (Nat.zero_le _)
  obtain ⟨q, power, top⟩ := exists_power (Nat.le_of_not_le exact) finite
  have least : binade * 2 ^ q ≤ n := by
    have whole : 2 ^ n.log2 ≤ n := Nat.log2_self_le pos
    rwa [power, Nat.pow_add, Nat.mul_comm] at whole
  have rounded : units (nearest n 1) = roundDiv n (2 ^ q) * 2 ^ q * unit :=
    units_nearest_of_large power top
  have best (k : Nat) :
        |(units (nearest n 1) : Int) - n * unit| ≤ |(k * 2 ^ q * unit : Int) - n * unit| := by
    have scaled := Int.mul_le_mul_of_nonneg_right (roundDiv_nearest (n := n) (Nat.two_pow_pos q) k)
      (Int.natCast_nonneg unit)
    rw [rounded]
    push_cast at scaled ⊢
    rwa [← sub_mul, ← sub_mul, abs_mul, abs_mul, Nat.abs_cast]
  rcases units_cases magnitude (q + halvings) with ⟨k, whole⟩ | low
  · have same : (units magnitude : Int) = k * 2 ^ q * unit := by
      rw [whole, two_pow_add_halvings]
      push_cast
      ring
    rw [same]
    exact best k
  · -- What is below the least mantissa is no nearer than the least mantissa, which is a multiple.
    refine (best binade).trans ?_
    have fits : units magnitude ≤ binade * 2 ^ q * unit := by
      rwa [two_pow_add_halvings, ← Nat.mul_assoc] at low
    have reaches : binade * 2 ^ q * unit ≤ n * unit := Nat.mul_le_mul_right _ least
    zify at fits reaches
    rw [abs_of_nonpos (by linarith), abs_of_nonpos (by linarith)]
    linarith

theorem nearest_one_lt_infinity {n : Nat} (finite : n.log2 < 1023) : nearest n 1 < infinity := by
  by_cases exact : n ≤ maxExactInt
  · exact nearest_lt_infinity exact
  · obtain ⟨q, power, top⟩ := exists_power (Nat.le_of_not_le exact) finite
    obtain ⟨same, _, most⟩ := nearest_of_large power top
    rw [same]
    simp only [binade, infinity, halvings] at *
    omega

theorem isFinite_ofInt {i : Int} (finite : i.natAbs.log2 < 1023) : isFinite (ofInt i) = true := by
  have below := nearest_one_lt_infinity finite
  rw [isFinite, ofInt, magnitude_ofMagnitude (Nat.le_of_lt below), decide_eq_true below]

/-- The same with signs: what lies on the other side of zero is farther away than zero. -/
theorem abs_sub_le_of_sign {a b u : Int} (positive : 0 ≤ b) (number : 0 ≤ u) (same : |a - b| ≤ |u - b|)
    (zero : |a - b| ≤ |0 - b|) (negative flipped : Bool) :
    |(if negative then -a else a) - (if negative then -b else b)| ≤
      |(if flipped then -u else u) - (if negative then -b else b)| := by
  have beyond : |0 - b| ≤ |u + b| := by
    rw [zero_sub, abs_neg, abs_of_nonneg positive, abs_of_nonneg (by omega)]
    omega
  have mirror (c : Int) : |-c - -b| = |c - b| := by
    rw [← abs_neg]
    congr 1
    ring
  have across : |-u - b| = |u + b| := by
    rw [← abs_neg]
    congr 1
    ring
  cases negative <;> cases flipped <;> simp only [Bool.false_eq_true, if_true, if_false]
  · exact same
  · exact across ▸ zero.trans beyond
  · rw [mirror, sub_neg_eq_add]
    exact zero.trans beyond
  · rw [mirror, mirror]
    exact same

/-- No double is nearer to an integer than the one that it is rounded to. -/
theorem ofInt_nearest {i : Int} (finite : i.natAbs.log2 < 1023) (x : Float) :
    |value (ofInt i) - i| ≤ |value x - i| := by
  have number := Nat.le_of_lt (nearest_one_lt_infinity finite)
  have zero := nearest_one_nearest finite 0
  rw [units_zero] at zero
  have size : i * unit = if decide (i < 0) then -(i.natAbs * unit : Int) else i.natAbs * unit := by
    rw [← neg_mul]
    split <;> rename_i sign <;> rw [decide_eq_true_eq] at sign <;> congr 1 <;> omega
  rw [abs_value_sub, abs_value_sub]
  refine div_le_div_of_nonneg_right (Int.cast_le.mpr ?_) (Nat.cast_nonneg unit)
  rw [signedUnits, signedUnits, ofInt, magnitude_ofMagnitude number, isNegative_ofMagnitude number, size]
  exact abs_sub_le_of_sign (Int.mul_nonneg (Int.natCast_nonneg _) (Int.natCast_nonneg _))
    (Int.natCast_nonneg _) (nearest_one_nearest finite (magnitude x)) zero _ _

end FormulaDoc.Binary64
