import FormulaDoc.Number.Decimal
import FormulaDoc.Proofs.Number.Nearest

/-!
# Decimals that read back

The fraction that a double stands for is rounded to that double, and every double has a decimal of its
own value. So the decimal that is found for a magnitude, a short one or the exact one, is read as that
magnitude again.
-/
namespace FormulaDoc.Binary64

/-! ## The power of two of a quotient -/

section Quotients

variable {num den : Nat}

/-- A quotient is compared with a power of two by shifts. -/
theorem shifted_le_iff (power : Int) (pos : 0 < den) :
    den <<< power.toNat ≤ num <<< (-power).toNat ↔ (2 : ℚ) ^ power ≤ num / den := by
  have pos : (0 : ℚ) < den := Nat.cast_pos.mpr pos
  rw [le_div_iff₀ pos, Nat.shiftLeft_eq, Nat.shiftLeft_eq]
  rcases Int.eq_nat_or_neg power with ⟨n, rfl | rfl⟩
  · rw [Int.toNat_natCast, Int.toNat_neg_natCast, zpow_natCast, mul_comm]
    norm_cast
    rw [Nat.pow_zero, Nat.mul_one]
  · have unit : (0 : ℚ) < 2 ^ n := by positivity
    rw [Int.toNat_neg_natCast, Int.neg_neg, Int.toNat_natCast, zpow_neg, zpow_natCast,
      inv_mul_le_iff₀ unit, mul_comm ((2 : ℚ) ^ n)]
    norm_cast
    rw [Nat.pow_zero, Nat.mul_one]

/-- The difference of the lengths is the power of two of a quotient or the next one. -/
theorem log_bounds (some : 0 < num) (pos : 0 < den) :
    (num.log2 : Int) - den.log2 - 1 ≤ Int.log 2 ((num : ℚ) / den) ∧
      Int.log 2 ((num : ℚ) / den) ≤ (num.log2 : Int) - den.log2 := by
  have positive : (0 : ℚ) < num / den := div_pos (Nat.cast_pos.mpr some) (Nat.cast_pos.mpr pos)
  have bounds {n : Nat} (pos : 0 < n) :
      (2 : ℚ) ^ (n.log2 : Int) ≤ n ∧ n < (2 : ℚ) ^ (n.log2 + 1 : Int) := by
    have least := Nat.log2_self_le (Nat.ne_of_gt pos)
    have most := Nat.lt_log2_self (n := n)
    rw [← Nat.cast_one, ← Nat.cast_add, zpow_natCast, zpow_natCast]
    exact ⟨by exact_mod_cast least, by exact_mod_cast most⟩
  obtain ⟨least, most⟩ := bounds some
  obtain ⟨least', most'⟩ := bounds pos
  constructor
  · rw [← Int.zpow_le_iff_le_log (by decide) positive, le_div_iff₀ (Nat.cast_pos.mpr pos)]
    calc (2 : ℚ) ^ ((num.log2 : Int) - den.log2 - 1) * den
        ≤ (2 : ℚ) ^ ((num.log2 : Int) - den.log2 - 1) * 2 ^ (den.log2 + 1 : Int) := by gcongr
      _ = 2 ^ (num.log2 : Int) := by rw [← zpow_add₀ two_ne_zero]; congr 1; omega
      _ ≤ num := least
  · rw [← Int.lt_add_one_iff, ← Int.lt_zpow_iff_log_lt (by decide) positive,
      div_lt_iff₀ (Nat.cast_pos.mpr pos)]
    calc (num : ℚ) < 2 ^ (num.log2 + 1 : Int) := most
      _ = 2 ^ ((num.log2 : Int) - den.log2 + 1) * 2 ^ (den.log2 : Int) := by
        rw [← zpow_add₀ two_ne_zero]; congr 1; omega
      _ ≤ 2 ^ ((num.log2 : Int) - den.log2 + 1) * den := by gcongr

theorem ratioLog2_eq_log (some : 0 < num) (pos : 0 < den) :
    ratioLog2 num den = Int.log 2 ((num : ℚ) / den) := by
  have positive : (0 : ℚ) < num / den := div_pos (Nat.cast_pos.mpr some) (Nat.cast_pos.mpr pos)
  have reaches (power : Int) :
      den <<< power.toNat ≤ num <<< (-power).toNat ↔ power ≤ Int.log 2 ((num : ℚ) / den) :=
    (shifted_le_iff power pos).trans (Int.zpow_le_iff_le_log (by decide) positive)
  obtain ⟨least, most⟩ := log_bounds some pos
  simp only [ratioLog2, reaches, Int.ofNat_eq_natCast]
  split <;> omega

/-! ## Fractions of doubles -/

theorem roundDiv_mul (m : Nat) (pos : 0 < den) : roundDiv (m * den) den = m := by
  simp [roundDiv, Nat.mul_div_cancel m pos, pos]

/-- The power that the mantissa of a fraction counts, where the fraction is a mantissa of a double. -/
theorem scale_eq {e m : Nat} (least : e = 0 ∨ binade ≤ m) (most : m < 2 * binade) (some : 0 < num)
    (pos : 0 < den) (same : num * unit = m * 2 ^ e * den) :
    Max.max (ratioLog2 num den - 52) (-1074) = (e : Int) - 1074 := by
  have positive : (0 : ℚ) < num / den := div_pos (Nat.cast_pos.mpr some) (Nat.cast_pos.mpr pos)
  have place : (halvings : Int) = 1074 := rfl
  have quotient : (num : ℚ) / den = m * 2 ^ ((e : Int) - halvings) := by
    have same : (num : ℚ) * 2 ^ halvings = m * 2 ^ e * den := by exact_mod_cast same
    rw [zpow_sub₀ two_ne_zero, zpow_natCast, zpow_natCast, mul_div_assoc',
      div_eq_div_iff (by positivity) (by positivity), same]
  have upper : Int.log 2 ((num : ℚ) / den) < e - 1021 := by
    have most : (m : ℚ) < 2 ^ (53 : Int) := by exact_mod_cast (most : m < 2 ^ 53)
    rw [← Int.lt_zpow_iff_log_lt (by decide) positive, quotient]
    calc (m : ℚ) * 2 ^ ((e : Int) - halvings)
        < 2 ^ (53 : Int) * 2 ^ ((e : Int) - halvings) := by gcongr
      _ = 2 ^ ((e : Int) - 1021) := by
          rw [← zpow_add₀ two_ne_zero, show (53 : Int) + (e - halvings) = e - 1021 by omega]
  rw [ratioLog2_eq_log some pos]
  rcases least with rfl | least
  · omega
  · have lower : (e : Int) - 1022 ≤ Int.log 2 ((num : ℚ) / den) := by
      have least : 2 ^ (52 : Int) ≤ (m : ℚ) := by exact_mod_cast (least : 2 ^ 52 ≤ m)
      rw [← Int.zpow_le_iff_le_log (by decide) positive, quotient]
      calc (2 : ℚ) ^ ((e : Int) - 1022)
          = 2 ^ (52 : Int) * 2 ^ ((e : Int) - halvings) := by
            rw [← zpow_add₀ two_ne_zero, show (52 : Int) + (e - halvings) = e - 1022 by omega]
        _ ≤ m * 2 ^ ((e : Int) - halvings) := by gcongr
    omega

/-- A double is the one nearest to its own number. -/
theorem nearest_of_units {magnitude : Nat} (finite : magnitude ≤ infinity) (pos : 0 < den)
    (same : num * unit = units magnitude * den) : nearest num den = magnitude := by
  obtain ⟨e, m, rfl, least, most⟩ := exists_binade magnitude
  rw [units_of_binade least (Nat.le_of_lt most)] at same
  rcases Nat.eq_zero_or_pos num with rfl | some
  · have none : m = 0 := by
      simpa [Nat.ne_of_gt pos] using same.symm
    obtain rfl := least.resolve_right (by rw [none]; decide)
    rw [none]
    rfl
  have shifted : num <<< (-((e : Int) - 1074)).toNat = m * den <<< ((e : Int) - 1074).toNat := by
    have powers : (-((e : Int) - 1074)).toNat + e = ((e : Int) - 1074).toNat + halvings := by
      simp only [halvings]
      omega
    refine Nat.eq_of_mul_eq_mul_right (Nat.two_pow_pos e) ?_
    rw [Nat.shiftLeft_eq, Nat.shiftLeft_eq, Nat.mul_assoc, ← Nat.pow_add, powers,
      two_pow_add_halvings, Nat.mul_left_comm, same]
    ring
  have positive : 0 < den <<< ((e : Int) - 1074).toNat := Nat.shiftLeft_pos_iff.mpr pos
  have place : ((e : Int) - 1074 + 1074).toNat = e := by omega
  simp only [nearest, if_neg (Nat.ne_of_gt some), scale_eq least most some pos same, shifted,
    roundDiv_mul m positive, place]
  exact Nat.min_eq_left finite

end Quotients

end FormulaDoc.Binary64

namespace FormulaDoc.Decimal

open Binary64

/-! ## Decimals of magnitudes -/

theorem read_natural (n : Nat) : read n 0 = nearest n 1 := by
  rcases Nat.eq_zero_or_pos n with rfl | some
  · rfl
  · have short : ¬ (0 : Int) < -400 - Int.ofNat n.log2 := by
      simp only [Int.ofNat_eq_natCast]
      omega
    rw [read, if_neg (Nat.ne_of_gt some), if_neg (by decide), if_neg short]
    exact congrArg (nearest · 1) (Nat.mul_one n)

/-- Zeros behind a whole number are powers of ten. -/
theorem read_mul_pow {n : Nat} {e : Int} (whole : 0 ≤ e) (finite : read n e ≠ infinity) :
    read (n * 10 ^ e.toNat) 0 = read n e := by
  rw [read_natural]
  rcases Nat.eq_zero_or_pos n with rfl | some
  · rw [Nat.zero_mul]
    rfl
  · rw [read, if_neg (Nat.ne_of_gt some)] at finite ⊢
    split at finite
    · exact absurd rfl finite
    · have none : (-e).toNat = 0 := by omega
      have long : ¬ e < -400 - Int.ofNat n.log2 := by
        simp only [Int.ofNat_eq_natCast]
        omega
      rename_i small
      rw [if_neg small, if_neg long, none]
      rfl

/-- The exact decimal of a fraction has so many digits that it is not taken for zero. -/
theorem two_mul_le_log2 {m k : Nat} (some : 0 < m) : 2 * k ≤ (m * 5 ^ k).log2 := by
  have pos : m * 5 ^ k ≠ 0 := Nat.ne_of_gt (Nat.mul_pos some (Nat.pow_pos (by decide)))
  rw [Nat.le_log2 pos, Nat.pow_mul]
  calc (2 ^ 2) ^ k ≤ 5 ^ k := Nat.pow_le_pow_left (by decide) k
    _ ≤ m * 5 ^ k := Nat.le_mul_of_pos_left _ some

theorem read_exact {magnitude : Nat} (some : 0 < magnitude) (finite : magnitude ≤ infinity) :
    read (exact magnitude).1 (exact magnitude).2 = magnitude := by
  have positive : 0 < numerator magnitude := by
    rw [numerator, mantissa, Nat.shiftLeft_pos_iff]
    split
    · exact some
    · exact Nat.add_pos_right _ (by decide)
  set k := (-exponent magnitude).toNat with places
  have place : (exact magnitude).2 = -(k : Int) := by
    simp only [exact]
    split <;> omega
  have long := two_mul_le_log2 (k := k) positive
  have digits : (exact magnitude).1 = numerator magnitude * 5 ^ k := rfl
  have nonzero : numerator magnitude * 5 ^ k ≠ 0 :=
    Nat.ne_of_gt (Nat.mul_pos positive (Nat.pow_pos (by decide)))
  have ten : Nat.pow 10 k = denominator magnitude * 5 ^ k := by
    rw [denominator, Nat.one_shiftLeft, ← places, ← Nat.mul_pow]
    rfl
  have near : ¬ -(k : Int) < -400 - Int.ofNat (numerator magnitude * 5 ^ k).log2 := by
    simp only [Int.ofNat_eq_natCast]
    omega
  rw [read, digits, place, if_neg nonzero, if_neg (by omega), if_neg near, Int.toNat_neg_natCast,
    Int.neg_neg, Int.toNat_natCast, ten]
  refine nearest_of_units finite (Nat.mul_pos (denominator_pos _) (Nat.pow_pos (by decide))) ?_
  change numerator magnitude * 5 ^ k * 1 * unit = _
  rw [Nat.mul_one, Nat.mul_right_comm, numerator_mul_unit, Nat.mul_assoc]

theorem read_onGrid? {magnitude : Nat} {exponent : Int} {found : Nat × Int}
    (h : onGrid? magnitude exponent = some found) : read found.1 found.2 = magnitude := by
  have back {digits : Nat} (h : readsBack magnitude digits exponent = true) :
      read digits exponent = magnitude := of_decide_eq_true h
  simp only [onGrid?] at h
  split at h <;> cases h
  · split <;> apply back <;> assumption
  · apply back; assumption
  · apply back; assumption

theorem read_search {magnitude : Nat} (some : 0 < magnitude) (finite : magnitude ≤ infinity)
    (tries : Nat) (exponent : Int) :
    read (search magnitude tries exponent).1 (search magnitude tries exponent).2 = magnitude := by
  induction tries generalizing exponent with
  | zero => exact read_exact some finite
  | succ tries ih =>
    rw [search]
    cases found : onGrid? magnitude exponent with
    | none => exact ih (exponent - 1)
    | some decimal => exact read_onGrid? found

/-- The shortest decimal of a magnitude is read as that magnitude. -/
theorem read_shortest {magnitude : Nat} (some : 0 < magnitude) (finite : magnitude ≤ infinity) :
    read (shortest magnitude).1 (shortest magnitude).2 = magnitude :=
  read_search some finite _ _

/-- An integer is written as a decimal without a point. -/
theorem toList_toString (i : Int) :
    (toString i).toList = (if decide (i < 0) then ['-'] else []) ++ positional i.natAbs 0 := by
  have whole (n : Nat) : positional n 0 = digits n := by simp [positional]
  rw [whole]
  cases i with
  | ofNat n => exact String.toList_ofList
  | negSucc n =>
    have negative : decide (Int.negSucc n < 0) = true := decide_eq_true (Int.negSucc_lt_zero n)
    have minus : "-".toList = ['-'] := by decide
    change ("-" ++ String.ofList (digits (n + 1))).toList = _
    simp only [String.toList_append, String.toList_ofList, minus, negative, if_true]
    rfl

end FormulaDoc.Decimal
