import LineScript.Decimal.Shortest
import Mathlib.Algebra.Order.Field.Power
import Mathlib.Data.Int.Log
import Mathlib.Data.Rat.Floor
import Mathlib.Tactic.FieldSimp
import Mathlib.Tactic.Linarith
import Mathlib.Tactic.NormNum
import Mathlib.Tactic.Positivity

/-!
Rounding depends on the value alone.

A fraction enters rounding as a numerator and a denominator, and a number in base ten as digits and
an exponent.  The nearest magnitude is the same for every way of writing one value, and a finite
magnitude is the nearest one to its own value.
-/

set_option autoImplicit false

namespace LineScript

namespace Decimal

/-! ## Powers of two -/

private theorem scaleByTwo_ratio (numerator denominator : Nat) (exponent : Int) :
    ((scaleByTwo numerator denominator exponent).1 : ℚ) /
        (scaleByTwo numerator denominator exponent).2 =
      numerator / denominator * 2 ^ exponent := by
  unfold scaleByTwo
  split
  · next nonnegative =>
    obtain ⟨power, rfl⟩ := Int.eq_ofNat_of_zero_le nonnegative
    simp only [Int.toNat_natCast, Nat.shiftLeft_eq, zpow_natCast]
    push_cast
    ring
  · next negative =>
    obtain ⟨power, same⟩ := Int.eq_ofNat_of_zero_le (a := -exponent) (by omega)
    obtain rfl : exponent = -(power : Int) := by omega
    simp only [neg_neg, Int.toNat_natCast, Nat.shiftLeft_eq, zpow_neg, zpow_natCast]
    push_cast
    field_simp

private theorem scaleByTwo_denominator_pos {numerator denominator : Nat}
    (positive : 0 < denominator)
    (exponent : Int) : 0 < (scaleByTwo numerator denominator exponent).2 := by
  unfold scaleByTwo
  simp only [Nat.shiftLeft_eq]
  split <;> positivity

private theorem log2_bounds {number : Nat} (positive : 0 < number) :
    (2 : ℚ) ^ (number.log2 : Int) ≤ number ∧ (number : ℚ) < 2 ^ ((number.log2 : Int) + 1) := by
  constructor
  · rw [zpow_natCast]
    exact_mod_cast Nat.log2_self_le positive.ne'
  · rw [← Nat.cast_succ, zpow_natCast]
    exact_mod_cast Nat.lt_log2_self

theorem two_zpow_le_iff {ratio : ℚ} (positive : 0 < ratio) {exponent : Int} :
    2 ^ exponent ≤ ratio ↔ exponent ≤ Int.log 2 ratio := by
  exact_mod_cast Int.zpow_le_iff_le_log (b := 2) (by decide) positive

theorem lt_two_zpow_iff {ratio : ℚ} (positive : 0 < ratio) {exponent : Int} :
    ratio < 2 ^ exponent ↔ Int.log 2 ratio < exponent := by
  exact_mod_cast Int.lt_zpow_iff_log_lt (b := 2) (by decide) positive

private theorem log_ratio_bounds {numerator denominator : Nat} (above : 0 < numerator)
    (below : 0 < denominator) :
    (numerator.log2 : Int) - denominator.log2 - 1 ≤ Int.log 2 ((numerator : ℚ) / denominator) ∧
      Int.log 2 ((numerator : ℚ) / denominator) ≤ (numerator.log2 : Int) - denominator.log2 := by
  have ratioPositive : (0 : ℚ) < numerator / denominator := by positivity
  obtain ⟨numeratorLow, numeratorHigh⟩ := log2_bounds above
  obtain ⟨denominatorLow, denominatorHigh⟩ := log2_bounds below
  constructor
  · rw [← two_zpow_le_iff ratioPositive, le_div_iff₀ (by positivity)]
    calc (2 : ℚ) ^ ((numerator.log2 : Int) - denominator.log2 - 1) * denominator
        ≤ 2 ^ ((numerator.log2 : Int) - denominator.log2 - 1) *
            2 ^ ((denominator.log2 : Int) + 1) := by gcongr
      _ = 2 ^ (numerator.log2 : Int) := by
        rw [← zpow_add₀ two_ne_zero]
        congr 1
        omega
      _ ≤ numerator := numeratorLow
  · rw [← Int.lt_add_one_iff, ← lt_two_zpow_iff ratioPositive, div_lt_iff₀ (by positivity)]
    calc (numerator : ℚ) < 2 ^ ((numerator.log2 : Int) + 1) := numeratorHigh
      _ = 2 ^ ((numerator.log2 : Int) - denominator.log2 + 1) * 2 ^ (denominator.log2 : Int) := by
        rw [← zpow_add₀ two_ne_zero]
        congr 1
        omega
      _ ≤ 2 ^ ((numerator.log2 : Int) - denominator.log2 + 1) * denominator := by gcongr

private theorem binaryExponent_eq_log {numerator denominator : Nat} (above : 0 < numerator)
    (below : 0 < denominator) :
    binaryExponent numerator denominator = Int.log 2 ((numerator : ℚ) / denominator) := by
  obtain ⟨low, high⟩ := log_ratio_bounds above below
  unfold binaryExponent
  dsimp only
  generalize (numerator.log2 : Int) - denominator.log2 = guess at low high ⊢
  have scaledPositive : 0 < (scaleByTwo numerator denominator (-guess)).2 :=
    scaleByTwo_denominator_pos below _
  -- the test of the guess compares the fraction with its power of two
  have test : (scaleByTwo numerator denominator (-guess)).2 ≤
      (scaleByTwo numerator denominator (-guess)).1 ↔
      guess ≤ Int.log 2 ((numerator : ℚ) / denominator) := by
    rw [← two_zpow_le_iff (by positivity), ← Nat.cast_le (α := ℚ),
      ← one_le_div (by exact_mod_cast scaledPositive), scaleByTwo_ratio, zpow_neg,
      ← div_eq_mul_inv, one_le_div (by positivity)]
  split
  · next fits => exact le_antisymm (test.mp fits) high
  · next misses =>
    have missed := mt test.mpr misses
    omega

/-! ## Rounding a quotient -/

private theorem roundHalfEven_mul_right (numerator denominator : Nat) {factor : Nat}
    (positive : 0 < factor) :
    roundHalfEven (numerator * factor) (denominator * factor) =
      roundHalfEven numerator denominator := by
  unfold roundHalfEven
  simp only [Nat.mul_div_mul_right _ _ positive, Nat.mul_mod_mul_right, ← Nat.mul_assoc,
    Nat.mul_lt_mul_right positive]

private theorem roundHalfEven_congr {numerator denominator otherNumerator otherDenominator : Nat}
    (below : 0 < denominator) (otherBelow : 0 < otherDenominator)
    (same : (numerator : ℚ) / denominator = otherNumerator / otherDenominator) :
    roundHalfEven numerator denominator = roundHalfEven otherNumerator otherDenominator := by
  rw [div_eq_div_iff (by positivity) (by positivity)] at same
  have crossed : numerator * otherDenominator = otherNumerator * denominator := by exact_mod_cast same
  calc roundHalfEven numerator denominator
      = roundHalfEven (numerator * otherDenominator) (denominator * otherDenominator) :=
        (roundHalfEven_mul_right _ _ otherBelow).symm
    _ = roundHalfEven (otherNumerator * denominator) (otherDenominator * denominator) := by
        rw [crossed, Nat.mul_comm denominator]
    _ = roundHalfEven otherNumerator otherDenominator := roundHalfEven_mul_right _ _ below

private theorem roundHalfEven_one (number : Nat) : roundHalfEven number 1 = number := by
  simp [roundHalfEven, Nat.mod_one]

private theorem roundHalfEven_eq_of_ratio {numerator denominator value : Nat}
    (below : 0 < denominator)
    (ratio : (numerator : ℚ) / denominator = value) :
    roundHalfEven numerator denominator = value := by
  rw [roundHalfEven_congr below one_pos (by rw [ratio, Nat.cast_one, div_one] :
    (numerator : ℚ) / denominator = (value : ℚ) / (1 : Nat)), roundHalfEven_one]

private theorem le_roundHalfEven {numerator denominator bound : Nat} (below : 0 < denominator)
    (least : (bound : ℚ) ≤ numerator / denominator) :
    bound ≤ roundHalfEven numerator denominator := by
  rw [le_div_iff₀ (by positivity)] at least
  have quotient : bound ≤ numerator / denominator :=
    (Nat.le_div_iff_mul_le below).mpr (by exact_mod_cast least)
  unfold roundHalfEven
  dsimp only
  split
  · exact quotient
  split <;> omega

private theorem roundHalfEven_le {numerator denominator bound : Nat} (below : 0 < denominator)
    (most : (numerator : ℚ) / denominator ≤ bound) :
    roundHalfEven numerator denominator ≤ bound := by
  rw [div_le_iff₀ (by positivity)] at most
  have product : numerator ≤ bound * denominator := by exact_mod_cast most
  have quotient : numerator / denominator ≤ bound := Nat.div_le_of_le_mul (by rwa [Nat.mul_comm])
  unfold roundHalfEven
  dsimp only
  split
  · exact quotient
  · next half =>
    -- a remainder leaves the quotient under the bound
    have parts := Nat.div_add_mod numerator denominator
    have smaller : numerator / denominator < bound := by
      apply Nat.lt_of_mul_lt_mul_left (a := denominator)
      rw [Nat.mul_comm denominator bound]
      omega
    split <;> omega

private theorem roundHalfEven_eq_zero {numerator denominator : Nat} (below : 0 < denominator)
    (small : (numerator : ℚ) / denominator < 1 / 2) :
    roundHalfEven numerator denominator = 0 := by
  rw [div_lt_div_iff₀ (by positivity) two_pos] at small
  have doubled : numerator * 2 < 1 * denominator := by exact_mod_cast small
  have less : numerator < denominator := by omega
  unfold roundHalfEven
  simp only [Nat.div_eq_of_lt less, Nat.mod_eq_of_lt less]
  rw [if_pos (by omega)]

/-! ## The nearest magnitude -/

def unitExponent (ratio : ℚ) : Int :=
  max (Int.log 2 ratio - 52) (-1074)

/-- Rounding in terms of the fraction's value: the words of all smaller binades, and the count of
units. -/
theorem nearestMagnitude_eq {numerator denominator : Nat} (above : 0 < numerator)
    (below : 0 < denominator) :
    nearestMagnitude numerator denominator =
      let unit := unitExponent ((numerator : ℚ) / denominator)
      let (scaled, divisor) := scaleByTwo numerator denominator (-unit)
      min ((unit + 1074).toNat * binadeSize + roundHalfEven scaled divisor) infiniteMagnitude := by
  unfold nearestMagnitude unitExponent
  rw [if_neg above.ne', binaryExponent_eq_log above below]

/-- The nearest magnitude is that of the value, however the fraction is written. -/
theorem nearestMagnitude_congr {numerator denominator otherNumerator otherDenominator : Nat}
    (below : 0 < denominator) (otherBelow : 0 < otherDenominator)
    (same : (numerator : ℚ) / denominator = otherNumerator / otherDenominator) :
    nearestMagnitude numerator denominator =
      nearestMagnitude otherNumerator otherDenominator := by
  rcases Nat.eq_zero_or_pos numerator with rfl | above
  · have : (otherNumerator : ℚ) = 0 := by
      have ratioZero : (otherNumerator : ℚ) / otherDenominator = 0 := by simpa using same.symm
      exact (div_eq_zero_iff.mp ratioZero).resolve_right (by positivity)
    obtain rfl : otherNumerator = 0 := by exact_mod_cast this
    simp [nearestMagnitude]
  have otherAbove : 0 < otherNumerator := by
    have ratioPositive : (0 : ℚ) < otherNumerator / otherDenominator := by
      rw [← same]
      positivity
    rw [div_pos_iff_of_pos_right (by positivity)] at ratioPositive
    exact_mod_cast ratioPositive
  rw [nearestMagnitude_eq above below, nearestMagnitude_eq otherAbove otherBelow, same]
  dsimp only
  rw [roundHalfEven_congr (scaleByTwo_denominator_pos below _)
    (scaleByTwo_denominator_pos otherBelow _)]
  rw [scaleByTwo_ratio, scaleByTwo_ratio, same]

private theorem nearestMagnitude_of_large {numerator denominator : Nat} (below : 0 < denominator)
    (large : (2 : ℚ) ^ (1024 : Int) ≤ numerator / denominator) :
    nearestMagnitude numerator denominator = infiniteMagnitude := by
  have ratioPositive : (0 : ℚ) < numerator / denominator := lt_of_lt_of_le (by positivity) large
  have above : 0 < numerator := by
    rw [div_pos_iff_of_pos_right (by positivity)] at ratioPositive
    exact_mod_cast ratioPositive
  rw [two_zpow_le_iff ratioPositive] at large
  have unit : unitExponent ((numerator : ℚ) / denominator) =
      Int.log 2 ((numerator : ℚ) / denominator) - 52 := max_eq_left (by omega)
  -- a number of a binade has at least as many units as the binade has words
  have counted : 2 ^ 52 ≤ roundHalfEven
      (scaleByTwo numerator denominator (-(Int.log 2 ((numerator : ℚ) / denominator) - 52))).1
      (scaleByTwo numerator denominator (-(Int.log 2 ((numerator : ℚ) / denominator) - 52))).2 := by
    apply le_roundHalfEven (scaleByTwo_denominator_pos below _)
    have reached := (two_zpow_le_iff ratioPositive).mpr le_rfl
    rw [scaleByTwo_ratio, neg_sub, zpow_sub₀ two_ne_zero, ← mul_div_assoc,
      le_div_iff₀ (by positivity), mul_comm ((numerator : ℚ) / denominator)]
    exact mul_le_mul (by norm_num) reached (by positivity) (by positivity)
  rw [nearestMagnitude_eq above below, unit]
  dsimp only
  apply min_eq_right
  unfold infiniteMagnitude binadeSize at *
  generalize roundHalfEven _ _ = count at counted ⊢
  have words : 2046 ≤ (Int.log 2 ((numerator : ℚ) / denominator) - 52 + 1074).toNat := by omega
  calc 2047 * 2 ^ 52 = 2046 * 2 ^ 52 + 2 ^ 52 := by norm_num
    _ ≤ _ := Nat.add_le_add (Nat.mul_le_mul_right _ words) counted

private theorem nearestMagnitude_of_small {numerator denominator : Nat} (below : 0 < denominator)
    (small : (numerator : ℚ) / denominator < 2 ^ (-1075 : Int)) :
    nearestMagnitude numerator denominator = 0 := by
  rcases Nat.eq_zero_or_pos numerator with rfl | above
  · simp [nearestMagnitude]
  have ratioPositive : (0 : ℚ) < numerator / denominator := by positivity
  have unit : unitExponent ((numerator : ℚ) / denominator) = -1074 :=
    max_eq_right (by have := (lt_two_zpow_iff ratioPositive).mp small; omega)
  have counted : roundHalfEven (scaleByTwo numerator denominator 1074).1
      (scaleByTwo numerator denominator 1074).2 = 0 := by
    apply roundHalfEven_eq_zero (scaleByTwo_denominator_pos below _)
    rw [scaleByTwo_ratio]
    calc (numerator : ℚ) / denominator * 2 ^ (1074 : Int)
        < 2 ^ (-1075 : Int) * 2 ^ (1074 : Int) := by gcongr
      _ = 2 ^ (-1 : Int) := by rw [← zpow_add₀ two_ne_zero]; norm_num
      _ = 1 / 2 := by norm_num
  rw [nearestMagnitude_eq above below, unit]
  dsimp only
  rw [show -(-1074 : Int) = 1074 from rfl, counted]
  rfl

private theorem significand_of_normal {magnitude : Nat} (normal : binadeSize ≤ magnitude) :
    significand magnitude = binadeSize + magnitude % binadeSize ∧
      power magnitude = (magnitude / binadeSize : Nat) - 1075 ∧ 1 ≤ magnitude / binadeSize := by
  refine ⟨if_neg (by omega), if_neg (by omega), ?_⟩
  exact (Nat.le_div_iff_mul_le (by decide)).mpr (by omega)

private theorem unitExponent_exact {magnitude : Nat} (positive : 0 < magnitude) :
    unitExponent (significand magnitude * 2 ^ power magnitude) = power magnitude := by
  rcases Nat.lt_or_ge magnitude binadeSize with tiny | normal
  · have factor : significand magnitude = magnitude := if_pos tiny
    have unit : power magnitude = -1074 := if_pos tiny
    have ratioPositive : (0 : ℚ) < magnitude * 2 ^ (-1074 : Int) := by positivity
    have low : (magnitude : ℚ) * 2 ^ (-1074 : Int) < 2 ^ (-1022 : Int) := by
      have : (magnitude : ℚ) < 2 ^ (52 : Int) := by exact_mod_cast tiny
      calc (magnitude : ℚ) * 2 ^ (-1074 : Int)
          < 2 ^ (52 : Int) * 2 ^ (-1074 : Int) := by gcongr
        _ = 2 ^ (-1022 : Int) := by rw [← zpow_add₀ two_ne_zero]; norm_num
    rw [lt_two_zpow_iff ratioPositive] at low
    rw [factor, unit]
    exact max_eq_right (by omega)
  · obtain ⟨factor, unit, first⟩ := significand_of_normal normal
    have part := Nat.mod_lt magnitude (show 0 < binadeSize by decide)
    have significandLow : (2 : ℚ) ^ (52 : Int) ≤ significand magnitude := by
      rw [factor]
      exact_mod_cast Nat.le_add_right (2 ^ 52) _
    have significandHigh : (significand magnitude : ℚ) < 2 ^ (53 : Int) := by
      have : significand magnitude < 2 ^ 53 := by
        rw [factor]
        unfold binadeSize at part ⊢
        omega
      exact_mod_cast this
    have significandPositive : (0 : ℚ) < significand magnitude := by
      exact lt_of_lt_of_le (by positivity) significandLow
    have ratioPositive : (0 : ℚ) < significand magnitude * 2 ^ power magnitude := by positivity
    have low : 52 + power magnitude ≤
        Int.log 2 ((significand magnitude : ℚ) * 2 ^ power magnitude) := by
      rw [← two_zpow_le_iff ratioPositive, zpow_add₀ two_ne_zero]
      gcongr
    have high : Int.log 2 ((significand magnitude : ℚ) * 2 ^ power magnitude) <
        53 + power magnitude := by
      rw [← lt_two_zpow_iff ratioPositive, zpow_add₀ two_ne_zero]
      gcongr
    unfold unitExponent
    omega

/-- A finite magnitude is the nearest one to its own value. -/
theorem nearestMagnitude_exact {numerator denominator magnitude : Nat} (below : 0 < denominator)
    (finite : magnitude < infiniteMagnitude)
    (ratio : (numerator : ℚ) / denominator = significand magnitude * 2 ^ power magnitude) :
    nearestMagnitude numerator denominator = magnitude := by
  rcases Nat.eq_zero_or_pos magnitude with rfl | positive
  · apply nearestMagnitude_of_small below
    rw [ratio, show significand 0 = 0 from rfl]
    simp only [Nat.cast_zero, zero_mul]
    positivity
  have significandPositive : 0 < significand magnitude := by
    unfold significand
    split
    · exact positive
    · exact Nat.add_pos_left (by decide) _
  have ratioPositive : (0 : ℚ) < numerator / denominator := by
    rw [ratio]
    positivity
  have above : 0 < numerator := by
    rw [div_pos_iff_of_pos_right (by positivity)] at ratioPositive
    exact_mod_cast ratioPositive
  have counted : roundHalfEven (scaleByTwo numerator denominator (-power magnitude)).1
      (scaleByTwo numerator denominator (-power magnitude)).2 = significand magnitude := by
    apply roundHalfEven_eq_of_ratio (scaleByTwo_denominator_pos below _)
    rw [scaleByTwo_ratio, ratio, mul_assoc, ← zpow_add₀ two_ne_zero, add_neg_cancel, zpow_zero,
      mul_one]
  rw [nearestMagnitude_eq above below, ratio, unitExponent_exact positive]
  dsimp only
  rw [counted]
  have words : (power magnitude + 1074).toNat * binadeSize + significand magnitude = magnitude := by
    rcases Nat.lt_or_ge magnitude binadeSize with tiny | normal
    · rw [show power magnitude = -1074 from if_pos tiny, show significand magnitude = magnitude from
        if_pos tiny]
      exact Nat.zero_add _
    · obtain ⟨factor, unit, first⟩ := significand_of_normal normal
      have split := Nat.div_add_mod' magnitude binadeSize
      obtain ⟨binade, same⟩ := Nat.exists_eq_add_of_le first
      rw [factor, unit, same, show ((1 + binade : Nat) : Int) - 1075 + 1074 = (binade : Int) by omega,
        Int.toNat_natCast]
      rw [same, Nat.add_mul] at split
      omega
  rw [words]
  exact min_eq_left finite.le

/-! ## Numbers in base ten -/

namespace Numeral

def value (numeral : Numeral) : ℚ :=
  numeral.digits * 10 ^ numeral.exponent

theorem toFraction_denominator_pos (numeral : Numeral) : 0 < numeral.toFraction.2 := by
  unfold toFraction
  simp only [Nat.pow_eq]
  split <;> positivity

theorem toFraction_ratio (numeral : Numeral) :
    (numeral.toFraction.1 : ℚ) / numeral.toFraction.2 = numeral.value := by
  obtain ⟨digits, exponent⟩ := numeral
  unfold toFraction value
  dsimp only
  split
  · next nonnegative =>
    obtain ⟨power, rfl⟩ := Int.eq_ofNat_of_zero_le nonnegative
    simp
  · next negative =>
    obtain ⟨power, same⟩ := Int.eq_ofNat_of_zero_le (a := -exponent) (by omega)
    obtain rfl : exponent = -(power : Int) := by omega
    simp only [neg_neg, Int.toNat_natCast, Nat.pow_eq, zpow_neg, zpow_natCast, div_eq_mul_inv]
    push_cast
    rfl

private theorem two_zpow_1024_le : (2 : ℚ) ^ (1024 : Int) ≤ 10 ^ (401 : Int) := by
  have : (2 : Nat) ^ 1024 ≤ 10 ^ 401 := by decide +kernel
  exact_mod_cast this

private theorem ten_zpow_lt : (2 : ℚ) * 10 ^ (-402 : Int) < 2 ^ (-1075 : Int) := by
  have : (2 : Nat) * 2 ^ 1075 < 10 ^ 402 := by decide +kernel
  rw [zpow_neg, zpow_neg, ← div_eq_mul_inv, inv_eq_one_div, div_lt_div_iff₀ (by positivity)
    (by positivity), one_mul]
  exact_mod_cast this

/-- Neither shortcut changes the result. -/
theorem nearestMagnitude_eq_fraction (numeral : Numeral) :
    numeral.nearestMagnitude =
      Decimal.nearestMagnitude numeral.toFraction.1 numeral.toFraction.2 := by
  have below := numeral.toFraction_denominator_pos
  have ratio := numeral.toFraction_ratio
  unfold nearestMagnitude
  split
  · next zero =>
    refine (nearestMagnitude_of_small below ?_).symm
    rw [ratio, value, zero, Nat.cast_zero, zero_mul]
    positivity
  next nonzero =>
  have one : (1 : ℚ) ≤ numeral.digits := by exact_mod_cast Nat.pos_of_ne_zero nonzero
  split
  · next huge =>
    refine (nearestMagnitude_of_large below ?_).symm
    rw [ratio, value]
    calc (2 : ℚ) ^ (1024 : Int) ≤ 10 ^ (401 : Int) := two_zpow_1024_le
      _ ≤ 10 ^ numeral.exponent := zpow_le_zpow_right₀ (by norm_num) (by omega)
      _ ≤ numeral.digits * 10 ^ numeral.exponent := le_mul_of_one_le_left (by positivity) one
  split
  · next tiny =>
    refine (nearestMagnitude_of_small below ?_).symm
    obtain ⟨_, digitsHigh⟩ := log2_bounds (Nat.pos_of_ne_zero nonzero)
    rw [ratio, value]
    calc (numeral.digits : ℚ) * 10 ^ numeral.exponent
        ≤ 2 ^ ((numeral.digits.log2 : Int) + 1) * 10 ^ (-(numeral.digits.log2 : Int) - 402) := by
          apply mul_le_mul digitsHigh.le _ (by positivity) (by positivity)
          exact zpow_le_zpow_right₀ (by norm_num) (by omega)
      _ = 2 ^ (numeral.digits.log2 : Int) * 10 ^ (-(numeral.digits.log2 : Int)) *
            (2 * 10 ^ (-402 : Int)) := by
          rw [zpow_add₀ two_ne_zero, zpow_one, sub_eq_add_neg, zpow_add₀ (by norm_num)]
          ring
      _ ≤ 1 * (2 * 10 ^ (-402 : Int)) := by
          apply mul_le_mul_of_nonneg_right _ (by positivity)
          rw [zpow_neg, ← div_eq_mul_inv, div_le_one (by positivity)]
          exact zpow_le_zpow_left₀ (by omega) (by norm_num) (by norm_num)
      _ < 2 ^ (-1075 : Int) := by
          rw [one_mul]
          exact ten_zpow_lt
  · rfl

/-- Two ways of writing one number are read as the same magnitude. -/
theorem nearestMagnitude_congr {first second : Numeral} (same : first.value = second.value) :
    first.nearestMagnitude = second.nearestMagnitude := by
  rw [nearestMagnitude_eq_fraction, nearestMagnitude_eq_fraction]
  apply Decimal.nearestMagnitude_congr (toFraction_denominator_pos _) (toFraction_denominator_pos _)
  rw [toFraction_ratio, toFraction_ratio, same]

end Numeral

/-! ## Finite decimals -/

/-- A fraction well below the largest finite number is rounded to a finite one. -/
private theorem nearestMagnitude_lt_infiniteMagnitude {numerator denominator : Nat}
    (below : 0 < denominator) (small : (numerator : ℚ) / denominator < 2 ^ (1023 : Int)) :
    nearestMagnitude numerator denominator < infiniteMagnitude := by
  rcases Nat.eq_zero_or_pos numerator with rfl | above
  · rw [nearestMagnitude, if_pos rfl]
    decide
  have ratioPositive : (0 : ℚ) < numerator / denominator := by positivity
  have logSmall := (lt_two_zpow_iff ratioPositive).mp small
  -- no number has more units than the words of two binades
  have counted : roundHalfEven
      (scaleByTwo numerator denominator (-unitExponent ((numerator : ℚ) / denominator))).1
      (scaleByTwo numerator denominator (-unitExponent ((numerator : ℚ) / denominator))).2 ≤
        2 ^ 53 := by
    apply roundHalfEven_le (scaleByTwo_denominator_pos below _)
    have reached := (lt_two_zpow_iff ratioPositive).mpr (Int.lt_succ _)
    have unit : Int.log 2 ((numerator : ℚ) / denominator) + 1 ≤
        unitExponent ((numerator : ℚ) / denominator) + 53 := by
      unfold unitExponent
      omega
    rw [scaleByTwo_ratio, zpow_neg, ← div_eq_mul_inv, div_le_iff₀ (by positivity)]
    calc (numerator : ℚ) / denominator
        ≤ 2 ^ (Int.log 2 ((numerator : ℚ) / denominator) + 1) := reached.le
      _ ≤ 2 ^ (unitExponent ((numerator : ℚ) / denominator) + 53) :=
        zpow_le_zpow_right₀ (by norm_num) unit
      _ = ((2 ^ 53 : Nat) : ℚ) * 2 ^ unitExponent ((numerator : ℚ) / denominator) := by
        rw [zpow_add₀ two_ne_zero, mul_comm]
        norm_num
  have words : (unitExponent ((numerator : ℚ) / denominator) + 1074).toNat ≤ 2044 := by
    unfold unitExponent
    omega
  rw [nearestMagnitude_eq above below]
  dsimp only
  apply lt_of_le_of_lt (min_le_left _ _)
  unfold infiniteMagnitude binadeSize at *
  generalize roundHalfEven _ _ = count at counted ⊢
  calc _ ≤ 2044 * 1 <<< 52 + 2 ^ 53 := Nat.add_le_add (Nat.mul_le_mul_right _ words) counted
    _ < 2047 * 1 <<< 52 := by decide

private theorem isFinite_ofMagnitude {negative : Bool} {magnitude : Nat}
    (finite : magnitude < infiniteMagnitude) : (ofMagnitude negative magnitude).isFinite = true := by
  have kept : (ofMagnitude negative magnitude).magnitude = magnitude := by
    unfold ofMagnitude Decimal.magnitude
    unfold infiniteMagnitude binadeSize at finite
    simp only [Nat.reduceShiftLeft, signWeight, UInt64.toNat_ofNat'] at finite ⊢
    split <;> omega
  unfold isFinite
  rw [kept]
  exact decide_eq_true finite

/-- A whole number of 64 bits becomes a finite decimal. -/
theorem isFinite_ofInt {number : Int} (small : number.natAbs < 2 ^ 64) :
    (ofInt number).isFinite = true := by
  apply isFinite_ofMagnitude
  apply nearestMagnitude_lt_infiniteMagnitude Nat.one_pos
  rw [Nat.cast_one, div_one]
  calc (number.natAbs : ℚ) < 2 ^ (64 : Int) := by exact_mod_cast small
    _ ≤ 2 ^ (1023 : Int) := zpow_le_zpow_right₀ (by norm_num) (by norm_num)

end Decimal

end LineScript
