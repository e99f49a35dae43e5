import LineScript.Proofs.Decimal.Rounding

/-!
The numeral chosen for a magnitude reads back as it.
-/

set_option autoImplicit false

namespace LineScript

namespace Decimal

theorem Numeral.trim_value (bound : Nat) (numeral : Numeral) :
    (numeral.trim bound).value = numeral.value := by
  induction bound generalizing numeral with
  | zero => rfl
  | succ bound ih =>
      unfold trim
      split
      · next divides =>
        rw [ih]
        obtain ⟨digits, same⟩ := Nat.dvd_of_mod_eq_zero divides
        unfold value
        dsimp only
        rw [same, Nat.mul_div_cancel_left _ (by decide), zpow_add₀ (by norm_num), zpow_one]
        push_cast
        ring
      · rfl

private theorem exactNumeral_value (magnitude : Nat) :
    (exactNumeral magnitude).value = significand magnitude * 2 ^ power magnitude := by
  unfold exactNumeral
  split
  · next nonnegative =>
    obtain ⟨exponent, same⟩ := Int.eq_ofNat_of_zero_le nonnegative
    rw [same]
    simp [Numeral.value, Nat.shiftLeft_eq]
  · next negative =>
    obtain ⟨exponent, same⟩ := Int.eq_ofNat_of_zero_le (a := -power magnitude) (by omega)
    obtain same : power magnitude = -(exponent : Int) := by omega
    rw [same]
    simp only [Numeral.value, neg_neg, Int.toNat_natCast, Nat.pow_eq, zpow_neg, zpow_natCast]
    push_cast
    -- a power of ten is one of five and one of two
    rw [show (10 : ℚ) = 5 * 2 by norm_num, mul_pow]
    field_simp

private theorem exactNumeral_readsBack {magnitude : Nat} (finite : magnitude < infiniteMagnitude) :
    (exactNumeral magnitude).nearestMagnitude = magnitude := by
  rw [Numeral.nearestMagnitude_eq_fraction]
  apply nearestMagnitude_exact (Numeral.toFraction_denominator_pos _) finite
  rw [Numeral.toFraction_ratio, exactNumeral_value]

private theorem nearerDigits_cases (tie : Tie) (scaled divisor lower : Nat) :
    nearerDigits tie scaled divisor lower = lower ∨
      nearerDigits tie scaled divisor lower = lower + 1 := by
  unfold nearerDigits
  split
  · exact .inl rfl
  · exact .inr rfl
  · cases tie with
    | up => exact .inr rfl
    | even =>
        dsimp only
        omega

private theorem numeralOfLength?_readsBack {tie : Tie} {magnitude count : Nat} {numeral : Numeral}
    (found : numeralOfLength? tie magnitude count = some numeral) :
    numeral.nearestMagnitude = magnitude := by
  unfold numeralOfLength? at found
  dsimp only at found
  split at found
  · next lowerReads upperReads =>
    obtain rfl := Option.some.inj found
    rcases nearerDigits_cases tie _ _ _ with nearer | nearer
    · rw [nearer]
      exact beq_iff_eq.mp lowerReads
    · rw [nearer]
      exact beq_iff_eq.mp upperReads
  · next lowerReads _ =>
    obtain rfl := Option.some.inj found
    exact beq_iff_eq.mp lowerReads
  · next upperReads =>
    obtain rfl := Option.some.inj found
    exact beq_iff_eq.mp upperReads
  · cases found

theorem shortestNumeral_readsBack (tie : Tie) {magnitude : Nat}
    (finite : magnitude < infiniteMagnitude) :
    (shortestNumeral tie magnitude).nearestMagnitude = magnitude := by
  unfold shortestNumeral
  split
  · next zero =>
    rw [zero]
    rfl
  split
  · next found =>
    obtain ⟨index, _, chosen⟩ := List.exists_of_findSome?_eq_some found
    rw [Numeral.nearestMagnitude_congr (Numeral.trim_value 17 _)]
    exact numeralOfLength?_readsBack chosen
  · exact exactNumeral_readsBack finite

theorem shortestNumeral_zero_or (tie : Tie) {magnitude : Nat}
    (finite : magnitude < infiniteMagnitude) :
    shortestNumeral tie magnitude = ⟨0, 0⟩ ∨ 0 < (shortestNumeral tie magnitude).digits := by
  rcases Nat.eq_zero_or_pos magnitude with rfl | positive
  · exact .inl rfl
  · right
    apply Nat.pos_of_ne_zero
    intro zero
    have reads := shortestNumeral_readsBack tie finite
    unfold Numeral.nearestMagnitude at reads
    rw [if_pos zero] at reads
    omega

end Decimal

end LineScript
