import LineScript.Value.Operation
import Mathlib.Algebra.Group.Int.Defs
import Mathlib.Data.Int.Order.Basic
import Mathlib.Logic.ExistsUnique

/-!
Integer arithmetic is exact or refused.

What an operator means on integers is said by what its result is to its operands, not by how it is
computed.  A result of 64 bits is given as it is, any other is refused as an overflow, and a zero
divisor is refused as such.  The remainder of the smallest integer by `-1` is the exception: it is
zero, and is refused because the quotient that belongs to it does not fit.
-/

set_option autoImplicit false

namespace LineScript

/-! ## Division toward zero -/

/-- A quotient and a remainder of two integers.  The remainder is smaller than the divisor and lies
on the side of the dividend, so the quotient is the true one cut off toward zero. -/
structure IntegerDivision (dividend divisor quotient remainder : Int) : Prop where
  total : dividend = quotient * divisor + remainder
  smaller : remainder.natAbs < divisor.natAbs
  nonneg : 0 ≤ dividend → 0 ≤ remainder
  nonpos : dividend ≤ 0 → remainder ≤ 0

private theorem integerDivision_tdiv_tmod (dividend : Int) {divisor : Int} (nonzero : divisor ≠ 0) :
    IntegerDivision dividend divisor (dividend.tdiv divisor) (dividend.tmod divisor) where
  total := (Int.tdiv_mul_add_tmod dividend divisor).symm
  smaller := by
    rw [Int.natAbs_tmod]
    exact Nat.mod_lt _ (by omega)
  nonneg above := Int.tmod_nonneg divisor above
  nonpos below := by
    have mirrored := Int.tmod_nonneg divisor (Int.neg_nonneg_of_nonpos below)
    rw [Int.neg_tmod] at mirrored
    omega

/-- There is one division by every divisor but zero. -/
theorem integerDivision_iff {dividend divisor quotient remainder : Int} :
    IntegerDivision dividend divisor quotient remainder ↔
      divisor ≠ 0 ∧ dividend.tdiv divisor = quotient ∧ dividend.tmod divisor = remainder := by
  constructor
  · rintro ⟨total, smaller, nonneg, nonpos⟩
    have nonzero : divisor ≠ 0 := by omega
    have whole : remainder + divisor * quotient = dividend := by
      rw [total, Int.mul_comm, Int.add_comm]
    rcases Int.le_total 0 dividend with above | below
    · exact ⟨nonzero, (Int.tdiv_tmod_unique above nonzero).mpr
        ⟨whole, nonneg above, by have := nonneg above; omega⟩⟩
    · exact ⟨nonzero, (Int.tdiv_tmod_unique' below nonzero).mpr
        ⟨whole, by have := nonpos below; omega, nonpos below⟩⟩
  · rintro ⟨nonzero, rfl, rfl⟩
    exact integerDivision_tdiv_tmod dividend nonzero

/-- What an operator means on integers. -/
def Arithmetic.Exact (operator : Arithmetic) (left right result : Int) : Prop :=
  match operator with
  | add => result = left + right
  | subtract => result = left - right
  | multiply => result = left * right
  | divide => ∃ remainder, IntegerDivision left right result remainder
  | remainder => ∃ quotient, IntegerDivision left right quotient result

theorem Arithmetic.exact_iff_onInt? {operator : Arithmetic} {left right result : Int} :
    operator.Exact left right result ↔ operator.onInt? left right = some result := by
  cases operator with
  | add | subtract | multiply =>
      exact ⟨fun same => congrArg some same.symm, fun same => (Option.some.inj same).symm⟩
  | divide =>
      simp only [Exact, integerDivision_iff, onInt?]
      split <;> simp_all
  | remainder =>
      simp only [Exact, integerDivision_iff, onInt?]
      split <;> simp_all

theorem Arithmetic.onInt?_eq_none_iff {operator : Arithmetic} {left right : Int} :
    operator.onInt? left right = none ↔
      (operator = .divide ∨ operator = .remainder) ∧ right = 0 := by
  cases operator <;> simp [onInt?]

/-! ## Sixty-four bits -/

/-- An integer of 64 bits. -/
def FitsInt64 (number : Int) : Prop :=
  Int64.minValue.toInt ≤ number ∧ number ≤ Int64.maxValue.toInt

theorem fitsInt64_iff {number : Int} : FitsInt64 number ↔ -2 ^ 63 ≤ number ∧ number < 2 ^ 63 := by
  unfold FitsInt64
  rw [Int64.toInt_minValue, Int64.toInt_maxValue]
  omega

private theorem fitsInt64_toInt (word : Int64) : FitsInt64 word.toInt :=
  ⟨word.minValue_le_toInt, word.toInt_le⟩

theorem exactInt64?_eq_some_iff {number : Int} {word : Int64} :
    exactInt64? number = some word ↔ word.toInt = number := by
  unfold exactInt64?
  constructor
  · intro found
    split at found <;> cases found
    next fits =>
      obtain ⟨lower, upper⟩ := fitsInt64_iff.mp fits
      exact Int64.toInt_ofInt_of_le lower upper
  · rintro rfl
    exact (if_pos (fitsInt64_toInt word)).trans (congrArg some (Int64.ofInt_toInt word))

theorem exactInt64?_eq_none_iff {number : Int} :
    exactInt64? number = none ↔ ¬ FitsInt64 number := by
  unfold exactInt64? FitsInt64
  split <;> simp_all

/-- A quotient fits unless it is that of the smallest integer by `-1`. -/
theorem fitsInt64_tdiv_iff {left right : Int} (fits : FitsInt64 left) :
    FitsInt64 (left.tdiv right) ↔ ¬ (left = Int64.minValue.toInt ∧ right = -1) := by
  rw [fitsInt64_iff] at fits ⊢
  rw [Int64.toInt_minValue]
  have size : (left.tdiv right).natAbs = left.natAbs / right.natAbs := Int.natAbs_tdiv left right
  constructor
  · rintro ⟨_, upper⟩ ⟨rfl, rfl⟩
    exact absurd upper (by decide)
  · intro other
    by_cases unit : right.natAbs = 1
    · obtain rfl | rfl : right = 1 ∨ right = -1 := by omega
      · rwa [Int.tdiv_one]
      · rw [Int.tdiv_neg, Int.tdiv_one]
        omega
    · have half : left.natAbs / right.natAbs ≤ left.natAbs / 2 := by
        rcases Nat.eq_zero_or_pos right.natAbs with zero | positive
        · simp [zero]
        · exact Nat.div_le_div_left (by omega) (by decide)
      omega

/-- The remainder of the smallest integer by `-1`.  It is zero, but belongs to a quotient that does
not fit. -/
def Arithmetic.IsSmallestByMinusOne (operator : Arithmetic) (left right : Int64) : Prop :=
  operator = .remainder ∧ left = Int64.minValue ∧ right = -1

theorem Arithmetic.quotientOverflows_iff {operator : Arithmetic} {left right : Int64} :
    operator.quotientOverflows left.toInt right.toInt = true ↔
      operator.IsSmallestByMinusOne left right := by
  have negative : (-1 : Int64).toInt = -1 := rfl
  rw [quotientOverflows, Bool.and_eq_true, decide_eq_true_eq, Option.isNone_iff_eq_none,
    exactInt64?_eq_none_iff, fitsInt64_tdiv_iff (fitsInt64_toInt left), not_not, Int64.toInt_inj,
    ← negative, Int64.toInt_inj, IsSmallestByMinusOne]

/-! ## The outcome of an operation -/

namespace Value

private theorem binary_int (operator : Arithmetic) (left right : Int64) (line : Nat) :
    binary (.arithmetic operator) (.int left) (.int right) line =
      integerArithmetic operator left right line := by
  cases operator <;> rfl

/-- All that can come of an operation on integers. -/
structure ExactOrRefused (operator : Arithmetic) (left right : Int64) (line : Nat)
    (outcome : Except RuntimeError Value) : Prop where
  /-- Nothing but a zero divisor leaves an operation without a result. -/
  defined : (operator = .divide ∨ operator = .remainder) ∧ right = 0 ∨
    ∃! result, operator.Exact left.toInt right.toInt result
  divisionByZero : outcome = .error (.divisionByZero line) ↔
    (operator = .divide ∨ operator = .remainder) ∧ right = 0
  exact : ∀ value, outcome = .ok value ↔
    ∃ number, value = .int number ∧ operator.Exact left.toInt right.toInt number.toInt ∧
      ¬ operator.IsSmallestByMinusOne left right
  overflow : outcome = .error (.overflow line) ↔
    (∃ result, operator.Exact left.toInt right.toInt result ∧ ¬ FitsInt64 result) ∨
      operator.IsSmallestByMinusOne left right

section Outcomes

variable {operator : Arithmetic} {left right : Int64} {line : Nat}

private theorem exactOrRefused_zero (undefined : operator.onInt? left.toInt right.toInt = none) :
    ExactOrRefused operator left right line (.error (.divisionByZero line)) := by
  obtain ⟨divides, zero⟩ := Arithmetic.onInt?_eq_none_iff.mp undefined
  have zero : right = 0 := Int64.toInt_inj.mp zero
  have none (result : Int) : ¬ operator.Exact left.toInt right.toInt result := by
    rw [Arithmetic.exact_iff_onInt?, undefined]
    nofun
  constructor
  case defined => exact .inl ⟨divides, zero⟩
  case divisionByZero => exact iff_of_true rfl ⟨divides, zero⟩
  case exact =>
    refine fun value => iff_of_false nofun ?_
    rintro ⟨number, _, exact, _⟩
    exact none _ exact
  case overflow =>
    refine iff_of_false nofun ?_
    rintro (⟨result, exact, _⟩ | ⟨_, _, other⟩)
    · exact none result exact
    · exact absurd (zero.symm.trans other) (by decide)

private theorem exact_iff_eq {result : Int}
    (found : operator.onInt? left.toInt right.toInt = some result)
    (other : Int) : operator.Exact left.toInt right.toInt other ↔ other = result := by
  rw [Arithmetic.exact_iff_onInt?, found, Option.some.injEq, eq_comm]

private theorem divisor_ne_zero {result : Int}
    (found : operator.onInt? left.toInt right.toInt = some result) :
    ¬ ((operator = .divide ∨ operator = .remainder) ∧ right = 0) := by
  rintro ⟨divides, rfl⟩
  have undefined : operator.onInt? left.toInt (0 : Int64).toInt = none :=
    Arithmetic.onInt?_eq_none_iff.mpr ⟨divides, rfl⟩
  rw [undefined] at found
  cases found

private theorem defined_of_result {result : Int}
    (found : operator.onInt? left.toInt right.toInt = some result) :
    ∃! result, operator.Exact left.toInt right.toInt result := by
  simp only [exact_iff_eq found]
  exact existsUnique_eq

private theorem exactOrRefused_exact {number : Int64}
    (found : operator.onInt? left.toInt right.toInt = some number.toInt)
    (regular : ¬ operator.IsSmallestByMinusOne left right) :
    ExactOrRefused operator left right line (.ok (.int number)) := by
  constructor
  case defined => exact .inr (defined_of_result found)
  case divisionByZero => exact iff_of_false nofun (divisor_ne_zero found)
  case exact =>
    refine fun value => ⟨?_, ?_⟩
    · rintro ⟨⟩
      exact ⟨number, rfl, (exact_iff_eq found _).mpr rfl, regular⟩
    · rintro ⟨other, rfl, exact, _⟩
      rw [Int64.toInt_inj.mp ((exact_iff_eq found _).mp exact)]
  case overflow =>
    refine iff_of_false nofun ?_
    rintro (⟨other, exact, large⟩ | smallest)
    · rw [(exact_iff_eq found other).mp exact] at large
      exact large (fitsInt64_toInt number)
    · exact regular smallest

private theorem exactOrRefused_overflow {result : Int}
    (found : operator.onInt? left.toInt right.toInt = some result)
    (refused : ¬ FitsInt64 result ∨ operator.IsSmallestByMinusOne left right) :
    ExactOrRefused operator left right line (.error (.overflow line)) := by
  constructor
  case defined => exact .inr (defined_of_result found)
  case divisionByZero => exact iff_of_false nofun (divisor_ne_zero found)
  case exact =>
    refine fun value => iff_of_false nofun ?_
    rintro ⟨number, _, exact, regular⟩
    have same := (exact_iff_eq found _).mp exact
    exact refused.elim (fun large => large (same ▸ fitsInt64_toInt number)) regular
  case overflow =>
    refine iff_of_true rfl (refused.imp_left fun large => ?_)
    exact ⟨result, (exact_iff_eq found result).mpr rfl, large⟩

end Outcomes

private theorem integerArithmetic_exactOrRefused (operator : Arithmetic) (left right : Int64)
    (line : Nat) :
    ExactOrRefused operator left right line (integerArithmetic operator left right line) := by
  unfold integerArithmetic
  cases found : operator.onInt? left.toInt right.toInt with
  | none => exact exactOrRefused_zero found
  | some result =>
      dsimp only
      split
      · next overflows =>
        exact exactOrRefused_overflow found (.inr (Arithmetic.quotientOverflows_iff.mp overflows))
      · next regular =>
        cases fits : exactInt64? result with
        | none => exact exactOrRefused_overflow found (.inl (exactInt64?_eq_none_iff.mp fits))
        | some number =>
            obtain rfl := exactInt64?_eq_some_iff.mp fits
            refine exactOrRefused_exact found fun smallest => ?_
            exact regular (Arithmetic.quotientOverflows_iff.mpr smallest)

/-- Whatever two integers are given, every operator gives its exact result or refuses: a zero
divisor as such, and as an overflow each result that does not fit and the remainder of the smallest
integer by `-1`.  Where both division and remainder give a result, the two belong together. -/
theorem binary_integers_exact (left right : Int64) (line : Nat) :
    (∀ operator, ExactOrRefused operator left right line
      (binary (.arithmetic operator) (.int left) (.int right) line)) ∧
    ∀ quotient remainder : Int64,
      binary (.arithmetic .divide) (.int left) (.int right) line = .ok (.int quotient) →
      binary (.arithmetic .remainder) (.int left) (.int right) line = .ok (.int remainder) →
      IntegerDivision left.toInt right.toInt quotient.toInt remainder.toInt := by
  have outcome (operator : Arithmetic) : ExactOrRefused operator left right line
      (binary (.arithmetic operator) (.int left) (.int right) line) := by
    rw [binary_int]
    exact integerArithmetic_exactOrRefused operator left right line
  refine ⟨outcome, fun quotient remainder divided reduced => ?_⟩
  obtain ⟨_, ⟨⟩, ⟨_, division⟩, _⟩ := ((outcome .divide).exact _).mp divided
  obtain ⟨_, ⟨⟩, ⟨_, remaining⟩, _⟩ := ((outcome .remainder).exact _).mp reduced
  obtain ⟨nonzero, same, _⟩ := integerDivision_iff.mp division
  exact integerDivision_iff.mpr ⟨nonzero, same, (integerDivision_iff.mp remaining).2.2⟩

/-- The remainder of the smallest integer by `-1` is zero, which fits, and is refused. -/
theorem binary_smallest_by_minusOne :
    Arithmetic.remainder.Exact Int64.minValue.toInt (-1 : Int64).toInt (0 : Int64).toInt ∧
    FitsInt64 (0 : Int64).toInt ∧
    binary (.arithmetic .remainder) (.int Int64.minValue) (.int (-1)) 1 = .error (.overflow 1) := by
  refine ⟨⟨2 ^ 63, ?_⟩, fitsInt64_toInt 0, rfl⟩
  exact integerDivision_iff.mpr (by decide)

end Value

end LineScript
