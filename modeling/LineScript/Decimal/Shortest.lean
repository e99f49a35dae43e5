import LineScript.Decimal.Rounding

/-!
The fewest digits that read back.

Among the numerals that round to a given magnitude, the shortest are those with the fewest digits,
and of these the one nearest to the exact value is taken.  With `n` digits only the two multiples
of the last place on either side of the value can qualify, so both are tried for one digit, two
digits, and so on.
-/

set_option autoImplicit false

namespace LineScript

namespace Decimal

/-- Which of two equally near numerals is written. -/
inductive Tie where
  | up
  /-- The one whose last digit is even. -/
  | even
deriving DecidableEq, Repr

def exactFraction (magnitude : Nat) : Nat × Nat :=
  scaleByTwo (significand magnitude) 1 (power magnitude)

/-- A finite magnitude written out in full: every binary64 value is a finite decimal fraction. -/
def exactNumeral (magnitude : Nat) : Numeral :=
  if 0 ≤ power magnitude then ⟨significand magnitude <<< (power magnitude).toNat, 0⟩
  else ⟨significand magnitude * Nat.pow 5 (-power magnitude).toNat, power magnitude⟩

def countDigits (number : Nat) : Nat :=
  (Nat.toDigits 10 number).length

/-- The number of digits before the point; for a fraction below one tenth, minus the number of
zeros after it.  The positive fraction is below `10 ^ place` and at least a tenth of that. -/
def leadingPlace (numerator denominator : Nat) : Int :=
  if denominator ≤ numerator then countDigits (numerator / denominator)
  else 1 - (countDigits ((denominator - 1) / numerator) : Int)

def divideByTen (numerator denominator : Nat) (exponent : Int) : Nat × Nat :=
  if 0 ≤ exponent then (numerator, denominator * Nat.pow 10 exponent.toNat)
  else (numerator * Nat.pow 10 (-exponent).toNat, denominator)

/-- Of two neighbouring multiples of a place, the one to write for the fraction between them. -/
def nearerDigits (tie : Tie) (scaled divisor lower : Nat) : Nat :=
  match compare (2 * scaled) ((2 * lower + 1) * divisor) with
  | .lt => lower
  | .gt => lower + 1
  | .eq =>
    match tie with
    | .up => lower + 1
    | .even => lower + lower % 2

/-- The numeral of `count` digits to write for a magnitude, if one of that length reads back. -/
def numeralOfLength? (tie : Tie) (magnitude count : Nat) : Option Numeral :=
  let (numerator, denominator) := exactFraction magnitude
  let exponent := leadingPlace numerator denominator - count
  let (scaled, divisor) := divideByTen numerator denominator exponent
  let lower := scaled / divisor
  let readsBack (digits : Nat) : Bool :=
    (Numeral.mk digits exponent).nearestMagnitude == magnitude
  match readsBack lower, readsBack (lower + 1) with
  | true, true => some ⟨nearerDigits tie scaled divisor lower, exponent⟩
  | true, false => some ⟨lower, exponent⟩
  | false, true => some ⟨lower + 1, exponent⟩
  | false, false => none

/-- The same number without zeros at the end of its digits.  No more than `bound` are taken. -/
def Numeral.trim (bound : Nat) (numeral : Numeral) : Numeral :=
  match bound with
  | 0 => numeral
  | bound + 1 =>
    if numeral.digits % 10 = 0 then
      Numeral.trim bound ⟨numeral.digits / 10, numeral.exponent + 1⟩
    else numeral

/-- The shortest numeral that reads back as a finite magnitude.

Seventeen digits always suffice for a binary64 value; the full expansion stands behind the search
so that the result reads back whatever the search does. -/
def shortestNumeral (tie : Tie) (magnitude : Nat) : Numeral :=
  if magnitude = 0 then ⟨0, 0⟩
  else
    match (List.range 17).findSome? fun index => numeralOfLength? tie magnitude (index + 1) with
    | some numeral => numeral.trim 17
    | none => exactNumeral magnitude

end Decimal

end LineScript
