import LineScript.Decimal.Basic

/-!
The decimal nearest to an exact number.

Literals, saved numbers and widened integers are exact numbers; each is rounded once, to the
nearest binary64 value, and a value halfway between two neighbours goes to the one with the even
significand.
-/

set_option autoImplicit false

namespace LineScript

namespace Decimal

/-- The quotient rounded to the nearest integer, a half to the even one. -/
def roundHalfEven (numerator denominator : Nat) : Nat :=
  let quotient := numerator / denominator
  let twice := 2 * (numerator % denominator)
  if twice < denominator then quotient
  else if denominator < twice then quotient + 1
  else quotient + quotient % 2

def scaleByTwo (numerator denominator : Nat) (exponent : Int) : Nat × Nat :=
  if 0 ≤ exponent then (numerator <<< exponent.toNat, denominator)
  else (numerator, denominator <<< (-exponent).toNat)

/-- The largest `exponent` with `2 ^ exponent` at most the positive fraction. -/
def binaryExponent (numerator denominator : Nat) : Int :=
  let guess : Int := (numerator.log2 : Int) - (denominator.log2 : Int)
  let (scaled, unit) := scaleByTwo numerator denominator (-guess)
  if unit ≤ scaled then guess else guess - 1

/-- The magnitude nearest to a fraction.

A number at or above `2 ^ exponent` and below twice that is a multiple of `2 ^ (exponent - 52)`,
and none is finer than `2 ^ (-1074)`.  Counting in that unit and adding the words of all smaller
binades gives the word itself; a count that rounds up into the next binade lands on its first
word.  Too large a fraction gives the magnitude of infinity. -/
def nearestMagnitude (numerator denominator : Nat) : Nat :=
  if numerator = 0 then 0
  else
    let unit := max (binaryExponent numerator denominator - 52) (-1074)
    let (scaled, divisor) := scaleByTwo numerator denominator (-unit)
    min ((unit + 1074).toNat * binadeSize + roundHalfEven scaled divisor) infiniteMagnitude

/-- A number written in base ten: `digits * 10 ^ exponent`. -/
structure Numeral where
  digits : Nat
  exponent : Int
deriving DecidableEq, Repr

def Numeral.toFraction (numeral : Numeral) : Nat × Nat :=
  if 0 ≤ numeral.exponent then (numeral.digits * Nat.pow 10 numeral.exponent.toNat, 1)
  else (numeral.digits, Nat.pow 10 (-numeral.exponent).toNat)

/-- The magnitude nearest to a numeral.

A positive numeral with an exponent above `400` is beyond every finite value, and one below
`10 ^ (-400)` is under half the smallest; neither needs its power of ten computed. -/
def Numeral.nearestMagnitude (numeral : Numeral) : Nat :=
  if numeral.digits = 0 then 0
  else if 400 < numeral.exponent then infiniteMagnitude
  else if numeral.exponent < -(numeral.digits.log2 : Int) - 401 then 0
  else
    let (numerator, denominator) := numeral.toFraction
    Decimal.nearestMagnitude numerator denominator

def ofNumeral (negative : Bool) (numeral : Numeral) : Decimal :=
  ofMagnitude negative numeral.nearestMagnitude

def ofInt (number : Int) : Decimal :=
  ofMagnitude (number < 0) (nearestMagnitude number.natAbs 1)

end Decimal

end LineScript
