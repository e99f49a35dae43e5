import LineScript.Decimal.Shortest

/-!
Written forms of decimals.

Programs print decimals positionally, however long that is.  Saved programs write a power of ten
where the number is very large or very small.
-/

set_option autoImplicit false

namespace LineScript

namespace Decimal

/-- The digits with a point put in, at least one digit on either side of it. -/
def Numeral.positional (numeral : Numeral) : String :=
  let digits := Nat.toDigits 10 numeral.digits
  if 0 ≤ numeral.exponent then
    String.ofList (digits ++ List.replicate numeral.exponent.toNat '0' ++ ['.', '0'])
  else
    let places := (-numeral.exponent).toNat
    let padded := List.replicate (places + 1 - digits.length) '0' ++ digits
    let whole := padded.length - places
    String.ofList (padded.take whole ++ '.' :: padded.drop whole)

def Numeral.leadingExponent (numeral : Numeral) : Int :=
  numeral.exponent + (countDigits numeral.digits : Int) - 1

/-- One digit, the others after a point if there are any, and the power of ten with its sign. -/
def Numeral.scientific (numeral : Numeral) : String :=
  let exponent := numeral.leadingExponent
  let tail := if exponent < 0 then "e-" ++ Nat.repr exponent.natAbs else "e+" ++ Nat.repr exponent.natAbs
  match Nat.toDigits 10 numeral.digits with
  | [] => tail
  | [digit] => String.ofList [digit] ++ tail
  | digit :: others => String.ofList (digit :: '.' :: others) ++ tail

def signText (negative : Bool) : String :=
  if negative then "-" else ""

/-- The form in which programs print decimals.  Of two equally short and equally near numerals the
larger is printed. -/
def toText (decimal : Decimal) : String :=
  if decimal.isNotANumber then "NaN"
  else if decimal.isFinite then
    signText decimal.isNegative ++ (shortestNumeral .up decimal.magnitude).positional
  else signText decimal.isNegative ++ "inf"

/-- The form in which finite decimals are saved: positional while the first digit stands from the
fifth place after the point to the sixteenth before it.  Of two equally short and equally near
numerals the even one is written. -/
def toSavedText (decimal : Decimal) : String :=
  let numeral := shortestNumeral .even decimal.magnitude
  signText decimal.isNegative ++
    if -5 ≤ numeral.leadingExponent ∧ numeral.leadingExponent ≤ 15 then numeral.positional
    else numeral.scientific

end Decimal

end LineScript
