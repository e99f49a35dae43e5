/-!
Digits of base ten.
-/

set_option autoImplicit false

namespace LineScript

/-- The number written by a list of digits, the first of them the most significant. -/
def digitsValue (digits : List Char) : Nat :=
  digits.foldl (fun value digit => 10 * value + (digit.toNat - 48)) 0

end LineScript
