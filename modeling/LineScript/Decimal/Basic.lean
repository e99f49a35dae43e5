/-!
Decimal numbers as binary64 words.

A decimal of the language is a binary floating-point number of 64 bits, held as its word.  Reading,
writing, negating and ordering decimals work on that word with exact natural-number arithmetic;
only the four arithmetic operations are left to the machine.
-/

set_option autoImplicit false

namespace LineScript

/-- A decimal number: the word of a binary64 value.

Equality is equality of words, so `0.0` and `-0.0` are different decimals and a not-a-number word
equals itself.  `Decimal.order` compares the values instead. -/
structure Decimal where
  word : UInt64
deriving DecidableEq, Repr

namespace Decimal

def signWeight : Nat := 1 <<< 63

/-- How many words share one binary exponent. -/
def binadeSize : Nat := 1 <<< 52

/-- The unsigned word of infinity; every unsigned word above it is not a number. -/
def infiniteMagnitude : Nat := 2047 * binadeSize

/-- The word without its sign bit.  Magnitudes of finite numbers are ordered as their absolute
values are. -/
def magnitude (decimal : Decimal) : Nat :=
  decimal.word.toNat % signWeight

def isNegative (decimal : Decimal) : Bool :=
  signWeight ≤ decimal.word.toNat

def isFinite (decimal : Decimal) : Bool :=
  decimal.magnitude < infiniteMagnitude

def isNotANumber (decimal : Decimal) : Bool :=
  infiniteMagnitude < decimal.magnitude

def ofMagnitude (negative : Bool) (magnitude : Nat) : Decimal :=
  ⟨UInt64.ofNat (if negative then signWeight + magnitude else magnitude)⟩

/-! ## Decoding a finite magnitude -/

/-- The integer factor of a finite magnitude: its value is `significand * 2 ^ power`. -/
def significand (magnitude : Nat) : Nat :=
  if magnitude < binadeSize then magnitude else binadeSize + magnitude % binadeSize

def power (magnitude : Nat) : Int :=
  if magnitude < binadeSize then -1074 else (magnitude / binadeSize : Nat) - 1075

/-! ## Sign and order -/

def negate (decimal : Decimal) : Decimal :=
  ofMagnitude (!decimal.isNegative) decimal.magnitude

/-- A number on which decimals are ordered by value; both zeros have key `0`. -/
def orderKey (decimal : Decimal) : Int :=
  if decimal.isNegative then -(decimal.magnitude : Int) else decimal.magnitude

/-- The order of two values; there is none if either is not a number. -/
def order (left right : Decimal) : Option Ordering :=
  if left.isNotANumber || right.isNotANumber then none
  else some (compare left.orderKey right.orderKey)

/-! ## Machine arithmetic -/

def toFloat (decimal : Decimal) : Float :=
  Float.ofBits decimal.word

def ofFloat (value : Float) : Decimal :=
  ⟨value.toBits⟩

def add (left right : Decimal) : Decimal :=
  ofFloat (left.toFloat + right.toFloat)

def subtract (left right : Decimal) : Decimal :=
  ofFloat (left.toFloat - right.toFloat)

def multiply (left right : Decimal) : Decimal :=
  ofFloat (left.toFloat * right.toFloat)

def divide (left right : Decimal) : Decimal :=
  ofFloat (left.toFloat / right.toFloat)

end Decimal

end LineScript
