import LineScript.Decimal.Text

/-!
Values of the language and their kinds.

Literals in a program and results of evaluation are values of the same type.
-/

set_option autoImplicit false

namespace LineScript

/-- The kind of a value.  A variable keeps the kind of its first value. -/
inductive Kind where
  | int
  | decimal
  | boolean
  | string
deriving DecidableEq, Repr

namespace Kind

def isNumeric : Kind → Bool
  | int | decimal => true
  | boolean | string => false

/-- Whether a variable of kind `pinned` may hold a value of kind `offered`: the two numeric kinds
stand in for each other, the other two only for themselves. -/
def accepts (pinned offered : Kind) : Bool :=
  (pinned.isNumeric && offered.isNumeric) || pinned = offered

def describe : Kind → String
  | int => "int"
  | decimal => "decimal"
  | boolean => "boolean"
  | string => "string"

end Kind

inductive Value where
  | int (number : Int64)
  | decimal (number : Decimal)
  | boolean (truth : Bool)
  | string (text : String)
deriving DecidableEq, Repr

namespace Value

def kind : Value → Kind
  | int _ => .int
  | decimal _ => .decimal
  | boolean _ => .boolean
  | string _ => .string

def toText : Value → String
  | int number => Int.repr number.toInt
  | decimal number => number.toText
  | boolean truth => if truth then "true" else "false"
  | string text => text

/-- A number as a decimal, integers rounded to the nearest one. -/
def toDecimal? : Value → Option Decimal
  | int number => some (Decimal.ofInt number.toInt)
  | decimal number => some number
  | boolean _ | string _ => none

end Value

def exactInt64? (number : Int) : Option Int64 :=
  if Int64.minValue.toInt ≤ number ∧ number ≤ Int64.maxValue.toInt then some (Int64.ofInt number)
  else none

end LineScript
