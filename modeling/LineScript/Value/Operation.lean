import LineScript.Evaluation.RuntimeError

/-!
Operators applied to values.

Integers are computed exactly and refused when they leave the 64-bit range.  A decimal operand
makes the operation one of decimals.  Only integers have a remainder.
-/

set_option autoImplicit false

namespace LineScript

/-- The exact result of integer arithmetic; division rounds toward zero and the remainder has the
sign of the dividend.  There is none for a zero divisor. -/
def Arithmetic.onInt? (operator : Arithmetic) (left right : Int) : Option Int :=
  match operator with
  | add => some (left + right)
  | subtract => some (left - right)
  | multiply => some (left * right)
  | divide => if right = 0 then none else some (left.tdiv right)
  | remainder => if right = 0 then none else some (left.tmod right)

/-- Whether an operation is a remainder whose quotient leaves the 64-bit range.  Such a remainder is
refused together with its quotient, although it is zero. -/
def Arithmetic.quotientOverflows (operator : Arithmetic) (left right : Int) : Bool :=
  operator = .remainder && (exactInt64? (left.tdiv right)).isNone

def Arithmetic.onDecimal (operator : Arithmetic) (left right : Decimal) : Decimal :=
  match operator with
  | add => left.add right
  | subtract => left.subtract right
  | multiply => left.multiply right
  | divide | remainder => left.divide right

def Comparison.holds (operator : Comparison) (order : Ordering) : Bool :=
  match operator with
  | less => order = .lt
  | lessEqual => order ≠ .gt
  | greater => order = .gt
  | greaterEqual => order ≠ .lt
  | equal => order = .eq
  | notEqual => order ≠ .eq

/-- Whether a comparison holds when there may be no order: then only "not equal" does. -/
def Comparison.holdsOf (operator : Comparison) (order : Option Ordering) : Bool :=
  match order with
  | some order => operator.holds order
  | none => operator = .notEqual

def Connective.apply (operator : Connective) (left right : Bool) : Bool :=
  match operator with
  | and => left && right
  | or => left || right

namespace Value

def integerArithmetic (operator : Arithmetic) (left right : Int64) (line : Nat) :
    Except RuntimeError Value :=
  match operator.onInt? left.toInt right.toInt with
  | none => .error (.divisionByZero line)
  | some result =>
    if operator.quotientOverflows left.toInt right.toInt then .error (.overflow line)
    else
      match exactInt64? result with
      | some number => .ok (.int number)
      | none => .error (.overflow line)

/-- Addition with a string on the left appends the text of whatever is on the right. -/
def arithmetic (operator : Arithmetic) (left right : Value) (line : Nat) :
    Except RuntimeError Value :=
  match operator, left, right with
  | .add, .string text, other => .ok (.string (text ++ other.toText))
  | operator, .int left, .int right => integerArithmetic operator left right line
  | .remainder, left, right => .error (.operands (.integersNeeded left.kind right.kind) line)
  | operator, left, right =>
    match left.toDecimal?, right.toDecimal? with
    | some left, some right => .ok (.decimal (operator.onDecimal left right))
    | _, _ => .error (.operands (.numbersNeeded operator left.kind right.kind) line)

/-- The order of two values.  Numbers compare across kinds; otherwise both must be strings, which
compare by code points, or both booleans, with false first. -/
def order? (left right : Value) : Option (Option Ordering) :=
  match left, right with
  | .int left, .int right => some (some (compare left.toInt right.toInt))
  | .string left, .string right => some (some (compare left right))
  | .boolean left, .boolean right => some (some (compare left.toNat right.toNat))
  | left, right =>
    match left.toDecimal?, right.toDecimal? with
    | some left, some right => some (left.order right)
    | _, _ => none

def comparison (operator : Comparison) (left right : Value) (line : Nat) :
    Except RuntimeError Value :=
  match left.order? right with
  | some order => .ok (.boolean (operator.holdsOf order))
  | none => .error (.operands (.incomparable operator left.kind right.kind) line)

def connective (operator : Connective) (left right : Value) (line : Nat) :
    Except RuntimeError Value :=
  match left, right with
  | .boolean left, .boolean right => .ok (.boolean (operator.apply left right))
  | left, right => .error (.operands (.booleansNeeded operator left.kind right.kind) line)

def binary (operator : BinaryOperator) (left right : Value) (line : Nat) :
    Except RuntimeError Value :=
  match operator with
  | .arithmetic operator => arithmetic operator left right line
  | .comparison operator => comparison operator left right line
  | .connective operator => connective operator left right line

def unary (operator : UnaryOperator) (operand : Value) (line : Nat) : Except RuntimeError Value :=
  match operator, operand with
  | .negate, .int number =>
    match exactInt64? (-number.toInt) with
    | some negated => .ok (.int negated)
    | none => .error (.overflow line)
  | .negate, .decimal number => .ok (.decimal number.negate)
  | .negate, other => .error (.operands (.numberNeeded other.kind) line)
  | .not, .boolean truth => .ok (.boolean !truth)
  | .not, other => .error (.operands (.booleanNeeded other.kind) line)

def toCondition (value : Value) (line : Nat) : Except RuntimeError Bool :=
  match value with
  | .boolean truth => .ok truth
  | _ => .error (.expectedBoolean line)

end Value

end LineScript
