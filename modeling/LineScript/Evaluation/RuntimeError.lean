import LineScript.Diagnostic
import LineScript.Program.Operator
import LineScript.Value.Basic

/-!
What can go wrong while a program is checked or run.
-/

set_option autoImplicit false

namespace LineScript

inductive OperandFault where
  | numbersNeeded (operator : Arithmetic) (left right : Kind)
  | integersNeeded (left right : Kind)
  | incomparable (operator : Comparison) (left right : Kind)
  | booleansNeeded (operator : Connective) (left right : Kind)
  | numberNeeded (operand : Kind)
  | booleanNeeded (operand : Kind)
deriving DecidableEq, Repr

namespace OperandFault

def quote (text : String) : String :=
  "\"" ++ text ++ "\""

def message : OperandFault → String
  | numbersNeeded operator left right =>
    "Could not cast " ++ left.describe ++ " and " ++ right.describe ++ " to number for " ++
      quote operator.spelling
  | integersNeeded left right =>
    "Could not cast " ++ left.describe ++ " and " ++ right.describe ++ " to int for " ++
      quote Arithmetic.remainder.spelling
  | incomparable operator left right =>
    "Could not compare " ++ left.describe ++ " with " ++ right.describe ++ " using " ++
      quote operator.spelling
  | booleansNeeded operator left right =>
    "Could not cast " ++ left.describe ++ " and " ++ right.describe ++ " to boolean for " ++
      quote operator.spelling
  | numberNeeded operand => "Could not cast " ++ operand.describe ++ " to number"
  | booleanNeeded operand => "Could not cast " ++ operand.describe ++ " to boolean"

end OperandFault

inductive OutputFault where
  | closed
  /-- What was written could not be delivered at the end. -/
  | flushFailed
deriving DecidableEq, Repr

def OutputFault.message : OutputFault → String
  | closed => "closed"
  | flushFailed => "flush failed"

inductive RuntimeError where
  | unknownVariable (name : String) (line : Nat)
  | alreadyDefined (name : String) (line : Nat)
  /-- A value that a variable of kind `pinned` does not accept. -/
  | kindMismatch (name : String) (pinned found : Kind) (line : Nat)
  | operands (fault : OperandFault) (line : Nat)
  | expectedBoolean (line : Nat)
  | divisionByZero (line : Nat)
  | overflow (line : Nat)
  | output (fault : OutputFault)
deriving DecidableEq, Repr

namespace RuntimeError

def message : RuntimeError → String
  | unknownVariable name _ => "Undefined variable \"" ++ name ++ "\""
  | alreadyDefined name _ => "Variable \"" ++ name ++ "\" already exists"
  | kindMismatch name pinned found _ =>
    "Could not cast " ++ found.describe ++ " value to " ++ pinned.describe ++ " for \"" ++ name ++ "\""
  | operands fault _ => fault.message
  | expectedBoolean _ => "Could not cast condition to boolean"
  | divisionByZero _ => "Division by zero"
  | overflow _ => "Integer overflow while trying to compute result"
  | output fault => "Could not write program output: " ++ fault.message

def line? : RuntimeError → Option Nat
  | unknownVariable _ line | alreadyDefined _ line | kindMismatch _ _ _ line | operands _ line
  | expectedBoolean line | divisionByZero line | overflow line => some line
  | output _ => none

/-- Whether an error hangs on the values of operands and not on their kinds. -/
def isValueFault : RuntimeError → Bool
  | divisionByZero _ | overflow _ => true
  | _ => false

def toDiagnostic (error : RuntimeError) : Diagnostic :=
  ⟨.error, error.message, error.line?⟩

end RuntimeError

end LineScript
