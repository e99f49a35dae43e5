import LineScript.Program.Operator
import LineScript.Value.Basic

/-!
Programs as trees.

The types admit more than source text can express (an assignment inside an operand, a loop without
a block around it): a saved program may hold any tree.
-/

set_option autoImplicit false

namespace LineScript

inductive Expression where
  | literal (value : Value) (line : Nat)
  | reference (name : String) (line : Nat)
  /-- Stores a value in a variable, and is that value. -/
  | assign (name : String) (value : Expression) (line : Nat)
  | unary (operator : UnaryOperator) (operand : Expression) (line : Nat)
  | binary (operator : BinaryOperator) (left right : Expression) (line : Nat)
  | group (inner : Expression)
deriving DecidableEq, Repr

/-- The line of an expression; parentheses have that of what they enclose. -/
def Expression.line : Expression → Nat
  | literal _ line | reference _ line | assign _ _ line | unary _ _ line | binary _ _ _ line => line
  | group inner => inner.line

inductive Statement where
  | expression (expression : Expression)
  | declare (name : String) (initializer : Expression) (line : Nat)
  | print (expression : Expression) (newline : Bool)
  | block (statements : List Statement)
  | branch (condition : Expression) (thenBranch : Statement) (elseBranch : Option Statement)
  | loop (start : Option Statement) (condition : Expression) (step : Option Statement)
      (body : Statement)
deriving BEq, Repr

abbrev Program := List Statement

end LineScript
