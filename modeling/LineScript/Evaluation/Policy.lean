import LineScript.Evaluation.RuntimeError

/-!
How a walk over a program treats conditions, loops and faults.

Checking and running a program walk the same trees by the same rules; they differ in the decisions
made here and in whether anything is printed.
-/

set_option autoImplicit false

namespace LineScript

inductive Policy where
  /-- Visit every statement once, whatever the values, to find the errors that hang on kinds. -/
  | check
  /-- Do what the program says, for at most `passLimit` passes of any one loop. -/
  | execute (passLimit : Nat)
deriving DecidableEq, Repr

namespace Policy

def visitsThen : Policy → (holds : Bool) → Bool
  | check, _ => true
  | execute _, holds => holds

def visitsElse : Policy → (holds : Bool) → Bool
  | check, _ => true
  | execute _, holds => !holds

/-- Whether a loop makes another pass after `passes` of them: one is enough for a check. -/
def repeats : Policy → (holds : Bool) → (passes : Nat) → Bool
  | check, _, passes => passes = 0
  | execute _, holds, _ => holds

def passLimit : Policy → Nat
  | check => 1
  | execute passLimit => passLimit

/-- What becomes of an operator's result.  To a check a fault of values says nothing, and an integer
stands in for the result. -/
def absorb : Policy → Except RuntimeError Value → Except RuntimeError Value
  | check, .error error => if error.isValueFault then .ok (.int 0) else .error error
  | _, result => result

end Policy

end LineScript
