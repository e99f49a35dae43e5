import LineScript.Token.Basic

/-!
Operators: their spelling, their families and how tightly they bind.
-/

set_option autoImplicit false

namespace LineScript

inductive Arithmetic where
  | add
  | subtract
  | multiply
  | divide
  | remainder
deriving DecidableEq, Repr

inductive Comparison where
  | less
  | lessEqual
  | greater
  | greaterEqual
  | equal
  | notEqual
deriving DecidableEq, Repr

inductive Connective where
  | and
  | or
deriving DecidableEq, Repr

inductive BinaryOperator where
  | arithmetic (operator : Arithmetic)
  | comparison (operator : Comparison)
  | connective (operator : Connective)
deriving DecidableEq, Repr

inductive UnaryOperator where
  | negate
  | not
deriving DecidableEq, Repr

/-- Levels of precedence, from the loosest to the tightest. -/
inductive Level where
  | disjunction
  | conjunction
  | equality
  | relation
  | sum
  | product
deriving DecidableEq, Repr

namespace Level

/-- The level whose expressions are the operands of this one; the operands of products are unary
expressions. -/
def tighter : Level → Option Level
  | disjunction => some conjunction
  | conjunction => some equality
  | equality => some relation
  | relation => some sum
  | sum => some product
  | product => none

/-- How many levels bind at least as tightly. -/
def rank : Level → Nat
  | disjunction => 6
  | conjunction => 5
  | equality => 4
  | relation => 3
  | sum => 2
  | product => 1

theorem rank_tighter_lt {level next : Level} (tighter : level.tighter = some next) :
    next.rank < level.rank := by
  cases level <;> simp [Level.tighter] at tighter <;> subst tighter <;> decide

theorem rank_pos (level : Level) : 0 < level.rank := by
  cases level <;> decide

end Level

namespace Arithmetic

def spelling : Arithmetic → String
  | add => "+"
  | subtract => "-"
  | multiply => "*"
  | divide => "/"
  | remainder => "%"

def level : Arithmetic → Level
  | add | subtract => .sum
  | multiply | divide | remainder => .product

end Arithmetic

namespace Comparison

def spelling : Comparison → String
  | less => "<"
  | lessEqual => "<="
  | greater => ">"
  | greaterEqual => ">="
  | equal => "=="
  | notEqual => "!="

def level : Comparison → Level
  | less | lessEqual | greater | greaterEqual => .relation
  | equal | notEqual => .equality

end Comparison

namespace Connective

def spelling : Connective → String
  | and => "and"
  | or => "or"

def level : Connective → Level
  | and => .conjunction
  | or => .disjunction

end Connective

namespace BinaryOperator

def spelling : BinaryOperator → String
  | arithmetic operator => operator.spelling
  | comparison operator => operator.spelling
  | connective operator => operator.spelling

def level : BinaryOperator → Level
  | arithmetic operator => operator.level
  | comparison operator => operator.level
  | connective operator => operator.level

def ofKind? : TokenKind → Option BinaryOperator
  | .plus => some (arithmetic .add)
  | .minus => some (arithmetic .subtract)
  | .star => some (arithmetic .multiply)
  | .slash => some (arithmetic .divide)
  | .percent => some (arithmetic .remainder)
  | .less => some (comparison .less)
  | .lessEqual => some (comparison .lessEqual)
  | .greater => some (comparison .greater)
  | .greaterEqual => some (comparison .greaterEqual)
  | .equalEqual => some (comparison .equal)
  | .notEqual => some (comparison .notEqual)
  | .andWord => some (connective .and)
  | .orWord => some (connective .or)
  | _ => none

theorem isSome_ofKind? (kind : TokenKind) : (ofKind? kind).isSome = kind.isBinaryOperator := by
  cases kind <;> rfl

end BinaryOperator

namespace UnaryOperator

def spelling : UnaryOperator → String
  | negate => "-"
  | not => "not"

def ofKind? : TokenKind → Option UnaryOperator
  | .minus => some negate
  | .notWord => some not
  | _ => none

theorem isSome_ofKind? (kind : TokenKind) : (ofKind? kind).isSome = kind.isUnaryOperator := by
  cases kind <;> rfl

end UnaryOperator

end LineScript
