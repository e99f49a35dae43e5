import LineScript.Token.Basic

/-!
Where in the grammar the validator stands between two tokens.
-/

set_option autoImplicit false

namespace LineScript

namespace Validation

inductive Site where
  | line
  | loopStart
deriving DecidableEq, Repr

/-- What an expression belongs to, which decides how it ends. -/
inductive Clause where
  /-- A statement of its own, or the end of one. -/
  | line
  | condition
  | loopStart
  | loopCondition
  | loopStep
deriving DecidableEq, Repr

namespace Clause

/-- The token that is asked for when a clause does not end as it should. -/
def terminator : Clause → TokenKind
  | line => .lineEnd
  | condition => .leftBrace
  | loopStart | loopCondition => .semicolon
  | loopStep => .rightParen

/-- Whether a token ends a clause, parentheses left open or not.  The parenthesis that ends a loop
step is told from a matching one by count, and is not among these. -/
def endsWith : Clause → TokenKind → Bool
  | line, .lineEnd | line, .inputEnd | line, .rightBrace => true
  | condition, .leftBrace => true
  | loopStart, .semicolon | loopCondition, .semicolon => true
  | _, _ => false

end Clause

def Site.clause : Site → Clause
  | line => .line
  | loopStart => .loopStart

/-- What an open brace belongs to. -/
inductive Brace where
  | block
  | loop
  /-- The body of an `if`: only behind its end may `else` stand. -/
  | branch
deriving DecidableEq, Repr

/-- Where the next token stands.  Most places are named for what is due there. -/
inductive Position where
  /-- Before a statement, an empty line, a closing brace or the end. -/
  | boundary
  | declaredName (site : Site)
  | declaredEqual (site : Site)
  | printStart
  | operand (clause : Clause)
  /-- Behind an operand; `assignable` while the statement so far is a bare name. -/
  | operator (clause : Clause) (assignable : Bool)
  | loopOpen
  | loopStart
  | loopStep
  | loopStepEqual
  | loopBody
  /-- Behind a closing brace; `afterBranch` if it was that of an `if` body. -/
  | closed (afterBranch : Bool)
  | elseArm
  | done
deriving DecidableEq, Repr

end Validation

end LineScript
