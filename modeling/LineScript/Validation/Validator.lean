import LineScript.Program.GrammarError
import LineScript.Scope
import LineScript.Validation.Position

/-!
Validation of grammar and names, one token at a time.

A validator is a position in the grammar with a stack of open braces, a count of open parentheses
and the names declared so far.  `Validator.step` takes one token or refuses it; `Validator.recover`
gives up the rest of a refused line and keeps braces and scopes in step while doing so.
-/

set_option autoImplicit false

namespace LineScript

namespace Validation

structure Validator where
  position : Position
  /-- The open braces, innermost first. -/
  braces : List Brace
  /-- How many parentheses are open in the current expression. -/
  parens : Nat
  scopes : NameScopes
  /-- The name of a declaration that has not ended yet. -/
  pending : Option String
  /-- Whether a header's scope is open and its brace is not. -/
  headerOpen : Bool
deriving DecidableEq, Repr

namespace Validator

def fresh : Validator where
  position := .boundary
  braces := []
  parens := 0
  scopes := .empty
  pending := none
  headerOpen := false

def moveTo (position : Position) (validator : Validator) : Validator :=
  { validator with position := position }

/-- Declares the name of the declaration that ends here, if there is one. -/
def commit (validator : Validator) : Validator :=
  match validator.pending with
  | none => validator
  | some name => { validator with scopes := validator.scopes.declare name, pending := none }

/-- Opens the scope of a header, whose brace comes later. -/
def openHeader (position : Position) (validator : Validator) : Validator :=
  { validator with
    position := position, scopes := validator.scopes.enter [], headerOpen := true }

/-- Opens a brace.  A body shares the scope that its header opened. -/
def openBrace (brace : Brace) (validator : Validator) : Validator :=
  { validator with
    position := .boundary
    braces := brace :: validator.braces
    scopes := if validator.headerOpen then validator.scopes else validator.scopes.enter []
    headerOpen := false }

def closeBrace (line : Nat) (validator : Validator) : Except GrammarError Validator :=
  match validator.braces with
  | [] => .error (.unbalanced .leftBrace line)
  | brace :: others =>
    .ok { validator with
      position := .closed (brace = .branch), braces := others, scopes := validator.scopes.leave }

def finish (line : Nat) (validator : Validator) : Except GrammarError Validator :=
  match validator.braces with
  | [] => .ok (validator.moveTo .done)
  | _ :: _ => .error (.unbalanced .rightBrace line)

/-- Ends a statement at the end of its line, at a closing brace or at the end of input. -/
def endLine (token : Token) (validator : Validator) : Except GrammarError Validator :=
  match token.kind with
  | .inputEnd => validator.commit.finish token.line
  | .rightBrace => validator.commit.closeBrace token.line
  | _ => .ok (validator.commit.moveTo .boundary)

/-- Moves on from the use of a name, which must be visible. -/
def useName (token : Token) (position : Position) (validator : Validator) :
    Except GrammarError Validator :=
  if validator.scopes.isVisible token.name then .ok (validator.moveTo position)
  else .error (.undefinedVariable token.name token.line)

/-- Moves on from the name of a declaration, which must be new in its scope. -/
def declareName (token : Token) (site : Site) (validator : Validator) :
    Except GrammarError Validator :=
  if validator.scopes.declaredHere token.name then .error (.nameReserved token.name token.line)
  else .ok { validator with position := .declaredEqual site, pending := some token.name }

def stepOperand (clause : Clause) (token : Token) (validator : Validator) :
    Except GrammarError Validator :=
  if token.kind = .leftParen then
    .ok { validator with position := .operand clause, parens := validator.parens + 1 }
  else if token.kind.isUnaryOperator then .ok (validator.moveTo (.operand clause))
  else if token.kind = .identifier then validator.useName token (.operator clause false)
  else if token.kind.isLiteral then .ok (validator.moveTo (.operator clause false))
  else .error (.expectedExpression token.kind token.line)

/-- The end of a clause, once its parentheses are closed.  The value of a loop step ends with the
parenthesis of its header, which `closeParen` takes. -/
def endClause (clause : Clause) (token : Token) (validator : Validator) :
    Except GrammarError Validator :=
  match clause with
  | .line => validator.endLine token
  | .condition => .ok (validator.openBrace .branch)
  | .loopStart => .ok (validator.commit.moveTo (.operand .loopCondition))
  | .loopCondition | .loopStep => .ok (validator.moveTo .loopStep)

def closeParen (clause : Clause) (line : Nat) (validator : Validator) :
    Except GrammarError Validator :=
  if 0 < validator.parens then
    .ok { validator with position := .operator clause false, parens := validator.parens - 1 }
  else if clause = .loopStep then .ok (validator.moveTo .loopBody)
  else .error (.unbalanced .leftParen line)

def stepOperator (clause : Clause) (assignable : Bool) (token : Token) (validator : Validator) :
    Except GrammarError Validator :=
  if token.kind.isBinaryOperator then .ok (validator.moveTo (.operand clause))
  else if token.kind = .rightParen then validator.closeParen clause token.line
  else if token.kind = .equal then
    if clause = .line ∧ assignable then .ok (validator.moveTo (.operand clause))
    else .error (.invalidAssignmentTarget token.line)
  else if clause.endsWith token.kind then
    if 0 < validator.parens then .error (.unbalanced .rightParen token.line)
    else validator.endClause clause token
  else .error (.expected (.token clause.terminator) token.kind token.line)

def stepBoundary (token : Token) (validator : Validator) : Except GrammarError Validator :=
  match token.kind with
  | .lineEnd => .ok validator
  | .inputEnd => validator.finish token.line
  | .varWord => .ok (validator.moveTo (.declaredName .line))
  | .printWord | .printlnWord => .ok (validator.moveTo .printStart)
  | .ifWord => .ok (validator.openHeader (.operand .condition))
  | .forWord => .ok (validator.openHeader .loopOpen)
  | .leftBrace => .ok (validator.openBrace .block)
  | .rightBrace => validator.closeBrace token.line
  | .elseWord => .error (.danglingElse token.line)
  | .identifier => validator.useName token (.operator .line true)
  | _ => validator.stepOperand .line token

def stepPrint (token : Token) (validator : Validator) : Except GrammarError Validator :=
  match token.kind with
  | .lineEnd | .inputEnd | .rightBrace => validator.endLine token
  | .identifier => validator.useName token (.operator .line true)
  | _ => validator.stepOperand .line token

def stepClosed (afterBranch : Bool) (token : Token) (validator : Validator) :
    Except GrammarError Validator :=
  match token.kind with
  | .lineEnd => .ok (validator.moveTo .boundary)
  | .inputEnd => validator.finish token.line
  | .rightBrace => validator.closeBrace token.line
  | .elseWord =>
    if afterBranch then .ok (validator.moveTo .elseArm) else .error (.danglingElse token.line)
  | found => .error (.expected (.token .lineEnd) found token.line)

/-- The validator after one more token, or the reason to refuse it. -/
def step (token : Token) (validator : Validator) : Except GrammarError Validator :=
  let refuse (expectation : Expectation) : Except GrammarError Validator :=
    .error (.expected expectation token.kind token.line)
  match validator.position with
  | .done => .ok validator
  | .boundary => validator.stepBoundary token
  | .declaredName site =>
    if token.kind = .identifier then validator.declareName token site else refuse .variableName
  | .declaredEqual site =>
    if token.kind = .equal then .ok (validator.moveTo (.operand site.clause))
    else refuse (.token .equal)
  | .printStart => validator.stepPrint token
  | .operand clause => validator.stepOperand clause token
  | .operator clause assignable => validator.stepOperator clause assignable token
  | .loopOpen =>
    if token.kind = .leftParen then .ok (validator.moveTo .loopStart)
    else refuse (.token .leftParen)
  | .loopStart =>
    if token.kind = .varWord then .ok (validator.moveTo (.declaredName .loopStart))
    else if token.kind = .semicolon then .ok (validator.moveTo (.operand .loopCondition))
    else refuse .varOrSemicolon
  | .loopStep =>
    if token.kind = .identifier then validator.useName token .loopStepEqual
    else if token.kind = .rightParen then .ok (validator.moveTo .loopBody)
    else refuse .nameOrRightParen
  | .loopStepEqual =>
    if token.kind = .equal then .ok (validator.moveTo (.operand .loopStep))
    else refuse (.token .equal)
  | .loopBody =>
    if token.kind = .leftBrace then .ok (validator.openBrace .loop) else refuse (.token .leftBrace)
  | .closed afterBranch => validator.stepClosed afterBranch token
  | .elseArm =>
    if token.kind = .ifWord then .ok (validator.openHeader (.operand .condition))
    else if token.kind = .leftBrace then .ok (validator.openBrace .block)
    else refuse .ifOrLeftBrace

/-! ## Recovery -/

/-- Leaves a refused statement.  A declaration cut short still declares its name, and a header
without a body closes its scope. -/
def abandon (validator : Validator) : Validator :=
  let committed := validator.commit
  { committed with
    position := .boundary
    parens := 0
    scopes := if committed.headerOpen then committed.scopes.leave else committed.scopes
    headerOpen := false }

/-- Passes over tokens to the end of their line, keeping braces and scopes in step with every brace
passed.  The end of input ends everything. -/
def skipLine (validator : Validator) : List Token → Validator × List Token
  | [] => (validator, [])
  | token :: tail =>
    match token.kind with
    | .lineEnd => (validator, tail)
    | .inputEnd => (validator, [])
    | .leftBrace =>
      skipLine { validator with
        braces := .block :: validator.braces, scopes := validator.scopes.enter [] } tail
    | .rightBrace =>
      match validator.braces with
      | [] => skipLine validator tail
      | _ :: others =>
        skipLine { validator with braces := others, scopes := validator.scopes.leave } tail
    | _ => skipLine validator tail

/-- The validator and the tokens to go on with after a token was refused; that token is the first of
`tokens`. -/
def recover (validator : Validator) (tokens : List Token) : Validator × List Token :=
  validator.abandon.skipLine tokens

private theorem length_skipLine_le (validator : Validator) (tokens : List Token) :
    (validator.skipLine tokens).2.length ≤ tokens.length := by
  fun_induction skipLine validator tokens <;> simp_all <;> omega

/-- Recovery passes over the refused token at least. -/
theorem length_recover_lt (validator : Validator) (token : Token) (tail : List Token) :
    (validator.recover (token :: tail)).2.length < (token :: tail).length := by
  unfold recover skipLine
  refine Nat.lt_succ_of_le ?_
  split
  · exact Nat.le_refl _
  · exact Nat.zero_le _
  · exact length_skipLine_le _ _
  · split <;> exact length_skipLine_le _ _
  · exact length_skipLine_le _ _

/-- The errors of all tokens.  Tokens behind the accepted end of input are not looked at. -/
def errors (validator : Validator) (tokens : List Token) : List GrammarError :=
  match tokens with
  | [] => []
  | token :: tail =>
    match validator.step token with
    | .ok next => if next.position = .done then [] else next.errors tail
    | .error error =>
      error :: (validator.recover (token :: tail)).1.errors (validator.recover (token :: tail)).2
termination_by tokens.length
decreasing_by
  · exact Nat.lt_succ_self _
  · exact length_recover_lt validator token tail

end Validator

end Validation

/-- What is wrong with the grammar and the names of a token list; nothing if it is valid. -/
def validate (tokens : List Token) : List GrammarError :=
  Validation.Validator.fresh.errors tokens

end LineScript
