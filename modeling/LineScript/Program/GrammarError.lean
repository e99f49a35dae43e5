import LineScript.Diagnostic
import LineScript.Token.Basic

/-!
What can be wrong with the arrangement of tokens and with the names they use.
-/

set_option autoImplicit false

namespace LineScript

/-- What would have been right where another token stands. -/
inductive Expectation where
  | token (kind : TokenKind)
  | variableName
  | varOrSemicolon
  | nameOrRightParen
  | ifOrLeftBrace
deriving DecidableEq, Repr

def Expectation.describe : Expectation → String
  | token kind => kind.describe
  | variableName => "variable name"
  | varOrSemicolon => TokenKind.varWord.describe ++ " or " ++ TokenKind.semicolon.describe
  | nameOrRightParen => "variable name or " ++ TokenKind.rightParen.describe
  | ifOrLeftBrace => TokenKind.ifWord.describe ++ " or " ++ TokenKind.leftBrace.describe

inductive GrammarError where
  | expected (expectation : Expectation) (found : TokenKind) (line : Nat)
  | expectedExpression (found : TokenKind) (line : Nat)
  | undefinedVariable (name : String) (line : Nat)
  /-- A second declaration of a name in one scope. -/
  | nameReserved (name : String) (line : Nat)
  | danglingElse (line : Nat)
  /-- A brace or parenthesis whose partner is missing. -/
  | unbalanced (missing : TokenKind) (line : Nat)
  | invalidAssignmentTarget (line : Nat)
  /-- The tokens ran out without an end-of-input token; there is no line to blame. -/
  | unexpectedEndOfInput
deriving DecidableEq, Repr

namespace GrammarError

def message : GrammarError → String
  | expected expectation found _ =>
    "Expected " ++ expectation.describe ++ ", but found " ++ found.describe
  | expectedExpression found _ => "Expected expression, but found " ++ found.describe
  | undefinedVariable name _ => "Undefined variable name \"" ++ name ++ "\""
  | nameReserved name _ => "Such variable name \"" ++ name ++ "\" reserved"
  | danglingElse _ => "Could not find an if statement for this else branch"
  | unbalanced missing _ => "Expected " ++ missing.describe ++ ", but not found"
  | invalidAssignmentTarget _ => "Invalid assignment target"
  | unexpectedEndOfInput => "Unexpected end of input"

def line : GrammarError → Nat
  | expected _ _ line | expectedExpression _ line | undefinedVariable _ line
  | nameReserved _ line | danglingElse line | unbalanced _ line
  | invalidAssignmentTarget line => line
  | unexpectedEndOfInput => 0

def toDiagnostic (error : GrammarError) : Diagnostic :=
  ⟨.error, error.message, some error.line⟩

end GrammarError

end LineScript
