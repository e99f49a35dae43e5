import LineScript.Decimal.Basic

/-!
Tokens of a source text.

A token is a kind, a payload for names and literals, and the line it starts on.  Kinds and
payloads are independent: a list of tokens may be given by hand, and nothing stops such a list
from holding a name without its text.

Here and in every other module, a brace that is text is written by its code, `\x7b` for the opening
and `\x7d` for the closing one.  So the braces of a file pair up, also where a source or a JSON text
holds only one of two.
-/

set_option autoImplicit false

namespace LineScript

/-- What a token is, apart from the value of a literal or the spelling of a name. -/
inductive TokenKind where
  | leftParen
  | rightParen
  | leftBrace
  | rightBrace
  | semicolon
  | equal
  | plus
  | minus
  | star
  | slash
  | percent
  | less
  | lessEqual
  | greater
  | greaterEqual
  | equalEqual
  | notEqual
  | notWord
  | andWord
  | orWord
  | identifier
  | stringLiteral
  | integerLiteral
  | decimalLiteral
  | trueWord
  | falseWord
  | printWord
  | printlnWord
  | varWord
  | forWord
  | ifWord
  | elseWord
  /-- The end of a line that holds at least one token. -/
  | lineEnd
  | inputEnd
deriving DecidableEq, Repr

namespace TokenKind

/-- The text of a kind that is always written the same way. -/
def spelling? : TokenKind → Option String
  | leftParen => some "("
  | rightParen => some ")"
  | leftBrace => some "\x7b"
  | rightBrace => some "\x7d"
  | semicolon => some ";"
  | equal => some "="
  | plus => some "+"
  | minus => some "-"
  | star => some "*"
  | slash => some "/"
  | percent => some "%"
  | less => some "<"
  | lessEqual => some "<="
  | greater => some ">"
  | greaterEqual => some ">="
  | equalEqual => some "=="
  | notEqual => some "!="
  | notWord => some "not"
  | andWord => some "and"
  | orWord => some "or"
  | trueWord => some "true"
  | falseWord => some "false"
  | printWord => some "print"
  | printlnWord => some "println"
  | varWord => some "var"
  | forWord => some "for"
  | ifWord => some "if"
  | elseWord => some "else"
  | identifier | stringLiteral | integerLiteral | decimalLiteral | lineEnd | inputEnd => none

/-- How messages name a kind: its spelling in quotes, or a description. -/
def describe (kind : TokenKind) : String :=
  match kind.spelling? with
  | some spelling => "\"" ++ spelling ++ "\""
  | none =>
    match kind with
    | identifier => "identifier"
    | stringLiteral => "string literal"
    | integerLiteral => "integer literal"
    | decimalLiteral => "decimal literal"
    | lineEnd => "end of line"
    | _ => "end of input"

/-- Kinds that are complete operands. -/
def isLiteral : TokenKind → Bool
  | integerLiteral | decimalLiteral | stringLiteral | trueWord | falseWord => true
  | _ => false

def isUnaryOperator : TokenKind → Bool
  | notWord | minus => true
  | _ => false

def isBinaryOperator : TokenKind → Bool
  | plus | minus | star | slash | percent | less | lessEqual | greater | greaterEqual
  | equalEqual | notEqual | andWord | orWord => true
  | _ => false

end TokenKind

/-- The value of a literal, or the text of a name or string. -/
inductive Payload where
  | integer (value : Int64)
  | decimal (value : Decimal)
  | text (value : String)
deriving DecidableEq, Repr

structure Token where
  kind : TokenKind
  payload : Option Payload
  line : Nat
deriving DecidableEq, Repr

namespace Token

def plain (kind : TokenKind) (line : Nat) : Token :=
  ⟨kind, none, line⟩

/-- The text carried by a token; empty if it carries none. -/
def name (token : Token) : String :=
  match token.payload with
  | some (.text value) => value
  | _ => ""

end Token

end LineScript
