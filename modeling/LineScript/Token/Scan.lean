import LineScript.Diagnostic
import LineScript.Token.Lexeme

/-!
From source text to tokens.

`Scan.ofText` counts lines over the pieces of a text, keeps the tokens and collects the lexical
errors.  Scanning never stops early: the tokens around an error are kept.
-/

set_option autoImplicit false

namespace LineScript

inductive LexicalError where
  | unrecognizedSymbol (symbol : Char) (line : Nat)
  /-- A string literal that runs across a line break, or is still open at the end. -/
  | unterminatedString (line : Nat)
  | integerTooLarge (literal : String) (line : Nat)
  | decimalTooLarge (literal : String) (line : Nat)
deriving DecidableEq, Repr

namespace LexicalError

def message : LexicalError → String
  | unrecognizedSymbol symbol _ => "Could not recognize symbol \"" ++ symbol.toString ++ "\""
  | unterminatedString _ => "Unterminated string"
  | integerTooLarge literal _ => "Integer literal " ++ literal ++ " is too large"
  | decimalTooLarge literal _ => "Decimal literal " ++ literal ++ " is too large"

def line : LexicalError → Nat
  | unrecognizedSymbol _ line | unterminatedString line | integerTooLarge _ line
  | decimalTooLarge _ line => line

def toDiagnostic (error : LexicalError) : Diagnostic :=
  ⟨.error, error.message, some error.line⟩

end LexicalError

structure Scan where
  tokens : List Token
  errors : List LexicalError
deriving DecidableEq, Repr

namespace Scan

def addToken (token : Token) (scan : Scan) : Scan :=
  { scan with tokens := token :: scan.tokens }

def addErrors (errors : List LexicalError) (scan : Scan) : Scan :=
  { scan with errors := errors ++ scan.errors }

/-- The errors of a string literal that starts on `line`: one for each line it runs into, and one
more on its last line if it never closes. -/
def quotedErrors (line : Nat) (literal : QuotedText) : List LexicalError :=
  (List.range literal.lineBreaks).map (fun index => .unterminatedString (line + index + 1)) ++
    if literal.closed then [] else [.unterminatedString (line + literal.lineBreaks)]

/-- The scan of pieces that start on `line`.  `lineOpen` says whether the line has a token that no
line end has closed yet; only then does a line break give a token. -/
def ofLexemes (line : Nat) (lineOpen : Bool) : List Lexeme → Scan
  | [] => ⟨[.plain .inputEnd line], []⟩
  | .blank :: rest => ofLexemes line lineOpen rest
  | .lineBreak :: rest =>
    if lineOpen then addToken (.plain .lineEnd line) (ofLexemes (line + 1) false rest)
    else ofLexemes (line + 1) false rest
  | .token kind payload :: rest => addToken ⟨kind, payload, line⟩ (ofLexemes line true rest)
  | .quoted literal :: rest =>
    addErrors (quotedErrors line literal)
      (if literal.closed then
        addToken ⟨.stringLiteral, some (.text (String.ofList literal.content)), line⟩
          (ofLexemes (line + literal.lineBreaks) true rest)
      else ofLexemes (line + literal.lineBreaks) lineOpen rest)
  | .unknownSymbol symbol :: rest =>
    addErrors [.unrecognizedSymbol symbol line] (ofLexemes line lineOpen rest)
  | .hugeInteger digits :: rest =>
    addErrors [.integerTooLarge (String.ofList digits) line] (ofLexemes line lineOpen rest)
  | .hugeDecimal literal :: rest =>
    addErrors [.decimalTooLarge (String.ofList literal) line] (ofLexemes line lineOpen rest)

/-- The scan of a source text; its lines count from one. -/
def ofText (source : String) : Scan :=
  ofLexemes 1 false (Lexeme.split source.toList)

def diagnostics (scan : Scan) : Diagnostics :=
  scan.errors.map LexicalError.toDiagnostic

end Scan

end LineScript
