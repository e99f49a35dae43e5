import LineScript.Decimal.Rounding
import LineScript.Digits
import LineScript.Token.Basic

/-!
Lexemes: the pieces a source text falls into.

`Lexeme.first` takes the longest piece from the front of a text and leaves the rest;
`Lexeme.split` repeats that to the end.  Blanks and comments are pieces too, and so is a character
that starts nothing, so every text falls into pieces.  Lines are not counted here.
-/

set_option autoImplicit false

namespace LineScript

/-- A string literal as written between its quotes. -/
structure QuotedText where
  content : List Char
  /-- How many line breaks the literal runs across. -/
  lineBreaks : Nat
  closed : Bool
deriving DecidableEq, Repr

inductive Lexeme where
  | blank
  | lineBreak
  | token (kind : TokenKind) (payload : Option Payload)
  | quoted (literal : QuotedText)
  | unknownSymbol (symbol : Char)
  /-- Digits whose value is above every integer. -/
  | hugeInteger (digits : List Char)
  /-- A decimal literal beyond every finite decimal; a point without a digit on either side is
  reported the same way. -/
  | hugeDecimal (literal : List Char)
deriving DecidableEq, Repr

namespace Lexeme

def isBlank (character : Char) : Bool :=
  character = ' ' || character = '\t' || character = '\r'

def startsName (character : Char) : Bool :=
  character.isAlpha || character = '_'

def continuesName (character : Char) : Bool :=
  character.isAlphanum || character = '_'

/-- The reserved words; every other name is an identifier. -/
def wordKind? : List Char → Option TokenKind
  | ['t', 'r', 'u', 'e'] => some .trueWord
  | ['f', 'a', 'l', 's', 'e'] => some .falseWord
  | ['v', 'a', 'r'] => some .varWord
  | ['f', 'o', 'r'] => some .forWord
  | ['i', 'f'] => some .ifWord
  | ['e', 'l', 's', 'e'] => some .elseWord
  | ['p', 'r', 'i', 'n', 't'] => some .printWord
  | ['p', 'r', 'i', 'n', 't', 'l', 'n'] => some .printlnWord
  | ['n', 'o', 't'] => some .notWord
  | ['a', 'n', 'd'] => some .andWord
  | ['o', 'r'] => some .orWord
  | _ => none

def ofWord (word : List Char) : Lexeme :=
  match wordKind? word with
  | some kind => .token kind none
  | none => .token .identifier (some (.text (String.ofList word)))

def ofDigits (digits : List Char) : Lexeme :=
  if digitsValue digits < 1 <<< 63 then
    .token .integerLiteral (some (.integer (Int64.ofInt (digitsValue digits))))
  else .hugeInteger digits

def ofDecimalDigits (whole fraction : List Char) : Lexeme :=
  let decimal := Decimal.ofNumeral false
    ⟨digitsValue (whole ++ fraction), -(fraction.length : Int)⟩
  if decimal.isFinite then .token .decimalLiteral (some (.decimal decimal))
  else .hugeDecimal (whole ++ '.' :: fraction)

/-- A number: digits, and if a point and another digit follow, those and the digits after. -/
def takeNumber (text : List Char) : Lexeme × List Char :=
  let whole := text.takeWhile Char.isDigit
  let rest := text.dropWhile Char.isDigit
  match rest with
  | '.' :: digit :: more =>
    if digit.isDigit then
      (ofDecimalDigits whole ((digit :: more).takeWhile Char.isDigit),
        (digit :: more).dropWhile Char.isDigit)
    else (ofDigits whole, rest)
  | _ => (ofDigits whole, rest)

namespace Quoted

def push (character : Char) (literal : QuotedText) : QuotedText :=
  { literal with content := character :: literal.content }

def pushLineBreak (literal : QuotedText) : QuotedText :=
  { literal with content := '\n' :: literal.content, lineBreaks := literal.lineBreaks + 1 }

end Quoted

/-- A string literal from behind its opening quote, and the text behind its closing one.

The escapes stand for a line break, a tab, a quote and a backslash.  A backslash before a line
break is dropped, before any other character it is kept, and at the very end of the text it is
dropped. -/
def takeQuoted : List Char → QuotedText × List Char
  | [] => (⟨[], 0, false⟩, [])
  | '"' :: rest => (⟨[], 0, true⟩, rest)
  | ['\\'] => (⟨[], 0, false⟩, [])
  | '\\' :: 'n' :: rest => ((takeQuoted rest).map (Quoted.push '\n') id)
  | '\\' :: 't' :: rest => ((takeQuoted rest).map (Quoted.push '\t') id)
  | '\\' :: '"' :: rest => ((takeQuoted rest).map (Quoted.push '"') id)
  | '\\' :: '\\' :: rest => ((takeQuoted rest).map (Quoted.push '\\') id)
  | '\\' :: '\n' :: rest => ((takeQuoted rest).map Quoted.pushLineBreak id)
  | '\\' :: other :: rest =>
    ((takeQuoted rest).map (fun literal => Quoted.push '\\' (Quoted.push other literal)) id)
  | '\n' :: rest => ((takeQuoted rest).map Quoted.pushLineBreak id)
  | other :: rest => ((takeQuoted rest).map (Quoted.push other) id)

/-- One of two kinds, the longer if an equals sign follows. -/
def withEqual (longer : TokenKind) (shorter : Lexeme) : List Char → Lexeme × List Char
  | '=' :: rest => (.token longer none, rest)
  | rest => (shorter, rest)

/-- The longest piece at the front of the text `head :: tail`, and the text behind it. -/
def first (head : Char) (tail : List Char) : Lexeme × List Char :=
  if head = '\n' then (.lineBreak, tail)
  else if isBlank head then (.blank, tail.dropWhile isBlank)
  else if startsName head then
    (ofWord (head :: tail.takeWhile continuesName), tail.dropWhile continuesName)
  else if head.isDigit then takeNumber (head :: tail)
  else
    match head with
    | '"' => (takeQuoted tail).map .quoted id
    | '(' => (.token .leftParen none, tail)
    | ')' => (.token .rightParen none, tail)
    | '\x7b' => (.token .leftBrace none, tail)
    | '\x7d' => (.token .rightBrace none, tail)
    | ';' => (.token .semicolon none, tail)
    | '+' => (.token .plus none, tail)
    | '-' => (.token .minus none, tail)
    | '*' => (.token .star none, tail)
    | '/' =>
      match tail with
      | '/' :: comment => (.blank, comment.dropWhile (· != '\n'))
      | _ => (.token .slash none, tail)
    | '%' => (.token .percent none, tail)
    | '=' => withEqual .equalEqual (.token .equal none) tail
    | '!' => withEqual .notEqual (.unknownSymbol '!') tail
    | '<' => withEqual .lessEqual (.token .less none) tail
    | '>' => withEqual .greaterEqual (.token .greater none) tail
    | '.' => (.hugeDecimal ['.'], tail)
    | symbol => (.unknownSymbol symbol, tail)

/-! ## Every piece uses up the character it starts with -/

private theorem length_takeQuoted_le (text : List Char) :
    (takeQuoted text).2.length ≤ text.length := by
  fun_induction takeQuoted text <;> simp_all <;> omega

private theorem length_takeNumber_lt {head : Char} {tail : List Char} (digit : head.isDigit) :
    (takeNumber (head :: tail)).2.length ≤ tail.length := by
  have rest : ((head :: tail).dropWhile Char.isDigit).length ≤ tail.length := by
    rw [List.dropWhile_cons_of_pos digit]
    exact (List.dropWhile_sublist _).length_le
  unfold takeNumber
  dsimp only
  split
  · next next more split =>
    rw [split] at rest
    split
    · have behind : ((next :: more).dropWhile Char.isDigit).length ≤ (next :: more).length :=
        (List.dropWhile_sublist _).length_le
      simp only [List.length_cons] at behind rest ⊢
      omega
    · rw [split]
      exact rest
  · exact rest

private theorem length_withEqual_le (longer : TokenKind) (shorter : Lexeme) (tail : List Char) :
    (withEqual longer shorter tail).2.length ≤ tail.length := by
  unfold withEqual
  split <;> simp

theorem length_first_le (head : Char) (tail : List Char) :
    (first head tail).2.length ≤ tail.length := by
  unfold first
  split
  · simp
  split
  · exact (List.dropWhile_sublist _).length_le
  split
  · exact (List.dropWhile_sublist _).length_le
  split
  · exact length_takeNumber_lt (by assumption)
  split <;> try exact Nat.le_refl _
  · exact length_takeQuoted_le tail
  · split
    · exact Nat.le_succ_of_le (List.dropWhile_sublist _).length_le
    · exact Nat.le_refl _
  all_goals exact length_withEqual_le _ _ _

def split (text : List Char) : List Lexeme :=
  match text with
  | [] => []
  | head :: tail => (first head tail).1 :: split (first head tail).2
termination_by text.length
decreasing_by
  exact Nat.lt_succ_of_le (length_first_le head tail)

end Lexeme

end LineScript
