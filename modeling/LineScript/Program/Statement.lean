import LineScript.Program.Expression

/-!
Reading statements and whole programs.

A statement that cannot be read is recorded, the tokens up to the next line (or brace) are given
up, and reading goes on, so one broken line costs no other.
-/

set_option autoImplicit false

namespace LineScript

/-- The tokens after the rest of a broken statement is given up: those behind the next line end, or
from the next brace that a statement list has to see, or from the end of input. -/
def synchronize (nested : Bool) : List Token → List Token
  | [] => []
  | token :: tail =>
    match token.kind with
    | .lineEnd => tail
    | .leftBrace | .inputEnd => token :: tail
    | .rightBrace => if nested then token :: tail else synchronize nested tail
    | _ => synchronize nested tail

private theorem length_synchronize_le (nested : Bool) (tokens : List Token) :
    (synchronize nested tokens).length ≤ tokens.length := by
  induction tokens with
  | nil => exact Nat.le_refl _
  | cons token tail ih =>
    unfold synchronize
    split
    · exact Nat.le_succ _
    · exact Nat.le_refl _
    · exact Nat.le_refl _
    · split
      · exact Nat.le_refl _
      · exact Nat.le_succ_of_le ih
    · exact Nat.le_succ_of_le ih

/-- Where reading resumes after a statement failed with `rest` left.  The first token of the failed
statement is given up in any case, and `tail` is what stands behind it. -/
def resume (nested : Bool) (tail rest : List Token) : List Token :=
  synchronize nested (if rest.length ≤ tail.length then rest else tail)

theorem length_resume_le (nested : Bool) (tail rest : List Token) :
    (resume nested tail rest).length ≤ tail.length := by
  unfold resume
  refine Nat.le_trans (length_synchronize_le nested _) ?_
  split
  · assumption
  · exact Nat.le_refl _

/-- The statements read from a list of tokens, the errors recorded among them, and what is left. -/
structure Listing (limit : Nat) where
  statements : List Statement
  errors : List GrammarError
  rest : List Token
  bounded : rest.length ≤ limit

namespace Listing

variable {inner limit : Nat}

def stop (tokens : List Token) : Listing tokens.length :=
  ⟨[], [], tokens, length_le_self tokens⟩

def within (fits : inner ≤ limit) (listing : Listing inner) : Listing limit :=
  ⟨listing.statements, listing.errors, listing.rest, Nat.le_trans listing.bounded fits⟩

def prepend (statements : List Statement) (errors : List GrammarError) (listing : Listing limit) :
    Listing limit :=
  ⟨statements ++ listing.statements, errors ++ listing.errors, listing.rest, listing.bounded⟩

/-- The block of the statements listed, if its closing brace is next. -/
def close (opening : Token) (listing : Listing limit) : Recorded Statement limit :=
  ⟨match listing.rest, listing.bounded with
    | [], bounded => .failure (.unbalanced .rightBrace opening.line) [] bounded
    | token :: tail, bounded =>
      if token.kind = .rightBrace then .success (.block listing.statements) tail bounded
      else .failure (.unbalanced .rightBrace token.line) (token :: tail) bounded,
    listing.errors⟩

end Listing

namespace Statement

def readName (tokens : List Token) : Parsed (String × Nat) tokens.length :=
  (expect .identifier tokens).map fun token => (token.name, token.line)

def readDeclaration (tokens : List Token) : Parsed Statement tokens.length :=
  (expect .varWord tokens).bind fun _ rest _ =>
  (readName rest).bind fun target rest _ =>
  (expect .equal rest).bind fun _ rest _ =>
  (Expression.readLevel .disjunction rest).map fun initializer =>
    .declare target.1 initializer target.2

/-- The value behind a print keyword that stands on `line`; nothing there means the empty string. -/
def readPrinted (line limit : Nat) (tokens : List Token) (shorter : tokens.length < limit) :
    Parsed Expression limit :=
  match nextKind? tokens with
  | none | some .lineEnd | some .inputEnd | some .rightBrace =>
    .success (.literal (.string "") line) tokens shorter
  | some _ => (Expression.read tokens).within (length_le_of_lt shorter)

def readPrint (tokens : List Token) : Parsed Statement tokens.length :=
  match tokens with
  | [] => .failure .unexpectedEndOfInput [] length_nil_le
  | token :: tail =>
    (readPrinted token.line (token :: tail).length tail (length_tail_lt token tail)).map fun value =>
      .print value (token.kind = .printlnWord)

def readLoopStart (limit : Nat) (tokens : List Token) (shorter : tokens.length < limit) :
    Parsed (Option Statement) limit :=
  if nextKind? tokens = some .varWord then
    ((readDeclaration tokens).map some).within (length_le_of_lt shorter)
  else .success none tokens shorter

def readLoopStep (limit : Nat) (tokens : List Token) (shorter : tokens.length < limit) :
    Parsed (Option Statement) limit :=
  if nextKind? tokens = some .identifier then
    ((readName tokens).bind fun target rest _ =>
      (expect .equal rest).bind fun _ rest _ =>
      (Expression.readLevel .disjunction rest).map fun value =>
        some (.expression (.assign target.1 value target.2))).within (length_le_of_lt shorter)
  else .success none tokens shorter

/-- A loop around the body that is still to be read. -/
structure LoopHeader where
  start : Option Statement
  condition : Expression
  step : Option Statement

def readLoopHeader (tokens : List Token) : Parsed LoopHeader tokens.length :=
  (expect .forWord tokens).bind fun _ rest _ =>
  (expect .leftParen rest).andThen (length_le_self rest) fun _ opened shorter =>
  (readLoopStart rest.length opened shorter).bind fun start rest _ =>
  (expect .semicolon rest).bind fun _ rest _ =>
  (Expression.readLevel .disjunction rest).bind fun condition rest _ =>
  (expect .semicolon rest).andThen (length_le_self rest) fun _ opened shorter =>
  (readLoopStep rest.length opened shorter).bind fun step rest _ =>
  (expect .rightParen rest).map fun _ => ⟨start, condition, step⟩

/-- The loop with its body, in the block that scopes its variable. -/
def LoopHeader.around (header : LoopHeader) (body : Statement) : Statement :=
  .block [.loop header.start header.condition header.step body]

/-- Checks that a statement ends here.  A line end belongs to the statement; a closing brace and the
end of input are left to the list the statement stands in. -/
def readEnd (statement : Statement) (limit : Nat) (tokens : List Token)
    (shorter : tokens.length < limit) : Parsed Statement limit :=
  match tokens with
  | [] => .success statement [] shorter
  | token :: tail =>
    match token.kind with
    | .lineEnd => .success statement tail (Nat.lt_trans (Nat.lt_succ_self _) shorter)
    | .inputEnd | .rightBrace => .success statement (token :: tail) shorter
    | found =>
      .failure (.expected (.token .lineEnd) found token.line) (token :: tail) (Nat.le_of_lt shorter)

mutual

def read (tokens : List Token) : Recorded Statement tokens.length :=
  (readOpen tokens).andThen (Nat.le_refl _) fun statement rest shorter =>
    (readEnd statement tokens.length rest shorter).record
termination_by (tokens.length, 4)

/-- A statement without the end of its line, told by its first token. -/
def readOpen (tokens : List Token) : Recorded Statement tokens.length :=
  match nextKind? tokens with
  | some .varWord => (readDeclaration tokens).record
  | some .printWord | some .printlnWord => (readPrint tokens).record
  | some .ifWord => readBranch tokens
  | some .forWord => readLoop tokens
  | some .leftBrace => readBlock tokens
  | some .elseWord =>
    ((expect .elseWord tokens).andThen (Nat.le_refl _) fun token rest shorter =>
      .failure (.danglingElse token.line) rest (Nat.le_of_lt shorter)).record
  | _ => ((Expression.read tokens).map .expression).record
termination_by (tokens.length, 3)

/-- A condition, its block and the `else` arms that follow on the same line. -/
def readBranch (tokens : List Token) : Recorded Statement tokens.length :=
  (expect .ifWord tokens).record.bind fun _ rest _ =>
  (Expression.readLevel .disjunction rest).record.bind fun condition rest _ =>
  (readBlock rest).andThen (Nat.le_refl _) fun thenBranch behind shorter =>
    match behind with
    | [] => (Parsed.success (.branch condition thenBranch none) [] shorter).record
    | token :: tail =>
      if token.kind = .elseWord then
        ((readElse tail).map fun elseBranch =>
          .branch condition thenBranch (some elseBranch)).within
            (Nat.le_of_lt (Nat.lt_trans (Nat.lt_succ_self _) shorter))
      else (Parsed.success (.branch condition thenBranch none) (token :: tail) shorter).record
termination_by (tokens.length, 1)
decreasing_by
  · exact Prod.Lex.left _ _ (by omega)
  · exact Prod.Lex.left _ _ (by simp only [List.length_cons] at shorter; omega)

/-- What may follow `else`: another condition, or a block. -/
def readElse (tokens : List Token) : Recorded Statement tokens.length :=
  if nextKind? tokens = some .ifWord then readBranch tokens else readBlock tokens
termination_by (tokens.length, 2)

def readLoop (tokens : List Token) : Recorded Statement tokens.length :=
  (readLoopHeader tokens).record.bind fun header rest _ => (readBlock rest).map header.around
termination_by (tokens.length, 1)

def readBlock (tokens : List Token) : Recorded Statement tokens.length :=
  (expect .leftBrace tokens).record.bind fun opening inside _ => (readList true inside).close opening
termination_by (tokens.length, 0)

/-- As many statements as there are: up to the closing brace if the list is `nested` in a block, and
up to the end of input in any case. -/
def readList (nested : Bool) (tokens : List Token) : Listing tokens.length :=
  match tokens with
  | [] => .stop []
  | token :: tail =>
    match token.kind with
    | .lineEnd => (readList nested tail).within (Nat.le_succ _)
    | .inputEnd => .stop (token :: tail)
    | .rightBrace =>
      if nested then .stop (token :: tail)
      else
        ((readList nested tail).prepend [] [.unbalanced .leftBrace token.line]).within
          (Nat.le_succ _)
    | _ =>
      let result := read (token :: tail)
      match result.outcome with
      | .success statement rest shorter =>
        ((readList nested rest).prepend [statement] result.errors).within (Nat.le_of_lt shorter)
      | .failure error rest _ =>
        ((readList nested (resume nested tail rest)).prepend [] (result.errors ++ [error])).within
          (Nat.le_succ_of_le (length_resume_le nested tail rest))
termination_by (tokens.length, 5)
decreasing_by
  · exact Prod.Lex.left _ _ (Nat.lt_succ_self _)
  · exact Prod.Lex.left _ _ (Nat.lt_succ_self _)
  · exact Prod.Lex.right _ (by decide)
  · exact Prod.Lex.left _ _ shorter
  · exact Prod.Lex.left _ _ (Nat.lt_succ_of_le (length_resume_le nested tail rest))

end

end Statement

def Program.read (tokens : List Token) : Program × List GrammarError :=
  let listing := Statement.readList false tokens
  (listing.statements, listing.errors)

end LineScript
