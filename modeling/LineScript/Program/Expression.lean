import LineScript.Program.Basic
import LineScript.Program.Parsed

/-!
Reading expressions.

Each level of precedence is a chain of operands of the next tighter level, joined from the left;
unary operators nest to the right; an assignment may only stand at the root.
-/

set_option autoImplicit false

namespace LineScript

namespace Expression

/-- The operand a single token makes.  A literal or name without a payload of its own sort makes
none. -/
def ofToken? (token : Token) : Option Expression :=
  match token.kind, token.payload with
  | .integerLiteral, some (.integer value) => some (.literal (.int value) token.line)
  | .decimalLiteral, some (.decimal value) => some (.literal (.decimal value) token.line)
  | .stringLiteral, some (.text value) => some (.literal (.string value) token.line)
  | .trueWord, _ => some (.literal (.boolean true) token.line)
  | .falseWord, _ => some (.literal (.boolean false) token.line)
  | .identifier, some (.text name) => some (.reference name token.line)
  | _, _ => none

mutual

/-- An expression whose loosest operators are those of `level`. -/
def readLevel (level : Level) (tokens : List Token) : Parsed Expression tokens.length :=
  (readOperand level tokens).andThen (Nat.le_refl _) fun left rest shorter =>
    readChain level tokens.length left rest shorter
termination_by (tokens.length, 2 * level.rank + 1)

def readOperand (level : Level) (tokens : List Token) : Parsed Expression tokens.length :=
  match _tighter : level.tighter with
  | some next => readLevel next tokens
  | none => readUnary tokens
termination_by (tokens.length, 2 * level.rank)
decreasing_by
  · have := Level.rank_tighter_lt _tighter
    exact Prod.Lex.right _ (by omega)
  · have := Level.rank_pos level
    exact Prod.Lex.right _ (by omega)

/-- As many operators of `level` as follow, each with its right operand, joined onto `left`. -/
def readChain (level : Level) (limit : Nat) (left : Expression) (tokens : List Token)
    (shorter : tokens.length < limit) : Parsed Expression limit :=
  match tokens with
  | [] => .success left [] shorter
  | token :: tail =>
    match BinaryOperator.ofKind? token.kind with
    | none => .success left (token :: tail) shorter
    | some operator =>
      if operator.level = level then
        (readOperand level tail).andThen
          (Nat.le_of_lt (Nat.lt_trans (Nat.lt_succ_self _) shorter))
          fun right rest following =>
            readChain level limit (.binary operator left right token.line) rest
              (Nat.lt_trans following (Nat.lt_trans (Nat.lt_succ_self _) shorter))
      else .success left (token :: tail) shorter
termination_by (tokens.length, 0)
decreasing_by
  · exact Prod.Lex.left _ _ (Nat.lt_succ_self _)
  · exact Prod.Lex.left _ _ (Nat.lt_trans following (Nat.lt_succ_self _))

/-- Unary operators, outermost first, and the primary expression they apply to. -/
def readUnary (tokens : List Token) : Parsed Expression tokens.length :=
  match tokens with
  | [] => readPrimary []
  | token :: tail =>
    match UnaryOperator.ofKind? token.kind with
    | some operator =>
      ((readUnary tail).map fun operand => .unary operator operand token.line).within
        (Nat.le_succ _)
    | none => readPrimary (token :: tail)
termination_by (tokens.length, 1)

/-- A literal, a name, or an expression in parentheses.  A token that starts none of these is left
where it is. -/
def readPrimary (tokens : List Token) : Parsed Expression tokens.length :=
  match tokens with
  | [] => .failure .unexpectedEndOfInput [] (Nat.le_refl _)
  | token :: tail =>
    match ofToken? token with
    | some operand => .success operand tail (Nat.lt_succ_self _)
    | none =>
      if token.kind = .leftParen then
        (readLevel .disjunction tail).andThen (Nat.le_succ _) fun inner rest shorter =>
          match rest with
          | [] => .failure (.unbalanced .rightParen token.line) [] (Nat.zero_le _)
          | next :: behind =>
            if next.kind = .rightParen then
              .success (.group inner) behind
                (Nat.lt_trans (Nat.lt_succ_self _) (Nat.lt_succ_of_lt shorter))
            else
              .failure (.unbalanced .rightParen token.line) (next :: behind)
                (Nat.le_of_lt (Nat.lt_succ_of_lt shorter))
      else .failure (.expectedExpression token.kind token.line) (token :: tail) (Nat.le_refl _)
termination_by (tokens.length, 0)

end

/-- A whole expression: one of the loosest level, or a name, an equals sign and such an expression.
Assignments do not chain. -/
def read (tokens : List Token) : Parsed Expression tokens.length :=
  (readLevel .disjunction tokens).andThen (Nat.le_refl _) fun left rest shorter =>
    match rest with
    | [] => .success left [] shorter
    | token :: tail =>
      if token.kind = .equal then
        match left with
        | .reference name line =>
          ((readLevel .disjunction tail).map fun value => .assign name value line).within
            (Nat.le_of_lt (Nat.lt_trans (Nat.lt_succ_self _) shorter))
        | _ =>
          .failure (.invalidAssignmentTarget token.line) tail
            (Nat.le_of_lt (Nat.lt_trans (Nat.lt_succ_self _) shorter))
      else .success left (token :: tail) shorter

end Expression

end LineScript
