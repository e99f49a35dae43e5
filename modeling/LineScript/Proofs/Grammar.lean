import LineScript.Program.Statement

/-!
The grammar of programs.

The relations here say which token lists are expressions, statements and programs, and which trees
they stand for.  Nothing is said about how a tree is found.  An operator of a level stands between
an expression of that level and an operand of the next tighter one, which makes chains lean to the
left; a unary operator stands before another unary expression; an assignment is no operand of
anything.
-/

set_option autoImplicit false

namespace LineScript

/-- Whether a literal or name carries a payload of its own sort.  Nothing is asked of other
tokens. -/
def Token.hasOwnPayload (token : Token) : Bool :=
  match token.kind, token.payload with
  | .integerLiteral, some (.integer _) => true
  | .decimalLiteral, some (.decimal _) => true
  | .stringLiteral, some (.text _) => true
  | .identifier, some (.text _) => true
  | .integerLiteral, _ | .decimalLiteral, _ | .stringLiteral, _ | .identifier, _ => false
  | _, _ => true

def tokensBeforeEnd (tokens : List Token) : List Token :=
  tokens.takeWhile fun token => token.kind ≠ .inputEnd

namespace Grammar

/-! ## Expressions -/

/-- The phrases that expressions are made of. -/
inductive Phrase where
  | chain (level : Level)
  | unary
  | primary
deriving DecidableEq, Repr

/-- What the operators of a level stand between. -/
def operandPhrase : Level → Phrase
  | .disjunction => .chain .conjunction
  | .conjunction => .chain .equality
  | .equality => .chain .relation
  | .relation => .chain .sum
  | .sum => .chain .product
  | .product => .unary

/-- The operators of each level and the tokens they are written with. -/
inductive Joins : Level → TokenKind → BinaryOperator → Prop where
  | or : Joins .disjunction .orWord (.connective .or)
  | and : Joins .conjunction .andWord (.connective .and)
  | equal : Joins .equality .equalEqual (.comparison .equal)
  | notEqual : Joins .equality .notEqual (.comparison .notEqual)
  | less : Joins .relation .less (.comparison .less)
  | lessEqual : Joins .relation .lessEqual (.comparison .lessEqual)
  | greater : Joins .relation .greater (.comparison .greater)
  | greaterEqual : Joins .relation .greaterEqual (.comparison .greaterEqual)
  | add : Joins .sum .plus (.arithmetic .add)
  | subtract : Joins .sum .minus (.arithmetic .subtract)
  | multiply : Joins .product .star (.arithmetic .multiply)
  | divide : Joins .product .slash (.arithmetic .divide)
  | remainder : Joins .product .percent (.arithmetic .remainder)

inductive Leads : TokenKind → UnaryOperator → Prop where
  | negate : Leads .minus .negate
  | not : Leads .notWord .not

/-- A list of tokens is a phrase of an expression, and this is its tree. -/
inductive Derives : Phrase → List Token → Expression → Prop where
  | integer {value : Int64} {line : Nat} :
      Derives .primary [⟨.integerLiteral, some (.integer value), line⟩] (.literal (.int value) line)
  | decimal {value : Decimal} {line : Nat} :
      Derives .primary [⟨.decimalLiteral, some (.decimal value), line⟩]
        (.literal (.decimal value) line)
  | string {value : String} {line : Nat} :
      Derives .primary [⟨.stringLiteral, some (.text value), line⟩]
        (.literal (.string value) line)
  | truth {token : Token} : token.kind = .trueWord →
      Derives .primary [token] (.literal (.boolean true) token.line)
  | falsity {token : Token} : token.kind = .falseWord →
      Derives .primary [token] (.literal (.boolean false) token.line)
  | name {name : String} {line : Nat} :
      Derives .primary [⟨.identifier, some (.text name), line⟩] (.reference name line)
  | group {opening closing : Token} {inside : List Token} {inner : Expression} :
      opening.kind = .leftParen → Derives (.chain .disjunction) inside inner →
      closing.kind = .rightParen →
      Derives .primary (opening :: (inside ++ [closing])) (.group inner)
  | primary {tokens : List Token} {tree : Expression} :
      Derives .primary tokens tree → Derives .unary tokens tree
  | unary {token : Token} {operator : UnaryOperator} {tokens : List Token} {operand : Expression} :
      Leads token.kind operator → Derives .unary tokens operand →
      Derives .unary (token :: tokens) (.unary operator operand token.line)
  | operand {level : Level} {tokens : List Token} {tree : Expression} :
      Derives (operandPhrase level) tokens tree → Derives (.chain level) tokens tree
  | join {level : Level} {token : Token} {operator : BinaryOperator}
      {before behind : List Token} {left right : Expression} :
      Derives (.chain level) before left → Joins level token.kind operator →
      Derives (operandPhrase level) behind right →
      Derives (.chain level) (before ++ token :: behind) (.binary operator left right token.line)

abbrev Logic : List Token → Expression → Prop :=
  Derives (.chain .disjunction)

/-- A whole expression: one without assignment, or one assigned to a bare name. -/
inductive Root : List Token → Expression → Prop where
  | logic {tokens : List Token} {tree : Expression} : Logic tokens tree → Root tokens tree
  | assign {name : String} {line : Nat} {sign : Token} {tokens : List Token} {value : Expression} :
      sign.kind = .equal → Logic tokens value →
      Root (⟨.identifier, some (.text name), line⟩ :: sign :: tokens) (.assign name value line)

/-! ## Statements -/

/-- A declaration, as a statement of its own or in a loop header. -/
inductive Declares : List Token → Statement → Prop where
  | declare {keyword sign : Token} {name : String} {line : Nat} {tokens : List Token}
      {initializer : Expression} :
      keyword.kind = .varWord → sign.kind = .equal → Logic tokens initializer →
      Declares (keyword :: ⟨.identifier, some (.text name), line⟩ :: sign :: tokens)
        (.declare name initializer line)

/-- The two print keywords; the second one ends the line printed. -/
inductive Prints : TokenKind → Bool → Prop where
  | print : Prints .printWord false
  | println : Prints .printlnWord true

/-- What may stand at the start of a loop header: nothing, or a declaration. -/
inductive LoopStart : List Token → Option Statement → Prop where
  | absent : LoopStart [] none
  | present {tokens : List Token} {start : Statement} :
      Declares tokens start → LoopStart tokens (some start)

/-- What may stand at the end of a loop header: nothing, or an assignment to a bare name. -/
inductive LoopStep : List Token → Option Statement → Prop where
  | absent : LoopStep [] none
  | present {name : String} {line : Nat} {sign : Token} {tokens : List Token}
      {value : Expression} :
      sign.kind = .equal → Logic tokens value →
      LoopStep (⟨.identifier, some (.text name), line⟩ :: sign :: tokens)
        (some (.expression (.assign name value line)))

inductive Header : List Token → Option Statement → Expression → Option Statement → Prop where
  | header {keyword opening first second closing : Token} {starting condition stepping : List Token}
      {start step : Option Statement} {tree : Expression} :
      keyword.kind = .forWord → opening.kind = .leftParen → LoopStart starting start →
      first.kind = .semicolon → Logic condition tree → second.kind = .semicolon →
      LoopStep stepping step → closing.kind = .rightParen →
      Header (keyword :: opening ::
          (starting ++ first :: (condition ++ second :: (stepping ++ [closing]))))
        start tree step

mutual

/-- A statement without the end of its line. -/
inductive States : List Token → Statement → Prop where
  | declare {tokens : List Token} {statement : Statement} :
      Declares tokens statement → States tokens statement
  | print {keyword : Token} {newline : Bool} {tokens : List Token} {value : Expression} :
      Prints keyword.kind newline → Root tokens value →
      States (keyword :: tokens) (.print value newline)
  | printNothing {keyword : Token} {newline : Bool} :
      Prints keyword.kind newline →
      States [keyword] (.print (.literal (.string "") keyword.line) newline)
  | branch {tokens : List Token} {statement : Statement} :
      Branches tokens statement → States tokens statement
  /-- A loop stands in a block of its own. -/
  | loop {header body : List Token} {start step : Option Statement} {condition : Expression}
      {statements : List Statement} :
      Header header start condition step → Blocks body statements →
      States (header ++ body) (.block [.loop start condition step (.block statements)])
  | block {tokens : List Token} {statements : List Statement} :
      Blocks tokens statements → States tokens (.block statements)
  | expression {tokens : List Token} {tree : Expression} :
      Root tokens tree → States tokens (.expression tree)

/-- A condition with its block, and what follows `else` on the same line. -/
inductive Branches : List Token → Statement → Prop where
  | alone {keyword : Token} {condition body : List Token} {tree : Expression}
      {statements : List Statement} :
      keyword.kind = .ifWord → Logic condition tree → Blocks body statements →
      Branches (keyword :: (condition ++ body)) (.branch tree (.block statements) none)
  | otherwise {keyword other : Token} {condition body last : List Token} {tree : Expression}
      {statements others : List Statement} :
      keyword.kind = .ifWord → Logic condition tree → Blocks body statements →
      other.kind = .elseWord → Blocks last others →
      Branches (keyword :: (condition ++ (body ++ other :: last)))
        (.branch tree (.block statements) (some (.block others)))
  | chained {keyword other : Token} {condition body last : List Token} {tree : Expression}
      {statements : List Statement} {next : Statement} :
      keyword.kind = .ifWord → Logic condition tree → Blocks body statements →
      other.kind = .elseWord → Branches last next →
      Branches (keyword :: (condition ++ (body ++ other :: last)))
        (.branch tree (.block statements) (some next))

inductive Blocks : List Token → List Statement → Prop where
  | braces {opening closing : Token} {inside : List Token} {statements : List Statement} :
      opening.kind = .leftBrace → Lines inside statements → closing.kind = .rightBrace →
      Blocks (opening :: (inside ++ [closing])) statements

/-- Statements with the ends of their lines, and empty lines among them.  Only the last statement
may do without its line end. -/
inductive Lines : List Token → List Statement → Prop where
  | empty : Lines [] []
  | blank {token : Token} {tokens : List Token} {statements : List Statement} :
      token.kind = .lineEnd → Lines tokens statements → Lines (token :: tokens) statements
  | line {first behind : List Token} {token : Token} {statement : Statement}
      {statements : List Statement} :
      States first statement → token.kind = .lineEnd → Lines behind statements →
      Lines (first ++ token :: behind) (statement :: statements)
  | last {tokens : List Token} {statement : Statement} :
      States tokens statement → Lines tokens [statement]

end

end Grammar

end LineScript
