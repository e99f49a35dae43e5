import LineScript.Saved.Decoding

/-!
Decoding undoes encoding.

Every tree is decoded from its own encoding, of any shape and depth, as long as its lines are numbers
of 64 bits and its decimals are finite.
-/

set_option autoImplicit false

namespace LineScript

/-! ## Trees that can be saved -/

def Value.Storable : Value → Prop
  | .decimal number => number.isFinite = true
  | _ => True

def StorableLine (line : Nat) : Prop :=
  line < UInt64.size

inductive Expression.Storable : Expression → Prop where
  | literal {value : Value} {line : Nat} :
      value.Storable → StorableLine line → Storable (.literal value line)
  | reference {name : String} {line : Nat} : StorableLine line → Storable (.reference name line)
  | assign {name : String} {value : Expression} {line : Nat} :
      Storable value → StorableLine line → Storable (.assign name value line)
  | unary {operator : UnaryOperator} {operand : Expression} {line : Nat} :
      Storable operand → StorableLine line → Storable (.unary operator operand line)
  | binary {operator : BinaryOperator} {left right : Expression} {line : Nat} :
      Storable left → Storable right → StorableLine line →
      Storable (.binary operator left right line)
  | group {inner : Expression} : Storable inner → Storable (.group inner)

namespace Statement

mutual

inductive Storable : Statement → Prop where
  | expression {root : Expression} : root.Storable → Storable (.expression root)
  | declare {name : String} {initializer : Expression} {line : Nat} :
      initializer.Storable → StorableLine line → Storable (.declare name initializer line)
  | print {root : Expression} {newline : Bool} : root.Storable → Storable (.print root newline)
  | block {statements : List Statement} : StorableAll statements → Storable (.block statements)
  | branch {condition : Expression} {thenBranch : Statement} {elseBranch : Option Statement} :
      condition.Storable → Storable thenBranch → StorableOptional elseBranch →
      Storable (.branch condition thenBranch elseBranch)
  | loop {start step : Option Statement} {condition : Expression} {body : Statement} :
      StorableOptional start → condition.Storable → StorableOptional step → Storable body →
      Storable (.loop start condition step body)

inductive StorableAll : List Statement → Prop where
  | nil : StorableAll []
  | cons {statement : Statement} {statements : List Statement} :
      Storable statement → StorableAll statements → StorableAll (statement :: statements)

inductive StorableOptional : Option Statement → Prop where
  | absent : StorableOptional none
  | present {statement : Statement} : Storable statement → StorableOptional (some statement)

end

end Statement

namespace Saved

/-! ## Single parts -/

private theorem line?_integer {line : Nat} (bounded : StorableLine line) :
    line? (.integer line) = some line := by
  unfold StorableLine at bounded
  have fits : (0 : Int) ≤ line ∧ (line : Int) < UInt64.size := by omega
  simp only [line?, if_pos fits, Int.toNat_natCast]

private theorem unaryOfName?_unaryName (operator : UnaryOperator) :
    unaryOfName? (unaryName operator) = some operator := by
  cases operator <;> rfl

private theorem binaryOfName?_binaryName (operator : BinaryOperator) :
    binaryOfName? (binaryName operator) = some operator := by
  rcases operator with operator | operator | operator <;> cases operator <;> rfl

private theorem exactInt64?_toInt (number : Int64) : exactInt64? number.toInt = some number := by
  unfold exactInt64?
  rw [if_pos ⟨number.minValue_le_toInt, number.toInt_le⟩, Int64.ofInt_toInt]

private theorem decodeValue?_encodeValue {value : Value} (storable : value.Storable) :
    decodeValue? (encodeValue value) = some value := by
  cases value with
  | int number =>
      have exact := exactInt64?_toInt number
      simp [encodeValue, decodeValue?, soleField?, field?, exact]
  | decimal number =>
      have finite : number.isFinite = true := storable
      simp [encodeValue, decodeValue?, soleField?, field?, finite]
  | boolean truth | string text => simp [encodeValue, decodeValue?, soleField?, field?]

/-! ## Expressions

The parts of a node stand here as arbitrary values that are read in the right way, so that no proof
looks into how a part is read. -/

section

variable {operand left right : Expression} {line : Nat} {valueJson operandJson leftJson rightJson
  lineJson : Json}

private theorem decodeExpression?_literal {value : Value}
    (valueRead : decodeValue? valueJson = some value)
    (lineRead : line? lineJson = some line) :
    decodeExpression? (tagged "Literal" [("value", valueJson), ("line", lineJson)]) =
      some (.literal value line) := by
  rw [decodeExpression?]
  simp [tagged, node?, soleField?, field?, lineField?, valueRead, lineRead]

private theorem decodeExpression?_reference {name : String}
    (lineRead : line? lineJson = some line) :
    decodeExpression? (tagged "Variable" [("name", .string name), ("line", lineJson)]) =
      some (.reference name line) := by
  rw [decodeExpression?]
  simp [tagged, node?, soleField?, field?, stringField?, string?, lineField?, lineRead]

private theorem decodeExpression?_assign {name : String}
    (read : decodeExpression? operandJson = some operand)
    (lineRead : line? lineJson = some line) :
    decodeExpression? (tagged "Assign"
      [("name", .string name), ("value", operandJson), ("line", lineJson)]) =
      some (.assign name operand line) := by
  rw [decodeExpression?]
  simp [tagged, node?, soleField?, field?, stringField?, string?, lineField?, read, lineRead]

private theorem decodeExpression?_unary {operator : UnaryOperator}
    (read : decodeExpression? operandJson = some operand) (lineRead : line? lineJson = some line) :
    decodeExpression? (tagged "UnaryOp"
      [("op", .string (unaryName operator)), ("expr", operandJson), ("line", lineJson)]) =
      some (.unary operator operand line) := by
  rw [decodeExpression?]
  simp [tagged, node?, soleField?, field?, unaryField?, choice?, unaryOfName?_unaryName, lineField?,
    read, lineRead]

private theorem decodeExpression?_binary {operator : BinaryOperator}
    (leftRead : decodeExpression? leftJson = some left)
    (rightRead : decodeExpression? rightJson = some right) (lineRead : line? lineJson = some line) :
    decodeExpression? (tagged "BinaryOp"
      [("left", leftJson), ("op", .string (binaryName operator)), ("right", rightJson),
        ("line", lineJson)]) =
      some (.binary operator left right line) := by
  rw [decodeExpression?]
  simp [tagged, node?, soleField?, field?, binaryField?, choice?, binaryOfName?_binaryName,
    lineField?, leftRead, rightRead, lineRead]

private theorem decodeExpression?_group (read : decodeExpression? operandJson = some operand) :
    decodeExpression? (tagged "Group" [("inner", operandJson)]) = some (.group operand) := by
  rw [decodeExpression?]
  simp [tagged, node?, soleField?, field?, read]

end

private theorem decodeExpression?_encodeExpression {tree : Expression} (storable : tree.Storable) :
    decodeExpression? (encodeExpression tree) = some tree := by
  induction storable with
  | literal valueStorable bounded =>
      exact decodeExpression?_literal (decodeValue?_encodeValue valueStorable) (line?_integer bounded)
  | reference bounded => exact decodeExpression?_reference (line?_integer bounded)
  | assign _ bounded valueRead => exact decodeExpression?_assign valueRead (line?_integer bounded)
  | unary _ bounded operandRead => exact decodeExpression?_unary operandRead (line?_integer bounded)
  | binary _ _ bounded leftRead rightRead =>
      exact decodeExpression?_binary leftRead rightRead (line?_integer bounded)
  | group _ innerRead => exact decodeExpression?_group innerRead

/-! ## Statements -/

inductive ReadsOptional : Json → Option Statement → Prop where
  | absent : ReadsOptional .null none
  | present {fields : List (String × Json)} {statement : Statement} :
      decodeStatement? (.object fields) = some statement →
      ReadsOptional (.object fields) (some statement)

section

variable {root condition : Expression} {body thenBranch : Statement}
  {start step elseBranch : Option Statement} {rootJson conditionJson bodyJson thenJson startJson
  stepJson elseJson : Json}

private theorem decodeStatement?_expression (read : decodeExpression? rootJson = some root) :
    decodeStatement? (tagged "Expression" [("expr", rootJson)]) = some (.expression root) := by
  rw [decodeStatement?]
  simp [tagged, node?, soleField?, field?, expressionField?, read]

private theorem decodeStatement?_declare {name : String} {line : Nat} {lineJson : Json}
    (read : decodeExpression? rootJson = some root) (lineRead : line? lineJson = some line) :
    decodeStatement? (tagged "Var"
      [("name", .string name), ("initializer", rootJson), ("line", lineJson)]) =
      some (.declare name root line) := by
  rw [decodeStatement?]
  simp [tagged, node?, soleField?, field?, expressionField?, stringField?, string?, lineField?, read,
    lineRead]

private theorem decodeStatement?_print {newline : Bool}
    (read : decodeExpression? rootJson = some root) :
    decodeStatement? (tagged "Print" [("expr", rootJson), ("newline", .boolean newline)]) =
      some (.print root newline) := by
  rw [decodeStatement?]
  simp [tagged, node?, soleField?, field?, expressionField?, booleanField?, boolean?, read]

private theorem decodeStatement?_block {statements : List Statement} {elements : List Json}
    (read : decodeStatements? elements = some statements) :
    decodeStatement? (tagged "Block" [("statements", .array elements)]) =
      some (.block statements) := by
  rw [decodeStatement?]
  simp [tagged, node?, soleField?, field?, read]

private theorem decodeStatement?_branch
    (conditionRead : decodeExpression? conditionJson = some condition)
    (thenRead : decodeStatement? thenJson = some thenBranch)
    (elseRead : ReadsOptional elseJson elseBranch) :
    decodeStatement? (tagged "If"
      [("condition", conditionJson), ("then_branch", thenJson), ("else_branch", elseJson)]) =
      some (.branch condition thenBranch elseBranch) := by
  rw [decodeStatement?]
  cases elseRead with
  | absent => simp [tagged, node?, soleField?, field?, expressionField?, conditionRead, thenRead]
  | present read =>
      simp [tagged, node?, soleField?, field?, expressionField?, conditionRead, thenRead, read]

private theorem decodeStatement?_loop (startRead : ReadsOptional startJson start)
    (conditionRead : decodeExpression? conditionJson = some condition)
    (stepRead : ReadsOptional stepJson step) (bodyRead : decodeStatement? bodyJson = some body) :
    decodeStatement? (tagged "For"
      [("init", startJson), ("condition", conditionJson), ("iterate", stepJson), ("body", bodyJson)]) =
      some (.loop start condition step body) := by
  rw [decodeStatement?]
  cases startRead with
  | absent =>
      cases stepRead with
      | absent => simp [tagged, node?, soleField?, field?, expressionField?, conditionRead, bodyRead]
      | present stepRead =>
          simp [tagged, node?, soleField?, field?, expressionField?, conditionRead, bodyRead, stepRead]
  | present startRead =>
      cases stepRead with
      | absent =>
          simp [tagged, node?, soleField?, field?, expressionField?, conditionRead, bodyRead, startRead]
      | present stepRead =>
          simp [tagged, node?, soleField?, field?, expressionField?, conditionRead, bodyRead, startRead,
            stepRead]

end

private theorem readsOptional_of_statement {statement : Statement}
    (read : decodeStatement? (encodeStatement statement) = some statement) :
    ReadsOptional (encodeStatement statement) (some statement) := by
  cases statement <;> exact .present read

mutual

/-- A statement is decoded from its own encoding. -/
theorem decodeStatement?_encodeStatement {statement : Statement} (storable : statement.Storable) :
    decodeStatement? (encodeStatement statement) = some statement := by
  cases storable with
  | expression root =>
      exact decodeStatement?_expression (decodeExpression?_encodeExpression root)
  | declare initializer bounded =>
      exact decodeStatement?_declare (decodeExpression?_encodeExpression initializer)
        (line?_integer bounded)
  | print root => exact decodeStatement?_print (decodeExpression?_encodeExpression root)
  | block statements => exact decodeStatement?_block (decodeStatements?_encodeStatements statements)
  | branch condition thenBranch elseBranch =>
      exact decodeStatement?_branch (decodeExpression?_encodeExpression condition)
        (decodeStatement?_encodeStatement thenBranch) (readsOptional_encodeOptional elseBranch)
  | loop start condition step body =>
      exact decodeStatement?_loop (readsOptional_encodeOptional start)
        (decodeExpression?_encodeExpression condition) (readsOptional_encodeOptional step)
        (decodeStatement?_encodeStatement body)

theorem decodeStatements?_encodeStatements {statements : List Statement}
    (storable : Statement.StorableAll statements) :
    decodeStatements? (encodeStatements statements) = some statements := by
  cases storable with
  | nil =>
      rw [encodeStatements, decodeStatements?]
  | cons first others =>
      rw [encodeStatements, decodeStatements?, decodeStatement?_encodeStatement first,
        decodeStatements?_encodeStatements others]
      rfl

private theorem readsOptional_encodeOptional {part : Option Statement}
    (storable : Statement.StorableOptional part) : ReadsOptional (encodeOptional part) part := by
  cases storable with
  | absent => exact .absent
  | present statement =>
      exact readsOptional_of_statement (decodeStatement?_encodeStatement statement)

end

end Saved

end LineScript
