import LineScript.Json.Basic
import LineScript.Program.Basic

/-!
Programs as JSON values.

A node of a program is an object with one field, named for the sort of node; the parts of the node
are the fields of that field's value.
-/

set_option autoImplicit false

namespace LineScript

namespace Saved

def tagged (tag : String) (fields : List (String × Json)) : Json :=
  .object [(tag, .object fields)]

/-- A literal value under the name of its kind.  A decimal that is not finite has no written form
and becomes null. -/
def encodeValue : Value → Json
  | .int number => .object [("Int", .integer number.toInt)]
  | .decimal number =>
    .object [("Decimal", if number.isFinite then .decimal number else .null)]
  | .boolean truth => .object [("Bool", .boolean truth)]
  | .string text => .object [("Str", .string text)]

def unaryName : UnaryOperator → String
  | .negate => "Negate"
  | .not => "Not"

def binaryName : BinaryOperator → String
  | .arithmetic .add => "Add"
  | .arithmetic .subtract => "Sub"
  | .arithmetic .multiply => "Mul"
  | .arithmetic .divide => "Div"
  | .arithmetic .remainder => "Mod"
  | .comparison .less => "Less"
  | .comparison .lessEqual => "LessEqual"
  | .comparison .greater => "Greater"
  | .comparison .greaterEqual => "GreaterEqual"
  | .comparison .equal => "Equal"
  | .comparison .notEqual => "NotEqual"
  | .connective .and => "And"
  | .connective .or => "Or"

def encodeExpression : Expression → Json
  | .literal value line => tagged "Literal" [("value", encodeValue value), ("line", .integer line)]
  | .reference name line => tagged "Variable" [("name", .string name), ("line", .integer line)]
  | .assign name value line =>
    tagged "Assign"
      [("name", .string name), ("value", encodeExpression value), ("line", .integer line)]
  | .unary operator operand line =>
    tagged "UnaryOp"
      [("op", .string (unaryName operator)), ("expr", encodeExpression operand),
        ("line", .integer line)]
  | .binary operator left right line =>
    tagged "BinaryOp"
      [("left", encodeExpression left), ("op", .string (binaryName operator)),
        ("right", encodeExpression right), ("line", .integer line)]
  | .group inner => tagged "Group" [("inner", encodeExpression inner)]

mutual

def encodeStatement : Statement → Json
  | .expression root => tagged "Expression" [("expr", encodeExpression root)]
  | .declare name initializer line =>
    tagged "Var"
      [("name", .string name), ("initializer", encodeExpression initializer),
        ("line", .integer line)]
  | .print root newline =>
    tagged "Print" [("expr", encodeExpression root), ("newline", .boolean newline)]
  | .block statements => tagged "Block" [("statements", .array (encodeStatements statements))]
  | .branch condition thenBranch elseBranch =>
    tagged "If"
      [("condition", encodeExpression condition), ("then_branch", encodeStatement thenBranch),
        ("else_branch", encodeOptional elseBranch)]
  | .loop start condition step body =>
    tagged "For"
      [("init", encodeOptional start), ("condition", encodeExpression condition),
        ("iterate", encodeOptional step), ("body", encodeStatement body)]

def encodeStatements : List Statement → List Json
  | [] => []
  | statement :: others => encodeStatement statement :: encodeStatements others

def encodeOptional : Option Statement → Json
  | none => .null
  | some statement => encodeStatement statement

end

def formatVersion : Nat := 1

def encodeProgram (program : Program) : Json :=
  .object [("version", .integer formatVersion), ("statements", .array (encodeStatements program))]

end Saved

end LineScript
