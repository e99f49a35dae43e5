import LineScript.Evaluation.Machine
import LineScript.Proofs.Shape
import Mathlib.Data.List.Basic

/-!
Which expressions change an environment.

Only an assignment stores anything, and in a program that was read an assignment stands at the root
of a statement.  So the conditions, initializers and operands of such a program leave the
environment alone, in a check and in a run, whether they give a value or fail.
-/

set_option autoImplicit false

namespace LineScript

/-! ## What stands where -/

namespace Expression

/-- The expressions that an expression is directly made of. -/
def parts : Expression → List Expression
  | .literal _ _ | .reference _ _ => []
  | .assign _ value _ => [value]
  | .unary _ operand _ => [operand]
  | .binary _ left right _ => [left, right]
  | .group inner => [inner]

/-- An operand, an assigned value or what parentheses enclose, at any depth inside a tree. -/
inductive Inside : Expression → Expression → Prop where
  | direct {part tree : Expression} : part ∈ tree.parts → Inside part tree
  | deeper {part inner tree : Expression} :
      inner ∈ tree.parts → Inside part inner → Inside part tree

/-- Whether it gives a value or an error, and in a check as in a run, evaluating the expression
leaves the environment exactly as it was. -/
def LeavesEnvironment (tree : Expression) : Prop :=
  ∀ (policy : Policy) (environment : Environment),
    (tree.evaluate policy environment).2 = environment ∧
      (tree.decide policy environment).2 = environment

end Expression

namespace Statement

/-- The statements that a statement is directly made of. -/
def parts : Statement → List Statement
  | .expression _ | .declare _ _ _ | .print _ _ => []
  | .block statements => statements
  | .branch _ thenBranch elseBranch => thenBranch :: elseBranch.toList
  | .loop start _ step body => start.toList ++ step.toList ++ [body]

/-- A statement of a program, at any depth. -/
inductive Occurs (program : Program) : Statement → Prop where
  | listed {statement : Statement} : statement ∈ program → Occurs program statement
  | inside {part statement : Statement} :
      Occurs program statement → part ∈ statement.parts → Occurs program part

/-- The expressions that a statement evaluates itself. -/
def expressions : Statement → List Expression
  | .expression root | .print root _ => [root]
  | .declare _ initializer _ => [initializer]
  | .branch condition _ _ | .loop _ condition _ _ => [condition]
  | .block _ => []

/-- The initializer of a declaration, the condition of a branch or loop. -/
def queries : Statement → List Expression
  | .declare _ initializer _ => [initializer]
  | .branch condition _ _ | .loop _ condition _ _ => [condition]
  | .expression _ | .print _ _ | .block _ => []

end Statement

/-! ## Expressions without assignments -/

namespace Expression

theorem AssignFree.evaluate_environment {tree : Expression} (free : tree.AssignFree)
    (policy : Policy) (environment : Environment) :
    (tree.evaluate policy environment).2 = environment := by
  induction free with
  | literal | reference => rfl
  | unary _ ih =>
      rw [evaluate]
      split
      · next same => rwa [same] at ih
      · next same => rwa [same] at ih
  | binary _ _ leftIH rightIH =>
      rw [evaluate]
      split
      · next same => rwa [same] at leftIH
      · next same =>
        rw [same] at leftIH
        obtain rfl := leftIH
        split
        · next same => rwa [same] at rightIH
        · next same => rwa [same] at rightIH
  | group _ ih =>
      rw [evaluate]
      exact ih

private theorem decide_environment (tree : Expression) (policy : Policy)
    (environment : Environment) :
    (tree.decide policy environment).2 = (tree.evaluate policy environment).2 := by
  unfold Expression.decide
  split
  · next same => rw [same]
  · next same => rw [same]

theorem AssignFree.leavesEnvironment {tree : Expression} (free : tree.AssignFree) :
    tree.LeavesEnvironment := by
  intro policy environment
  have unchanged := free.evaluate_environment policy environment
  exact ⟨unchanged, (decide_environment tree policy environment).trans unchanged⟩

theorem AssignFree.of_mem_parts {part tree : Expression} (free : tree.AssignFree)
    (member : part ∈ tree.parts) : part.AssignFree := by
  cases free with
  | literal | reference => cases member
  | unary operand =>
      obtain rfl := List.mem_singleton.mp member
      exact operand
  | binary left right =>
      rcases List.mem_cons.mp member with rfl | member
      · exact left
      · obtain rfl := List.mem_singleton.mp member
        exact right
  | group inner =>
      obtain rfl := List.mem_singleton.mp member
      exact inner

theorem RootShaped.of_mem_parts {part root : Expression} (shaped : root.RootShaped)
    (member : part ∈ root.parts) : part.AssignFree := by
  cases shaped with
  | free free => exact free.of_mem_parts member
  | assign value =>
      obtain rfl := List.mem_singleton.mp member
      exact value

theorem RootShaped.inside {part root : Expression} (shaped : root.RootShaped)
    (inside : part.Inside root) : part.AssignFree := by
  induction inside with
  | direct member => exact shaped.of_mem_parts member
  | deeper member _ ih => exact ih (.free (shaped.of_mem_parts member))

end Expression

/-! ## Statements at every depth -/

namespace Statement

/-- A statement of the shape that reading gives, or a loop of that shape without its block. -/
inductive ShapedPart : Statement → Prop where
  | shaped {statement : Statement} : Shaped statement → ShapedPart statement
  | loop {start step : Option Statement} {condition : Expression} {statements : List Statement} :
      StartShaped start → condition.AssignFree → StepShaped step → ShapedAll statements →
      ShapedPart (.loop start condition step (.block statements))

theorem ShapedAll.of_mem {statement : Statement} {statements : List Statement}
    (shaped : ShapedAll statements) (member : statement ∈ statements) : Shaped statement := by
  induction statements with
  | nil => cases member
  | cons first others ih =>
      cases shaped with
      | cons firstShaped othersShaped =>
          rcases List.mem_cons.mp member with rfl | later
          · exact firstShaped
          · exact ih othersShaped later

theorem StartShaped.of_mem {statement : Statement} {start : Option Statement}
    (shaped : StartShaped start) (member : statement ∈ start.toList) : Shaped statement := by
  cases shaped with
  | absent => cases member
  | declare initializer =>
      obtain rfl := List.mem_singleton.mp member
      exact .declare initializer

theorem StepShaped.of_mem {statement : Statement} {step : Option Statement}
    (shaped : StepShaped step) (member : statement ∈ step.toList) : Shaped statement := by
  cases shaped with
  | absent => cases member
  | assign value =>
      obtain rfl := List.mem_singleton.mp member
      exact .expression (.assign value)

theorem ShapedElse.of_mem {statement : Statement} {elseBranch : Option Statement}
    (shaped : ShapedElse elseBranch) (member : statement ∈ elseBranch.toList) :
    Shaped statement := by
  cases shaped with
  | absent => cases member
  | block statements =>
      obtain rfl := List.mem_singleton.mp member
      exact .block statements
  | branch branch =>
      obtain rfl := List.mem_singleton.mp member
      exact branch

theorem ShapedPart.of_mem_parts {part statement : Statement} (shaped : ShapedPart statement)
    (member : part ∈ statement.parts) : ShapedPart part := by
  cases shaped with
  | loop startShaped _ stepShaped bodyShaped =>
      rcases List.mem_append.mp member with header | body
      · rcases List.mem_append.mp header with start | step
        · exact .shaped (startShaped.of_mem start)
        · exact .shaped (stepShaped.of_mem step)
      · obtain rfl := List.mem_singleton.mp body
        exact .shaped (.block bodyShaped)
  | shaped shaped =>
      cases shaped with
      | expression | declare | print => cases member
      | block statements => exact .shaped (statements.of_mem member)
      | loop startShaped free stepShaped bodyShaped =>
          obtain rfl := List.mem_singleton.mp member
          exact .loop startShaped free stepShaped bodyShaped
      | branch _ thenShaped elseShaped =>
          rcases List.mem_cons.mp member with rfl | arm
          · exact .shaped (.block thenShaped)
          · exact .shaped (elseShaped.of_mem arm)

theorem Occurs.shapedPart {program : Program} {statement : Statement}
    (occurs : Occurs program statement) (shaped : ShapedAll program) : ShapedPart statement := by
  induction occurs with
  | listed member => exact .shaped (shaped.of_mem member)
  | inside _ member ih => exact ih.of_mem_parts member

theorem ShapedPart.query_assignFree {statement : Statement} {query : Expression}
    (shaped : ShapedPart statement) (member : query ∈ statement.queries) : query.AssignFree := by
  cases shaped with
  | loop _ free _ _ =>
      obtain rfl := List.mem_singleton.mp member
      exact free
  | shaped shaped =>
      cases shaped with
      | expression | print | block | loop => cases member
      | declare free | branch free _ _ =>
          obtain rfl := List.mem_singleton.mp member
          exact free

theorem ShapedPart.expression_rootShaped {statement : Statement} {root : Expression}
    (shaped : ShapedPart statement) (member : root ∈ statement.expressions) : root.RootShaped := by
  cases shaped with
  | loop _ free _ _ =>
      obtain rfl := List.mem_singleton.mp member
      exact .free free
  | shaped shaped =>
      cases shaped with
      | block | loop => cases member
      | expression shaped | print shaped =>
          obtain rfl := List.mem_singleton.mp member
          exact shaped
      | declare free | branch free _ _ =>
          obtain rfl := List.mem_singleton.mp member
          exact .free free

end Statement

/-- Whatever the tokens are and whatever errors are recorded, the statements read are of the one
shape at every depth: branches of blocks and further branches, loops alone in a block with a
declaration to start and an assignment to step, and assignments only at the root of an expression
or print statement.  Therefore no condition, no initializer and no operand anywhere in them changes
the environment. -/
theorem read_shaped_leavesEnvironment (tokens : List Token) :
    Statement.ShapedAll (Program.read tokens).1 ∧
    ∀ statement, Statement.Occurs (Program.read tokens).1 statement →
      (∀ query ∈ statement.queries, query.LeavesEnvironment) ∧
      ∀ root ∈ statement.expressions, ∀ part : Expression, part.Inside root →
        part.LeavesEnvironment := by
  have shaped : Statement.ShapedAll (Program.read tokens).1 :=
    Statement.readers_shaped.2.2.2.1 false tokens
  refine ⟨shaped, fun statement occurs => ?_⟩
  have shapedHere := occurs.shapedPart shaped
  constructor
  · intro query member
    exact (shapedHere.query_assignFree member).leavesEnvironment
  · intro root member part inside
    exact ((shapedHere.expression_rootShaped member).inside inside).leavesEnvironment

/-- The tokens of `if x = 1 { x = -y`, where the head is no condition, and on the next line `}`. -/
def headlessBlock : List Token :=
  [⟨.ifWord, none, 1⟩, ⟨.identifier, some (.text "x"), 1⟩, ⟨.equal, none, 1⟩,
    ⟨.integerLiteral, some (.integer 1), 1⟩, ⟨.leftBrace, none, 1⟩,
    ⟨.identifier, some (.text "x"), 1⟩, ⟨.equal, none, 1⟩, ⟨.minus, none, 1⟩,
    ⟨.identifier, some (.text "y"), 1⟩, ⟨.lineEnd, none, 1⟩, ⟨.rightBrace, none, 2⟩,
    ⟨.inputEnd, none, 2⟩]

/-- The broken head costs an error, and the block behind it is read.  What its assignment stores is
found without a change to the environment. -/
theorem read_headlessBlock :
    (Program.read headlessBlock).2 = [.expected (.token .leftBrace) .equal 1] ∧
    Statement.Occurs (Program.read headlessBlock).1
      (.expression (.assign "x" (.unary .negate (.reference "y" 1) 1) 1)) ∧
    Expression.LeavesEnvironment (.unary .negate (.reference "y" 1) 1) ∧
    Expression.LeavesEnvironment (.reference "y" 1) := by
  have read : Program.read headlessBlock =
      ([.block [.expression (.assign "x" (.unary .negate (.reference "y" 1) 1) 1)]],
        [.expected (.token .leftBrace) .equal 1]) := by
    cbv
  have occurs : Statement.Occurs (Program.read headlessBlock).1
      (.expression (.assign "x" (.unary .negate (.reference "y" 1) 1) 1)) := by
    rw [read]
    exact .inside (.listed List.mem_cons_self) List.mem_cons_self
  obtain ⟨_, leaves⟩ := read_shaped_leavesEnvironment headlessBlock
  have inside := (leaves _ occurs).2 _ List.mem_cons_self
  refine ⟨congrArg Prod.snd read, occurs, inside _ (.direct List.mem_cons_self), inside _ ?_⟩
  exact .deeper List.mem_cons_self (.direct List.mem_cons_self)

end LineScript
