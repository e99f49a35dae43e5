import LineScript.Program.Basic

/-!
Which names a program may use.

A scope holds the names declared in it, and inner scopes see the names of outer ones.  A block
opens a scope, so does each arm of a branch, and a loop opens one scope that its header and its
body share.  A declared name is visible behind its declaration, not in its own initializer.
-/

set_option autoImplicit false

namespace LineScript

/-- Every name that is read or assigned is among `names`. -/
def Expression.Visible (names : List String) : Expression → Prop
  | .literal _ _ => True
  | .reference name _ => name ∈ names
  | .assign name value _ => name ∈ names ∧ value.Visible names
  | .unary _ operand _ => operand.Visible names
  | .binary _ left right _ => left.Visible names ∧ right.Visible names
  | .group inner => inner.Visible names

namespace Statement

/-- The names that a statement adds to the scope it stands in. -/
def declared : Statement → List String
  | .declare name _ _ => [name]
  | _ => []

/-- The names that an optional part of a loop header adds to the scope of the loop. -/
def declaredBy (part : Option Statement) : List String :=
  part.elim [] declared

mutual

/-- A statement that uses names by the rules of scope.  `here` holds the names declared in the
innermost scope so far, `outer` those of the scopes around it. -/
def WellScoped (outer here : List String) : Statement → Prop
  | .expression tree => tree.Visible (here ++ outer)
  | .declare name initializer _ => initializer.Visible (here ++ outer) ∧ name ∉ here
  | .print tree _ => tree.Visible (here ++ outer)
  | .block statements => WellScopedAll (here ++ outer) [] statements
  | .branch condition thenBranch elseBranch =>
    condition.Visible (here ++ outer) ∧ WellScoped (here ++ outer) [] thenBranch ∧
      WellScopedPart (here ++ outer) [] elseBranch
  -- the body is no scope of its own: it may not declare the name of the loop again
  | .loop start condition step (.block statements) =>
    WellScopedPart (here ++ outer) [] start ∧
      condition.Visible (declaredBy start ++ (here ++ outer)) ∧
      WellScopedPart (here ++ outer) (declaredBy start) step ∧
      WellScopedAll (here ++ outer) (declaredBy step ++ declaredBy start) statements
  | .loop start condition step body =>
    WellScopedPart (here ++ outer) [] start ∧
      condition.Visible (declaredBy start ++ (here ++ outer)) ∧
      WellScopedPart (here ++ outer) (declaredBy start) step ∧
      WellScoped (here ++ outer) (declaredBy step ++ declaredBy start) body

/-- Statements one after another, each of which sees what those before it declare. -/
def WellScopedAll (outer here : List String) : List Statement → Prop
  | [] => True
  | statement :: statements =>
    WellScoped outer here statement ∧
      WellScopedAll outer (statement.declared ++ here) statements

/-- A part that may be absent. -/
def WellScopedPart (outer here : List String) : Option Statement → Prop
  | none => True
  | some statement => WellScoped outer here statement

end

end Statement

/-- The statements of a program stand in one outermost scope. -/
def Program.WellScoped (program : Program) : Prop :=
  Statement.WellScopedAll [] [] program

end LineScript
