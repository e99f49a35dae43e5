import LineScript.Proofs.Scanning
import LineScript.Proofs.Validation.Programs

/-!
The faults of names in a program.

Every use of a name that is not visible and every declaration of a name that its scope has already
is a fault, in the order of the tokens.  A declaration counts as one whether it has a fault itself or
not.  A program is well scoped exactly when it has no fault.
-/

set_option autoImplicit false

namespace LineScript

/-- The fault of using a name. -/
def useFault (names : List String) (name : String) (line : Nat) : List GrammarError :=
  if name ∈ names then [] else [.undefinedVariable name line]

/-- The fault of declaring a name. -/
def declarationFault (here : List String) (name : String) (line : Nat) : List GrammarError :=
  if name ∈ here then [.nameReserved name line] else []

def Expression.nameFaults (names : List String) : Expression → List GrammarError
  | .literal _ _ => []
  | .reference name line => useFault names name line
  | .assign name value line => useFault names name line ++ value.nameFaults names
  | .unary _ operand _ => operand.nameFaults names
  | .binary _ left right _ => left.nameFaults names ++ right.nameFaults names
  | .group inner => inner.nameFaults names

namespace Statement

mutual

/-- The faults of a statement.  `here` holds the names declared in the innermost scope so far, `outer`
those of the scopes around it. -/
def nameFaults (outer here : List String) : Statement → List GrammarError
  | .expression tree => tree.nameFaults (here ++ outer)
  | .declare name initializer line =>
    declarationFault here name line ++ initializer.nameFaults (here ++ outer)
  | .print tree _ => tree.nameFaults (here ++ outer)
  | .block statements => nameFaultsAll (here ++ outer) [] statements
  | .branch condition thenBranch elseBranch =>
    condition.nameFaults (here ++ outer) ++ (nameFaults (here ++ outer) [] thenBranch ++
      nameFaultsPart (here ++ outer) [] elseBranch)
  | .loop start condition step (.block statements) =>
    nameFaultsPart (here ++ outer) [] start ++
      (condition.nameFaults (declaredBy start ++ (here ++ outer)) ++
        (nameFaultsPart (here ++ outer) (declaredBy start) step ++
          nameFaultsAll (here ++ outer) (declaredBy step ++ declaredBy start) statements))
  | .loop start condition step body =>
    nameFaultsPart (here ++ outer) [] start ++
      (condition.nameFaults (declaredBy start ++ (here ++ outer)) ++
        (nameFaultsPart (here ++ outer) (declaredBy start) step ++
          nameFaults (here ++ outer) (declaredBy step ++ declaredBy start) body))

def nameFaultsAll (outer here : List String) : List Statement → List GrammarError
  | [] => []
  | statement :: statements =>
    nameFaults outer here statement ++
      nameFaultsAll outer (statement.declared ++ here) statements

def nameFaultsPart (outer here : List String) : Option Statement → List GrammarError
  | none => []
  | some statement => nameFaults outer here statement

end

end Statement

def Program.nameFaults (program : Program) : List GrammarError :=
  Statement.nameFaultsAll [] [] program

/-! ## Programs without faults -/

theorem useFault_eq_nil_iff {names : List String} {name : String} {line : Nat} :
    useFault names name line = [] ↔ name ∈ names := by
  simp [useFault]

theorem declarationFault_eq_nil_iff {here : List String} {name : String} {line : Nat} :
    declarationFault here name line = [] ↔ name ∉ here := by
  simp [declarationFault]

theorem Expression.nameFaults_eq_nil_iff {names : List String} {tree : Expression} :
    tree.nameFaults names = [] ↔ tree.Visible names := by
  induction tree with
  | literal value line => simp [nameFaults, Visible]
  | reference name line => exact useFault_eq_nil_iff
  | assign name value line ih =>
      rw [nameFaults, Visible, List.append_eq_nil_iff, useFault_eq_nil_iff, ih]
  | unary operator operand line ih => exact ih
  | binary operator left right line leftIH rightIH =>
      rw [nameFaults, Visible, List.append_eq_nil_iff, leftIH, rightIH]
  | group inner ih => exact ih

namespace Statement

mutual

theorem nameFaults_eq_nil_iff (outer here : List String) (statement : Statement) :
    nameFaults outer here statement = [] ↔ WellScoped outer here statement := by
  match statement with
  | .expression tree => exact Expression.nameFaults_eq_nil_iff
  | .declare name initializer line =>
      rw [nameFaults, WellScoped, List.append_eq_nil_iff, declarationFault_eq_nil_iff,
        Expression.nameFaults_eq_nil_iff, and_comm]
  | .print tree newline => exact Expression.nameFaults_eq_nil_iff
  | .block statements => exact nameFaultsAll_eq_nil_iff _ _ statements
  | .branch condition thenBranch elseBranch =>
      rw [nameFaults, WellScoped, List.append_eq_nil_iff, List.append_eq_nil_iff,
        Expression.nameFaults_eq_nil_iff, nameFaults_eq_nil_iff _ _ thenBranch,
        nameFaultsPart_eq_nil_iff _ _ elseBranch]
  | .loop start condition step body =>
      cases body with
      | block statements =>
          rw [nameFaults, WellScoped, List.append_eq_nil_iff, List.append_eq_nil_iff,
            List.append_eq_nil_iff, nameFaultsPart_eq_nil_iff _ _ start,
            Expression.nameFaults_eq_nil_iff, nameFaultsPart_eq_nil_iff _ _ step,
            nameFaultsAll_eq_nil_iff _ _ statements]
      | expression | declare | print | branch | loop =>
          rw [nameFaults, WellScoped, List.append_eq_nil_iff, List.append_eq_nil_iff,
            List.append_eq_nil_iff, nameFaultsPart_eq_nil_iff _ _ start,
            Expression.nameFaults_eq_nil_iff, nameFaultsPart_eq_nil_iff _ _ step,
            nameFaults_eq_nil_iff] <;> nofun

theorem nameFaultsAll_eq_nil_iff (outer here : List String) (statements : List Statement) :
    nameFaultsAll outer here statements = [] ↔ WellScopedAll outer here statements := by
  match statements with
  | [] => exact iff_of_true rfl trivial
  | statement :: others =>
      rw [nameFaultsAll, WellScopedAll, List.append_eq_nil_iff, nameFaults_eq_nil_iff _ _ statement,
        nameFaultsAll_eq_nil_iff _ _ others]

theorem nameFaultsPart_eq_nil_iff (outer here : List String) (part : Option Statement) :
    nameFaultsPart outer here part = [] ↔ WellScopedPart outer here part := by
  match part with
  | none => exact iff_of_true rfl trivial
  | some statement => exact nameFaults_eq_nil_iff outer here statement

end

end Statement

theorem Program.nameFaults_eq_nil_iff {program : Program} :
    program.nameFaults = [] ↔ program.WellScoped :=
  Statement.nameFaultsAll_eq_nil_iff [] [] program

/-! ## Tokens of a text -/

theorem Validation.ready_ofText (source : String) : Ready (Scan.ofText source).tokens :=
  ⟨fun token member => (Scan.scanned_ofText source token member).own,
    Scan.exists_inputEnd_ofText source⟩

end LineScript
