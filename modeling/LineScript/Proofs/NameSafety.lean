import LineScript.Proofs.CheckSoundness
import LineScript.Proofs.Validation.Programs
import Mathlib.Logic.Basic

/-!
Names that a run can rely on.

The validator counts the header and the body of a loop as one scope.  A run has a scope for the
header and another one for every pass of the body, so it holds fewer names in its innermost scope
and no fewer in all.  What the validator lets pass therefore never misses a name, and never
declares one twice.
-/

set_option autoImplicit false

namespace LineScript

/-- Whether an error is about a name that is missing or taken. -/
def RuntimeError.concernsName : RuntimeError → Bool
  | .unknownVariable _ _ | .alreadyDefined _ _ => true
  | _ => false

/-! ## Names of an environment -/

def Frame.names (frame : Frame) : List String :=
  frame.map Prod.fst

theorem Frame.isSome_find?_iff {name : String} {frame : Frame} :
    (frame.find? name).isSome = true ↔ name ∈ frame.names := by
  simp [find?, names, List.lookup_isSome_iff]

namespace Environment

def names (environment : Environment) : NameScopes :=
  ⟨environment.innermost.names, environment.enclosing.map Frame.names⟩

variable {environment changed : Environment} {name : String} {value : Value} {line : Nat}
  {error : RuntimeError}

@[simp] theorem names_enter (environment : Environment) :
    names (environment.enter []) = environment.names.enter [] := rfl

private theorem names_leave (environment : Environment) :
    names environment.leave = environment.names.leave := by
  obtain ⟨innermost, enclosing⟩ := environment
  cases enclosing <;> rfl

private theorem names_eq_of_typing_eq (same : changed.typing = environment.typing) :
    changed.names = environment.names := by
  have keys (frame : Frame) : frame.names = frame.typing.map Prod.fst := by
    simp [Frame.names, Frame.typing]
  have all (frames : List Frame) :
      frames.map Frame.names = (frames.map Frame.typing).map (List.map Prod.fst) := by
    simp [keys]
  obtain ⟨innermost, enclosing⟩ := ScopeStack.mk.inj same
  unfold names
  rw [keys, all, innermost, enclosing, ← keys, ← all]

theorem isSome_find?_iff :
    (environment.find? name).isSome = true ↔ name ∈ environment.names.names := by
  simp [find?, names, NameScopes.names, ScopeStack.toList, List.findSome?_isSome_iff,
    Frame.isSome_find?_iff]

private theorem get_of_visible (visible : name ∈ environment.names.names) (line : Nat) :
    ∃ value, environment.get name line = .ok value := by
  obtain ⟨binding, found⟩ := Option.isSome_iff_exists.mp (isSome_find?_iff.mpr visible)
  exact ⟨binding.value, by simp only [get, found]⟩

private theorem names_of_assign (assigned : environment.assign name value line = .ok changed) :
    changed.names = environment.names := by
  unfold assign at assigned
  split at assigned
  · cases assigned
  · split at assigned
    · cases assigned
      exact names_eq_of_typing_eq (typing_update name value environment)
    · cases assigned

private theorem assign_error_of_visible (visible : name ∈ environment.names.names)
    (refused : environment.assign name value line = .error error) : error.concernsName = false := by
  obtain ⟨binding, found⟩ := Option.isSome_iff_exists.mp (isSome_find?_iff.mpr visible)
  simp only [assign, found] at refused
  split at refused
  · cases refused
  · cases refused
    rfl

private theorem define_of_new (new : name ∉ environment.names.innermost) (value : Value)
    (line : Nat) :
    ∃ defined, environment.define name value line = .ok defined ∧
      defined.names = environment.names.adding [name] := by
  have absent : environment.innermost.find? name = none := by
    rw [← Option.not_isSome_iff_eq_none, Frame.isSome_find?_iff]
    exact new
  refine ⟨{ environment with innermost := (name, ⟨value.kind, value⟩) :: environment.innermost },
    ?_, rfl⟩
  simp only [define, absent]

end Environment

/-! ## Scopes of the validator and of a run -/

/-- The scopes of a run will do where the validator has the names `here` in its innermost scope and
`outer` around it: all of them are visible, and none but those of `here` is taken. -/
structure NameScopes.Supports (outer here : List String) (scopes : NameScopes) : Prop where
  visible : ∀ name ∈ here ++ outer, name ∈ scopes.names
  taken : ∀ name ∈ scopes.innermost, name ∈ here

namespace NameScopes.Supports

variable {outer here : List String} {scopes : NameScopes}

theorem empty : Supports [] [] (ScopeStack.single []) := by
  constructor <;> exact fun _ member => absurd member List.not_mem_nil

theorem enter (outer here : List String) (visible : ∀ name ∈ here ++ outer, name ∈ scopes.names) :
    Supports outer here (scopes.enter []) := by
  constructor
  · intro name member
    rw [NameScopes.names_enter]
    exact visible name member
  · intro name member
    cases member

theorem adding (supports : Supports outer here scopes) (added : List String) :
    Supports outer (added ++ here) (scopes.adding added) := by
  constructor
  · intro name member
    rw [NameScopes.names_adding]
    rw [List.append_assoc] at member
    rcases List.mem_append.mp member with new | earlier
    · exact List.mem_append_left _ new
    · exact List.mem_append_right _ (supports.visible name earlier)
  · intro name member
    rcases List.mem_append.mp member with new | earlier
    · exact List.mem_append_left _ new
    · exact List.mem_append_right _ (supports.taken name earlier)

end NameScopes.Supports

/-! ## Expressions -/

namespace Value

/-- An operator's result is a value or an error that is about no name. -/
abbrev SparesNames : Except RuntimeError Value → Prop :=
  Meets (fun _ => True) fun error => error.concernsName = false

private theorem integerArithmetic_sparesNames (operator : Arithmetic) (left right : Int64)
    (line : Nat) :
    SparesNames (integerArithmetic operator left right line) := by
  unfold integerArithmetic
  split
  · rfl
  · split
    · rfl
    · split
      · trivial
      · rfl

private theorem arithmetic_sparesNames (operator : Arithmetic) (left right : Value) (line : Nat) :
    SparesNames (arithmetic operator left right line) := by
  unfold arithmetic
  split
  · trivial
  · exact integerArithmetic_sparesNames ..
  · rfl
  · split
    · trivial
    · rfl

private theorem binary_sparesNames (operator : BinaryOperator) (left right : Value) (line : Nat) :
    SparesNames (binary operator left right line) := by
  unfold binary
  split
  · exact arithmetic_sparesNames ..
  · unfold comparison
    split
    · trivial
    · rfl
  · unfold connective
    split
    · trivial
    · rfl

private theorem unary_sparesNames (operator : UnaryOperator) (operand : Value) (line : Nat) :
    SparesNames (unary operator operand line) := by
  unfold unary
  split
  · split
    · trivial
    · rfl
  · trivial
  · rfl
  · trivial
  · rfl

theorem SparesNames.absorb {result : Except RuntimeError Value} (spares : SparesNames result)
    (policy : Policy) : SparesNames (policy.absorb result) := by
  cases result with
  | ok value => cases policy <;> trivial
  | error error =>
      cases policy with
      | execute passLimit => exact spares
      | check =>
          rw [Policy.absorb]
          split
          · trivial
          · exact spares

end Value

namespace Expression

variable {tree condition : Expression} {environment : Environment}

theorem Visible.mono {fewer names : List String} (visible : tree.Visible fewer)
    (included : ∀ name ∈ fewer, name ∈ names) : tree.Visible names := by
  induction tree with
  | literal value line => trivial
  | reference name line => exact included name visible
  | assign name value line ih => exact ⟨included name visible.1, ih visible.2⟩
  | unary operator operand line ih => exact ih visible
  | binary operator left right line leftIH rightIH =>
      exact ⟨leftIH visible.1, rightIH visible.2⟩
  | group inner ih => exact ih visible

/-- Evaluating an expression whose names are visible keeps the scopes, and fails over no name. -/
private theorem evaluates_of_visible (policy : Policy)
    (visible : tree.Visible environment.names.names) :
    Evaluates (fun _ after => after.names = environment.names)
      (fun error => error.concernsName = false) (tree.evaluate policy environment) := by
  induction tree generalizing environment with
  | literal value line => exact rfl
  | reference name line =>
      obtain ⟨value, gotten⟩ := Environment.get_of_visible visible line
      rw [evaluate, gotten]
      exact rfl
  | assign name value line ih =>
      rw [evaluate]
      refine (ih visible.2).next fun result after same => ?_
      have seen : name ∈ after.names.names := same ▸ visible.1
      split
      · next refused => exact Environment.assign_error_of_visible seen refused
      · next assigned => exact (Environment.names_of_assign assigned).trans same
  | unary operator operand line ih =>
      rw [evaluate]
      refine (ih visible).next fun value after same => ?_
      exact evaluates_of_meets ((Value.unary_sparesNames operator value line).absorb policy)
        fun _ _ => same
  | binary operator left right line leftIH rightIH =>
      rw [evaluate]
      refine (leftIH visible.1).next fun leftValue between sameBetween => ?_
      have rightVisible : right.Visible between.names.names := sameBetween ▸ visible.2
      refine (rightIH rightVisible).next fun rightValue after same => ?_
      exact evaluates_of_meets
        ((Value.binary_sparesNames operator leftValue rightValue line).absorb policy)
        fun _ _ => same.trans sameBetween
  | group inner ih =>
      rw [evaluate]
      exact ih visible

private theorem decides_of_visible (policy : Policy)
    (visible : condition.Visible environment.names.names) :
    Evaluates (fun _ after => after.names = environment.names)
      (fun error => error.concernsName = false) (condition.decide policy environment) := by
  unfold Expression.decide
  refine (evaluates_of_visible policy visible).next fun value after same => ?_
  cases value with
  | boolean truth => exact same
  | int | decimal | string => rfl

end Expression

/-! ## Statements -/

namespace Statement

open Machine

variable {policy : Policy} {scopes : NameScopes} {machine : Machine} {outer here : List String}

/-- The run leaves these scopes or fails, and over no name.  A check always ends. -/
abbrev SparesNames (policy : Policy) (scopes : NameScopes) : Outcome × Machine → Prop :=
  Runs (fun final => final.environment.names = scopes) (fun error => error.concernsName = false)
    (policy ≠ .check)

/-- The names that statements add to the scope they stand in, latest first. -/
def declaredAll : List Statement → List String
  | [] => []
  | statement :: others => declaredAll others ++ statement.declared

private theorem expression_sparesNames {root : Expression}
    (visible : root.Visible machine.environment.names.names) :
    SparesNames policy machine.environment.names (run policy (.expression root) machine) := by
  rw [run]
  exact runs_of_evaluates (root.evaluates_of_visible policy visible) fun _ _ same => same

private theorem declare_sparesNames {name : String} {initializer : Expression} {line : Nat}
    (visible : initializer.Visible machine.environment.names.names)
    (new : name ∉ machine.environment.names.innermost) :
    SparesNames policy (machine.environment.names.adding [name])
      (run policy (.declare name initializer line) machine) := by
  rw [run]
  apply runs_of_evaluates (initializer.evaluates_of_visible policy visible)
  intro value after same
  obtain ⟨defined, success, added⟩ := Environment.define_of_new (same ▸ new) value line
  simp only [success]
  exact added.trans (congrArg _ same)

private theorem print_sparesNames {root : Expression} {newline : Bool}
    (visible : root.Visible machine.environment.names.names) :
    SparesNames policy machine.environment.names (run policy (.print root newline) machine) := by
  rw [run]
  apply runs_of_evaluates (root.evaluates_of_visible policy visible)
  intro value after same
  refine (runs_emit fun _ => rfl).imp fun final kept => ?_
  exact (congrArg Environment.names kept).trans same

/-- What a block declares is gone behind it. -/
private theorem block_sparesNames {statements : List Statement} {added : List String}
    (inside : SparesNames policy (NameScopes.adding added (machine.environment.names.enter []))
      (runAll policy statements (machine.withEnvironment (machine.environment.enter [])))) :
    SparesNames policy machine.environment.names (run policy (.block statements) machine) := by
  rw [run]
  refine inside.leave fun final names => ?_
  exact (Environment.names_leave _).trans (congrArg ScopeStack.leave names)

/-- The start of a loop declares its name in a scope that holds no other. -/
theorem StartShaped.sparesNames {start : Option Statement} (shaped : StartShaped start)
    (inScope : WellScopedPart outer [] start)
    (supports : machine.environment.names.Supports outer []) :
    SparesNames policy (machine.environment.names.adding (declaredBy start))
      (runOptional policy start machine) := by
  cases shaped with
  | absent => exact rfl
  | declare _ =>
      rw [WellScopedPart, WellScoped] at inScope
      exact declare_sparesNames (inScope.1.mono supports.visible) fun taken =>
        inScope.2 (supports.taken _ taken)

theorem StepShaped.sparesNames {step : Option Statement} (shaped : StepShaped step)
    (inScope : WellScopedPart outer here step)
    (visible : ∀ name ∈ here ++ outer, name ∈ machine.environment.names.names) :
    SparesNames policy machine.environment.names (runOptional policy step machine) := by
  cases shaped with
  | absent => exact rfl
  | assign _ =>
      rw [WellScopedPart, WellScoped] at inScope
      exact expression_sparesNames (inScope.mono visible)

theorem StepShaped.declaredBy_eq {step : Option Statement} (shaped : StepShaped step) :
    declaredBy step = [] := by
  cases shaped <;> rfl

/-- The body of a loop runs in a scope of its own, and declares nothing in that of the header. -/
private theorem loop_sparesNames {start step : Option Statement} {condition : Expression}
    {statements : List Statement} (startShaped : StartShaped start) (stepShaped : StepShaped step)
    (body : ∀ {outer here : List String} {machine : Machine}, WellScopedAll outer here statements →
      machine.environment.names.Supports outer here →
      SparesNames policy (machine.environment.names.adding (declaredAll statements))
        (runAll policy statements machine))
    (inScope : WellScoped outer [] (.loop start condition step (.block statements)))
    (supports : machine.environment.names.Supports outer []) :
    SparesNames policy (machine.environment.names.adding (declaredBy start))
      (run policy (.loop start condition step (.block statements)) machine) := by
  rw [WellScoped, List.nil_append, stepShaped.declaredBy_eq, List.nil_append] at inScope
  obtain ⟨startScoped, conditionVisible, stepScoped, bodyScoped⟩ := inScope
  have started := supports.adding (declaredBy start)
  rw [List.append_nil] at started
  rw [run]
  refine (startShaped.sparesNames startScoped supports).thenRun fun next names => ?_
  refine runs_repeatPass (·.names = _) (·.names = _) ?_ ?_ ?_ names
  · intro environment same
    exact (condition.decides_of_visible policy (same ▸ conditionVisible.mono started.visible)).imp
      fun _ _ sameAfter => sameAfter.trans same
  · intro passMachine same
    have visible : ∀ name ∈ declaredBy start ++ outer, name ∈ passMachine.environment.names.names :=
      same ▸ started.visible
    rw [← same]
    refine (block_sparesNames (body bodyScoped (.enter _ _ visible))).thenRun fun final kept => ?_
    rw [← kept] at visible ⊢
    exact stepShaped.sparesNames stepScoped visible
  · -- a check makes its only pass before it is out of passes
    rintro holds repeats rfl
    cases repeats

/-- Statements of the shape that reading gives run without errors about names, if they are well
scoped where the run has enough of them.  A single statement only needs the names it declares to be
free. -/
theorem ShapedAll.sparesNames {statements : List Statement} (shaped : ShapedAll statements)
    (policy : Policy) (inScope : WellScopedAll outer here statements)
    (supports : machine.environment.names.Supports outer here) :
    SparesNames policy (machine.environment.names.adding (declaredAll statements))
      (runAll policy statements machine) := by
  refine ShapedAll.rec
    (motive_1 := fun statement _ => ∀ {outer here : List String} {machine : Machine},
      WellScoped outer here statement →
      (∀ name ∈ here ++ outer, name ∈ machine.environment.names.names) →
      (∀ name ∈ statement.declared, name ∈ machine.environment.names.innermost → name ∈ here) →
      SparesNames policy (machine.environment.names.adding statement.declared)
        (run policy statement machine))
    (motive_2 := fun elseBranch _ => ∀ {outer : List String} {machine : Machine},
      WellScopedPart outer [] elseBranch →
      (∀ name ∈ outer, name ∈ machine.environment.names.names) →
      SparesNames policy machine.environment.names (runOptional policy elseBranch machine))
    (motive_3 := fun statements _ => ∀ {outer here : List String} {machine : Machine},
      WellScopedAll outer here statements → machine.environment.names.Supports outer here →
      SparesNames policy (machine.environment.names.adding (declaredAll statements))
        (runAll policy statements machine))
    ?expression ?declare ?print ?block ?loop ?branch ?absent ?elseBlock ?elseBranch ?nil ?cons
    shaped inScope supports
  case expression =>
    intro root _ outer here machine inScope visible _
    rw [WellScoped] at inScope
    exact expression_sparesNames (inScope.mono visible)
  case declare =>
    intro name initializer line _ outer here machine inScope visible free
    rw [WellScoped] at inScope
    exact declare_sparesNames (inScope.1.mono visible) fun taken =>
      inScope.2 (free name List.mem_cons_self taken)
  case print =>
    intro root newline _ outer here machine inScope visible _
    rw [WellScoped] at inScope
    exact print_sparesNames (inScope.mono visible)
  case block =>
    intro statements _ inside outer here machine inScope visible _
    rw [WellScoped] at inScope
    exact block_sparesNames (inside inScope (.enter _ [] visible))
  case loop =>
    intro start step condition statements startShaped _ stepShaped _ body outer here machine inScope
      visible _
    rw [WellScoped, WellScopedAll] at inScope
    have entered : NameScopes.Supports (here ++ outer) []
        (machine.withEnvironment (machine.environment.enter [])).environment.names :=
      .enter _ [] visible
    have looped := loop_sparesNames startShaped stepShaped body inScope.1 entered
    rw [← runAll_singleton] at looped
    exact block_sparesNames looped
  case branch =>
    intro condition statements elseBranch _ _ _ inside elseInside outer here machine inScope
      visible _
    rw [WellScoped, WellScoped] at inScope
    obtain ⟨conditionVisible, thenScoped, elseScoped⟩ := inScope
    rw [run]
    apply runs_of_decides (condition.decides_of_visible policy (conditionVisible.mono visible))
    intro holds after same
    have visibleAfter : ∀ name ∈ here ++ outer, name ∈ after.names.names := same ▸ visible
    have thenSpares : SparesNames policy after.names (if policy.visitsThen holds then
        run policy (.block statements) (machine.withEnvironment after)
        else (.completed, machine.withEnvironment after)) := by
      split
      · exact block_sparesNames (inside thenScoped (.enter _ [] visibleAfter))
      · exact rfl
    refine thenSpares.thenRun fun next kept => ?_
    split
    · refine (elseInside elseScoped (kept ▸ visibleAfter)).imp fun final names => ?_
      exact names.trans (kept.trans same)
    · exact kept.trans same
  case absent => exact fun _ _ => rfl
  case elseBlock =>
    intro statements _ inside outer machine inScope visible
    rw [WellScopedPart, WellScoped] at inScope
    exact block_sparesNames (inside inScope (.enter _ [] visible))
  case elseBranch =>
    intro condition thenBranch elseBranch _ inside outer machine inScope visible
    rw [WellScopedPart] at inScope
    exact inside inScope visible fun name member => absurd member List.not_mem_nil
  case nil => exact fun _ _ => rfl
  case cons =>
    intro statement statements _ _ first others outer here machine inScope supports
    rw [WellScopedAll] at inScope
    rw [runAll]
    refine (first inScope.1 supports.visible fun name _ => supports.taken name).thenRun
      fun next names => ?_
    have supportsNext : next.environment.names.Supports outer (statement.declared ++ here) :=
      names ▸ supports.adding statement.declared
    refine (others inScope.2 supportsNext).imp fun final left => ?_
    rw [left, names, NameScopes.adding_adding, declaredAll]

theorem Shaped.sparesNames {statement : Statement} (shaped : Shaped statement) (policy : Policy)
    (inScope : WellScoped outer here statement)
    (supports : machine.environment.names.Supports outer here) :
    SparesNames policy (machine.environment.names.adding statement.declared)
      (run policy statement machine) := by
  rw [← runAll_singleton]
  exact (ShapedAll.cons shaped .nil).sparesNames policy ⟨inScope, trivial⟩ supports

end Statement

/-! ## Whole programs -/

namespace Program

open Statement

variable {program : Program} {machine : Machine} {outer here : List String}

private theorem execute_sparesNames (shaped : ShapedAll program) (inScope : program.WellScoped)
    {passLimit : Nat} {sink final : Sink} {error : RuntimeError}
    (failed : program.execute passLimit sink = (.failed error, final)) :
    error.concernsName = false :=
  fails_of_execute (fun _ => rfl) (shaped.sparesNames (.execute passLimit) inScope .empty) failed

/-- Up to its first error, a check goes through the scopes that a run goes through. -/
theorem checkFrom_sparesNames (shaped : ShapedAll program)
    (inScope : WellScopedAll outer here program)
    (supports : machine.environment.names.Supports outer here) :
    ∀ error ∈ (checkFrom machine program).head?, error.concernsName = false := by
  induction program generalizing machine here with
  | nil => exact fun _ member => nomatch member
  | cons statement others ih =>
      cases shaped with
      | cons shaped othersShaped =>
          rw [WellScopedAll] at inScope
          have runs := shaped.sparesNames .check inScope.1 supports
          rw [checkFrom]
          generalize run .check statement machine = result at runs
          obtain ⟨outcome, next⟩ := result
          cases outcome with
          | failed error =>
              intro first same
              cases same
              exact runs
          | unfinished => exact absurd rfl runs
          | completed =>
              have names : next.environment.names = _ := runs
              exact ih othersShaped inScope.2 (names ▸ supports.adding statement.declared)

end Program

namespace Validation

open Grammar (OwnPayloads)

/-- What the validator finds nothing wrong with is read as a well-scoped program. -/
theorem wellScoped_of_validate {tokens : List Token} (ready : Ready tokens)
    (valid : validate tokens = []) : (Program.read tokens).1.WellScoped := by
  have listed := Statement.readers_agree.2.2.2.1 false tokens [] .empty ready (by simp)
  unfold Program.read
  generalize Statement.readList false tokens = listing at listed
  obtain ⟨statements, errors, rest, bounded⟩ := listing
  cases errors with
  | cons error others => exact absurd valid listed
  | nil =>
      obtain ⟨readyRest, stops, accepted⟩ := listed
      exact (accepted.mp valid).1

theorem validate_eq_nil_of_wellScoped {tokens : List Token} (ready : Ready tokens)
    (clean : (Program.read tokens).2 = []) (inScope : (Program.read tokens).1.WellScoped) :
    validate tokens = [] := by
  have listed := Statement.readers_agree.2.2.2.1 false tokens [] .empty ready (by simp)
  unfold Program.read at clean inScope
  generalize Statement.readList false tokens = listing at listed clean inScope
  obtain ⟨statements, errors, rest, bounded⟩ := listing
  cases clean
  obtain ⟨readyRest, stops, accepted⟩ := listed
  obtain ⟨ending, behind, rfl⟩ := readyRest.eq_cons
  rcases stops ending rfl with atEnd | ⟨nested, _⟩
  · exact accepted.mpr ⟨inScope, (Validator.accepts_inputEnd atEnd).mpr rfl⟩
  · cases nested

/-- A program that the validator lets pass never fails over a name when it runs, and its check does
not report one first.  Neither depends on whether the check finds anything. -/
theorem concernsName_eq_false_of_validate {tokens : List Token} (own : OwnPayloads tokens)
    (ends : ∃ token ∈ tokens, token.kind = .inputEnd) (valid : validate tokens = []) :
    (∀ passLimit sink error final,
      (Program.read tokens).1.execute passLimit sink = (.failed error, final) →
        error.concernsName = false) ∧
    ∀ error ∈ (Program.read tokens).1.check.head?, error.concernsName = false := by
  have inScope := wellScoped_of_validate ⟨own, ends⟩ valid
  have shaped : Statement.ShapedAll (Program.read tokens).1 :=
    Statement.readers_shaped.2.2.2.1 false tokens
  constructor
  · intro passLimit sink error final failed
    exact Program.execute_sparesNames shaped inScope failed
  · exact Program.checkFrom_sparesNames shaped inScope .empty

/-- The tokens of `var a = true + 1` and, on the next line, `print a`. -/
def failingInitializer : List Token :=
  [⟨.varWord, none, 1⟩, ⟨.identifier, some (.text "a"), 1⟩, ⟨.equal, none, 1⟩,
    ⟨.trueWord, none, 1⟩, ⟨.plus, none, 1⟩, ⟨.integerLiteral, some (.integer 1), 1⟩,
    ⟨.lineEnd, none, 1⟩, ⟨.printWord, none, 2⟩, ⟨.identifier, some (.text "a"), 2⟩,
    ⟨.inputEnd, none, 2⟩]

/-- A declaration whose initializer fails leaves its name undeclared, so a check may report that
name as unknown further down.  It is never the first to be reported. -/
theorem check_failingInitializer : validate failingInitializer = [] ∧
    (Program.read failingInitializer).1.check =
      [.operands (.numbersNeeded .add .boolean .int) 1, .unknownVariable "a" 2] ∧
    ∀ error ∈ (Program.read failingInitializer).1.check.head?, error.concernsName = false := by
  have own : OwnPayloads failingInitializer := by
    simp [OwnPayloads, failingInitializer, Token.hasOwnPayload]
  have ends : ∃ token ∈ failingInitializer, token.kind = .inputEnd := by
    simp [failingInitializer]
  have valid : validate failingInitializer = [] := by decide +kernel
  have checked : (Program.read failingInitializer).1.check =
      [.operands (.numbersNeeded .add .boolean .int) 1, .unknownVariable "a" 2] := by
    have read : Program.read failingInitializer =
        ([.declare "a" (.binary (.arithmetic .add) (.literal (.boolean true) 1)
            (.literal (.int 1) 1) 1) 1,
          .print (.reference "a" 2) false], []) := by
      cbv
    rw [read]
    decide +kernel
  exact ⟨valid, checked, (concernsName_eq_false_of_validate own ends valid).2⟩

end Validation

end LineScript
