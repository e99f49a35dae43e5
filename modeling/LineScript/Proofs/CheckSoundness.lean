import LineScript.Proofs.Shape
import LineScript.Proofs.Stages
import LineScript.Proofs.Typing
import Mathlib.Data.List.Permutation

/-!
What a check rules out.

A program that passes its check is well typed, and a well-typed program fails only for its values:
by a division by zero, an overflow, a sink that takes no more, or the remainder of a decimal.  The
check sees other values than the run does, and visits other statements; what the two share is the
families of their variables.
-/

set_option autoImplicit false

namespace LineScript

/-- The errors that a check leaves to the run. -/
def RuntimeError.Residual : RuntimeError → Prop
  | .divisionByZero _ | .overflow _ | .output _ => True
  | .operands (.integersNeeded left right) _ =>
    left.isNumeric = true ∧ right.isNumeric = true ∧ (left = .decimal ∨ right = .decimal)
  | _ => False

/-! ## Operators -/

/-- What is true of an operator's result. -/
def Value.Meets (succeeds : Value → Prop) (fails : RuntimeError → Prop) :
    Except RuntimeError Value → Prop
  | .ok value => succeeds value
  | .error error => fails error

/-- A result is of the expected family.  A fault of values comes up among numbers only, and where
a family is expected there are none but the residual errors. -/
def Value.MeetsFamily (expected : Option Family) : Except RuntimeError Value → Prop :=
  Meets (fun value => expected = some value.family) fun error =>
    (error.isValueFault = true → expected = some .numeric) ∧
      (expected ≠ none → error.Residual)

namespace Value

private theorem integerArithmetic_meets (operator : Arithmetic) (left right : Int64) (line : Nat) :
    MeetsFamily (some .numeric) (integerArithmetic operator left right line) := by
  unfold integerArithmetic
  split
  · exact ⟨fun _ => rfl, fun _ => trivial⟩
  · split
    · exact ⟨fun _ => rfl, fun _ => trivial⟩
    · split
      · rfl
      · exact ⟨fun _ => rfl, fun _ => trivial⟩

private theorem meetsFamily_none {error : RuntimeError} (notValue : error.isValueFault = false) :
    MeetsFamily none (.error error) :=
  ⟨fun fault => absurd (notValue.symm.trans fault) (by decide), fun expected => absurd rfl expected⟩

private theorem meetsFamily_integersNeeded {left right : Kind} {line : Nat}
    (numbers : left.isNumeric = true)
    (others : right.isNumeric = true) (one : left = .decimal ∨ right = .decimal) :
    MeetsFamily (some .numeric) (.error (.operands (.integersNeeded left right) line)) :=
  ⟨fun _ => rfl, fun _ => ⟨numbers, others, one⟩⟩

theorem arithmetic_int (operator : Arithmetic) (left right : Int64) (line : Nat) :
    arithmetic operator (.int left) (.int right) line =
      integerArithmetic operator left right line := by
  cases operator <;> rfl

private theorem arithmetic_meets (operator : Arithmetic) (left right : Value) (line : Nat) :
    MeetsFamily ((BinaryOperator.arithmetic operator).family? left.family right.family)
      (arithmetic operator left right line) := by
  cases left with
  | int left =>
      cases right with
      | int right =>
          rw [arithmetic_int]
          cases operator <;> exact integerArithmetic_meets _ left right line
      | decimal right =>
          cases operator <;>
            first | rfl | exact meetsFamily_integersNeeded rfl rfl (.inr rfl)
      | boolean right | string right => cases operator <;> exact meetsFamily_none rfl
  | decimal left =>
      cases right with
      | int right | decimal right =>
          cases operator <;>
            first | rfl | exact meetsFamily_integersNeeded rfl rfl (.inl rfl)
      | boolean right | string right => cases operator <;> exact meetsFamily_none rfl
  | boolean left => cases right <;> cases operator <;> exact meetsFamily_none rfl
  | string left => cases right <;> cases operator <;> first | rfl | exact meetsFamily_none rfl

private theorem comparison_meets (operator : Comparison) (left right : Value) (line : Nat) :
    MeetsFamily ((BinaryOperator.comparison operator).family? left.family right.family)
      (comparison operator left right line) := by
  cases left <;> cases right <;> first | rfl | exact meetsFamily_none rfl

private theorem connective_meets (operator : Connective) (left right : Value) (line : Nat) :
    MeetsFamily ((BinaryOperator.connective operator).family? left.family right.family)
      (connective operator left right line) := by
  cases left <;> cases right <;> first | rfl | exact meetsFamily_none rfl

private theorem binary_meets (operator : BinaryOperator) (left right : Value) (line : Nat) :
    MeetsFamily (operator.family? left.family right.family) (binary operator left right line) := by
  cases operator with
  | arithmetic operator => exact arithmetic_meets operator left right line
  | comparison operator => exact comparison_meets operator left right line
  | connective operator => exact connective_meets operator left right line

private theorem unary_meets (operator : UnaryOperator) (operand : Value) (line : Nat) :
    MeetsFamily (operator.family? operand.family) (unary operator operand line) := by
  cases operator <;> cases operand
  case negate.int number =>
    simp only [unary]
    split
    · rfl
    · exact ⟨fun _ => rfl, fun _ => trivial⟩
  all_goals first | rfl | exact meetsFamily_none rfl

theorem MeetsFamily.check {expected : Option Family} {result : Except RuntimeError Value}
    (meets : MeetsFamily expected result) :
    Meets (fun value => expected = some value.family) (fun _ => True)
      (Policy.check.absorb result) := by
  cases result with
  | ok value => exact meets
  | error error =>
      unfold Policy.absorb
      dsimp only
      split
      · next fault => exact meets.1 fault
      · trivial

theorem MeetsFamily.execute {family : Family} {result : Except RuntimeError Value}
    (meets : MeetsFamily (some family) result) (passLimit : Nat) :
    Meets (fun value => value.family = family) RuntimeError.Residual
      ((Policy.execute passLimit).absorb result) := by
  cases result with
  | ok value => exact (Option.some.inj meets).symm
  | error error => exact meets.2 (by simp)

end Value

/-! ## Expressions -/

namespace Expression

def Evaluates {α : Type} (succeeds : α → Environment → Prop) (fails : RuntimeError → Prop) :
    Except RuntimeError α × Environment → Prop
  | (.ok value, after) => succeeds value after
  | (.error error, _) => fails error

theorem Evaluates.imp {α : Type} {succeeds further : α → Environment → Prop}
    {fails : RuntimeError → Prop} {result : Except RuntimeError α × Environment}
    (evaluates : Evaluates succeeds fails result)
    (onSuccess : ∀ value after, succeeds value after → further value after) :
    Evaluates further fails result := by
  obtain ⟨outcome, after⟩ := result
  cases outcome with
  | ok value => exact onSuccess value after evaluates
  | error error => exact evaluates

variable {succeeds : Value → Environment → Prop} {fails : RuntimeError → Prop}

theorem Evaluates.next {α : Type} {further : α → Environment → Prop}
    {result : Except RuntimeError Value × Environment}
    {next : Value → Environment → Except RuntimeError α × Environment} :
    Evaluates succeeds fails result →
    (∀ value after, succeeds value after → Evaluates further fails (next value after)) →
    Evaluates further fails (match result with
      | (.error error, after) => (.error error, after)
      | (.ok value, after) => next value after) := by
  intro evaluates onSuccess
  obtain ⟨outcome, after⟩ := result
  cases outcome with
  | ok value => exact onSuccess value after evaluates
  | error error => exact evaluates

theorem evaluates_of_meets {result : Except RuntimeError Value} {after : Environment}
    {accepts : Value → Prop} (meets : Value.Meets accepts fails result)
    (onSuccess : ∀ value, accepts value → succeeds value after) :
    Evaluates succeeds fails (result, after) := by
  cases result with
  | ok value => exact onSuccess value meets
  | error error => exact meets

/-- An expression that passes a check has the family of the value found. -/
theorem check_evaluates {context : Typing} (tree : Expression) {environment : Environment}
    (fits : environment.Fits context) :
    Evaluates (fun value after => tree.HasFamily context value.family ∧ after.Fits context)
      (fun _ => True) (tree.evaluate .check environment) := by
  induction tree generalizing environment with
  | literal value line => exact ⟨.literal, fits⟩
  | reference name line =>
      rw [evaluate]
      cases gotten : environment.get name line with
      | error error => trivial
      | ok value => exact ⟨.reference (fits.find?_of_get gotten), fits⟩
  | assign name value line ih =>
      rw [evaluate]
      refine (ih fits).next fun result after evaluated => ?_
      obtain ⟨typed, fitsAfter⟩ := evaluated
      split
      · trivial
      · next changed assigned =>
        obtain ⟨known, fitsChanged⟩ := fitsAfter.find?_of_assign assigned
        exact ⟨.assign typed known, fitsChanged⟩
  | unary operator operand line ih =>
      rw [evaluate]
      refine (ih fits).next fun value after evaluated => ?_
      obtain ⟨typed, fitsAfter⟩ := evaluated
      exact evaluates_of_meets (Value.unary_meets operator value line).check
        fun result expected => ⟨.unary typed expected, fitsAfter⟩
  | binary operator left right line leftIH rightIH =>
      rw [evaluate]
      refine (leftIH fits).next fun leftValue between evaluated => ?_
      obtain ⟨leftTyped, fitsBetween⟩ := evaluated
      refine (rightIH fitsBetween).next fun rightValue after evaluated => ?_
      obtain ⟨rightTyped, fitsAfter⟩ := evaluated
      exact evaluates_of_meets (Value.binary_meets operator leftValue rightValue line).check
        fun result expected => ⟨.binary leftTyped rightTyped expected, fitsAfter⟩
  | group inner ih =>
      rw [evaluate]
      exact (ih fits).imp fun value after evaluated => ⟨.group evaluated.1, evaluated.2⟩

/-- A typed expression gives a value of its family, or fails with a residual error. -/
theorem HasFamily.evaluates {context : Typing} {tree : Expression} {family : Family}
    (typed : tree.HasFamily context family) (passLimit : Nat) {environment : Environment}
    (fits : environment.Fits context) :
    Evaluates (fun value after => value.family = family ∧ after.Fits context)
      RuntimeError.Residual (tree.evaluate (.execute passLimit) environment) := by
  induction typed generalizing environment with
  | literal => exact ⟨rfl, fits⟩
  | @reference name line family known =>
      obtain ⟨value, gotten, same⟩ := fits.get_of_find? known line
      rw [evaluate, gotten]
      exact ⟨same, fits⟩
  | @assign name value line family _ known ih =>
      rw [evaluate]
      refine (ih fits).next fun result after evaluated => ?_
      obtain ⟨rfl, fitsAfter⟩ := evaluated
      obtain ⟨changed, assigned, fitsChanged⟩ := fitsAfter.assign_of_find? known line
      simp only [assigned]
      exact ⟨rfl, fitsChanged⟩
  | @unary operator operand line family result _ expected ih =>
      rw [evaluate]
      refine (ih fits).next fun value after evaluated => ?_
      obtain ⟨rfl, fitsAfter⟩ := evaluated
      have meets := Value.unary_meets operator value line
      rw [expected] at meets
      exact evaluates_of_meets (meets.execute passLimit) fun result same => ⟨same, fitsAfter⟩
  | @binary operator left right line leftFamily rightFamily result _ _ expected leftIH rightIH =>
      rw [evaluate]
      refine (leftIH fits).next fun leftValue between evaluated => ?_
      obtain ⟨rfl, fitsBetween⟩ := evaluated
      refine (rightIH fitsBetween).next fun rightValue after evaluated => ?_
      obtain ⟨rfl, fitsAfter⟩ := evaluated
      have meets := Value.binary_meets operator leftValue rightValue line
      rw [expected] at meets
      exact evaluates_of_meets (meets.execute passLimit) fun result same => ⟨same, fitsAfter⟩
  | group _ ih => exact ih fits

private theorem check_decides {context : Typing} (condition : Expression)
    {environment : Environment}
    (fits : environment.Fits context) :
    Evaluates (fun _ after => condition.HasFamily context .boolean ∧ after.Fits context)
      (fun _ => True) (condition.decide .check environment) := by
  unfold Expression.decide
  refine (condition.check_evaluates fits).next fun value after evaluated => ?_
  cases value with
  | boolean truth => exact evaluated
  | int | decimal | string => trivial

theorem HasFamily.decides {context : Typing} {condition : Expression}
    (typed : condition.HasFamily context .boolean) (passLimit : Nat) {environment : Environment}
    (fits : environment.Fits context) :
    Evaluates (fun _ after => after.Fits context) RuntimeError.Residual
      (condition.decide (.execute passLimit) environment) := by
  unfold Expression.decide
  refine (typed.evaluates passLimit fits).next fun value after evaluated => ?_
  obtain ⟨family, fitsAfter⟩ := evaluated
  cases value with
  | boolean truth => exact fitsAfter
  | int | decimal | string => cases family

end Expression

/-! ## Running statements -/

namespace Machine

def Runs (completes : Machine → Prop) (fails : RuntimeError → Prop) (stalls : Prop) :
    Outcome × Machine → Prop
  | (.completed, machine) => completes machine
  | (.failed error, _) => fails error
  | (.unfinished, _) => stalls

variable {completes further : Machine → Prop} {fails : RuntimeError → Prop} {stalls : Prop}

theorem Runs.imp {result : Outcome × Machine} (runs : Runs completes fails stalls result)
    (onCompletion : ∀ machine, completes machine → further machine) :
    Runs further fails stalls result := by
  obtain ⟨outcome, machine⟩ := result
  cases outcome with
  | completed => exact onCompletion machine runs
  | failed error => exact runs
  | unfinished => exact runs

theorem Runs.thenRun {first : Outcome × Machine} {next : Machine → Outcome × Machine}
    (runs : Runs completes fails stalls first)
    (onCompletion : ∀ machine, completes machine → Runs further fails stalls (next machine)) :
    Runs further fails stalls (thenRun next first) := by
  obtain ⟨outcome, machine⟩ := first
  cases outcome with
  | completed => exact onCompletion machine runs
  | failed error => exact runs
  | unfinished => exact runs

theorem runs_of_evaluates {succeeds : Value → Environment → Prop} {machine : Machine}
    {result : Except RuntimeError Value × Environment}
    {next : Value → Environment → Outcome × Machine} :
    Expression.Evaluates succeeds fails result →
    (∀ value after, succeeds value after → Runs completes fails stalls (next value after)) →
    Runs completes fails stalls (match result with
      | (.error error, after) => (.failed error, machine.withEnvironment after)
      | (.ok value, after) => next value after) := by
  intro evaluates onSuccess
  obtain ⟨outcome, after⟩ := result
  cases outcome with
  | ok value => exact onSuccess value after evaluates
  | error error => exact evaluates

theorem runs_of_decides {succeeds : Bool → Environment → Prop} {machine : Machine}
    {result : Except RuntimeError Bool × Environment}
    {next : Bool → Environment → Outcome × Machine} :
    Expression.Evaluates succeeds fails result →
    (∀ holds after, succeeds holds after → Runs completes fails stalls (next holds after)) →
    Runs completes fails stalls (match result with
      | (.error error, after) => (.failed error, machine.withEnvironment after)
      | (.ok holds, after) => next holds after) := by
  intro decides onSuccess
  obtain ⟨outcome, after⟩ := result
  cases outcome with
  | ok holds => exact onSuccess holds after decides
  | error error => exact decides

theorem Runs.leave {result : Outcome × Machine} (runs : Runs completes fails stalls result)
    (onCompletion : ∀ machine, completes machine →
      further (machine.withEnvironment machine.environment.leave)) :
    Runs further fails stalls
      (result.1, result.2.withEnvironment result.2.environment.leave) := by
  obtain ⟨outcome, machine⟩ := result
  cases outcome with
  | completed => exact onCompletion machine runs
  | failed error => exact runs
  | unfinished => exact runs

/-- The rule for loops: `invariant` holds before the condition is decided and `decided` behind it,
and a pass leads back to the invariant. -/
theorem runs_repeatPass {policy : Policy} {condition : Expression}
    {pass : Machine → Outcome × Machine} (invariant decided : Environment → Prop)
    (decides : ∀ environment, invariant environment →
      Expression.Evaluates (fun _ after => decided after) fails
        (condition.decide policy environment))
    (passRuns : ∀ machine : Machine, decided machine.environment →
      Runs (fun final => invariant final.environment) fails stalls (pass machine))
    {passes remaining : Nat}
    (exhausted : ∀ holds, policy.repeats holds (passes + remaining) = true → stalls)
    {machine : Machine} (before : invariant machine.environment) :
    Runs (fun final => decided final.environment) fails stalls
      (repeatPass policy condition pass passes remaining machine) := by
  induction remaining generalizing passes machine with
  | zero =>
      rw [repeatPass]
      apply runs_of_decides (decides _ before)
      intro holds after behind
      split
      · next repeats => exact exhausted holds repeats
      · exact behind
  | succ remaining ih =>
      rw [repeatPass]
      apply runs_of_decides (decides _ before)
      intro holds after behind
      split
      · refine (passRuns (machine.withEnvironment after) behind).thenRun fun next again => ?_
        have stillExhausted (holds : Bool)
            (repeats : policy.repeats holds (passes + 1 + remaining) = true) : stalls :=
          exhausted holds (Nat.succ_add_eq_add_succ .. ▸ repeats)
        exact ih stillExhausted again
      · exact behind

/-- Printing leaves the environment as it is, and fails for the sink's reasons only. -/
theorem runs_emit {policy : Policy} {text : String} {newline : Bool} {machine : Machine}
    (undelivered : ∀ fault, fails (.output fault)) :
    Runs (fun final => final.environment = machine.environment) fails stalls
      (machine.emit policy text newline) := by
  have writeFails {text : String} {sink refused : Sink} {error : RuntimeError}
      (failed : sink.write text = (.error error, refused)) : fails error := by
    unfold Sink.write at failed
    split at failed
    · cases failed
    · split at failed <;> cases failed
      exact undelivered _
  cases policy with
  | check => rfl
  | execute passLimit =>
      rw [emit]
      split
      · next failed => exact writeFails failed
      · split
        · split
          · next failed => exact writeFails failed
          · rfl
        · rfl

end Machine

/-! ## What passes a check is typed -/

namespace Statement

open Machine

variable {context : Typing} {machine : Machine}

/-- The run of a check that completes only where `typed` holds, and never runs out of passes. -/
abbrev Checks (typed : Typing → Prop) : Outcome × Machine → Prop :=
  Runs (fun final => ∃ after, typed after ∧ final.environment.Fits after) (fun _ => True) False

private theorem check_expression {root : Expression} (fits : machine.environment.Fits context) :
    Checks (Typed context (.expression root)) (run .check (.expression root) machine) := by
  rw [run]
  apply runs_of_evaluates (root.check_evaluates fits)
  intro value after evaluated
  exact ⟨context, .expression evaluated.1, evaluated.2⟩

private theorem check_declare {name : String} {initializer : Expression} {line : Nat}
    (fits : machine.environment.Fits context) :
    Checks (Typed context (.declare name initializer line))
      (run .check (.declare name initializer line) machine) := by
  rw [run]
  apply runs_of_evaluates (initializer.check_evaluates fits)
  intro value after evaluated
  obtain ⟨typed, fitsAfter⟩ := evaluated
  split
  · trivial
  · next defined same =>
    obtain ⟨new, fitsDefined⟩ := fitsAfter.lookup_of_define same
    exact ⟨_, .declare typed new, fitsDefined⟩

private theorem check_print {root : Expression} {newline : Bool}
    (fits : machine.environment.Fits context) :
    Checks (Typed context (.print root newline)) (run .check (.print root newline) machine) := by
  rw [run]
  apply runs_of_evaluates (root.check_evaluates fits)
  intro value after evaluated
  exact ⟨context, .print evaluated.1, evaluated.2⟩

private theorem check_block {statements : List Statement} (fits : machine.environment.Fits context)
    (checks : ∀ {context : Typing} {machine : Machine}, machine.environment.Fits context →
      Checks (TypedAll context statements) (runAll .check statements machine)) :
    Runs (fun final => Typed context (.block statements) context ∧
        final.environment.Fits context) (fun _ => True) False
      (run .check (.block statements) machine) := by
  rw [run]
  have entered : (machine.withEnvironment (machine.environment.enter [])).environment.Fits
      (context.enter []) := fits.enter
  refine (checks entered).leave fun final completed => ?_
  obtain ⟨after, typed, fitsAfter⟩ := completed
  exact ⟨.block typed, typed.leave_eq ▸ fitsAfter.leave⟩

theorem StartShaped.checks {start : Option Statement} (shaped : StartShaped start)
    (fits : machine.environment.Fits context) :
    Checks (TypedPart context start) (runOptional .check start machine) := by
  cases shaped with
  | absent => exact ⟨context, .absent, fits⟩
  | declare _ =>
      refine (check_declare fits).imp fun final completed => ?_
      obtain ⟨after, typed, fitsAfter⟩ := completed
      exact ⟨after, .present typed, fitsAfter⟩

theorem StepShaped.checks {step : Option Statement} (shaped : StepShaped step)
    (fits : machine.environment.Fits context) :
    Runs (fun final => TypedPart context step context ∧ final.environment.Fits context)
      (fun _ => True) False (runOptional .check step machine) := by
  cases shaped with
  | absent => exact ⟨.absent, fits⟩
  | assign _ =>
      refine (check_expression fits).imp fun final completed => ?_
      obtain ⟨after, typed, fitsAfter⟩ := completed
      cases typed with
      | expression typed => exact ⟨.present (.expression typed), fitsAfter⟩

/-- A check makes one pass and decides twice. -/
private theorem check_repeatPass {condition : Expression} {pass : Machine → Outcome × Machine}
    (passes : Prop) (fits : machine.environment.Fits context)
    (passChecks : ∀ {machine : Machine}, machine.environment.Fits context →
      Runs (fun final => passes ∧ final.environment.Fits context) (fun _ => True) False
        (pass machine)) :
    Runs (fun final => condition.HasFamily context .boolean ∧ passes ∧
        final.environment.Fits context) (fun _ => True) False
      (repeatPass .check condition pass 0 1 machine) := by
  rw [repeatPass]
  apply runs_of_decides (condition.check_decides fits)
  intro holds after decided
  obtain ⟨typed, fitsAfter⟩ := decided
  have passed := @passChecks (machine.withEnvironment after) fitsAfter
  simp only [Policy.repeats, decide_true, if_true]
  generalize pass (machine.withEnvironment after) = result at passed
  obtain ⟨outcome, next⟩ := result
  cases outcome with
  | failed error => trivial
  | unfinished => exact passed
  | completed =>
      obtain ⟨passTyped, fitsNext⟩ := passed
      simp only [repeatPass]
      apply runs_of_decides (condition.check_decides fitsNext)
      intro holds after decided
      exact ⟨typed, passTyped, decided.2⟩

private theorem check_loop {start step : Option Statement} {condition : Expression}
    {statements : List Statement} (startShaped : StartShaped start) (stepShaped : StepShaped step)
    (checks : ∀ {context : Typing} {machine : Machine}, machine.environment.Fits context →
      Checks (TypedAll context statements) (runAll .check statements machine))
    (fits : machine.environment.Fits context) :
    Checks (Typed context (.loop start condition step (.block statements)))
      (run .check (.loop start condition step (.block statements)) machine) := by
  rw [run]
  refine (startShaped.checks fits).thenRun fun next started => ?_
  obtain ⟨inside, startTyped, fitsInside⟩ := started
  refine (check_repeatPass (Typed inside (.block statements) inside ∧
    TypedPart inside step inside) fitsInside fun fitsPass => ?_).imp fun final completed => ?_
  · refine (check_block fitsPass checks).thenRun fun next completed => ?_
    exact (stepShaped.checks completed.2).imp fun final stepped =>
      ⟨⟨completed.1, stepped.1⟩, stepped.2⟩
  · obtain ⟨decides, ⟨bodyTyped, stepTyped⟩, fitsFinal⟩ := completed
    exact ⟨inside, .loop startTyped decides bodyTyped stepTyped, fitsFinal⟩

/-- Statements of the shape that reading gives are typed if they pass a check, which visits both
arms of every branch in turn. -/
theorem ShapedAll.checks {statements : List Statement} (shaped : ShapedAll statements)
    (fits : machine.environment.Fits context) :
    Checks (TypedAll context statements) (runAll .check statements machine) := by
  refine ShapedAll.rec
    (motive_1 := fun statement _ => ∀ {context : Typing} {machine : Machine},
      machine.environment.Fits context →
      Checks (Typed context statement) (run .check statement machine))
    (motive_2 := fun elseBranch _ => ∀ {context : Typing} {machine : Machine},
      machine.environment.Fits context →
      Runs (fun final => TypedPart context elseBranch context ∧ final.environment.Fits context)
        (fun _ => True) False (runOptional .check elseBranch machine))
    (motive_3 := fun statements _ => ∀ {context : Typing} {machine : Machine},
      machine.environment.Fits context →
      Checks (TypedAll context statements) (runAll .check statements machine))
    ?expression ?declare ?print ?block ?loop ?branch ?absent ?elseBlock ?elseBranch ?nil ?cons
    shaped fits
  case expression => exact fun _ _ _ fits => check_expression fits
  case declare => exact fun _ _ _ fits => check_declare fits
  case print => exact fun _ _ _ fits => check_print fits
  case block =>
    intro statements _ checks context machine fits
    exact (check_block fits checks).imp fun final completed => ⟨context, completed⟩
  case loop =>
    intro start step condition statements startShaped _ stepShaped _ checks context machine fits
    have loopChecks : ∀ {context : Typing} {machine : Machine}, machine.environment.Fits context →
        Checks (TypedAll context [.loop start condition step (.block statements)])
          (runAll .check [.loop start condition step (.block statements)] machine) := by
      intro context machine fits
      rw [runAll]
      refine (check_loop startShaped stepShaped checks fits).thenRun fun final completed => ?_
      obtain ⟨inside, typed, fitsFinal⟩ := completed
      exact ⟨inside, .cons typed .nil, fitsFinal⟩
    exact (check_block fits loopChecks).imp fun final completed => ⟨context, completed⟩
  case branch =>
    intro condition statements elseBranch _ _ _ thenChecks elseChecks context machine fits
    rw [run]
    apply runs_of_decides (condition.check_decides fits)
    intro holds after decided
    obtain ⟨decides, fitsAfter⟩ := decided
    have entered : (machine.withEnvironment after).environment.Fits context := fitsAfter
    simp only [Policy.visitsThen, Policy.visitsElse, if_true]
    refine (check_block entered thenChecks).thenRun fun next completed => ?_
    refine (elseChecks completed.2).imp fun final elseCompleted => ?_
    exact ⟨context, .branch decides completed.1 elseCompleted.1, elseCompleted.2⟩
  case absent => exact fun fits => ⟨.absent, fits⟩
  case elseBlock =>
    intro statements _ checks context machine fits
    exact (check_block fits checks).imp fun final completed =>
      ⟨.present completed.1, completed.2⟩
  case elseBranch =>
    intro condition thenBranch elseBranch _ checks context machine fits
    refine (checks fits).imp fun final completed => ?_
    obtain ⟨after, typed, fitsAfter⟩ := completed
    cases typed with
    | branch decides thenTyped elseTyped =>
        exact ⟨.present (.branch decides thenTyped elseTyped), fitsAfter⟩
  case nil => exact fun fits => ⟨_, .nil, fits⟩
  case cons =>
    intro statement statements _ _ checks othersCheck context machine fits
    rw [runAll]
    refine (checks fits).thenRun fun next completed => ?_
    obtain ⟨between, typed, fitsBetween⟩ := completed
    refine (othersCheck fitsBetween).imp fun final othersCompleted => ?_
    obtain ⟨after, othersTyped, fitsAfter⟩ := othersCompleted
    exact ⟨after, .cons typed othersTyped, fitsAfter⟩

/-! ## What is typed runs -/

/-- The run of a program that leaves the typing `after`, fails with a residual error or does not
end. -/
abbrev Executes (after : Typing) : Outcome × Machine → Prop :=
  Runs (fun final => final.environment.Fits after) RuntimeError.Residual True

theorem TypedAll.executes {statements : List Statement} {after : Typing}
    (typed : TypedAll context statements after) (passLimit : Nat)
    (fits : machine.environment.Fits context) :
    Executes after (runAll (.execute passLimit) statements machine) := by
  refine TypedAll.rec
    (motive_1 := fun context statement after _ => ∀ {machine : Machine},
      machine.environment.Fits context →
      Executes after (run (.execute passLimit) statement machine))
    (motive_2 := fun context statements after _ => ∀ {machine : Machine},
      machine.environment.Fits context →
      Executes after (runAll (.execute passLimit) statements machine))
    (motive_3 := fun context part after _ => ∀ {machine : Machine},
      machine.environment.Fits context →
      Executes after (runOptional (.execute passLimit) part machine))
    ?expression ?declare ?print ?block ?branch ?loop ?nil ?cons ?absent ?present typed fits
  case expression =>
    intro context root family typed machine fits
    rw [run]
    exact runs_of_evaluates (typed.evaluates passLimit fits) fun value after evaluated =>
      evaluated.2
  case declare =>
    intro context name initializer line family typed new machine fits
    rw [run]
    apply runs_of_evaluates (typed.evaluates passLimit fits)
    intro value after evaluated
    obtain ⟨rfl, fitsAfter⟩ := evaluated
    obtain ⟨defined, same, fitsDefined⟩ := fitsAfter.define_of_lookup new value line
    simp only [same]
    exact fitsDefined
  case print =>
    intro context root newline family typed machine fits
    rw [run]
    apply runs_of_evaluates (typed.evaluates passLimit fits)
    intro value after evaluated
    exact (runs_emit fun _ => trivial).imp fun final same => same ▸ evaluated.2
  case block =>
    intro context after statements typed executes machine fits
    rw [run]
    have entered : (machine.withEnvironment (machine.environment.enter [])).environment.Fits
        (context.enter []) := fits.enter
    exact (executes entered).leave fun final fitsFinal => typed.leave_eq ▸ fitsFinal.leave
  case branch =>
    intro context condition thenBranch elseBranch decides _ _ thenExecutes elseExecutes machine fits
    rw [run]
    apply runs_of_decides (decides.decides passLimit fits)
    intro holds after fitsAfter
    have entered : (machine.withEnvironment after).environment.Fits context := fitsAfter
    have first : Executes context (if (Policy.execute passLimit).visitsThen holds then
        run (.execute passLimit) thenBranch (machine.withEnvironment after)
        else (.completed, machine.withEnvironment after)) := by
      split
      · exact thenExecutes entered
      · exact entered
    apply first.thenRun
    intro next fitsNext
    split
    · exact elseExecutes fitsNext
    · exact fitsNext
  case loop =>
    intro context inside start step condition body _ decides _ _ startExecutes bodyExecutes
      stepExecutes machine fits
    rw [run]
    refine (startExecutes fits).thenRun fun next fitsInside => ?_
    -- every pass leaves the typing it found, however many there are
    refine runs_repeatPass (·.Fits inside) (·.Fits inside) ?_ ?_ (fun _ _ => trivial) fitsInside
    · exact fun _ fitsDecision => decides.decides passLimit fitsDecision
    · intro _ fitsPass
      exact (bodyExecutes fitsPass).thenRun fun _ fitsBody => stepExecutes fitsBody
  case nil => exact fun fits => fits
  case cons =>
    intro context between after statement statements _ _ executes othersExecute machine fits
    rw [runAll]
    exact (executes fits).thenRun fun _ fitsBetween => othersExecute fitsBetween
  case absent => exact fun fits => fits
  case present => exact fun _ executes _ fits => executes fits

end Statement

/-! ## Whole programs -/

namespace Statement

theorem runAll_singleton (policy : Policy) (statement : Statement) (machine : Machine) :
    runAll policy [statement] machine = run policy statement machine := by
  rw [runAll]
  generalize run policy statement machine = result
  obtain ⟨outcome, final⟩ := result
  cases outcome <;> rfl

theorem Shaped.checks {statement : Statement} {context : Typing} {machine : Machine}
    (shaped : Shaped statement) (fits : machine.environment.Fits context) :
    Checks (Typed context statement) (run .check statement machine) := by
  rw [← runAll_singleton]
  refine ((ShapedAll.cons shaped .nil).checks fits).imp fun final completed => ?_
  obtain ⟨after, typed, fitsAfter⟩ := completed
  cases typed with
  | cons typed others =>
      cases others with
      | nil => exact ⟨after, typed, fitsAfter⟩

end Statement

namespace Program

open Statement

theorem typedAll_of_checkFrom {program : Program} {context : Typing} {machine : Machine}
    (shaped : ShapedAll program) (fits : machine.environment.Fits context)
    (passed : checkFrom machine program = []) : ∃ after, TypedAll context program after := by
  induction program generalizing context machine with
  | nil => exact ⟨context, .nil⟩
  | cons statement others ih =>
      cases shaped with
      | cons shaped othersShaped =>
          have checks := shaped.checks fits
          rw [checkFrom] at passed
          generalize run .check statement machine = result at checks passed
          obtain ⟨outcome, next⟩ := result
          cases outcome with
          | failed error => cases passed
          | unfinished => exact checks.elim
          | completed =>
              obtain ⟨between, typed, fitsBetween⟩ := checks
              obtain ⟨after, othersTyped⟩ := ih othersShaped fitsBetween passed
              exact ⟨after, .cons typed othersTyped⟩

/-- A program fails where its statements do, or because its output is not delivered. -/
theorem fails_of_execute {program : Program} {passLimit : Nat} {sink final : Sink}
    {error : RuntimeError} {completes : Machine → Prop} {fails : RuntimeError → Prop}
    {stalls : Prop} (undelivered : ∀ fault, fails (.output fault))
    (runs : Machine.Runs completes fails stalls
      (runAll (.execute passLimit) program (Machine.start sink)))
    (failed : program.execute passLimit sink = (.failed error, final)) : fails error := by
  unfold execute at failed
  generalize runAll (.execute passLimit) program (Machine.start sink) = result at runs failed
  obtain ⟨outcome, machine⟩ := result
  cases outcome with
  | failed error =>
      cases failed
      exact runs
  | unfinished => cases failed
  | completed =>
      dsimp only at failed
      unfold Sink.flush at failed
      split at failed
      · cases failed
      · next flushFailed =>
        cases failed
        split at flushFailed <;> cases flushFailed
        exact undelivered _

theorem execute_residual {program : Program} {after : Typing} {passLimit : Nat} {sink final : Sink}
    {error : RuntimeError} (typed : TypedAll (ScopeStack.single []) program after)
    (failed : program.execute passLimit sink = (.failed error, final)) : error.Residual :=
  fails_of_execute (fun _ => trivial) (typed.executes passLimit Environment.fits_empty) failed

end Program

/-- A run of an accepted source fails for its values only: no name is missing or taken, no variable
is given a value of another family, and no operator but the remainder meets operands it refuses. -/
theorem execute_error_residual {source : String} {prior : Diagnostics} {program : Program}
    {passLimit : Nat} {sink final : Sink} {error : RuntimeError}
    (accepted : (compile source prior).1 = some program)
    (failed : program.execute passLimit sink = (.failed error, final)) : error.Residual := by
  obtain ⟨passes, rfl⟩ := compile_eq_some accepted
  have shaped := Statement.readers_shaped.2.2.2.1 false (Scan.ofText source).tokens
  obtain ⟨after, typed⟩ := Program.typedAll_of_checkFrom shaped Environment.fits_empty
    passes.checked
  exact Program.execute_residual typed failed

private def untakenBranchTokens : List Token :=
  [.plain .varWord 1, ⟨.identifier, some (.text "x"), 1⟩, .plain .equal 1,
    ⟨.decimalLiteral, some (.decimal ⟨4609434218613702656⟩), 1⟩, .plain .lineEnd 1,
    .plain .ifWord 2, .plain .falseWord 2, .plain .leftBrace 2, ⟨.identifier, some (.text "x"), 2⟩,
    .plain .equal 2, ⟨.integerLiteral, some (.integer 2), 2⟩, .plain .rightBrace 2,
    .plain .lineEnd 2, .plain .printWord 3, ⟨.identifier, some (.text "x"), 3⟩, .plain .percent 3,
    ⟨.integerLiteral, some (.integer 2), 3⟩, .plain .inputEnd 3]

private def untakenBranch : Program :=
  [.declare "x" (.literal (.decimal ⟨4609434218613702656⟩) 1) 1,
    .branch (.literal (.boolean false) 2)
      (.block [.expression (.assign "x" (.literal (.int 2) 2) 2)]) none,
    .print (.binary (.arithmetic .remainder) (.reference "x" 3) (.literal (.int 2) 3) 3) false]

/-- The check sees the integer that the branch would store, the run keeps the decimal. -/
theorem execute_remainder_of_decimal : ∃ program final,
    (compile "var x=1.5\nif false{x=2}\nprint x%2" []).1 = some program ∧
      program.execute 0 .unbounded =
        (.failed (.operands (.integersNeeded .decimal .int) 3), final) ∧
      (RuntimeError.operands (.integersNeeded .decimal .int) 3).Residual := by
  have scanned : Scan.ofText "var x=1.5\nif false{x=2}\nprint x%2" =
      ⟨untakenBranchTokens, []⟩ := by
    decide +kernel
  have read : Program.read untakenBranchTokens = (untakenBranch, []) := by cbv
  have accepted : (compile "var x=1.5\nif false{x=2}\nprint x%2" []).1 = some untakenBranch :=
    compile_of_stages scanned rfl (by decide +kernel) read (by decide +kernel)
  have failed : untakenBranch.execute 0 .unbounded =
      (.failed (.operands (.integersNeeded .decimal .int) 3), .unbounded) := by
    decide +kernel
  exact ⟨_, _, accepted, failed, execute_error_residual accepted failed⟩

end LineScript
