import LineScript.Proofs.Kinds
import Mathlib.Data.Bool.Basic

/-!
Where a run meets the kinds that its check has seen.

A check goes through a program once: from one arm of a branch into the other, and out of a loop
behind a single pass.  A run takes one of the arms and makes any number of passes.  The two have
the same kinds before every statement if each arm and each pass gives back the kinds it was given.
Elsewhere a variable may hold an integer in the one and a decimal in the other, and the remainder
tells these apart.
-/

set_option autoImplicit false

namespace LineScript

/-- Whether an operator was given operands of kinds it does not take. -/
def RuntimeError.concernsOperands : RuntimeError → Bool
  | .operands _ _ => true
  | _ => false

theorem RuntimeError.concernsOperands_of_isValueFault {error : RuntimeError}
    (isFault : error.isValueFault = true) : error.concernsOperands = false := by
  cases error <;> first | rfl | cases isFault

namespace Statement

mutual

/-- Whether every arm and every pass in a statement leaves the kinds it came with, when the
statement is checked from `machine` on. -/
def keepsKinds : Statement → Machine → Bool
  | .expression _, _ | .declare _ _ _, _ | .print _ _, _ => true
  | .block statements, machine =>
    keepsKindsAll statements (machine.withEnvironment (machine.environment.enter []))
  | .branch condition thenBranch elseBranch, machine =>
    let decided := machine.withEnvironment (condition.decide .check machine.environment).2
    let afterThen := (run .check thenBranch decided).2
    let afterElse := (runOptional .check elseBranch afterThen).2
    keepsKinds thenBranch decided && keepsKindsPart elseBranch afterThen &&
      decide (afterThen.environment.outline = decided.environment.outline) &&
      decide (afterElse.environment.outline = decided.environment.outline)
  | .loop start condition step body, machine =>
    let started := (runOptional .check start machine).2
    let decided := started.withEnvironment (condition.decide .check started.environment).2
    let afterBody := (run .check body decided).2
    let afterStep := (runOptional .check step afterBody).2
    keepsKindsPart start machine && keepsKinds body decided && keepsKindsPart step afterBody &&
      decide (afterStep.environment.outline = started.environment.outline)

def keepsKindsAll : List Statement → Machine → Bool
  | [], _ => true
  | statement :: others, machine =>
    keepsKinds statement machine && keepsKindsAll others (run .check statement machine).2

def keepsKindsPart : Option Statement → Machine → Bool
  | none, _ => true
  | some statement, machine => keepsKinds statement machine

end

end Statement

def Program.keepsKinds (program : Program) : Bool :=
  Statement.keepsKindsAll program (Machine.start .unbounded)

/-! ## Runs beside a check -/

theorem Expression.Walks.evaluates {passLimit : Nat} {α : Type} {alike : α → α → Prop}
    {checked : α} {after : Environment} {result : Except RuntimeError α × Environment}
    (walks : Walks (.execute passLimit) alike (.ok checked, after) result) :
    Evaluates (fun _ final => final.outline = after.outline)
      (fun error => error.concernsOperands = false) result := by
  cases walks with
  | success _ same => exact same.symm
  | fault _ isFault => exact RuntimeError.concernsOperands_of_isValueFault isFault

namespace Machine

/-- A run beside a check that completes: it comes to the same kinds, does not end, or fails for
another reason than its operands. -/
def Follows (checked result : Outcome × Machine) : Prop :=
  checked.1 = .completed →
    Runs (fun final => final.environment.outline = checked.2.environment.outline)
      (fun error => error.concernsOperands = false) True result

/-- A run follows a check from all machines of the same kinds, as long as the check keeps them. -/
abbrev Tracks (keeps : Machine → Bool) (check run : Machine → Outcome × Machine) : Prop :=
  ∀ ⦃machine other : Machine⦄, keeps machine = true →
    other.environment.outline = machine.environment.outline → Follows (check machine) (run other)

private theorem thenRun_of_completed {first : Outcome × Machine}
    {next : Machine → Outcome × Machine}
    (completed : (thenRun next first).1 = .completed) : thenRun next first = next first.2 := by
  obtain ⟨outcome, machine⟩ := first
  cases outcome with
  | completed => rfl
  | failed error => cases completed
  | unfinished => cases completed

theorem Follows.thenRun {checked result : Outcome × Machine}
    {next otherNext : Machine → Outcome × Machine} (follows : Follows checked result)
    (onCompletion : ∀ machine : Machine,
      machine.environment.outline = checked.2.environment.outline →
      Follows (next checked.2) (otherNext machine)) :
    Follows (thenRun next checked) (Machine.thenRun otherNext result) := by
  obtain ⟨outcome, machine⟩ := checked
  intro completed
  cases outcome with
  | completed => exact (follows rfl).thenRun fun final same => onCompletion final same completed
  | failed error => cases completed
  | unfinished => cases completed

theorem Follows.leave {checked result : Outcome × Machine} (follows : Follows checked result) :
    Follows (checked.1, checked.2.withEnvironment checked.2.environment.leave)
      (result.1, result.2.withEnvironment result.2.environment.leave) := by
  intro completed
  exact (follows completed).leave fun final same => Environment.leave_congr same

private theorem follows_of_walks {passLimit : Nat} {machine otherMachine : Machine}
    {checked result : Except RuntimeError Value × Environment}
    {next otherNext : Value → Environment → Outcome × Machine} :
    Expression.WalksAlike (.execute passLimit) checked result →
    (∀ first second after otherAfter, first.kind = second.kind →
      after.outline = otherAfter.outline →
      Follows (next first after) (otherNext second otherAfter)) →
    Follows
      (match checked with
        | (.error error, after) => (.failed error, machine.withEnvironment after)
        | (.ok value, after) => next value after)
      (match result with
        | (.error error, after) => (.failed error, otherMachine.withEnvironment after)
        | (.ok value, after) => otherNext value after) := by
  intro walks onSuccess
  cases walks with
  | success kinds same => exact onSuccess _ _ _ _ kinds same
  | failure same => exact nofun
  | fault _ isFault => exact fun _ => RuntimeError.concernsOperands_of_isValueFault isFault

private theorem follows_of_decides {passLimit : Nat} {machine otherMachine : Machine}
    {checked result : Except RuntimeError Bool × Environment}
    {next otherNext : Bool → Environment → Outcome × Machine} :
    Expression.Walks (.execute passLimit) (fun _ _ => True) checked result →
    (∀ first second otherAfter, otherAfter.outline = checked.2.outline →
      Follows (next first checked.2) (otherNext second otherAfter)) →
    Follows
      (match checked with
        | (.error error, after) => (.failed error, machine.withEnvironment after)
        | (.ok holds, after) => next holds after)
      (match result with
        | (.error error, after) => (.failed error, otherMachine.withEnvironment after)
        | (.ok holds, after) => otherNext holds after) := by
  intro walks onSuccess
  cases walks with
  | success _ same => exact onSuccess _ _ _ same.symm
  | failure same => exact nofun
  | fault _ isFault => exact fun _ => RuntimeError.concernsOperands_of_isValueFault isFault

variable {condition : Expression} {pass otherPass : Machine → Outcome × Machine}
  {machine : Machine} {holds : Bool} {after : Environment}

/-- Behind the only pass of a check the condition is decided once more, from the same kinds. -/
private theorem outline_of_check_repeatPass
    (decides : condition.decide .check machine.environment = (.ok holds, after))
    (returns : (pass (machine.withEnvironment after)).1 = .completed →
      (pass (machine.withEnvironment after)).2.environment.outline = machine.environment.outline)
    (completed : (repeatPass .check condition pass 0 1 machine).1 = .completed) :
    (pass (machine.withEnvironment after)).1 = .completed ∧
      (repeatPass .check condition pass 0 1 machine).2.environment.outline = after.outline := by
  rw [repeatPass, decides] at completed ⊢
  simp only [Policy.repeats, decide_true, if_true] at completed ⊢
  generalize pass (machine.withEnvironment after) = result at returns completed ⊢
  obtain ⟨outcome, next⟩ := result
  cases outcome with
  | failed error => cases completed
  | unfinished => cases completed
  | completed =>
      have again := (Expression.Alike.refl condition).decides .check (returns rfl)
      rw [decides] at again
      simp only [repeatPass]
      generalize condition.decide .check next.environment = result at again
      cases again with
      | success _ same => exact ⟨trivial, same⟩

/-- If the pass of a check leaves the kinds it was given, every pass of a run has them again. -/
private theorem follows_repeatPass {decided : Machine} {passLimit : Nat}
    (decides : decided = machine.withEnvironment (condition.decide .check machine.environment).2)
    (returns : (pass decided).1 = .completed →
      (pass decided).2.environment.outline = machine.environment.outline)
    (passFollows : ∀ other : Machine, other.environment.outline = decided.environment.outline →
      Follows (pass decided) (otherPass other))
    (passes remaining : Nat) {other : Machine}
    (outline : other.environment.outline = machine.environment.outline) :
    Follows (repeatPass .check condition pass 0 1 machine)
      (repeatPass (.execute passLimit) condition otherPass passes remaining other) := by
  intro completed
  rcases decision : condition.decide .check machine.environment with ⟨error | holds, after⟩
  · rw [repeatPass, decision] at completed
    cases completed
  · rw [decision] at decides
    subst decides
    obtain ⟨passed, left⟩ := outline_of_check_repeatPass decision returns completed
    rw [left]
    -- a pass of the run starts from the kinds that the condition leaves, and ends with those that
    -- the next decision starts from
    refine runs_repeatPass (·.outline = machine.environment.outline) (·.outline = after.outline)
      ?_ ?_ (fun _ _ => trivial) outline
    · intro environment same
      have walks := (Expression.Alike.refl condition).decides (.execute passLimit) same.symm
      rw [decision] at walks
      exact walks.evaluates
    · intro passMachine same
      exact (passFollows passMachine same passed).imp fun next outlineNext =>
        outlineNext.trans (returns passed)

end Machine

/-! ## Statements -/

namespace Statement

open Machine

private theorem tracks_branch {passLimit : Nat} {condition : Expression} {thenBranch : Statement}
    {elseBranch : Option Statement}
    (thenTracks : Tracks (keepsKinds thenBranch) (run .check thenBranch)
      (run (.execute passLimit) thenBranch))
    (elseTracks : Tracks (keepsKindsPart elseBranch) (runOptional .check elseBranch)
      (runOptional (.execute passLimit) elseBranch)) :
    Tracks (keepsKinds (.branch condition thenBranch elseBranch))
      (run .check (.branch condition thenBranch elseBranch))
      (run (.execute passLimit) (.branch condition thenBranch elseBranch)) := by
  intro machine other keeps outline
  simp only [keepsKinds, Bool.and_eq_true, decide_eq_true_eq] at keeps
  obtain ⟨⟨⟨thenKeeps, elseKeeps⟩, thenReturns⟩, elseReturns⟩ := keeps
  rw [run, run]
  apply follows_of_decides ((Expression.Alike.refl condition).decides _ outline.symm)
  intro first second otherAfter outlineAfter
  cases second with
  | true =>
      have taken := @thenTracks _ (other.withEnvironment otherAfter) thenKeeps outlineAfter
      exact taken.thenRun fun next outlineNext _ =>
        outlineNext.trans (thenReturns.trans elseReturns.symm)
  | false =>
      have passedOver : Follows
          (run .check thenBranch
            (machine.withEnvironment (condition.decide .check machine.environment).2))
          (.completed, other.withEnvironment otherAfter) :=
        fun _ => outlineAfter.trans thenReturns.symm
      exact passedOver.thenRun fun next outlineNext => elseTracks elseKeeps outlineNext

private theorem tracks_loop {passLimit : Nat} {condition : Expression} {body : Statement}
    {start step : Option Statement}
    (startTracks : Tracks (keepsKindsPart start) (runOptional .check start)
      (runOptional (.execute passLimit) start))
    (bodyTracks : Tracks (keepsKinds body) (run .check body) (run (.execute passLimit) body))
    (stepTracks : Tracks (keepsKindsPart step) (runOptional .check step)
      (runOptional (.execute passLimit) step)) :
    Tracks (keepsKinds (.loop start condition step body))
      (run .check (.loop start condition step body))
      (run (.execute passLimit) (.loop start condition step body)) := by
  intro machine other keeps outline
  simp only [keepsKinds, Bool.and_eq_true, decide_eq_true_eq] at keeps
  obtain ⟨⟨⟨startKeeps, bodyKeeps⟩, stepKeeps⟩, returns⟩ := keeps
  rw [run, run]
  refine (startTracks startKeeps outline).thenRun fun next outlineNext => ?_
  refine follows_repeatPass rfl ?_ (fun other outlineOther => ?_) 0 _ outlineNext
  · intro completed
    rw [thenRun_of_completed completed]
    exact returns
  · exact (bodyTracks bodyKeeps outlineOther).thenRun fun _ outlineBody =>
      stepTracks stepKeeps outlineBody

/-- A run meets the kinds of a check wherever the check saw them kept. -/
private theorem tracks_runAll (passLimit : Nat) (statements : List Statement) :
    Tracks (keepsKindsAll statements) (runAll .check statements)
      (runAll (.execute passLimit) statements) := by
  refine Statement.rec_1
    (motive_1 := fun statement => Tracks (keepsKinds statement) (run .check statement)
      (run (.execute passLimit) statement))
    (motive_2 := fun statements => Tracks (keepsKindsAll statements) (runAll .check statements)
      (runAll (.execute passLimit) statements))
    (motive_3 := fun part => Tracks (keepsKindsPart part) (runOptional .check part)
      (runOptional (.execute passLimit) part))
    ?expression ?declare ?print ?block ?branch ?loop ?nil ?cons ?absent ?present statements
  case expression =>
    intro root machine other _ outline
    rw [run, run]
    apply follows_of_walks ((Expression.Alike.refl root).walks _ outline.symm)
    exact fun _ _ _ _ _ outlineAfter _ => outlineAfter.symm
  case declare =>
    intro name initializer line machine other _ outline
    rw [run, run]
    apply follows_of_walks ((Expression.Alike.refl initializer).walks _ outline.symm)
    intro value otherValue after otherAfter kinds outlineAfter
    rcases cases_of_map_eq (Environment.define_congr outlineAfter kinds name line) with
      ⟨defined, otherDefined, success, otherSuccess, outlines⟩ | ⟨error, failure, otherFailure⟩
    · simp only [success, otherSuccess]
      exact fun _ => outlines.symm
    · simp only [failure]
      rintro ⟨⟩
  case print =>
    intro root newline machine other _ outline
    rw [run, run]
    apply follows_of_walks ((Expression.Alike.refl root).walks _ outline.symm)
    intro value otherValue after otherAfter _ outlineAfter _
    refine (runs_emit fun _ => rfl).imp fun final same => ?_
    exact (congrArg Environment.outline same).trans outlineAfter.symm
  case block =>
    intro statements inside machine other keeps outline
    rw [keepsKinds] at keeps
    rw [run, run]
    have entered : (other.withEnvironment (other.environment.enter [])).environment.outline =
        (machine.withEnvironment (machine.environment.enter [])).environment.outline :=
      congrArg (ScopeStack.enter []) outline
    exact (inside keeps entered).leave
  case branch => exact fun _ _ _ thenTracks elseTracks => tracks_branch thenTracks elseTracks
  case loop =>
    intro start condition step body startTracks stepTracks bodyTracks
    exact tracks_loop startTracks bodyTracks stepTracks
  case nil => exact fun _ _ _ outline _ => outline
  case cons =>
    intro statement statements first behind machine other keeps outline
    rw [keepsKindsAll, Bool.and_eq_true] at keeps
    rw [runAll, runAll]
    exact (first keeps.1 outline).thenRun fun next outlineNext => behind keeps.2 outlineNext
  case absent => exact fun _ _ _ outline _ => outline
  case present => exact fun _ tracks _ _ keeps outline => tracks keeps outline

end Statement

/-! ## Whole programs -/

namespace Program

open Statement

/-- A check without errors gets to the end of the program. -/
theorem completed_of_checkFrom {program : Program} {context : Typing} {machine : Machine}
    (shaped : ShapedAll program) (fits : machine.environment.Fits context)
    (passed : checkFrom machine program = []) :
    (runAll .check program machine).1 = .completed := by
  induction program generalizing context machine with
  | nil => rfl
  | cons statement others ih =>
      cases shaped with
      | cons shaped othersShaped =>
          have checks := shaped.checks fits
          rw [checkFrom] at passed
          rw [runAll]
          generalize run .check statement machine = result at checks passed
          obtain ⟨outcome, next⟩ := result
          cases outcome with
          | failed error => cases passed
          | unfinished => exact checks.elim
          | completed =>
              obtain ⟨between, _, fitsBetween⟩ := checks
              exact ih othersShaped fitsBetween passed

private theorem concernsOperands_of_keepsKinds {program : Program} {passLimit : Nat}
    {sink final : Sink}
    {error : RuntimeError} (keeps : program.keepsKinds = true) (shaped : ShapedAll program)
    (passed : program.check = [])
    (failed : program.execute passLimit sink = (.failed error, final)) :
    error.concernsOperands = false := by
  have completed := completed_of_checkFrom shaped Environment.fits_empty passed
  have follows := tracks_runAll passLimit program keeps
    (show (Machine.start sink).environment.outline = _ from rfl)
  exact fails_of_execute (fun _ => rfl) (follows completed) failed

end Program

/-- An accepted source fails over its operands in one way only: the remainder of numbers that are
not both integers is taken, where some arm or pass of the program changes the kind of a variable. -/
theorem execute_operands_of_compile {source : String} {prior : Diagnostics} {program : Program}
    {passLimit line : Nat} {sink final : Sink} {fault : OperandFault}
    (accepted : (compile source prior).1 = some program)
    (failed : program.execute passLimit sink = (.failed (.operands fault line), final)) :
    program.keepsKinds = false ∧
      ∃ left right : Kind, fault = .integersNeeded left right ∧ left.isNumeric = true ∧
        right.isNumeric = true ∧ (left = .decimal ∨ right = .decimal) := by
  obtain ⟨passes, rfl⟩ := compile_eq_some accepted
  have shaped := Statement.readers_shaped.2.2.2.1 false (Scan.ofText source).tokens
  constructor
  · apply Bool.eq_false_of_not_eq_true
    intro keeps
    have spared := Program.concernsOperands_of_keepsKinds keeps shaped passes.checked failed
    cases spared
  · obtain ⟨after, typed⟩ := Program.typedAll_of_checkFrom shaped Environment.fits_empty
      passes.checked
    have residual := Program.execute_residual typed failed
    cases fault with
    | integersNeeded left right => exact ⟨left, right, rfl, residual⟩
    | numbersNeeded | incomparable | booleansNeeded | numberNeeded | booleanNeeded =>
        exact residual.elim

/-- Takes the remainder of a variable and then stores a value in it, in each of two passes. -/
def storingLoop (stored : Value) : Program :=
  [.declare "x" (.literal (.int 1) 1) 1,
    .block [.loop (some (.declare "i" (.literal (.int 0) 2) 2))
      (.binary (.comparison .less) (.reference "i" 2) (.literal (.int 2) 2) 2)
      (some (.expression (.assign "i"
        (.binary (.arithmetic .add) (.reference "i" 2) (.literal (.int 1) 2) 2) 2)))
      (.block
        [.print (.binary (.arithmetic .remainder) (.reference "x" 3) (.literal (.int 2) 3) 3) false,
          .expression (.assign "x" (.literal stored 4) 4)])]]

def storingSource : String :=
  "var x = 1\nfor (var i = 0; i < 2; i = i + 1) \x7b\nprint x % 2\nx = 2.5\n\x7d\n"

/-- The number 2.5. -/
def twoAndHalf : Value :=
  .decimal ⟨4612811918334230528⟩

private def storingTokens : List Token :=
  [.plain .varWord 1, ⟨.identifier, some (.text "x"), 1⟩, .plain .equal 1,
    ⟨.integerLiteral, some (.integer 1), 1⟩, .plain .lineEnd 1, .plain .forWord 2,
    .plain .leftParen 2, .plain .varWord 2, ⟨.identifier, some (.text "i"), 2⟩, .plain .equal 2,
    ⟨.integerLiteral, some (.integer 0), 2⟩, .plain .semicolon 2,
    ⟨.identifier, some (.text "i"), 2⟩, .plain .less 2, ⟨.integerLiteral, some (.integer 2), 2⟩,
    .plain .semicolon 2, ⟨.identifier, some (.text "i"), 2⟩, .plain .equal 2,
    ⟨.identifier, some (.text "i"), 2⟩, .plain .plus 2, ⟨.integerLiteral, some (.integer 1), 2⟩,
    .plain .rightParen 2, .plain .leftBrace 2, .plain .lineEnd 2, .plain .printWord 3,
    ⟨.identifier, some (.text "x"), 3⟩, .plain .percent 3, ⟨.integerLiteral, some (.integer 2), 3⟩,
    .plain .lineEnd 3, ⟨.identifier, some (.text "x"), 4⟩, .plain .equal 4,
    ⟨.decimalLiteral, some (.decimal ⟨4612811918334230528⟩), 4⟩, .plain .lineEnd 4,
    .plain .rightBrace 5, .plain .lineEnd 5, .plain .inputEnd 6]

private theorem compile_storingSource :
    (compile storingSource []).1 = some (storingLoop twoAndHalf) := by
  have scanned : Scan.ofText storingSource = ⟨storingTokens, []⟩ := by decide +kernel
  have read : Program.read storingTokens = (storingLoop twoAndHalf, []) := by cbv
  exact compile_of_stages scanned rfl (by decide +kernel) read (by decide +kernel)

private theorem execute_storingLoop : ((storingLoop twoAndHalf).execute 2 .unbounded).1 =
    .failed (.operands (.integersNeeded .decimal .int) 3) := by
  decide +kernel

/-- The loop keeps the kinds with an integer to store, and not with a decimal. -/
theorem keepsKinds_storingLoop : (storingLoop (.int 5)).keepsKinds = true ∧
    (storingLoop twoAndHalf).keepsKinds = false := by
  constructor
  · decide +kernel
  · have failed : (storingLoop twoAndHalf).execute 2 .unbounded = (_, _) :=
      Prod.ext execute_storingLoop rfl
    exact (execute_operands_of_compile compile_storingSource failed).1

/-- The check makes one pass and sees the integer, the run makes two and meets the decimal. -/
theorem execute_operands_storingSource : ∃ program,
    (compile storingSource []).1 = some program ∧
      (program.execute 2 .unbounded).1 =
        .failed (.operands (.integersNeeded .decimal .int) 3) :=
  ⟨_, compile_storingSource, execute_storingLoop⟩

end LineScript
