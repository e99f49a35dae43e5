import LineScript.Evaluation.Environment
import LineScript.Evaluation.Policy
import LineScript.Evaluation.Sink
import LineScript.Program.Basic
import LineScript.Value.Operation

/-!
The walk over a program.

Evaluating an expression gives a value or an error, and in either case the environment it leaves.
Running a statement changes a machine: the environment and what was printed.  A loop that would
make more passes than its policy allows ends the walk unfinished, which is no error.
-/

set_option autoImplicit false

namespace LineScript

def Expression.evaluate (policy : Policy) :
    Expression → Environment → Except RuntimeError Value × Environment
  | .literal value _, environment => (.ok value, environment)
  | .reference name line, environment => (environment.get name line, environment)
  | .assign name value line, environment =>
    match evaluate policy value environment with
    | (.error error, after) => (.error error, after)
    | (.ok result, after) =>
      match after.assign name result line with
      | .error error => (.error error, after)
      | .ok assigned => (.ok result, assigned)
  | .unary operator operand line, environment =>
    match evaluate policy operand environment with
    | (.error error, after) => (.error error, after)
    | (.ok value, after) => (policy.absorb (Value.unary operator value line), after)
  | .binary operator left right line, environment =>
    match evaluate policy left environment with
    | (.error error, after) => (.error error, after)
    | (.ok leftValue, between) =>
      match evaluate policy right between with
      | (.error error, after) => (.error error, after)
      | (.ok rightValue, after) =>
        (policy.absorb (Value.binary operator leftValue rightValue line), after)
  | .group inner, environment => evaluate policy inner environment

def Expression.decide (policy : Policy) (condition : Expression) (environment : Environment) :
    Except RuntimeError Bool × Environment :=
  match condition.evaluate policy environment with
  | (.error error, after) => (.error error, after)
  | (.ok value, after) => (value.toCondition condition.line, after)

structure Machine where
  environment : Environment
  sink : Sink
deriving DecidableEq, Repr

inductive Outcome where
  | completed
  | failed (error : RuntimeError)
  /-- A loop reached its pass limit. -/
  | unfinished
deriving DecidableEq, Repr

namespace Machine

def start (sink : Sink) : Machine :=
  ⟨.empty, sink⟩

def withEnvironment (environment : Environment) (machine : Machine) : Machine :=
  { machine with environment := environment }

/-- Prints a text, and a line break as a write of its own.  A check prints nothing. -/
def emit (policy : Policy) (text : String) (newline : Bool) (machine : Machine) :
    Outcome × Machine :=
  match policy with
  | .check => (.completed, machine)
  | .execute _ =>
    match machine.sink.write text with
    | (.error error, refused) => (.failed error, { machine with sink := refused })
    | (.ok (), written) =>
      if newline then
        match written.write "\n" with
        | (.error error, refused) => (.failed error, { machine with sink := refused })
        | (.ok (), ended) => (.completed, { machine with sink := ended })
      else (.completed, { machine with sink := written })

def thenRun (next : Machine → Outcome × Machine) : Outcome × Machine → Outcome × Machine
  | (.completed, machine) => next machine
  | (.failed error, machine) => (.failed error, machine)
  | (.unfinished, machine) => (.unfinished, machine)

/-- Repeats `pass` while `condition` and the policy ask for it; `passes` were made before, and
`remaining` more may be. -/
def repeatPass (policy : Policy) (condition : Expression) (pass : Machine → Outcome × Machine)
    (passes remaining : Nat) (machine : Machine) : Outcome × Machine :=
  match condition.decide policy machine.environment with
  | (.error error, after) => (.failed error, machine.withEnvironment after)
  | (.ok holds, after) =>
    if policy.repeats holds passes then
      match remaining with
      | 0 => (.unfinished, machine.withEnvironment after)
      | remaining + 1 =>
        match pass (machine.withEnvironment after) with
        | (.completed, next) => repeatPass policy condition pass (passes + 1) remaining next
        | (.failed error, next) => (.failed error, next)
        | (.unfinished, next) => (.unfinished, next)
    else (.completed, machine.withEnvironment after)

end Machine

namespace Statement

mutual

/-- Runs a statement.  Scopes opened on the way are closed again, however it ends. -/
def run (policy : Policy) : Statement → Machine → Outcome × Machine
  | .expression root, machine =>
    match root.evaluate policy machine.environment with
    | (.error error, after) => (.failed error, machine.withEnvironment after)
    | (.ok _, after) => (.completed, machine.withEnvironment after)
  | .declare name initializer line, machine =>
    match initializer.evaluate policy machine.environment with
    | (.error error, after) => (.failed error, machine.withEnvironment after)
    | (.ok value, after) =>
      match after.define name value line with
      | .error error => (.failed error, machine.withEnvironment after)
      | .ok defined => (.completed, machine.withEnvironment defined)
  | .print root newline, machine =>
    match root.evaluate policy machine.environment with
    | (.error error, after) => (.failed error, machine.withEnvironment after)
    | (.ok value, after) => (machine.withEnvironment after).emit policy value.toText newline
  | .block statements, machine =>
    let (outcome, after) :=
      runAll policy statements (machine.withEnvironment (machine.environment.enter []))
    (outcome, after.withEnvironment after.environment.leave)
  | .branch condition thenBranch elseBranch, machine =>
    match condition.decide policy machine.environment with
    | (.error error, after) => (.failed error, machine.withEnvironment after)
    | (.ok holds, after) =>
      let afterThen :=
        if policy.visitsThen holds then run policy thenBranch (machine.withEnvironment after)
        else (.completed, machine.withEnvironment after)
      Machine.thenRun
        (fun next => if policy.visitsElse holds then runOptional policy elseBranch next
          else (.completed, next)) afterThen
  | .loop start condition step body, machine =>
    Machine.thenRun
      (Machine.repeatPass policy condition
        (fun next => Machine.thenRun (runOptional policy step) (run policy body next))
        0 policy.passLimit)
      (runOptional policy start machine)

def runAll (policy : Policy) : List Statement → Machine → Outcome × Machine
  | [], machine => (.completed, machine)
  | statement :: others, machine =>
    Machine.thenRun (runAll policy others) (run policy statement machine)

def runOptional (policy : Policy) : Option Statement → Machine → Outcome × Machine
  | none, machine => (.completed, machine)
  | some statement, machine => run policy statement machine

end

def runBlock (policy : Policy) (statements : List Statement) (machine : Machine) :
    Outcome × Machine :=
  run policy (.block statements) machine

end Statement

namespace Program

def execute (passLimit : Nat) (program : Program) (sink : Sink) : Outcome × Sink :=
  match Statement.runAll (.execute passLimit) program (Machine.start sink) with
  | (.completed, machine) =>
    match machine.sink.flush with
    | .ok () => (.completed, machine.sink)
    | .error error => (.failed error, machine.sink)
  | (outcome, machine) => (outcome, machine.sink)

/-- The errors of the statements of a program, each checked in the environment that those before it
left; a failed statement leaves only the outermost scope. -/
def checkFrom (machine : Machine) : Program → List RuntimeError
  | [] => []
  | statement :: others =>
    match statement.run .check machine with
    | (.failed error, after) =>
      error :: checkFrom (after.withEnvironment after.environment.unwind) others
    | (_, after) => checkFrom after others

def check (program : Program) : List RuntimeError :=
  checkFrom (Machine.start .unbounded) program

end Program

end LineScript
