import LineScript.Evaluation.Machine

/-!
That a check ends.

Here a loop makes as many passes as its policy asks for, and a walk that would never come back has
no ending at all.  A check always has one: it asks every loop for a single pass, whatever the
condition says and however deep the loop stands.  A run that was not cut short has its result for
an ending; an endless one has none.
-/

set_option autoImplicit false

namespace LineScript

/-! ## Endings -/

/-- The parts of a loop that are evaluated, or are begun to be. -/
inductive LoopPart where
  | start
  | condition
  | body
  | step
deriving DecidableEq, Repr

/-- The evaluation of a part that may be absent. -/
def LoopPart.ofOptional (part : LoopPart) (statement : Option Statement) : List LoopPart :=
  statement.toList.map fun _ => part

/-- The parts of a loop in order, where it makes exactly one pass. -/
def LoopPart.singlePass (start step : Option Statement) : List LoopPart :=
  ofOptional .start start ++ ([.condition, .body] ++ ofOptional .step step ++ [.condition])

/-- How often a check evaluates a part of a loop at most. -/
def LoopPart.checkLimit : LoopPart → Nat
  | .condition => 2
  | .start | .body | .step => 1

theorem LoopPart.count_singlePass_le (part : LoopPart) (start step : Option Statement) :
    (singlePass start step).count part ≤ part.checkLimit := by
  cases part <;> cases start <;> cases step <;> simp [singlePass, ofOptional, checkLimit]

namespace Statement

/-- The arms of a branch that are visited. -/
def arms (policy : Policy) (holds : Bool) (thenBranch : Statement)
    (elseBranch : Option Statement) : List Statement :=
  (if policy.visitsThen holds then [thenBranch] else []) ++
    if policy.visitsElse holds then elseBranch.toList else []

mutual

/-- How a statement ends that is evaluated in a machine. -/
inductive Ends (policy : Policy) : Statement → Machine → Outcome × Machine → Prop where
  | expression {root : Expression} {machine : Machine} :
      Ends policy (.expression root) machine (run policy (.expression root) machine)
  | declare {name : String} {initializer : Expression} {line : Nat} {machine : Machine} :
      Ends policy (.declare name initializer line) machine
        (run policy (.declare name initializer line) machine)
  | print {root : Expression} {newline : Bool} {machine : Machine} :
      Ends policy (.print root newline) machine (run policy (.print root newline) machine)
  | block {statements : List Statement} {machine after : Machine} {outcome : Outcome} :
      EndsAll policy statements (machine.withEnvironment (machine.environment.enter []))
        (outcome, after) →
      Ends policy (.block statements) machine
        (outcome, after.withEnvironment after.environment.leave)
  | undecided {condition : Expression} {thenBranch : Statement} {elseBranch : Option Statement}
      {machine : Machine} {error : RuntimeError} {environment : Environment} :
      condition.decide policy machine.environment = (.error error, environment) →
      Ends policy (.branch condition thenBranch elseBranch) machine
        (.failed error, machine.withEnvironment environment)
  | branch {condition : Expression} {thenBranch : Statement} {elseBranch : Option Statement}
      {machine : Machine} {holds : Bool} {environment : Environment} {result : Outcome × Machine} :
      condition.decide policy machine.environment = (.ok holds, environment) →
      EndsAll policy (arms policy holds thenBranch elseBranch)
        (machine.withEnvironment environment) result →
      Ends policy (.branch condition thenBranch elseBranch) machine result
  | loop {start step : Option Statement} {condition : Expression} {body : Statement}
      {machine : Machine} {parts : List LoopPart} {result : Outcome × Machine} :
      LoopEnds policy start condition step body machine parts result →
      Ends policy (.loop start condition step body) machine result

/-- How statements end that are evaluated in order, up to the first that fails. -/
inductive EndsAll (policy : Policy) : List Statement → Machine → Outcome × Machine → Prop where
  | nil {machine : Machine} : EndsAll policy [] machine (.completed, machine)
  | failed {statement : Statement} {others : List Statement} {machine after : Machine}
      {error : RuntimeError} :
      Ends policy statement machine (.failed error, after) →
      EndsAll policy (statement :: others) machine (.failed error, after)
  | cons {statement : Statement} {others : List Statement} {machine next : Machine}
      {result : Outcome × Machine} :
      Ends policy statement machine (.completed, next) →
      EndsAll policy others next result →
      EndsAll policy (statement :: others) machine result

/-- How a loop ends, and which of its parts are evaluated for it. -/
inductive LoopEnds (policy : Policy) : Option Statement → Expression → Option Statement →
    Statement → Machine → List LoopPart → Outcome × Machine → Prop where
  | startFailed {start step : Option Statement} {condition : Expression} {body : Statement}
      {machine after : Machine} {error : RuntimeError} :
      EndsAll policy start.toList machine (.failed error, after) →
      LoopEnds policy start condition step body machine (LoopPart.ofOptional .start start)
        (.failed error, after)
  | started {start step : Option Statement} {condition : Expression} {body : Statement}
      {machine next : Machine} {parts : List LoopPart} {result : Outcome × Machine} :
      EndsAll policy start.toList machine (.completed, next) →
      PassesEnd policy condition step body 0 next parts result →
      LoopEnds policy start condition step body machine (LoopPart.ofOptional .start start ++ parts)
        result

/-- How a loop ends that has made some passes before.  Nothing bounds the passes that follow. -/
inductive PassesEnd (policy : Policy) : Expression → Option Statement → Statement → Nat →
    Machine → List LoopPart → Outcome × Machine → Prop where
  | undecided {condition : Expression} {step : Option Statement} {body : Statement} {passes : Nat}
      {machine : Machine} {error : RuntimeError} {environment : Environment} :
      condition.decide policy machine.environment = (.error error, environment) →
      PassesEnd policy condition step body passes machine [.condition]
        (.failed error, machine.withEnvironment environment)
  | left {condition : Expression} {step : Option Statement} {body : Statement} {passes : Nat}
      {machine : Machine} {holds : Bool} {environment : Environment} :
      condition.decide policy machine.environment = (.ok holds, environment) →
      policy.repeats holds passes = false →
      PassesEnd policy condition step body passes machine [.condition]
        (.completed, machine.withEnvironment environment)
  | bodyFailed {condition : Expression} {step : Option Statement} {body : Statement}
      {passes : Nat} {machine after : Machine} {holds : Bool} {environment : Environment}
      {error : RuntimeError} :
      condition.decide policy machine.environment = (.ok holds, environment) →
      policy.repeats holds passes = true →
      Ends policy body (machine.withEnvironment environment) (.failed error, after) →
      PassesEnd policy condition step body passes machine [.condition, .body]
        (.failed error, after)
  | stepFailed {condition : Expression} {step : Option Statement} {body : Statement}
      {passes : Nat} {machine next after : Machine} {holds : Bool} {environment : Environment}
      {error : RuntimeError} :
      condition.decide policy machine.environment = (.ok holds, environment) →
      policy.repeats holds passes = true →
      Ends policy body (machine.withEnvironment environment) (.completed, next) →
      EndsAll policy step.toList next (.failed error, after) →
      PassesEnd policy condition step body passes machine
        ([.condition, .body] ++ LoopPart.ofOptional .step step) (.failed error, after)
  | again {condition : Expression} {step : Option Statement} {body : Statement} {passes : Nat}
      {machine next further : Machine} {holds : Bool} {environment : Environment}
      {parts : List LoopPart} {result : Outcome × Machine} :
      condition.decide policy machine.environment = (.ok holds, environment) →
      policy.repeats holds passes = true →
      Ends policy body (machine.withEnvironment environment) (.completed, next) →
      EndsAll policy step.toList next (.completed, further) →
      PassesEnd policy condition step body (passes + 1) further parts result →
      PassesEnd policy condition step body passes machine
        ([.condition, .body] ++ LoopPart.ofOptional .step step ++ parts) result

end

end Statement

/-- How the check of a program ends: every statement ends, and a failed one leaves only the
outermost scope to those behind it. -/
inductive CheckEnds : Machine → Program → List RuntimeError → Prop where
  | nil {machine : Machine} : CheckEnds machine [] []
  | failed {statement : Statement} {others : Program} {machine after : Machine}
      {error : RuntimeError} {errors : List RuntimeError} :
      statement.Ends .check machine (.failed error, after) →
      CheckEnds (after.withEnvironment after.environment.unwind) others errors →
      CheckEnds machine (statement :: others) (error :: errors)
  | completed {statement : Statement} {others : Program} {machine next : Machine}
      {errors : List RuntimeError} :
      statement.Ends .check machine (.completed, next) →
      CheckEnds next others errors →
      CheckEnds machine (statement :: others) errors

/-! ## The walk by its parts -/

namespace Machine

/-- No loop was cut short. -/
def Finished (result : Outcome × Machine) : Prop :=
  result.1 ≠ .unfinished

private theorem thenRun_completed (result : Outcome × Machine) :
    thenRun (fun machine => (.completed, machine)) result = result := by
  obtain ⟨outcome, machine⟩ := result
  cases outcome <;> rfl

theorem Finished.of_thenRun {next : Machine → Outcome × Machine} {result : Outcome × Machine}
    (finished : Finished (thenRun next result)) : Finished result := by
  obtain ⟨outcome, machine⟩ := result
  cases outcome with
  | completed | failed => nofun
  | unfinished => exact finished

theorem Finished.thenRun {next : Machine → Outcome × Machine} {result : Outcome × Machine}
    (first : Finished result) (second : ∀ machine, Finished (next machine)) :
    Finished (thenRun next result) := by
  obtain ⟨outcome, machine⟩ := result
  cases outcome with
  | completed => exact second machine
  | failed error => exact first
  | unfinished => exact first

section

variable {policy : Policy} {condition : Expression} {pass : Machine → Outcome × Machine}
  {passes remaining : Nat} {machine : Machine} {environment : Environment} {holds : Bool}

private theorem repeatPass_of_undecided {error : RuntimeError}
    (fails : condition.decide policy machine.environment = (.error error, environment)) :
    repeatPass policy condition pass passes remaining machine =
      (.failed error, machine.withEnvironment environment) := by
  rw [repeatPass, fails]

private theorem repeatPass_of_left
    (decided : condition.decide policy machine.environment = (.ok holds, environment))
    (leaves : policy.repeats holds passes = false) :
    repeatPass policy condition pass passes remaining machine =
      (.completed, machine.withEnvironment environment) := by
  simp [repeatPass, decided, leaves]

private theorem repeatPass_of_cutShort
    (decided : condition.decide policy machine.environment = (.ok holds, environment))
    (repeats : policy.repeats holds passes = true) :
    repeatPass policy condition pass passes 0 machine =
      (.unfinished, machine.withEnvironment environment) := by
  simp [repeatPass, decided, repeats]

private theorem repeatPass_of_repeats
    (decided : condition.decide policy machine.environment = (.ok holds, environment))
    (repeats : policy.repeats holds passes = true) :
    repeatPass policy condition pass passes (remaining + 1) machine =
      thenRun (repeatPass policy condition pass (passes + 1) remaining)
        (pass (machine.withEnvironment environment)) := by
  rw [repeatPass, decided]
  dsimp only
  rw [if_pos repeats]
  generalize pass (machine.withEnvironment environment) = result
  obtain ⟨outcome, next⟩ := result
  cases outcome <;> rfl

end

end Machine

namespace Statement

open Machine

variable {policy : Policy}

private theorem runOptional_eq_runAll (part : Option Statement) (machine : Machine) :
    runOptional policy part machine = runAll policy part.toList machine := by
  cases part with
  | none => rw [runOptional, Option.toList_none, runAll]
  | some statement =>
      have nothing : runAll policy [] = fun machine => (.completed, machine) := by
        funext machine
        rw [runAll]
      rw [runOptional, Option.toList_some, runAll, nothing, thenRun_completed]

private theorem run_branch_of_decided {condition : Expression} {thenBranch : Statement}
    {elseBranch : Option Statement} {machine : Machine} {holds : Bool} {environment : Environment}
    (decided : condition.decide policy machine.environment = (.ok holds, environment)) :
    run policy (.branch condition thenBranch elseBranch) machine =
      runAll policy (arms policy holds thenBranch elseBranch)
        (machine.withEnvironment environment) := by
  simp only [run, decided, arms]
  by_cases visited : policy.visitsThen holds = true <;>
    by_cases otherVisited : policy.visitsElse holds = true <;>
    simp [visited, otherVisited, runAll, runOptional_eq_runAll, Machine.thenRun]

/-- One pass of a loop. -/
def pass (policy : Policy) (step : Option Statement) (body : Statement) (machine : Machine) :
    Outcome × Machine :=
  thenRun (runAll policy step.toList) (run policy body machine)

private theorem run_loop (start step : Option Statement) (condition : Expression) (body : Statement)
    (machine : Machine) :
    run policy (.loop start condition step body) machine =
      thenRun (repeatPass policy condition (pass policy step body) 0 policy.passLimit)
        (runAll policy start.toList machine) := by
  have stepAsList : runOptional policy step = runAll policy step.toList :=
    funext (runOptional_eq_runAll step)
  rw [run, runOptional_eq_runAll, stepAsList]
  rfl

/-! ## Finished runs have endings -/

/-- Where no loop is cut short, the result of the walk is an ending. -/
def Concludes (policy : Policy) (statement : Statement) : Prop :=
  ∀ machine, Finished (run policy statement machine) →
    Ends policy statement machine (run policy statement machine)

def ConcludesAll (policy : Policy) (statements : List Statement) : Prop :=
  ∀ machine, Finished (runAll policy statements machine) →
    EndsAll policy statements machine (runAll policy statements machine)

private theorem concludesAll_nil : ConcludesAll policy [] := by
  intro machine _
  rw [runAll]
  exact .nil

private theorem concludesAll_cons {statement : Statement} {others : List Statement}
    (first : Concludes policy statement) (rest : ConcludesAll policy others) :
    ConcludesAll policy (statement :: others) := by
  intro machine finished
  rw [runAll] at finished ⊢
  have ended := first machine finished.of_thenRun
  generalize run policy statement machine = result at finished ended ⊢
  obtain ⟨outcome, next⟩ := result
  cases outcome with
  | completed => exact .cons ended (rest next finished)
  | failed error => exact .failed ended
  | unfinished => exact absurd rfl finished

private theorem concludesAll_arms {thenBranch : Statement} {elseBranch : Option Statement}
    (thenConcludes : Concludes policy thenBranch)
    (elseConcludes : ConcludesAll policy elseBranch.toList) (holds : Bool) :
    ConcludesAll policy (arms policy holds thenBranch elseBranch) := by
  have others : ConcludesAll policy (if policy.visitsElse holds then elseBranch.toList else []) := by
    split
    · exact elseConcludes
    · exact concludesAll_nil
  unfold arms
  split
  · exact concludesAll_cons thenConcludes others
  · exact others

/-- A loop that stays within the passes it may make. -/
private theorem passesEnd_of_finished {condition : Expression} {step : Option Statement}
    {body : Statement} (bodyConcludes : Concludes policy body)
    (stepConcludes : ConcludesAll policy step.toList) (passes remaining : Nat) (machine : Machine)
    (finished : Finished
      (repeatPass policy condition (pass policy step body) passes remaining machine)) :
    ∃ parts, PassesEnd policy condition step body passes machine parts
      (repeatPass policy condition (pass policy step body) passes remaining machine) := by
  match decided : condition.decide policy machine.environment with
  | (.error error, environment) =>
      rw [repeatPass_of_undecided decided]
      exact ⟨_, .undecided decided⟩
  | (.ok holds, environment) =>
      match repeats : policy.repeats holds passes, remaining with
      | false, _ =>
          rw [repeatPass_of_left decided repeats]
          exact ⟨_, .left decided repeats⟩
      | true, 0 =>
          rw [repeatPass_of_cutShort decided repeats] at finished
          exact absurd rfl finished
      | true, remaining + 1 =>
          rw [repeatPass_of_repeats decided repeats] at finished ⊢
          have bodyEnds := bodyConcludes _ finished.of_thenRun.of_thenRun
          unfold pass at finished ⊢
          generalize run policy body (machine.withEnvironment environment) = result
            at finished bodyEnds ⊢
          obtain ⟨outcome, next⟩ := result
          cases outcome with
          | failed error => exact ⟨_, .bodyFailed decided repeats bodyEnds⟩
          | unfinished => exact absurd rfl finished
          | completed =>
              have stepEnds := stepConcludes next finished.of_thenRun
              dsimp only [thenRun] at finished ⊢
              generalize runAll policy step.toList next = result at finished stepEnds ⊢
              obtain ⟨outcome, further⟩ := result
              cases outcome with
              | failed error => exact ⟨_, .stepFailed decided repeats bodyEnds stepEnds⟩
              | unfinished => exact absurd rfl finished
              | completed =>
                  obtain ⟨parts, rest⟩ := passesEnd_of_finished bodyConcludes stepConcludes
                    (passes + 1) remaining further finished
                  exact ⟨_, .again decided repeats bodyEnds stepEnds rest⟩

mutual

private theorem concludes (policy : Policy)
    (statement : Statement) : Concludes policy statement := by
  intro machine finished
  match statement with
  | .expression root => exact .expression
  | .declare name initializer line => exact .declare
  | .print root newline => exact .print
  | .block statements =>
      rw [run] at finished ⊢
      exact .block (concludesAll policy statements _ finished)
  | .branch condition thenBranch elseBranch =>
      match decided : condition.decide policy machine.environment with
      | (.error error, environment) =>
          rw [run, decided]
          exact .undecided decided
      | (.ok holds, environment) =>
          rw [run_branch_of_decided decided] at finished ⊢
          exact .branch decided (concludesAll_arms (concludes policy thenBranch)
            (concludesAll_toList policy elseBranch) holds _ finished)
  | .loop start condition step body =>
      rw [run_loop] at finished ⊢
      have ended := concludesAll_toList policy start machine finished.of_thenRun
      generalize runAll policy start.toList machine = result at finished ended ⊢
      obtain ⟨outcome, next⟩ := result
      cases outcome with
      | completed =>
          obtain ⟨parts, passes⟩ := passesEnd_of_finished (concludes policy body)
            (concludesAll_toList policy step) 0 policy.passLimit next finished
          exact .loop (.started ended passes)
      | failed error => exact .loop (.startFailed ended)
      | unfinished => exact absurd rfl finished

private theorem concludesAll (policy : Policy) (statements : List Statement) :
    ConcludesAll policy statements := by
  match statements with
  | [] => exact concludesAll_nil
  | statement :: others =>
      exact concludesAll_cons (concludes policy statement) (concludesAll policy others)

private theorem concludesAll_toList (policy : Policy) (part : Option Statement) :
    ConcludesAll policy part.toList := by
  match part with
  | none => exact concludesAll_nil
  | some statement => exact concludesAll_cons (concludes policy statement) concludesAll_nil

end

end Statement

/-! ## A check cuts no loop short -/

namespace Machine

variable {condition : Expression} {pass : Machine → Outcome × Machine}

/-- After one pass there is no other, whatever the condition says. -/
private theorem finished_repeatPass_check_succ (passes remaining : Nat) (machine : Machine) :
    Finished (repeatPass .check condition pass (passes + 1) remaining machine) := by
  match decided : condition.decide .check machine.environment with
  | (.error error, environment) =>
      rw [repeatPass_of_undecided decided]
      nofun
  | (.ok holds, environment) =>
      rw [repeatPass_of_left decided rfl]
      nofun

private theorem finished_repeatPass_check (passes : ∀ machine, Finished (pass machine))
    (machine : Machine) :
    Finished (repeatPass .check condition pass 0 Policy.check.passLimit machine) := by
  match decided : condition.decide .check machine.environment with
  | (.error error, environment) =>
      rw [repeatPass_of_undecided decided]
      nofun
  | (.ok holds, environment) =>
      rw [Policy.passLimit, repeatPass_of_repeats decided rfl]
      exact (passes _).thenRun (finished_repeatPass_check_succ 0 0)

end Machine

namespace Statement

open Machine

mutual

private theorem finished_run_check (statement : Statement) (machine : Machine) :
    Finished (run .check statement machine) := by
  match statement with
  | .expression root =>
      rw [run]
      split <;> nofun
  | .declare name initializer line =>
      rw [run]
      split
      · nofun
      · split <;> nofun
  | .print root newline =>
      rw [run]
      split <;> nofun
  | .block statements =>
      rw [run]
      exact finished_runAll_check statements _
  | .branch condition thenBranch elseBranch =>
      match decided : condition.decide .check machine.environment with
      | (.error error, environment) =>
          rw [run, decided]
          nofun
      | (.ok holds, environment) =>
          rw [run, decided]
          exact (finished_run_check thenBranch _).thenRun (finished_runOptional_check elseBranch)
  | .loop start condition step body =>
      rw [run]
      exact (finished_runOptional_check start machine).thenRun
        (finished_repeatPass_check fun next =>
          (finished_run_check body next).thenRun (finished_runOptional_check step))

private theorem finished_runAll_check (statements : List Statement) (machine : Machine) :
    Finished (runAll .check statements machine) := by
  match statements with
  | [] =>
      rw [runAll]
      nofun
  | statement :: others =>
      rw [runAll]
      exact (finished_run_check statement machine).thenRun (finished_runAll_check others)

private theorem finished_runOptional_check (part : Option Statement) (machine : Machine) :
    Finished (runOptional .check part machine) := by
  match part with
  | none =>
      rw [runOptional]
      nofun
  | some statement =>
      rw [runOptional]
      exact finished_run_check statement machine

end

/-! ## A check has no other ending -/

/-- Where a check makes a pass, it is the first one, and the loop may make it. -/
private theorem repeatPass_check_of_repeats {condition : Expression}
    {pass : Machine → Outcome × Machine}
    {passes remaining : Nat} {machine : Machine} {environment : Environment} {holds : Bool}
    (decided : condition.decide .check machine.environment = (.ok holds, environment))
    (repeats : Policy.check.repeats holds passes = true) (enough : 1 ≤ passes + remaining) :
    ∃ fewer, repeatPass .check condition pass passes remaining machine =
      thenRun (repeatPass .check condition pass (passes + 1) fewer)
        (pass (machine.withEnvironment environment)) := by
  have first : passes = 0 := of_decide_eq_true repeats
  obtain ⟨fewer, rfl⟩ := Nat.exists_eq_add_of_le' (show 1 ≤ remaining by omega)
  exact ⟨fewer, repeatPass_of_repeats decided repeats⟩

mutual

theorem Ends.eq_run {statement : Statement} {machine : Machine} {result : Outcome × Machine}
    (ends : Ends .check statement machine result) : run .check statement machine = result := by
  match ends with
  | .expression | .declare | .print => rfl
  | .block statements => rw [run, statements.eq_runAll]
  | .undecided fails => rw [run, fails]
  | .branch decided arms => rw [run_branch_of_decided decided, arms.eq_runAll]
  | .loop ended => exact ended.eq_run

theorem EndsAll.eq_runAll {statements : List Statement} {machine : Machine}
    {result : Outcome × Machine} (ends : EndsAll .check statements machine result) :
    runAll .check statements machine = result := by
  match ends with
  | .nil => rw [runAll]
  | .failed first =>
      rw [runAll, first.eq_run]
      rfl
  | .cons first others =>
      rw [runAll, first.eq_run]
      exact others.eq_runAll

theorem LoopEnds.eq_run {start step : Option Statement} {condition : Expression}
    {body : Statement} {machine : Machine} {parts : List LoopPart} {result : Outcome × Machine}
    (ends : LoopEnds .check start condition step body machine parts result) :
    run .check (.loop start condition step body) machine = result := by
  rw [run_loop]
  match ends with
  | .startFailed failed =>
      rw [failed.eq_runAll]
      rfl
  | .started completed passes =>
      rw [completed.eq_runAll]
      exact passes.eq_repeatPass Policy.check.passLimit (Nat.le_refl 1)

theorem PassesEnd.eq_repeatPass {condition : Expression} {step : Option Statement}
    {body : Statement} {passes : Nat} {machine : Machine} {parts : List LoopPart}
    {result : Outcome × Machine}
    (ends : PassesEnd .check condition step body passes machine parts result) (remaining : Nat)
    (enough : 1 ≤ passes + remaining) :
    repeatPass .check condition (pass .check step body) passes remaining machine = result := by
  match ends with
  | .undecided fails => exact repeatPass_of_undecided fails
  | .left decided leaves => exact repeatPass_of_left decided leaves
  | .bodyFailed decided repeats failed =>
      obtain ⟨fewer, again⟩ := repeatPass_check_of_repeats decided repeats enough
      rw [again, pass, failed.eq_run]
      rfl
  | .stepFailed decided repeats completed failed =>
      obtain ⟨fewer, again⟩ := repeatPass_check_of_repeats decided repeats enough
      rw [again, pass, completed.eq_run, thenRun, failed.eq_runAll]
      rfl
  | .again decided repeats completed stepped others =>
      obtain ⟨fewer, again⟩ := repeatPass_check_of_repeats decided repeats enough
      rw [again, pass, completed.eq_run, thenRun, stepped.eq_runAll]
      exact others.eq_repeatPass fewer (Nat.le_add_right_of_le (Nat.le_add_left 1 _))

end

/-- A check ends in exactly one way. -/
theorem ends_check_iff (statement : Statement) (machine : Machine) (result : Outcome × Machine) :
    Ends .check statement machine result ↔ result = run .check statement machine := by
  constructor
  · intro ends
    exact ends.eq_run.symm
  · rintro rfl
    exact concludes .check statement machine (finished_run_check statement machine)

/-! ## The parts of a loop that a check evaluates -/

theorem PassesEnd.parts_behind {condition : Expression} {step : Option Statement}
    {body : Statement} {passes : Nat} {machine : Machine} {parts : List LoopPart}
    {result : Outcome × Machine}
    (ends : PassesEnd .check condition step body (passes + 1) machine parts result) :
    parts = [.condition] := by
  cases ends with
  | undecided | left => rfl
  | bodyFailed _ repeats | stepFailed _ repeats | again _ repeats => cases repeats

theorem PassesEnd.parts_check {condition : Expression} {step : Option Statement}
    {body : Statement} {machine : Machine} {parts : List LoopPart} {result : Outcome × Machine}
    (ends : PassesEnd .check condition step body 0 machine parts result) :
    parts <+: [.condition, .body] ++ LoopPart.ofOptional .step step ++ [.condition] ∧
      (result.1 = .completed →
        parts = [.condition, .body] ++ LoopPart.ofOptional .step step ++ [.condition]) := by
  cases ends with
  | undecided => exact ⟨⟨_, rfl⟩, nofun⟩
  | left _ leaves => cases leaves
  | bodyFailed => exact ⟨⟨_, rfl⟩, nofun⟩
  | stepFailed => exact ⟨List.prefix_append .., nofun⟩
  | again _ _ _ _ others =>
      obtain rfl := others.parts_behind
      exact ⟨List.prefix_rfl, fun _ => rfl⟩

theorem LoopEnds.parts_check {start step : Option Statement} {condition : Expression}
    {body : Statement} {machine : Machine} {parts : List LoopPart} {result : Outcome × Machine}
    (ends : LoopEnds .check start condition step body machine parts result) :
    parts <+: LoopPart.singlePass start step ∧
      (result.1 = .completed → parts = LoopPart.singlePass start step) := by
  cases ends with
  | startFailed => exact ⟨List.prefix_append .., nofun⟩
  | started _ passes =>
      obtain ⟨beginning, whole⟩ := passes.parts_check
      refine ⟨(List.prefix_append_right_inj _).mpr beginning, fun completed => ?_⟩
      rw [whole completed]
      rfl

theorem LoopEnds.count_parts_le {start step : Option Statement} {condition : Expression}
    {body : Statement} {machine : Machine} {parts : List LoopPart} {result : Outcome × Machine}
    (ends : LoopEnds .check start condition step body machine parts result) (part : LoopPart) :
    parts.count part ≤ part.checkLimit :=
  Nat.le_trans (ends.parts_check.1.sublist.count_le part) (part.count_singlePass_le start step)

/-! ## A run need not end -/

theorem PassesEnd.not_endless {passLimit passes line : Nat} {machine : Machine}
    {parts : List LoopPart} {result : Outcome × Machine}
    (ends : PassesEnd (.execute passLimit) (.literal (.boolean true) line) none (.block []) passes
      machine parts result) : False := by
  match ends with
  | .undecided fails => cases fails
  | .left decided leaves =>
      cases decided
      cases leaves
  | .bodyFailed _ _ failed =>
      cases failed with
      | block statements => cases statements
  | .stepFailed _ _ _ failed => cases failed
  | .again _ _ _ _ others => exact others.not_endless

/-- However many passes a run may make, an endless loop has no ending in it. -/
theorem not_ends_endless (passLimit line : Nat) (machine : Machine) (result : Outcome × Machine) :
    ¬ Ends (.execute passLimit) (.loop none (.literal (.boolean true) line) none (.block []))
      machine result := by
  intro ends
  cases ends with
  | loop ended =>
      cases ended with
      | startFailed failed => cases failed
      | started _ passes => exact passes.not_endless

end Statement

theorem checkEnds_iff (program : Program) (machine : Machine) (errors : List RuntimeError) :
    CheckEnds machine program errors ↔ errors = program.checkFrom machine := by
  induction program generalizing machine errors with
  | nil =>
      rw [Program.checkFrom]
      constructor
      · intro ends
        cases ends
        rfl
      · rintro rfl
        exact .nil
  | cons statement others ih =>
      rw [Program.checkFrom]
      have finished := statement.finished_run_check machine
      have ending := statement.ends_check_iff machine
      generalize statement.run .check machine = result at finished ending ⊢
      constructor
      · intro ends
        cases ends with
        | failed first rest =>
            obtain rfl := (ending _).mp first
            rw [(ih _ _).mp rest]
        | completed first rest =>
            obtain rfl := (ending _).mp first
            exact (ih _ _).mp rest
      · rintro rfl
        obtain ⟨outcome, next⟩ := result
        cases outcome with
        | completed => exact .completed ((ending _).mpr rfl) ((ih _ _).mpr rfl)
        | failed error => exact .failed ((ending _).mpr rfl) ((ih _ _).mpr rfl)
        | unfinished => exact absurd rfl finished

/-- The check of every program ends, with the errors that it reports and no others.  So does every
loop, wherever it stands and whatever machine it is reached in: no part of it is evaluated more
often than for a single pass, and where nothing fails exactly that pass is made. -/
theorem Program.check_ends (program : Program) :
    (∀ errors, CheckEnds (Machine.start .unbounded) program errors ↔ errors = program.check) ∧
      ∀ (start : Option Statement) (condition : Expression) (step : Option Statement)
        (body : Statement) (machine : Machine),
        (∃ parts, Statement.LoopEnds .check start condition step body machine parts
          (Statement.run .check (.loop start condition step body) machine)) ∧
        ∀ (parts : List LoopPart) (result : Outcome × Machine),
          Statement.LoopEnds .check start condition step body machine parts result →
          (∀ part : LoopPart, parts.count part ≤ part.checkLimit) ∧
            (result.1 = .completed → parts = LoopPart.singlePass start step) := by
  refine ⟨checkEnds_iff program _, fun start condition step body machine => ⟨?_, ?_⟩⟩
  · have ends := (Statement.ends_check_iff (.loop start condition step body) machine _).mpr rfl
    cases ends with
    | loop ended => exact ⟨_, ended⟩
  · intro parts result ended
    exact ⟨ended.count_parts_le, ended.parts_check.2⟩

namespace Statement

def declareCounter : Statement :=
  .declare "i" (.literal (.int 0) 1) 1

def resetCounter : Statement :=
  .expression (.assign "i" (.literal (.int 1) 1) 1)

/-- Prints the counter over and over. -/
def printEndlessly : Statement :=
  .block [.loop none (.literal (.boolean true) 2) none (.block [.print (.reference "i" 2) true])]

end Statement

/-- Two loops that never end, one inside the other. -/
theorem Program.check_endlessLoops :
    CheckEnds (Machine.start .unbounded)
        [.loop (some .declareCounter) (.literal (.boolean true) 1) (some .resetCounter)
          .printEndlessly] [] ∧
      ∃ after, Statement.LoopEnds .check (some .declareCounter) (.literal (.boolean true) 1)
        (some .resetCounter) .printEndlessly (Machine.start .unbounded)
        [.start, .condition, .body, .step, .condition] (.completed, after) := by
  obtain ⟨checked, loops⟩ := Program.check_ends
    [.loop (some .declareCounter) (.literal (.boolean true) 1) (some .resetCounter) .printEndlessly]
  refine ⟨(checked []).mpr (by decide), ?_⟩
  obtain ⟨⟨parts, ended⟩, single⟩ := loops (some .declareCounter) (.literal (.boolean true) 1)
    (some .resetCounter) .printEndlessly (Machine.start .unbounded)
  obtain rfl := (single parts _ ended).2 (by decide)
  exact ⟨_, ended⟩

end LineScript
