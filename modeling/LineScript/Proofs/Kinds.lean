import LineScript.Proofs.CheckSoundness

/-!
What a check looks at.

A check computes with whatever values it meets, but nothing it does hangs on more than their kinds:
both arms of a branch are visited, a loop makes one pass, and a fault of values gives an integer as
the operation would.  Two programs that differ in the values of their literals alone are therefore
checked with the same result.
-/

set_option autoImplicit false

namespace LineScript

theorem cases_of_map_eq {α β : Type} {view : α → β} {first second : Except RuntimeError α}
    (same : first.map view = second.map view) :
    (∃ value other, first = .ok value ∧ second = .ok other ∧ view value = view other) ∨
      ∃ error, first = .error error ∧ second = .error error := by
  cases first with
  | ok value =>
      cases second with
      | ok other => exact .inl ⟨value, other, rfl, rfl, Except.ok.inj same⟩
      | error error => cases same
  | error error =>
      cases second with
      | ok value => cases same
      | error other => exact .inr ⟨error, rfl, congrArg _ (Except.error.inj same).symm⟩

/-! ## Environments up to their values -/

/-- A value that stands for all values of its kind. -/
def Kind.sample : Kind → Value
  | .int => .int 0
  | .decimal => .decimal ⟨0⟩
  | .boolean => .boolean false
  | .string => .string ""

@[simp] theorem Kind.kind_sample (kind : Kind) : kind.sample.kind = kind := by
  cases kind <;> rfl

def Binding.outline (binding : Binding) : Binding :=
  ⟨binding.pinned, binding.value.kind.sample⟩

def Frame.outline (frame : Frame) : Frame :=
  frame.map fun entry => (entry.1, entry.2.outline)

namespace Frame

private theorem find?_outline (name : String) (frame : Frame) :
    frame.outline.find? name = (frame.find? name).map Binding.outline := by
  induction frame with
  | nil => rfl
  | cons entry others ih =>
      obtain ⟨key, binding⟩ := entry
      by_cases same : name == key
      · simp [outline, find?, List.lookup_cons, same]
      · simpa [outline, find?, List.lookup_cons, same] using ih

private theorem outline_update (name : String) (value : Value) (frame : Frame) :
    (frame.update name value).outline = frame.outline.update name value.kind.sample := by
  unfold outline update
  rw [List.map_map, List.map_map]
  apply List.map_congr_left
  intro entry _
  simp only [Function.comp]
  split <;> rfl

end Frame

namespace Environment

/-- The environment with a sample in place of every value.  Two environments with the same outline
hold the same variables, of the same kinds. -/
def outline (environment : Environment) : Environment :=
  ⟨environment.innermost.outline, environment.enclosing.map Frame.outline⟩

private theorem find?_outline (name : String) (environment : Environment) :
    environment.outline.find? name = (environment.find? name).map Binding.outline := by
  have frames (frames : List Frame) :
      ((frames.map Frame.outline).findSome? fun frame => frame.find? name) =
        (frames.findSome? fun frame => frame.find? name).map Binding.outline := by
    induction frames with
    | nil => rfl
    | cons frame others ih =>
        rw [List.map_cons, List.findSome?_cons, List.findSome?_cons, Frame.find?_outline]
        cases frame.find? name with
        | none => exact ih
        | some binding => rfl
  exact frames environment.toList

private theorem outline_updateFrames (name : String) (value : Value) (frames : List Frame) :
    (updateFrames name value frames).map Frame.outline =
      updateFrames name value.kind.sample (frames.map Frame.outline) := by
  induction frames with
  | nil => rfl
  | cons frame others ih =>
      rw [updateFrames, List.map_cons, updateFrames, Frame.find?_outline]
      cases frame.find? name with
      | none => exact congrArg _ ih
      | some binding => exact congrArg (· :: _) (Frame.outline_update name value frame)

private theorem outline_update (name : String) (value : Value) (environment : Environment) :
    (environment.update name value).outline =
      environment.outline.update name value.kind.sample := by
  unfold update
  rw [show environment.outline.innermost = environment.innermost.outline from rfl,
    Frame.find?_outline]
  cases environment.innermost.find? name with
  | none => exact congrArg (ScopeStack.mk _) (outline_updateFrames name value _)
  | some binding => exact congrArg (ScopeStack.mk · _) (Frame.outline_update name value _)

variable {environment other : Environment} {value otherValue : Value}

private theorem get_outline (name : String) (line : Nat) (environment : Environment) :
    (environment.outline.get name line).map Value.kind =
      (environment.get name line).map Value.kind := by
  unfold get
  rw [find?_outline]
  cases environment.find? name with
  | none => rfl
  | some binding => exact congrArg Except.ok (Kind.kind_sample _)

private theorem get_congr (same : environment.outline = other.outline) (name : String)
    (line : Nat) :
    (environment.get name line).map Value.kind = (other.get name line).map Value.kind := by
  rw [← get_outline, same, get_outline]

private theorem assign_outline (name : String) (value : Value) (line : Nat)
    (environment : Environment) :
    environment.outline.assign name value.kind.sample line =
      (environment.assign name value line).map outline := by
  unfold assign
  rw [find?_outline]
  cases environment.find? name with
  | none => rfl
  | some binding =>
      simp only [Option.map_some, Binding.outline, Kind.kind_sample]
      split
      · exact congrArg Except.ok (outline_update name value environment).symm
      · rfl

private theorem assign_congr (same : environment.outline = other.outline)
    (kinds : value.kind = otherValue.kind) (name : String) (line : Nat) :
    (environment.assign name value line).map outline =
      (other.assign name otherValue line).map outline := by
  rw [← assign_outline, same, kinds, assign_outline]

private theorem define_outline (name : String) (value : Value) (line : Nat)
    (environment : Environment) :
    environment.outline.define name value.kind.sample line =
      (environment.define name value line).map outline := by
  unfold define
  rw [show environment.outline.innermost = environment.innermost.outline from rfl,
    Frame.find?_outline]
  cases environment.innermost.find? name with
  | none => simp [Except.map, outline, Frame.outline, Binding.outline]
  | some binding => rfl

theorem define_congr (same : environment.outline = other.outline)
    (kinds : value.kind = otherValue.kind) (name : String) (line : Nat) :
    (environment.define name value line).map outline =
      (other.define name otherValue line).map outline := by
  rw [← define_outline, same, kinds, define_outline]

private theorem outline_leave (environment : Environment) :
    outline environment.leave = environment.outline.leave := by
  obtain ⟨innermost, enclosing⟩ := environment
  cases enclosing <;> rfl

theorem leave_congr (same : environment.outline = other.outline) :
    outline environment.leave = outline other.leave := by
  rw [outline_leave, same, outline_leave]

private theorem outline_unwind (environment : Environment) :
    outline environment.unwind = environment.outline.unwind := by
  unfold ScopeStack.unwind outline
  rw [List.getLastD_eq_getLast?, List.getLastD_eq_getLast?, List.getLast?_map, Option.getD_map]
  rfl

private theorem unwind_congr (same : environment.outline = other.outline) :
    outline environment.unwind = outline other.unwind := by
  rw [outline_unwind, same, outline_unwind]

end Environment

/-! ## Operators -/

namespace Value

/-- What a check sees of an operator's result. -/
def seen (result : Except RuntimeError Value) : Except RuntimeError Kind :=
  (Policy.check.absorb result).map kind

@[simp] theorem seen_ok (value : Value) : seen (.ok value) = .ok value.kind := rfl

private theorem seen_integerArithmetic (operator : Arithmetic) (left right : Int64) (line : Nat) :
    seen (integerArithmetic operator left right line) = .ok .int := by
  unfold integerArithmetic
  split
  · rfl
  · split
    · rfl
    · split <;> rfl

private theorem seen_unary (operator : UnaryOperator) (operand : Value) (line : Nat) :
    seen (unary operator operand line) = seen (unary operator operand.kind.sample line) := by
  cases operator <;> cases operand
  case negate.int number =>
    simp only [unary]
    split <;> rfl
  all_goals rfl

/-- A check sees of a result what the kinds of the operands say. -/
private theorem seen_binary (operator : BinaryOperator) (left right : Value) (line : Nat) :
    seen (binary operator left right line) =
      seen (binary operator left.kind.sample right.kind.sample line) := by
  cases operator with
  | arithmetic operator =>
      cases left <;> cases right
      case int.int left right =>
        simp only [binary, kind, Kind.sample, arithmetic_int, seen_integerArithmetic]
      all_goals cases operator <;> simp [binary, arithmetic, kind, Kind.sample, toDecimal?]
  | comparison operator =>
      cases left <;> cases right <;>
        simp [binary, comparison, order?, kind, Kind.sample, toDecimal?]
  | connective operator =>
      cases left <;> cases right <;> simp [binary, connective, kind, Kind.sample]

end Value

/-! ## Expressions -/

namespace Expression

/-- Expressions that differ in nothing but the values of their literals. -/
inductive Alike : Expression → Expression → Prop where
  | literal {first second : Value} {line : Nat} :
      first.kind = second.kind → Alike (.literal first line) (.literal second line)
  | reference {name : String} {line : Nat} : Alike (.reference name line) (.reference name line)
  | assign {name : String} {first second : Expression} {line : Nat} :
      Alike first second → Alike (.assign name first line) (.assign name second line)
  | unary {operator : UnaryOperator} {first second : Expression} {line : Nat} :
      Alike first second → Alike (.unary operator first line) (.unary operator second line)
  | binary {operator : BinaryOperator} {left right otherLeft otherRight : Expression} {line : Nat} :
      Alike left otherLeft → Alike right otherRight →
      Alike (.binary operator left right line) (.binary operator otherLeft otherRight line)
  | group {first second : Expression} : Alike first second → Alike (.group first) (.group second)

theorem Alike.refl (tree : Expression) : Alike tree tree := by
  induction tree with
  | literal value line => exact .literal rfl
  | reference name line => exact .reference
  | assign name value line ih => exact .assign ih
  | unary operator operand line ih => exact .unary ih
  | binary operator left right line leftIH rightIH => exact .binary leftIH rightIH
  | group inner ih => exact .group ih

theorem Alike.line_eq {first second : Expression} (alike : Alike first second) :
    first.line = second.line := by
  induction alike with
  | literal | reference | assign | unary | binary => rfl
  | group _ ih => exact ih

/-- What a check makes of an expression, beside what a walk by `policy` makes of one like it: values
as `alike` says or one and the same error, in environments of one outline.  A walk that is no check
may be ended by a fault of values, which the check does not see. -/
inductive Walks (policy : Policy) {α : Type} (alike : α → α → Prop) :
    Except RuntimeError α × Environment → Except RuntimeError α × Environment → Prop where
  | success {first second : α} {after otherAfter : Environment} :
      alike first second → after.outline = otherAfter.outline →
      Walks policy alike (.ok first, after) (.ok second, otherAfter)
  | failure {error : RuntimeError} {after otherAfter : Environment} :
      after.outline = otherAfter.outline →
      Walks policy alike (.error error, after) (.error error, otherAfter)
  | fault {error : RuntimeError} {checked : Except RuntimeError α × Environment}
      {after : Environment} :
      policy ≠ .check → error.isValueFault = true →
      Walks policy alike checked (.error error, after)

abbrev WalksAlike (policy : Policy) :
    Except RuntimeError Value × Environment → Except RuntimeError Value × Environment → Prop :=
  Walks policy fun first second => first.kind = second.kind

variable {policy : Policy} {after otherAfter : Environment}

theorem Walks.next {α : Type} {alike : α → α → Prop}
    {result other : Except RuntimeError Value × Environment}
    {next otherNext : Value → Environment → Except RuntimeError α × Environment} :
    WalksAlike policy result other →
    (∀ first second after otherAfter, first.kind = second.kind →
      after.outline = otherAfter.outline →
      Walks policy alike (next first after) (otherNext second otherAfter)) →
    Walks policy alike
      (match result with
        | (.error error, after) => (.error error, after)
        | (.ok value, after) => next value after)
      (match other with
        | (.error error, after) => (.error error, after)
        | (.ok value, after) => otherNext value after) := by
  intro walks onSuccess
  cases walks with
  | success same outline => exact onSuccess _ _ _ _ same outline
  | failure outline => exact .failure outline
  | fault runs isFault => exact .fault runs isFault

private theorem walks_of_map {result other : Except RuntimeError Value}
    (same : result.map Value.kind = other.map Value.kind)
    (outline : after.outline = otherAfter.outline) :
    WalksAlike policy (result, after) (other, otherAfter) := by
  rcases cases_of_map_eq same with ⟨value, otherValue, rfl, rfl, kinds⟩ | ⟨error, rfl, rfl⟩
  · exact .success kinds outline
  · exact .failure outline

private theorem walks_of_seen {result other : Except RuntimeError Value}
    (same : Value.seen result = Value.seen other) (outline : after.outline = otherAfter.outline) :
    WalksAlike policy (Policy.check.absorb result, after) (policy.absorb other, otherAfter) := by
  cases policy with
  | check => exact walks_of_map same outline
  | execute passLimit =>
      cases other with
      | ok value => exact walks_of_map same outline
      | error error =>
          by_cases isFault : error.isValueFault = true
          · exact .fault nofun isFault
          · rw [Value.seen, Value.seen, Policy.absorb, if_neg isFault] at same
            exact walks_of_map same outline

/-- A check and another walk go through expressions that differ in the values of their literals
alone with results of the same kinds. -/
theorem Alike.walks {first second : Expression} (alike : Alike first second) (policy : Policy)
    {environment other : Environment} (same : environment.outline = other.outline) :
    WalksAlike policy (first.evaluate .check environment) (second.evaluate policy other) := by
  induction alike generalizing environment other with
  | literal kinds => exact .success kinds same
  | @reference name line =>
      rw [evaluate, evaluate]
      exact walks_of_map (Environment.get_congr same name line) same
  | @assign name first second line _ ih =>
      rw [evaluate, evaluate]
      refine (ih same).next fun value otherValue after otherAfter kinds outline => ?_
      rcases cases_of_map_eq (Environment.assign_congr outline kinds name line) with
        ⟨assigned, otherAssigned, success, otherSuccess, outlines⟩ | ⟨error, failure, otherFailure⟩
      · simp only [success, otherSuccess]
        exact .success kinds outlines
      · simp only [failure, otherFailure]
        exact .failure outline
  | @unary operator first second line _ ih =>
      rw [evaluate, evaluate]
      refine (ih same).next fun value otherValue after otherAfter kinds outline => ?_
      refine walks_of_seen ?_ outline
      rw [Value.seen_unary, kinds, ← Value.seen_unary]
  | @binary operator left right otherLeft otherRight line _ _ leftIH rightIH =>
      rw [evaluate, evaluate]
      refine (leftIH same).next fun leftValue otherLeft between otherBetween leftKinds outline => ?_
      refine (rightIH outline).next fun rightValue otherRight after otherAfter rightKinds last => ?_
      refine walks_of_seen ?_ last
      rw [Value.seen_binary, leftKinds, rightKinds, ← Value.seen_binary]
  | group _ ih =>
      rw [evaluate, evaluate]
      exact ih same

theorem Alike.decides {first second : Expression} (alike : Alike first second) (policy : Policy)
    {environment other : Environment} (same : environment.outline = other.outline) :
    Walks policy (fun _ _ => True) (first.decide .check environment)
      (second.decide policy other) := by
  unfold Expression.decide
  refine (alike.walks policy same).next fun value otherValue after otherAfter kinds outline => ?_
  rw [alike.line_eq]
  cases value <;> cases otherValue <;>
    first | exact .success trivial outline | exact .failure outline | cases kinds

end Expression

/-! ## Statements -/

namespace Machine

/-- Runs that end in the same way, in environments of one outline. -/
structure AlikeRuns (result other : Outcome × Machine) : Prop where
  outcome : result.1 = other.1
  outline : result.2.environment.outline = other.2.environment.outline

theorem AlikeRuns.thenRun {result other : Outcome × Machine}
    {next otherNext : Machine → Outcome × Machine} (runs : AlikeRuns result other)
    (onCompletion : ∀ machine otherMachine : Machine,
      machine.environment.outline = otherMachine.environment.outline →
      AlikeRuns (next machine) (otherNext otherMachine)) :
    AlikeRuns (thenRun next result) (Machine.thenRun otherNext other) := by
  obtain ⟨outcome, machine⟩ := result
  obtain ⟨otherOutcome, otherMachine⟩ := other
  obtain ⟨rfl, outline⟩ := runs
  cases outcome with
  | completed => exact onCompletion machine otherMachine outline
  | failed error => exact ⟨rfl, outline⟩
  | unfinished => exact ⟨rfl, outline⟩

theorem AlikeRuns.leave {result other : Outcome × Machine} (runs : AlikeRuns result other) :
    AlikeRuns (result.1, result.2.withEnvironment result.2.environment.leave)
      (other.1, other.2.withEnvironment other.2.environment.leave) :=
  ⟨runs.outcome, Environment.leave_congr runs.outline⟩

private theorem alikeRuns_of_walks {machine otherMachine : Machine}
    {result other : Except RuntimeError Value × Environment}
    {next otherNext : Value → Environment → Outcome × Machine} :
    Expression.WalksAlike .check result other →
    (∀ first second after otherAfter, first.kind = second.kind →
      after.outline = otherAfter.outline →
      AlikeRuns (next first after) (otherNext second otherAfter)) →
    AlikeRuns
      (match result with
        | (.error error, after) => (.failed error, machine.withEnvironment after)
        | (.ok value, after) => next value after)
      (match other with
        | (.error error, after) => (.failed error, otherMachine.withEnvironment after)
        | (.ok value, after) => otherNext value after) := by
  intro walks onSuccess
  cases walks with
  | success kinds outline => exact onSuccess _ _ _ _ kinds outline
  | failure outline => exact ⟨rfl, outline⟩
  | fault runs _ => exact absurd rfl runs

private theorem alikeRuns_of_decides {machine otherMachine : Machine}
    {result other : Except RuntimeError Bool × Environment}
    {next otherNext : Bool → Environment → Outcome × Machine} :
    Expression.Walks .check (fun _ _ => True) result other →
    (∀ first second after otherAfter, after.outline = otherAfter.outline →
      AlikeRuns (next first after) (otherNext second otherAfter)) →
    AlikeRuns
      (match result with
        | (.error error, after) => (.failed error, machine.withEnvironment after)
        | (.ok holds, after) => next holds after)
      (match other with
        | (.error error, after) => (.failed error, otherMachine.withEnvironment after)
        | (.ok holds, after) => otherNext holds after) := by
  intro walks onSuccess
  cases walks with
  | success _ outline => exact onSuccess _ _ _ _ outline
  | failure outline => exact ⟨rfl, outline⟩
  | fault runs _ => exact absurd rfl runs

/-- Whether a check makes another pass hangs on the passes made, not on the condition. -/
private theorem alikeRuns_repeatPass {condition otherCondition : Expression}
    (alike : condition.Alike otherCondition) {pass otherPass : Machine → Outcome × Machine}
    (passAlike : ∀ machine otherMachine : Machine,
      machine.environment.outline = otherMachine.environment.outline →
      AlikeRuns (pass machine) (otherPass otherMachine))
    (passes remaining : Nat) {machine otherMachine : Machine}
    (outline : machine.environment.outline = otherMachine.environment.outline) :
    AlikeRuns (repeatPass .check condition pass passes remaining machine)
      (repeatPass .check otherCondition otherPass passes remaining otherMachine) := by
  have equally (holds otherHolds : Bool) (passes : Nat) :
      Policy.check.repeats otherHolds passes = Policy.check.repeats holds passes := rfl
  induction remaining generalizing passes machine otherMachine with
  | zero =>
      rw [repeatPass, repeatPass]
      apply alikeRuns_of_decides (alike.decides .check outline)
      intro holds otherHolds after otherAfter outlineAfter
      rw [equally holds otherHolds]
      cases Policy.check.repeats holds passes <;> exact ⟨rfl, outlineAfter⟩
  | succ remaining ih =>
      rw [repeatPass, repeatPass]
      apply alikeRuns_of_decides (alike.decides .check outline)
      intro holds otherHolds after otherAfter outlineAfter
      rw [equally holds otherHolds]
      cases Policy.check.repeats holds passes with
      | false => exact ⟨rfl, outlineAfter⟩
      | true =>
          have passed := passAlike (machine.withEnvironment after)
            (otherMachine.withEnvironment otherAfter) outlineAfter
          exact passed.thenRun fun next otherNext outlineNext => ih (passes + 1) outlineNext

end Machine

namespace Statement

mutual

/-- Statements that differ in nothing but the values of their literals. -/
inductive Alike : Statement → Statement → Prop where
  | expression {root other : Expression} :
      root.Alike other → Alike (.expression root) (.expression other)
  | declare {name : String} {initializer other : Expression} {line : Nat} :
      initializer.Alike other → Alike (.declare name initializer line) (.declare name other line)
  | print {root other : Expression} {newline : Bool} :
      root.Alike other → Alike (.print root newline) (.print other newline)
  | block {statements others : List Statement} :
      AlikeAll statements others → Alike (.block statements) (.block others)
  | branch {condition otherCondition : Expression} {thenBranch otherThen : Statement}
      {elseBranch otherElse : Option Statement} :
      condition.Alike otherCondition → Alike thenBranch otherThen →
      AlikePart elseBranch otherElse →
      Alike (.branch condition thenBranch elseBranch) (.branch otherCondition otherThen otherElse)
  | loop {start otherStart step otherStep : Option Statement}
      {condition otherCondition : Expression} {body otherBody : Statement} :
      AlikePart start otherStart → condition.Alike otherCondition → AlikePart step otherStep →
      Alike body otherBody →
      Alike (.loop start condition step body) (.loop otherStart otherCondition otherStep otherBody)

inductive AlikeAll : List Statement → List Statement → Prop where
  | nil : AlikeAll [] []
  | cons {statement other : Statement} {statements others : List Statement} :
      Alike statement other → AlikeAll statements others →
      AlikeAll (statement :: statements) (other :: others)

inductive AlikePart : Option Statement → Option Statement → Prop where
  | absent : AlikePart none none
  | present {statement other : Statement} :
      Alike statement other → AlikePart (some statement) (some other)

end

open Machine

/-- A check walks statements that differ in the values of their literals alone in the same way. -/
theorem Alike.alikeRuns {statement other : Statement} (alike : Alike statement other)
    {machine otherMachine : Machine}
    (outline : machine.environment.outline = otherMachine.environment.outline) :
    AlikeRuns (run .check statement machine) (run .check other otherMachine) := by
  refine Alike.rec
    (motive_1 := fun statement other _ => ∀ {machine otherMachine : Machine},
      machine.environment.outline = otherMachine.environment.outline →
      AlikeRuns (run .check statement machine) (run .check other otherMachine))
    (motive_2 := fun statements others _ => ∀ {machine otherMachine : Machine},
      machine.environment.outline = otherMachine.environment.outline →
      AlikeRuns (runAll .check statements machine) (runAll .check others otherMachine))
    (motive_3 := fun part other _ => ∀ {machine otherMachine : Machine},
      machine.environment.outline = otherMachine.environment.outline →
      AlikeRuns (runOptional .check part machine) (runOptional .check other otherMachine))
    ?expression ?declare ?print ?block ?branch ?loop ?nil ?cons ?absent ?present alike outline
  case expression =>
    intro root other alike machine otherMachine outline
    rw [run, run]
    apply alikeRuns_of_walks (alike.walks .check outline)
    exact fun _ _ _ _ _ outlineAfter => ⟨rfl, outlineAfter⟩
  case declare =>
    intro name initializer other line alike machine otherMachine outline
    rw [run, run]
    apply alikeRuns_of_walks (alike.walks .check outline)
    intro value otherValue after otherAfter kinds outlineAfter
    rcases cases_of_map_eq (Environment.define_congr outlineAfter kinds name line) with
      ⟨defined, otherDefined, success, otherSuccess, outlines⟩ | ⟨error, failure, otherFailure⟩
    · simp only [success, otherSuccess]
      exact ⟨rfl, outlines⟩
    · simp only [failure, otherFailure]
      exact ⟨rfl, outlineAfter⟩
  case print =>
    intro root other newline alike machine otherMachine outline
    rw [run, run]
    apply alikeRuns_of_walks (alike.walks .check outline)
    exact fun _ _ _ _ _ outlineAfter => ⟨rfl, outlineAfter⟩
  case block =>
    intro statements others _ inside machine otherMachine outline
    rw [run, run]
    have entered : (machine.withEnvironment (machine.environment.enter [])).environment.outline =
        (otherMachine.withEnvironment (otherMachine.environment.enter [])).environment.outline :=
      congrArg (ScopeStack.enter []) outline
    exact (inside entered).leave
  case branch =>
    intro condition otherCondition thenBranch otherThen elseBranch otherElse alike _ _ thenRuns
      elseRuns machine otherMachine outline
    rw [run, run]
    apply alikeRuns_of_decides (alike.decides .check outline)
    intro holds otherHolds after otherAfter outlineAfter
    exact (thenRuns outlineAfter).thenRun fun next otherNext outlineNext => elseRuns outlineNext
  case loop =>
    intro start otherStart step otherStep condition otherCondition body otherBody _ alike _ _
      startRuns stepRuns bodyRuns machine otherMachine outline
    rw [run, run]
    refine (startRuns outline).thenRun fun next otherNext outlineNext => ?_
    refine alikeRuns_repeatPass alike (fun _ _ outlinePass => ?_) 0 _ outlineNext
    exact (bodyRuns outlinePass).thenRun fun _ _ outlineBody => stepRuns outlineBody
  case nil => exact fun outline => ⟨rfl, outline⟩
  case cons =>
    intro statement other statements others _ _ first behind machine otherMachine outline
    rw [runAll, runAll]
    exact (first outline).thenRun fun next otherNext outlineNext => behind outlineNext
  case absent => exact fun outline => ⟨rfl, outline⟩
  case present => exact fun _ runs _ _ outline => runs outline

end Statement

/-! ## Programs -/

namespace Program

open Statement

private theorem checkFrom_eq_of_alike {first second : Program} (alike : AlikeAll first second)
    {machine otherMachine : Machine}
    (outline : machine.environment.outline = otherMachine.environment.outline) :
    checkFrom machine first = checkFrom otherMachine second := by
  induction first generalizing second machine otherMachine with
  | nil =>
      cases alike
      rfl
  | cons statement statements ih =>
      cases alike with
      | cons alike behind =>
          have runs := alike.alikeRuns outline
          rw [checkFrom, checkFrom]
          generalize run .check statement machine = result at runs
          generalize run .check _ otherMachine = otherResult at runs
          obtain ⟨outcome, next⟩ := result
          obtain ⟨otherOutcome, otherNext⟩ := otherResult
          obtain ⟨rfl, outlineNext⟩ := runs
          cases outcome with
          | completed => exact ih behind outlineNext
          | unfinished => exact ih behind outlineNext
          | failed error =>
              -- the environment of a failed statement is kept, down to its outermost scope
              exact congrArg (error :: ·) (ih behind (Environment.unwind_congr outlineNext))

/-- Programs that differ in the values of their literals alone have the same errors in a check, in
the same order and on the same lines.  What divides by zero or overflows in one of them makes no
difference. -/
theorem check_eq_of_alike {first second : Program} (alike : AlikeAll first second) :
    first.check = second.check :=
  checkFrom_eq_of_alike alike rfl

/-- Divides a variable by a number, and then adds a truth value to it. -/
def dividing (divisor : Int64) : Program :=
  [.declare "x" (.literal (.int 7) 1) 1,
    .expression (.assign "x"
      (.binary (.arithmetic .divide) (.reference "x" 2) (.literal (.int divisor) 2) 2) 2),
    .print (.binary (.arithmetic .add) (.reference "x" 3) (.literal (.boolean true) 3) 3) false]

/-- A division by zero ends the run before the error that a check finds with any divisor. -/
theorem check_dividing : (dividing 0).check = (dividing 2).check ∧
    (dividing 0).check = [.operands (.numbersNeeded .add .int .boolean) 3] ∧
    ((dividing 0).execute 0 .unbounded).1 = .failed (.divisionByZero 2) ∧
    ((dividing 2).execute 0 .unbounded).1 =
      .failed (.operands (.numbersNeeded .add .int .boolean) 3) := by
  have alike : AlikeAll (dividing 0) (dividing 2) :=
    .cons (.declare (.refl _)) (.cons (.expression (.assign (.binary .reference (.literal rfl))))
      (.cons (.print (.refl _)) .nil))
  exact ⟨check_eq_of_alike alike, by decide +kernel, by decide +kernel, by decide +kernel⟩

end Program

end LineScript
