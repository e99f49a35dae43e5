import LineScript.Proofs.NameSafety

/-!
What a run keeps of the environment it starts in.

A statement of any shape, checked or run, completed, failed or cut off, leaves as many scopes as it
found.  It declares names in the innermost scope at most, and changes the value of a variable at
most, never the kind that the variable is pinned to.  A block leaves no new name at all.
-/

set_option autoImplicit false

namespace LineScript

/-! ## Pinned kinds -/

/-- The names of a scope with the kinds that they are pinned to. -/
def Frame.pins (frame : Frame) : List (String × Kind) :=
  frame.map fun entry => (entry.1, entry.2.pinned)

namespace Frame

private theorem names_eq_map_pins (frame : Frame) : frame.names = frame.pins.map Prod.fst := by
  simp [names, pins]

private theorem lookup_pins (name : String) (frame : Frame) :
    frame.pins.lookup name = (frame.find? name).map Binding.pinned := by
  induction frame with
  | nil => rfl
  | cons entry others ih =>
      obtain ⟨key, binding⟩ := entry
      by_cases same : name == key
      · simp [pins, find?, List.lookup_cons, same]
      · simpa [pins, find?, List.lookup_cons, same] using ih

private theorem pins_update (name : String) (value : Value) (frame : Frame) :
    (frame.update name value).pins = frame.pins := by
  unfold pins update
  rw [List.map_map]
  apply List.map_congr_left
  intro entry _
  simp only [Function.comp]
  split <;> rfl

end Frame

namespace Environment

def pins (environment : Environment) : ScopeStack (List (String × Kind)) :=
  ⟨environment.innermost.pins, environment.enclosing.map Frame.pins⟩

private theorem names_eq_of_pins_eq {before after : Environment} (same : after.pins = before.pins) :
    after.names = before.names := by
  have keys (environment : Environment) : environment.names =
      ⟨environment.pins.innermost.map Prod.fst,
        environment.pins.enclosing.map fun frame => frame.map Prod.fst⟩ := by
    simp [names, pins, Frame.names_eq_map_pins]
  rw [keys, keys, same]

private theorem pins_updateFrames (name : String) (value : Value) (frames : List Frame) :
    (updateFrames name value frames).map Frame.pins = frames.map Frame.pins := by
  induction frames with
  | nil => rfl
  | cons frame others ih =>
      rw [updateFrames]
      split
      · rw [List.map_cons, List.map_cons, Frame.pins_update]
      · rw [List.map_cons, List.map_cons, ih]

private theorem pins_update (name : String) (value : Value) (environment : Environment) :
    (environment.update name value).pins = environment.pins := by
  unfold update pins
  split
  · rw [Frame.pins_update]
  · rw [pins_updateFrames]

/-! ## Environments before and after -/

/-- The environment `after` holds the variables of `before`, with values that suit them if the
values did before. -/
structure Settles (before after : Environment) : Prop where
  pins_eq : after.pins = before.pins
  consistent : before.Consistent → after.Consistent

/-- The environment `after` may hold more variables in its innermost scope, and they are new
there. -/
structure Continues (before after : Environment) : Prop where
  enclosing_eq : after.pins.enclosing = before.pins.enclosing
  innermost_eq : ∃ added, after.pins.innermost = added ++ before.pins.innermost ∧
    ∀ entry ∈ added, entry.1 ∉ before.names.innermost
  consistent : before.Consistent → after.Consistent

variable {before between after : Environment}

theorem Settles.refl (environment : Environment) : Settles environment environment :=
  ⟨rfl, id⟩

theorem Settles.trans (first : Settles before between) (second : Settles between after) :
    Settles before after :=
  ⟨second.pins_eq.trans first.pins_eq, second.consistent ∘ first.consistent⟩

theorem Settles.continues (settles : Settles before after) : Continues before after := by
  constructor
  · rw [settles.pins_eq]
  · refine ⟨[], ?_, ?_⟩
    · rw [settles.pins_eq, List.nil_append]
    · intro entry member
      cases member
  · exact settles.consistent

theorem Continues.refl (environment : Environment) : Continues environment environment :=
  (Settles.refl environment).continues

theorem Continues.names_innermost (continues : Continues before after) :
    ∃ added, after.names.innermost = added ++ before.names.innermost := by
  obtain ⟨added, same, _⟩ := continues.innermost_eq
  refine ⟨added.map Prod.fst, ?_⟩
  have keys (environment : Environment) :
      environment.names.innermost = environment.pins.innermost.map Prod.fst :=
    Frame.names_eq_map_pins environment.innermost
  rw [keys, keys, same, List.map_append]

theorem Continues.trans (first : Continues before between) (second : Continues between after) :
    Continues before after := by
  obtain ⟨earlier, between_eq, earlierNew⟩ := first.innermost_eq
  obtain ⟨later, after_eq, laterNew⟩ := second.innermost_eq
  constructor
  · exact second.enclosing_eq.trans first.enclosing_eq
  · refine ⟨later ++ earlier, ?_, ?_⟩
    · rw [after_eq, between_eq, List.append_assoc]
    · intro entry member
      rcases List.mem_append.mp member with isLater | isEarlier
      · -- a name that is new later was not there at first either
        obtain ⟨added, names⟩ := first.names_innermost
        intro known
        exact laterNew entry isLater (names ▸ List.mem_append_right added known)
      · exact earlierNew entry isEarlier
  · exact second.consistent ∘ first.consistent

private theorem settles_of_assign {name : String} {value : Value} {line : Nat}
    (assigned : before.assign name value line = .ok after) : Settles before after := by
  unfold assign at assigned
  split at assigned
  · cases assigned
  · next binding found =>
    split at assigned
    · next accepted =>
      cases assigned
      constructor
      · exact pins_update name value before
      · intro consistent
        exact consistent.update found (Kind.accepts_iff.mp accepted).symm
    · cases assigned

private theorem continues_of_define {name : String} {value : Value} {line : Nat}
    (defined : before.define name value line = .ok after) : Continues before after := by
  unfold define at defined
  split at defined
  · cases defined
  · next absent =>
    cases defined
    constructor
    · rfl
    · refine ⟨[(name, value.kind)], rfl, ?_⟩
      intro entry member known
      obtain rfl := List.mem_singleton.mp member
      have found := Frame.isSome_find?_iff.mpr known
      rw [absent] at found
      cases found
    · intro consistent
      have fits : Fits before.typing before := ⟨rfl, consistent⟩
      exact (fits.bind name value).consistent

/-- Leaving a scope that was entered brings back the environment around it. -/
theorem Continues.leave (continues : Continues (before.enter []) after) :
    Settles before after.leave := by
  obtain ⟨innermost, enclosing⟩ := after
  have around : enclosing.map Frame.pins = before.toList.map Frame.pins := continues.enclosing_eq
  cases enclosing with
  | nil => cases around
  | cons next others =>
      obtain ⟨next_eq, others_eq⟩ := List.cons.inj around
      constructor
      · unfold ScopeStack.leave pins
        rw [next_eq, others_eq]
      · intro consistent
        have fits : Fits before.typing before := ⟨rfl, consistent⟩
        exact (List.forall_mem_cons.mp (continues.consistent fits.enter.consistent)).2

end Environment

open Environment (Settles Continues)

/-! ## Evaluating -/

namespace Expression

private theorem evaluate_settles (policy : Policy) (tree : Expression) (environment : Environment) :
    Settles environment (tree.evaluate policy environment).2 := by
  induction tree generalizing environment with
  | literal value line => exact .refl environment
  | reference name line => exact .refl environment
  | assign name value line ih =>
      have evaluated := ih environment
      rw [evaluate]
      generalize evaluate policy value environment = result at evaluated ⊢
      obtain ⟨outcome, after⟩ := result
      cases outcome with
      | error error => exact evaluated
      | ok value =>
          dsimp only
          split
          · exact evaluated
          · next assigned => exact evaluated.trans (Environment.settles_of_assign assigned)
  | unary operator operand line ih =>
      have evaluated := ih environment
      rw [evaluate]
      generalize evaluate policy operand environment = result at evaluated ⊢
      obtain ⟨outcome, after⟩ := result
      cases outcome <;> exact evaluated
  | binary operator left right line leftIH rightIH =>
      have leftEvaluated := leftIH environment
      rw [evaluate]
      generalize evaluate policy left environment = result at leftEvaluated ⊢
      obtain ⟨outcome, between⟩ := result
      cases outcome with
      | error error => exact leftEvaluated
      | ok leftValue =>
          have rightEvaluated := leftEvaluated.trans (rightIH between)
          dsimp only at rightEvaluated ⊢
          generalize evaluate policy right between = result at rightEvaluated ⊢
          obtain ⟨outcome, after⟩ := result
          cases outcome <;> exact rightEvaluated
  | group inner ih =>
      rw [evaluate]
      exact ih environment

private theorem decide_settles (policy : Policy) (condition : Expression)
    (environment : Environment) :
    Settles environment (condition.decide policy environment).2 := by
  have evaluated := condition.evaluate_settles policy environment
  unfold Expression.decide
  generalize condition.evaluate policy environment = result at evaluated ⊢
  obtain ⟨outcome, after⟩ := result
  cases outcome <;> exact evaluated

end Expression

/-! ## Running -/

namespace Machine

variable {before : Environment}

private theorem continues_thenRun {first : Outcome × Machine} {next : Machine → Outcome × Machine}
    (continues : Continues before first.2.environment)
    (goesOn : ∀ machine, Continues machine.environment (next machine).2.environment) :
    Continues before (thenRun next first).2.environment := by
  obtain ⟨outcome, machine⟩ := first
  cases outcome with
  | completed => exact continues.trans (goesOn machine)
  | failed error => exact continues
  | unfinished => exact continues

private theorem emit_environment (policy : Policy) (text : String) (newline : Bool)
    (machine : Machine) :
    (machine.emit policy text newline).2.environment = machine.environment := by
  unfold emit
  cases policy with
  | check => rfl
  | execute passLimit =>
      dsimp only
      split
      · rfl
      · split
        · split <;> rfl
        · rfl

/-- However many passes a loop makes, each goes on from where the one before it stopped. -/
private theorem continues_repeatPass {policy : Policy} {condition : Expression}
    {pass : Machine → Outcome × Machine}
    (passContinues : ∀ machine, Continues machine.environment (pass machine).2.environment)
    (passes remaining : Nat) (machine : Machine) :
    Continues machine.environment
      (repeatPass policy condition pass passes remaining machine).2.environment := by
  induction remaining generalizing passes machine with
  | zero =>
      have decided := (condition.decide_settles policy machine.environment).continues
      unfold repeatPass
      generalize condition.decide policy machine.environment = result at decided ⊢
      obtain ⟨outcome, after⟩ := result
      cases outcome with
      | error error => exact decided
      | ok holds =>
          dsimp only
          split <;> exact decided
  | succ remaining ih =>
      have decided := (condition.decide_settles policy machine.environment).continues
      unfold repeatPass
      generalize condition.decide policy machine.environment = result at decided ⊢
      obtain ⟨outcome, after⟩ := result
      cases outcome with
      | error error => exact decided
      | ok holds =>
          dsimp only
          split
          · have passed := decided.trans (passContinues (machine.withEnvironment after))
            generalize pass (machine.withEnvironment after) = result at passed ⊢
            obtain ⟨outcome, next⟩ := result
            cases outcome with
            | completed => exact passed.trans (ih (passes + 1) next)
            | failed error => exact passed
            | unfinished => exact passed
          · exact decided

end Machine

namespace Statement

open Machine

private theorem block_settles {policy : Policy} {statements : List Statement} {machine : Machine}
    (inside : ∀ machine, Continues machine.environment
      (runAll policy statements machine).2.environment) :
    Settles machine.environment (run policy (.block statements) machine).2.environment := by
  rw [run]
  exact (inside (machine.withEnvironment (machine.environment.enter []))).leave

private theorem declare_continues (policy : Policy) (name : String) (initializer : Expression)
    (line : Nat)
    (machine : Machine) : Continues machine.environment
      (run policy (.declare name initializer line) machine).2.environment := by
  have evaluated := (initializer.evaluate_settles policy machine.environment).continues
  rw [run]
  generalize initializer.evaluate policy machine.environment = result at evaluated ⊢
  obtain ⟨outcome, after⟩ := result
  cases outcome with
  | error error => exact evaluated
  | ok value =>
      dsimp only
      split
      · exact evaluated
      · next defined => exact evaluated.trans (Environment.continues_of_define defined)

private theorem branch_continues {policy : Policy} {condition : Expression} {thenBranch : Statement}
    {elseBranch : Option Statement}
    (thenContinues : ∀ machine, Continues machine.environment
      (run policy thenBranch machine).2.environment)
    (elseContinues : ∀ machine, Continues machine.environment
      (runOptional policy elseBranch machine).2.environment) (machine : Machine) :
    Continues machine.environment
      (run policy (.branch condition thenBranch elseBranch) machine).2.environment := by
  have decided := (condition.decide_settles policy machine.environment).continues
  rw [run]
  generalize condition.decide policy machine.environment = result at decided ⊢
  obtain ⟨outcome, after⟩ := result
  cases outcome with
  | error error => exact decided
  | ok holds =>
      dsimp only
      apply continues_thenRun
      · split
        · exact decided.trans (thenContinues (machine.withEnvironment after))
        · exact decided
      · intro next
        split
        · exact elseContinues next
        · exact .refl next.environment

mutual

private theorem run_continues (policy : Policy) (statement : Statement) (machine : Machine) :
    Continues machine.environment (run policy statement machine).2.environment := by
  match statement with
  | .expression root =>
      have evaluated := (root.evaluate_settles policy machine.environment).continues
      rw [run]
      generalize root.evaluate policy machine.environment = result at evaluated ⊢
      obtain ⟨outcome, after⟩ := result
      cases outcome <;> exact evaluated
  | .declare name initializer line => exact declare_continues policy name initializer line machine
  | .print root newline =>
      have evaluated := (root.evaluate_settles policy machine.environment).continues
      rw [run]
      generalize root.evaluate policy machine.environment = result at evaluated ⊢
      obtain ⟨outcome, after⟩ := result
      cases outcome with
      | error error => exact evaluated
      | ok value =>
          dsimp only
          rw [emit_environment]
          exact evaluated
  | .block statements => exact (block_settles (runAll_continues policy statements)).continues
  | .branch condition thenBranch elseBranch =>
      exact branch_continues (run_continues policy thenBranch)
        (runOptional_continues policy elseBranch) machine
  | .loop start condition step body =>
      rw [run]
      apply continues_thenRun (runOptional_continues policy start machine)
      intro started
      apply continues_repeatPass
      intro next
      exact continues_thenRun (run_continues policy body next) (runOptional_continues policy step)

private theorem runAll_continues (policy : Policy) (statements : List Statement)
    (machine : Machine) :
    Continues machine.environment (runAll policy statements machine).2.environment := by
  match statements with
  | [] => exact .refl machine.environment
  | statement :: others =>
      rw [runAll]
      exact continues_thenRun (run_continues policy statement machine)
        (runAll_continues policy others)

private theorem runOptional_continues (policy : Policy) (part : Option Statement)
    (machine : Machine) :
    Continues machine.environment (runOptional policy part machine).2.environment := by
  match part with
  | none => exact .refl machine.environment
  | some statement => exact run_continues policy statement machine

end

end Statement

/-! ## Scopes as they are looked into -/

namespace Environment

/-- The variable of a name in one scope, counted from the innermost one. -/
def binding? (level : Nat) (name : String) (environment : Environment) : Option Binding :=
  environment.toList[level]?.bind fun frame => frame.find? name

/-- Every variable holds a value that its pinned kind accepts. -/
def ValuesAccepted (environment : Environment) : Prop :=
  ∀ level name binding, environment.binding? level name = some binding →
    binding.pinned.accepts binding.value.kind = true

/-- What stays of an environment: its scopes, the names in all of them but for new ones in the
innermost, and the kind that each variable is pinned to. -/
structure Keeps (before after : Environment) : Prop where
  depth_eq : after.depth = before.depth
  names_enclosing : after.names.enclosing = before.names.enclosing
  names_innermost : before.names.innermost ⊆ after.names.innermost
  pinned : ∀ level name binding, before.binding? level name = some binding →
    ∃ later, after.binding? level name = some later ∧ later.pinned = binding.pinned

variable {before after environment : Environment}

theorem valuesAccepted_iff : environment.ValuesAccepted ↔ environment.Consistent := by
  constructor
  · intro accepted frame member name binding found
    obtain ⟨level, placed⟩ := List.getElem?_of_mem member
    have here : environment.binding? level name = some binding := by
      rw [binding?, placed]
      exact found
    exact (Kind.accepts_iff.mp (accepted level name binding here)).symm
  · intro consistent level name binding here
    obtain ⟨frame, placed, found⟩ := Option.bind_eq_some_iff.mp here
    have member : frame ∈ environment.toList := List.mem_of_getElem? placed
    exact Kind.accepts_iff.mpr (consistent frame member name binding found).symm

private theorem pinned_binding? (level : Nat) (name : String) (environment : Environment) :
    (environment.binding? level name).map Binding.pinned =
      environment.pins.toList[level]?.bind fun frame => frame.lookup name := by
  have frames : environment.pins.toList = environment.toList.map Frame.pins := rfl
  rw [frames, List.getElem?_map, binding?]
  cases environment.toList[level]? with
  | none => rfl
  | some frame => exact (Frame.lookup_pins name frame).symm

/-- New variables of a scope do not hide those it had. -/
theorem Continues.lookup_innermost (continues : Continues before after) {name : String} {kind : Kind}
    (known : before.pins.innermost.lookup name = some kind) :
    after.pins.innermost.lookup name = some kind := by
  obtain ⟨added, same, new⟩ := continues.innermost_eq
  rw [same, List.lookup_append]
  have absent : added.lookup name = none := by
    rw [← Option.not_isSome_iff_eq_none, List.lookup_isSome_iff]
    rintro ⟨entry, member, here⟩
    have found : (before.innermost.find? name).isSome = true := by
      have pinned := Frame.lookup_pins name before.innermost
      rw [show before.innermost.pins.lookup name = some kind from known] at pinned
      rw [← Option.isSome_map (f := Binding.pinned), ← pinned]
      rfl
    apply new entry member
    rw [← eq_of_beq here]
    exact Frame.isSome_find?_iff.mp found
  rw [absent]
  exact known

theorem Continues.keeps (continues : Continues before after) : before.Keeps after := by
  constructor
  · have lengths := congrArg List.length continues.enclosing_eq
    simpa [pins, ScopeStack.depth] using lengths
  · have keys (environment : Environment) : environment.names.enclosing =
        environment.pins.enclosing.map fun frame => frame.map Prod.fst := by
      simp [names, pins, Frame.names_eq_map_pins]
    rw [keys, keys, continues.enclosing_eq]
  · obtain ⟨added, same⟩ := continues.names_innermost
    rw [same]
    exact List.subset_append_right added _
  · intro level name binding here
    have known : before.pins.toList[level]?.bind (fun frame => frame.lookup name) =
        some binding.pinned := by
      rw [← pinned_binding?, here]
      rfl
    have later : after.pins.toList[level]?.bind (fun frame => frame.lookup name) =
        some binding.pinned := by
      cases level with
      | zero => exact continues.lookup_innermost known
      | succ level =>
          have deeper (environment : Environment) :
              environment.pins.toList[level + 1]? = environment.pins.enclosing[level]? := rfl
          rw [deeper, continues.enclosing_eq, ← deeper]
          exact known
    rw [← pinned_binding?, Option.map_eq_some_iff] at later
    exact later

end Environment

namespace Statement

/-- Whatever a statement is and however its run ends, the environment keeps its scopes, their names
and their pinned kinds, and values stay of the kinds that are accepted.  Behind a block even the
innermost scope has just the names it had. -/
theorem run_keeps_environment (policy : Policy) (statement : Statement) (statements : List Statement)
    (machine : Machine) (accepted : machine.environment.ValuesAccepted) :
    (machine.environment.Keeps (run policy statement machine).2.environment ∧
      (run policy statement machine).2.environment.ValuesAccepted) ∧
    machine.environment.Keeps (runBlock policy statements machine).2.environment ∧
      (runBlock policy statements machine).2.environment.ValuesAccepted ∧
      (runBlock policy statements machine).2.environment.names = machine.environment.names := by
  have consistent := Environment.valuesAccepted_iff.mp accepted
  have ran := run_continues policy statement machine
  have left : Settles machine.environment (runBlock policy statements machine).2.environment :=
    block_settles (runAll_continues policy statements)
  refine ⟨⟨ran.keeps, ?_⟩, left.continues.keeps, ?_, ?_⟩
  · exact Environment.valuesAccepted_iff.mpr (ran.consistent consistent)
  · exact Environment.valuesAccepted_iff.mpr (left.consistent consistent)
  · exact Environment.names_eq_of_pins_eq left.pins_eq

/-- An integer variable of an outer scope that holds a decimal, and a string in a scope inside. -/
def storedMachine : Machine where
  environment := ⟨[("s", ⟨.string, .string "a"⟩)], [[("x", ⟨.int, .decimal ⟨4609434218613702656⟩⟩)]]⟩
  sink := .unbounded

/-- A loop that no text can express: it declares in its body, which is no block, and so fails when
it declares a second time. -/
def redeclaringBody : Statement :=
  .loop none (.literal (.boolean true) 1) (some (.expression (.assign "x" (.literal (.int 2) 1) 1)))
    (.declare "y" (.reference "s" 1) 1)

/-- The run fails in its second pass, behind an assignment to the outer scope and a declaration. -/
theorem run_redeclaringBody :
    (run (.execute 3) redeclaringBody storedMachine).1 = .failed (.alreadyDefined "y" 1) ∧
    storedMachine.environment.ValuesAccepted ∧
    storedMachine.environment.Keeps
      (run (.execute 3) redeclaringBody storedMachine).2.environment ∧
    (runBlock .check [redeclaringBody] storedMachine).2.environment.names =
      storedMachine.environment.names := by
  have accepted : storedMachine.environment.ValuesAccepted := by
    rw [Environment.valuesAccepted_iff]
    intro frame member name binding found
    rcases List.mem_cons.mp member with rfl | outer
    · obtain ⟨_, _⟩ := binding
      simp only [storedMachine, Frame.find?, List.lookup_cons, List.lookup_nil] at found
      split at found <;> cases found
      rfl
    · obtain rfl := List.mem_singleton.mp outer
      simp only [Frame.find?, List.lookup_cons, List.lookup_nil] at found
      split at found <;> cases found
      rfl
  have failed : (run (.execute 3) redeclaringBody storedMachine).1 =
      .failed (.alreadyDefined "y" 1) := by
    decide +kernel
  obtain ⟨⟨keeps, _⟩, _⟩ :=
    run_keeps_environment (.execute 3) redeclaringBody [] storedMachine accepted
  obtain ⟨_, _, _, names⟩ :=
    run_keeps_environment .check redeclaringBody [redeclaringBody] storedMachine accepted
  exact ⟨failed, accepted, keeps, names⟩

end Statement

end LineScript
