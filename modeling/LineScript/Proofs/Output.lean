import LineScript.Evaluation.Machine

/-!
What a run prints, and what its sink makes of it.

A run follows a script: the texts that it hands to its sink, and how it ends where all of them are
taken.  The script hangs on the program alone.  The sink can only cut the run short, for the first
text that it refuses is the last one it sees.
-/

set_option autoImplicit false

namespace LineScript

/-! ## Texts handed to a sink -/

namespace Sink

/-- A sink that refuses every text that would bring it above `limit` bytes. -/
def limited (limit : Nat) : Sink :=
  ⟨some limit, true, []⟩

/-- What was handed over, in order. -/
def handed (sink : Sink) : List Attempt :=
  sink.attempts.reverse

def bytes (texts : List String) : Nat :=
  (String.join texts).utf8ByteSize

/-- The texts of which writing makes an attempt. -/
def printed (texts : List String) : List String :=
  texts.filter fun text => !text.isEmpty

/-- Hands over texts up to the first that is refused. -/
def deliver : List String → Sink → Except RuntimeError Unit × Sink
  | [], sink => (.ok (), sink)
  | text :: others, sink =>
    match sink.write text with
    | (.ok (), after) => deliver others after
    | (.error error, after) => (.error error, after)

/-- The sink behind a text that it took. -/
def taking (text : String) (sink : Sink) : Sink where
  room := sink.room.map (· - text.utf8ByteSize)
  flushes := sink.flushes
  attempts := ⟨text, true⟩ :: sink.attempts

variable {sink after : Sink} {texts others : List String} {text : String} {error : RuntimeError}

private theorem deliver_cons_of_ok (taken : sink.write text = (.ok (), after)) :
    sink.deliver (text :: texts) = after.deliver texts := by
  rw [deliver, taken]

private theorem deliver_cons_of_error (refused : sink.write text = (.error error, after)) :
    sink.deliver (text :: texts) = (.error error, after) := by
  rw [deliver, refused]

private theorem deliver_append_of_ok (delivered : sink.deliver texts = (.ok (), after)) :
    sink.deliver (texts ++ others) = after.deliver others := by
  induction texts generalizing sink with
  | nil =>
      cases delivered
      rfl
  | cons text texts ih =>
      rw [List.cons_append, deliver]
      rw [deliver] at delivered
      split at delivered
      · exact ih delivered
      · cases delivered

private theorem deliver_append_of_error (refused : sink.deliver texts = (.error error, after)) :
    sink.deliver (texts ++ others) = (.error error, after) := by
  induction texts generalizing sink with
  | nil => cases refused
  | cons text texts ih =>
      rw [List.cons_append, deliver]
      rw [deliver] at refused
      split at refused
      · exact ih refused
      · exact refused

/-- How texts come out that are handed over one by one: all are taken, or one does not fit into the
room that those before it left, and none is handed over after it. -/
inductive Receives (sink : Sink) (texts : List String) :
    Except RuntimeError Unit × Sink → Prop where
  | all {after : Sink} (fits : ∀ room, sink.room = some room → bytes texts ≤ room)
      (flushes : after.flushes = sink.flushes)
      (handed : after.handed = sink.handed ++ texts.map (⟨·, true⟩)) :
      Receives sink texts (.ok (), after)
  | refusal {taken rest : List String} {refused : String} {room : Nat} {after : Sink}
      (bounded : sink.room = some room) (parts : texts = taken ++ refused :: rest)
      (fits : bytes taken ≤ room) (exceeds : room < bytes (taken ++ [refused]))
      (handed : after.handed = sink.handed ++ (taken.map (⟨·, true⟩) ++ [⟨refused, false⟩])) :
      Receives sink texts (.error (.output .closed), after)

private theorem join_concat (texts : List String) (text : String) :
    String.join (texts ++ [text]) = String.join texts ++ text := by
  rw [String.join_append, String.join_cons, String.join_nil, String.append_empty]

private theorem bytes_cons (text : String) (texts : List String) :
    bytes (text :: texts) = text.utf8ByteSize + bytes texts := by
  rw [bytes, String.join_cons, String.utf8ByteSize_append]
  rfl

/-- Texts in front of which another one was taken. -/
theorem Receives.cons {result : Except RuntimeError Unit × Sink}
    (fits : ∀ room, sink.room = some room → text.utf8ByteSize ≤ room)
    (received : (sink.taking text).Receives texts result) :
    sink.Receives (text :: texts) result := by
  have handedFirst : (sink.taking text).handed = sink.handed ++ [⟨text, true⟩] :=
    List.reverse_cons
  cases received with
  | all othersFit flushes handed =>
      refine .all ?_ flushes (by simp [handed, handedFirst])
      intro room bounded
      have here := fits room bounded
      have there := othersFit (room - text.utf8ByteSize) (by rw [taking, bounded]; rfl)
      rw [bytes_cons]
      omega
  | @refusal taken rest refused left _ boundedAfter parts othersFit exceeds handed =>
      obtain ⟨room, bounded, rfl⟩ := Option.map_eq_some_iff.mp boundedAfter
      have here := fits room bounded
      rw [parts, ← List.cons_append]
      refine .refusal bounded rfl ?_ ?_ (by simp [handed, handedFirst])
      · rw [bytes_cons]
        omega
      · rw [List.cons_append, bytes_cons]
        omega

private theorem write_taken (inhabited : ¬ text.isEmpty)
    (fits : ∀ room, sink.room = some room → text.utf8ByteSize ≤ room) :
    sink.write text = (.ok (), sink.taking text) := by
  have accepted : roomAfter? sink.room text.utf8ByteSize =
      some (sink.room.map (· - text.utf8ByteSize)) := by
    cases bounded : sink.room with
    | none => rfl
    | some room => exact if_pos (fits room bounded)
  rw [write, if_neg inhabited, accepted]
  rfl

private theorem write_refused {room : Nat} (inhabited : ¬ text.isEmpty)
    (bounded : sink.room = some room) (exceeds : room < text.utf8ByteSize) :
    sink.write text =
      (.error (.output .closed), { sink with attempts := ⟨text, false⟩ :: sink.attempts }) := by
  have refused : roomAfter? sink.room text.utf8ByteSize = none := by
    rw [bounded]
    exact if_neg (Nat.not_le.mpr exceeds)
  rw [write, if_neg inhabited, refused]

private theorem deliver_receives (texts : List String) (sink : Sink) :
    sink.Receives (printed texts) (sink.deliver texts) := by
  induction texts generalizing sink with
  | nil => exact .all (fun _ _ => Nat.zero_le _) rfl (List.append_nil _).symm
  | cons text texts ih =>
      by_cases empty : text.isEmpty
      · have skipped : printed (text :: texts) = printed texts := by simp [printed, empty]
        have unchanged : sink.write text = (.ok (), sink) := if_pos empty
        rw [skipped, deliver_cons_of_ok unchanged]
        exact ih sink
      have handedOver : printed (text :: texts) = text :: printed texts := by simp [printed, empty]
      rw [handedOver]
      by_cases fits : ∀ room, sink.room = some room → text.utf8ByteSize ≤ room
      · rw [deliver_cons_of_ok (write_taken empty fits)]
        exact (ih (sink.taking text)).cons fits
      · obtain ⟨room, excluded⟩ := Classical.not_forall.mp fits
        obtain ⟨bounded, exceeds⟩ := Classical.not_imp.mp excluded
        rw [Nat.not_le] at exceeds
        rw [deliver_cons_of_error (write_refused empty bounded exceeds)]
        refine .refusal bounded (List.nil_append _).symm (Nat.zero_le _) ?_ List.reverse_cons
        simpa [bytes] using exceeds

private theorem handed_deliver_extends (texts : List String) (sink : Sink) :
    sink.handed <+: (sink.deliver texts).2.handed := by
  have received := deliver_receives texts sink
  generalize sink.deliver texts = result at received ⊢
  cases received with
  | all _ _ handed | refusal _ _ _ _ handed =>
      rw [handed]
      exact List.prefix_append ..

private theorem written_of_handed (handed : sink.handed = texts.map (⟨·, true⟩)) :
    sink.written = texts := by
  change (sink.handed.filter Attempt.taken).map Attempt.text = texts
  rw [handed]
  simp [List.filter_map, Function.comp_def]

private theorem written_of_refusal {refused : String}
    (handed : sink.handed = texts.map (⟨·, true⟩) ++ [⟨refused, false⟩]) :
    sink.written = texts := by
  change (sink.handed.filter Attempt.taken).map Attempt.text = texts
  rw [handed]
  simp [List.filter_map, Function.comp_def]

end Sink

theorem Machine.thenRun_of_not_completed {next : Machine → Outcome × Machine} {outcome : Outcome}
    {machine : Machine} (stopped : outcome ≠ .completed) :
    thenRun next (outcome, machine) = (outcome, machine) := by
  cases outcome with
  | completed => exact absurd rfl stopped
  | failed error => rfl
  | unfinished => rfl

/-! ## Scripts -/

/-- The texts a run hands to its sink, and how it ends where all of them are taken. -/
structure Script where
  texts : List String
  outcome : Outcome
  environment : Environment

namespace Script

/-- What comes of a script in front of a sink.  Where a text is refused, the run fails with it. -/
inductive Plays (script : Script) (sink : Sink) : Outcome × Machine → Prop where
  | whole {after : Sink} (delivered : sink.deliver script.texts = (.ok (), after)) :
      Plays script sink (script.outcome, ⟨script.environment, after⟩)
  | cut {error : RuntimeError} {after : Sink} (environment : Environment)
      (refused : sink.deliver script.texts = (.error error, after)) :
      Plays script sink (.failed error, ⟨environment, after⟩)

/-- The one script is the other, or an unfinished beginning of it. -/
def Begins (short long : Script) : Prop :=
  short = long ∨ short.outcome = .unfinished ∧ short.texts <+: long.texts

/-- The script of going on, if the first one is completed. -/
def andThen (script next : Script) : Script :=
  match script.outcome with
  | .completed => ⟨script.texts ++ next.texts, next.outcome, next.environment⟩
  | _ => script

variable {script next short long : Script} {sink : Sink} {result : Outcome × Machine}

private theorem andThen_of_completed (completed : script.outcome = .completed) :
    script.andThen next = ⟨script.texts ++ next.texts, next.outcome, next.environment⟩ := by
  rw [andThen, completed]

private theorem andThen_of_not_completed (stopped : script.outcome ≠ .completed) :
    script.andThen next = script := by
  rw [andThen]
  split
  · contradiction
  · rfl

private theorem texts_andThen_extends (script next : Script) :
    script.texts <+: (script.andThen next).texts := by
  by_cases completed : script.outcome = .completed
  · rw [andThen_of_completed completed]
    exact List.prefix_append ..
  · exact ⟨[], by rw [List.append_nil, andThen_of_not_completed completed]⟩

theorem Plays.thenRun {goOn : Machine → Outcome × Machine} (plays : script.Plays sink result)
    (nextPlays : ∀ sink, next.Plays sink (goOn ⟨script.environment, sink⟩)) :
    (script.andThen next).Plays sink (Machine.thenRun goOn result) := by
  cases plays with
  | cut environment refused =>
      -- Neither is the next script begun, nor do its texts change what is refused.
      refine .cut environment ?_
      obtain ⟨further, extended⟩ := texts_andThen_extends script next
      rw [← extended]
      exact Sink.deliver_append_of_error refused
  | @whole after delivered =>
      by_cases completed : script.outcome = .completed
      · rw [andThen_of_completed completed, completed, Machine.thenRun]
        have behind := nextPlays after
        generalize goOn ⟨script.environment, after⟩ = result at behind ⊢
        cases behind with
        | whole further => exact .whole ((Sink.deliver_append_of_ok delivered).trans further)
        | cut environment refused =>
            exact .cut environment ((Sink.deliver_append_of_ok delivered).trans refused)
      · rw [andThen_of_not_completed completed, Machine.thenRun_of_not_completed completed]
        exact .whole delivered

theorem Begins.andThen (script : Script) (begins : short.Begins long) :
    (script.andThen short).Begins (script.andThen long) := by
  by_cases completed : script.outcome = .completed
  · rw [andThen_of_completed completed, andThen_of_completed completed]
    rcases begins with rfl | ⟨unfinished, shorter⟩
    · exact .inl rfl
    · exact .inr ⟨unfinished, (List.prefix_append_right_inj script.texts).mpr shorter⟩
  · rw [andThen_of_not_completed completed, andThen_of_not_completed completed]
    exact .inl rfl

end Script

/-- Two runs, as functions of the sink, follow scripts of which the one begins the other. -/
def Scripted (first second : Sink → Outcome × Machine) : Prop :=
  ∃ short long : Script, short.Begins long ∧
    (∀ sink, short.Plays sink (first sink)) ∧ ∀ sink, long.Plays sink (second sink)

/-- Two ways to go on follow such scripts from every environment. -/
def ScriptedRuns (first second : Machine → Outcome × Machine) : Prop :=
  ∀ environment, Scripted (fun sink => first ⟨environment, sink⟩)
    (fun sink => second ⟨environment, sink⟩)

namespace Scripted

variable {first second otherFirst otherSecond : Sink → Outcome × Machine}

theorem congr (scripted : Scripted first second) (same : ∀ sink, otherFirst sink = first sink)
    (otherSame : ∀ sink, otherSecond sink = second sink) : Scripted otherFirst otherSecond := by
  rwa [funext same, funext otherSame]

/-- Runs that print nothing and end alike. -/
theorem silent (outcome : Outcome) (environment : Environment) :
    Scripted (fun sink => (outcome, ⟨environment, sink⟩))
      (fun sink => (outcome, ⟨environment, sink⟩)) :=
  ⟨⟨[], outcome, environment⟩, _, .inl rfl, fun _ => .whole rfl, fun _ => .whole rfl⟩

/-- A run that stops before it began. -/
theorem unfinished (environment : Environment) (scripted : Scripted first second) :
    Scripted (fun sink => (.unfinished, ⟨environment, sink⟩)) second := by
  obtain ⟨_, long, _, _, plays⟩ := scripted
  exact ⟨⟨[], .unfinished, environment⟩, long, .inr ⟨rfl, List.nil_prefix⟩,
    fun _ => .whole rfl, plays⟩

theorem thenRun {next longNext : Machine → Outcome × Machine} (scripted : Scripted first second)
    (behind : ScriptedRuns next longNext) :
    Scripted (fun sink => Machine.thenRun next (first sink))
      (fun sink => Machine.thenRun longNext (second sink)) := by
  obtain ⟨short, long, begins, plays, longPlays⟩ := scripted
  rcases begins with rfl | ⟨unfinished, shorter⟩
  · obtain ⟨shortNext, longNext, begins, nextPlays, longNextPlays⟩ := behind short.environment
    exact ⟨short.andThen shortNext, short.andThen longNext, begins.andThen short,
      fun sink => (plays sink).thenRun nextPlays,
      fun sink => (longPlays sink).thenRun longNextPlays⟩
  · -- The beginning goes no further, whatever it would go on with.
    obtain ⟨shortNext, _, _, nextPlays, _⟩ := behind short.environment
    obtain ⟨_, longNext, _, _, longNextPlays⟩ := behind long.environment
    refine ⟨short.andThen shortNext, long.andThen longNext, .inr ?_,
      fun sink => (plays sink).thenRun nextPlays,
      fun sink => (longPlays sink).thenRun longNextPlays⟩
    rw [Script.andThen_of_not_completed (by rw [unfinished]; nofun)]
    exact ⟨unfinished, shorter.trans (long.texts_andThen_extends longNext)⟩

/-- The environment is changed behind the run, however that ended. -/
theorem mapEnvironment (change : Environment → Environment) (scripted : Scripted first second) :
    Scripted
      (fun sink => ((first sink).1,
        (first sink).2.withEnvironment (change (first sink).2.environment)))
      (fun sink => ((second sink).1,
        (second sink).2.withEnvironment (change (second sink).2.environment))) := by
  have changed {script : Script} {sink : Sink} {result : Outcome × Machine}
      (plays : script.Plays sink result) :
      { script with environment := change script.environment : Script }.Plays sink
        (result.1, result.2.withEnvironment (change result.2.environment)) := by
    cases plays with
    | whole delivered => exact .whole delivered
    | cut environment refused => exact .cut (change environment) refused
  obtain ⟨short, long, begins, plays, longPlays⟩ := scripted
  refine ⟨{ short with environment := change short.environment },
    { long with environment := change long.environment }, ?_,
    fun sink => changed (plays sink), fun sink => changed (longPlays sink)⟩
  rcases begins with rfl | ⟨unfinished, shorter⟩
  · exact .inl rfl
  · exact .inr ⟨unfinished, shorter⟩

/-- Printing hands over a text, and the line break behind it once the text was taken. -/
theorem emit (passes more : Nat) (text : String) (newline : Bool) :
    ScriptedRuns (Machine.emit (.execute passes) text newline)
      (Machine.emit (.execute more) text newline) := by
  intro environment
  have plays (passes : Nat) (sink : Sink) :
      Script.Plays ⟨text :: if newline then ["\n"] else [], .completed, environment⟩ sink
        (Machine.emit (.execute passes) text newline ⟨environment, sink⟩) := by
    rw [Machine.emit]
    cases first : sink.write text with
    | mk answer written =>
      cases answer with
      | error error => exact .cut environment (Sink.deliver_cons_of_error first)
      | ok =>
        cases newline with
        | false => exact .whole (Sink.deliver_cons_of_ok first)
        | true =>
          dsimp only [if_true]
          cases last : written.write "\n" with
          | mk answer ended =>
            have behind : sink.deliver [text, "\n"] = written.deliver ["\n"] :=
              Sink.deliver_cons_of_ok first
            cases answer with
            | error error => exact .cut environment (behind.trans (Sink.deliver_cons_of_error last))
            | ok => exact .whole (behind.trans (Sink.deliver_cons_of_ok last))
  exact ⟨_, _, .inl rfl, plays passes, plays more⟩

end Scripted

/-! ## Runs -/

namespace Expression

/-- How often a loop may repeat is nothing to an expression. -/
theorem evaluate_execute (passes more : Nat) (expression : Expression) (environment : Environment) :
    expression.evaluate (.execute passes) environment =
      expression.evaluate (.execute more) environment := by
  induction expression generalizing environment with
  | literal | reference => rfl
  | assign name value line ih => rw [evaluate, evaluate, ih]
  | unary operator operand line ih =>
      rw [evaluate, evaluate, ih]
      rfl
  | binary operator left right line ihLeft ihRight =>
      simp only [evaluate, ihLeft, ihRight]
      rfl
  | group inner ih => exact ih environment

private theorem decide_execute (passes more : Nat) (condition : Expression)
    (environment : Environment) :
    condition.decide (.execute passes) environment =
      condition.decide (.execute more) environment := by
  rw [decide, decide, evaluate_execute passes more]

end Expression

namespace Machine

section

variable {passLimit passes remaining : Nat} {condition : Expression}
  {pass : Machine → Outcome × Machine} {machine : Machine} {after : Environment}

private theorem repeatPass_of_error {error : RuntimeError}
    (fails : condition.decide (.execute passLimit) machine.environment = (.error error, after)) :
    repeatPass (.execute passLimit) condition pass passes remaining machine =
      (.failed error, machine.withEnvironment after) := by
  rw [repeatPass, fails]

private theorem repeatPass_of_false
    (ends : condition.decide (.execute passLimit) machine.environment = (.ok false, after)) :
    repeatPass (.execute passLimit) condition pass passes remaining machine =
      (.completed, machine.withEnvironment after) := by
  rw [repeatPass, ends]
  rfl

private theorem repeatPass_exhausted
    (holds : condition.decide (.execute passLimit) machine.environment = (.ok true, after)) :
    repeatPass (.execute passLimit) condition pass passes 0 machine =
      (.unfinished, machine.withEnvironment after) := by
  rw [repeatPass, holds]
  rfl

private theorem repeatPass_again
    (holds : condition.decide (.execute passLimit) machine.environment = (.ok true, after)) :
    repeatPass (.execute passLimit) condition pass passes (remaining + 1) machine =
      thenRun (repeatPass (.execute passLimit) condition pass (passes + 1) remaining)
        (pass (machine.withEnvironment after)) := by
  rw [repeatPass, holds]
  dsimp only [Policy.repeats, if_true]
  generalize pass (machine.withEnvironment after) = result
  obtain ⟨outcome, next⟩ := result
  cases outcome <;> rfl

end

section

variable {passLimit moreLimit : Nat} {condition : Expression}
  {pass morePass : Machine → Outcome × Machine}

/-- Loops end alike in front of a condition that fails or does not hold. -/
private theorem scripted_repeatPass_of_holds {passes remaining more : Nat}
    {environment : Environment}
    (repeats : ∀ after, condition.decide (.execute passLimit) environment = (.ok true, after) →
      condition.decide (.execute moreLimit) environment = (.ok true, after) →
      Scripted
        (fun sink => repeatPass (.execute passLimit) condition pass passes remaining
          ⟨environment, sink⟩)
        (fun sink => repeatPass (.execute moreLimit) condition morePass passes more
          ⟨environment, sink⟩)) :
    Scripted
      (fun sink => repeatPass (.execute passLimit) condition pass passes remaining
        ⟨environment, sink⟩)
      (fun sink => repeatPass (.execute moreLimit) condition morePass passes more
        ⟨environment, sink⟩) := by
  cases decided : condition.decide (.execute passLimit) environment with
  | mk answer after =>
    have moreDecided := (condition.decide_execute moreLimit passLimit environment).trans decided
    match answer with
    | .error error =>
        exact (Scripted.silent (.failed error) after).congr
          (fun _ => repeatPass_of_error decided) (fun _ => repeatPass_of_error moreDecided)
    | .ok false =>
        exact (Scripted.silent .completed after).congr
          (fun _ => repeatPass_of_false decided) (fun _ => repeatPass_of_false moreDecided)
    | .ok true => exact repeats after decided moreDecided

/-- Loops whose passes follow scripts.  The one that may make fewer passes stops where the other
goes on. -/
private theorem scripted_repeatPass (scripted : ScriptedRuns pass morePass) {remaining more : Nat}
    (fewer : remaining ≤ more) (passes : Nat) :
    ScriptedRuns (repeatPass (.execute passLimit) condition pass passes remaining)
      (repeatPass (.execute moreLimit) condition morePass passes more) := by
  induction more generalizing remaining passes with
  | zero =>
      intro environment
      obtain rfl := Nat.le_zero.mp fewer
      apply scripted_repeatPass_of_holds
      intro after holds moreHolds
      exact (Scripted.silent .unfinished after).congr
        (fun _ => repeatPass_exhausted holds) (fun _ => repeatPass_exhausted moreHolds)
  | succ more ih =>
      intro environment
      apply scripted_repeatPass_of_holds
      intro after holds moreHolds
      cases remaining with
      | zero =>
          -- The longer loop goes on here, so its script is needed beyond where the shorter one is.
          have further := (scripted after).thenRun (ih (Nat.zero_le more) (passes + 1))
          exact (further.unfinished after).congr
            (fun _ => repeatPass_exhausted holds) (fun _ => repeatPass_again moreHolds)
      | succ remaining =>
          have further := (scripted after).thenRun
            (ih (Nat.le_of_succ_le_succ fewer) (passes + 1))
          exact further.congr
            (fun _ => repeatPass_again holds) (fun _ => repeatPass_again moreHolds)

end

end Machine

namespace Statement

open Machine

section

variable {passes more : Nat}

private theorem scripted_expression (root : Expression) :
    ScriptedRuns (run (.execute passes) (.expression root))
      (run (.execute more) (.expression root)) := by
  intro environment
  simp only [run, root.evaluate_execute more passes]
  cases root.evaluate (.execute passes) environment with
  | mk answer after =>
    cases answer with
    | error error => exact .silent (.failed error) after
    | ok => exact .silent .completed after

private theorem scripted_declare (name : String) (initializer : Expression) (line : Nat) :
    ScriptedRuns (run (.execute passes) (.declare name initializer line))
      (run (.execute more) (.declare name initializer line)) := by
  intro environment
  simp only [run, initializer.evaluate_execute more passes]
  cases initializer.evaluate (.execute passes) environment with
  | mk answer after =>
    cases answer with
    | error error => exact .silent (.failed error) after
    | ok value =>
      dsimp only
      cases after.define name value line with
      | error error => exact .silent (.failed error) after
      | ok defined => exact .silent .completed defined

private theorem scripted_print (root : Expression) (newline : Bool) :
    ScriptedRuns (run (.execute passes) (.print root newline))
      (run (.execute more) (.print root newline)) := by
  intro environment
  simp only [run, root.evaluate_execute more passes]
  cases root.evaluate (.execute passes) environment with
  | mk answer after =>
    cases answer with
    | error error => exact .silent (.failed error) after
    | ok value => exact Scripted.emit passes more value.toText newline after

private theorem scripted_branch {thenBranch : Statement} {elseBranch : Option Statement}
    (condition : Expression)
    (thenScripted : ScriptedRuns (run (.execute passes) thenBranch)
      (run (.execute more) thenBranch))
    (elseScripted : ScriptedRuns (runOptional (.execute passes) elseBranch)
      (runOptional (.execute more) elseBranch)) :
    ScriptedRuns (run (.execute passes) (.branch condition thenBranch elseBranch))
      (run (.execute more) (.branch condition thenBranch elseBranch)) := by
  intro environment
  simp only [run, condition.decide_execute more passes]
  cases condition.decide (.execute passes) environment with
  | mk answer after =>
    match answer with
    | .error error => exact .silent (.failed error) after
    | .ok true => exact (thenScripted after).thenRun fun next => .silent .completed next
    | .ok false => exact (Scripted.silent .completed after).thenRun elseScripted

end

mutual

/-- A run is its script in front of the sink, and more passes only lengthen the script. -/
theorem run_scripted {passes more : Nat} (fewer : passes ≤ more) (statement : Statement) :
    ScriptedRuns (run (.execute passes) statement) (run (.execute more) statement) := by
  match statement with
  | .expression root => exact scripted_expression root
  | .declare name initializer line => exact scripted_declare name initializer line
  | .print root newline => exact scripted_print root newline
  | .block statements =>
      intro environment
      simp only [run]
      exact (runAll_scripted fewer statements (environment.enter [])).mapEnvironment (·.leave)
  | .branch condition thenBranch elseBranch =>
      exact scripted_branch condition (run_scripted fewer thenBranch)
        (runOptional_scripted fewer elseBranch)
  | .loop start condition step body =>
      intro environment
      simp only [run]
      apply (runOptional_scripted fewer start environment).thenRun
      apply scripted_repeatPass _ fewer
      intro environment
      exact (run_scripted fewer body environment).thenRun (runOptional_scripted fewer step)

private theorem runAll_scripted {passes more : Nat} (fewer : passes ≤ more)
    (statements : List Statement) :
    ScriptedRuns (runAll (.execute passes) statements) (runAll (.execute more) statements) := by
  intro environment
  match statements with
  | [] => exact .silent .completed environment
  | statement :: others =>
      simp only [runAll]
      exact (run_scripted fewer statement environment).thenRun (runAll_scripted fewer others)

private theorem runOptional_scripted {passes more : Nat} (fewer : passes ≤ more)
    (part : Option Statement) :
    ScriptedRuns (runOptional (.execute passes) part) (runOptional (.execute more) part) := by
  intro environment
  match part with
  | none => exact .silent .completed environment
  | some statement => exact run_scripted fewer statement environment

end

end Statement

/-! ## Programs in front of sinks -/

namespace Script

/-- What is seen of a run that follows a script.  Only a completed run asks for the delivery of what
it wrote. -/
def perform (script : Script) (sink : Sink) : Outcome × Sink :=
  match sink.deliver script.texts with
  | (.error error, after) => (.failed error, after)
  | (.ok (), after) =>
    match script.outcome, after.flush with
    | .completed, .error error => (.failed error, after)
    | outcome, _ => (outcome, after)

variable {script short long : Script} {sink after : Sink} {error : RuntimeError}

private theorem perform_of_error (refused : sink.deliver script.texts = (.error error, after)) :
    script.perform sink = (.failed error, after) := by
  rw [perform, refused]

private theorem perform_of_flushes (delivered : sink.deliver script.texts = (.ok (), after))
    (flushes : after.flushes = true) : script.perform sink = (script.outcome, after) := by
  have flushed : after.flush = .ok () := if_pos flushes
  rw [perform, delivered]
  dsimp only
  rw [flushed]
  cases script.outcome <;> rfl

private theorem perform_of_not_completed (delivered : sink.deliver script.texts = (.ok (), after))
    (stopped : script.outcome ≠ .completed) : script.perform sink = (script.outcome, after) := by
  rw [perform, delivered]
  dsimp only
  split
  · next completed _ => exact absurd completed stopped
  · rfl

private theorem perform_sink (script : Script) (sink : Sink) :
    (script.perform sink).2 = (sink.deliver script.texts).2 := by
  rw [perform]
  split
  · next refused => rw [refused]
  · next delivered =>
    rw [delivered]
    split <;> rfl

end Script

/-- The one ending is the other, or that of a run that was stopped on the way to the other. -/
def Precedes (ending other : Outcome × Sink) : Prop :=
  ending = other ∨ ending.1 = .unfinished ∧ ending.2.handed <+: other.2.handed

theorem Precedes.written_begins {ending other : Outcome × Sink} (precedes : Precedes ending other) :
    ending.2.written <+: other.2.written := by
  rcases precedes with rfl | ⟨_, further⟩
  · exact List.prefix_rfl
  · exact (further.filter Attempt.taken).map Attempt.text

theorem Script.Begins.perform {short long : Script} (begins : short.Begins long) (sink : Sink) :
    Precedes (short.perform sink) (long.perform sink) := by
  rcases begins with rfl | ⟨unfinished, further, extended⟩
  · exact .inl rfl
  · cases delivered : sink.deliver short.texts with
    | mk answer after =>
      cases answer with
      | error error =>
          have refused : sink.deliver long.texts = (.error error, after) := by
            rw [← extended]
            exact Sink.deliver_append_of_error delivered
          exact .inl ((perform_of_error delivered).trans (perform_of_error refused).symm)
      | ok =>
          rw [perform_of_not_completed delivered (by rw [unfinished]; nofun)]
          refine .inr ⟨unfinished, ?_⟩
          rw [perform_sink, ← extended, Sink.deliver_append_of_ok delivered]
          exact Sink.handed_deliver_extends further after

/-- How a run into a sink of `limit` bytes ends, beside the run into one that takes everything. -/
structure Curtailed (limit : Nat) (free limited : Outcome × Sink) : Prop where
  /-- Whole texts are written, and no others. -/
  written_begins : limited.2.written <+: free.2.written
  text_begins : ∃ rest, free.2.text = limited.2.text ++ rest
  bytes_le : limited.2.text.utf8ByteSize ≤ limit
  /-- What fits is not disturbed. -/
  same_of_fits : free.2.text.utf8ByteSize ≤ limit →
    limited.1 = free.1 ∧ limited.2.text = free.2.text ∧ limited.2.handed = free.2.handed
  /-- The next text is handed over, refused, and the last one that is handed over. -/
  refused_of_exceeds : limit < free.2.text.utf8ByteSize → ∃ refused,
    limited.1 = .failed (.output .closed) ∧
    limited.2.handed = limited.2.written.map (⟨·, true⟩) ++ [⟨refused, false⟩] ∧
    limited.2.written ++ [refused] <+: free.2.written ∧
    limit < (limited.2.text ++ refused).utf8ByteSize

namespace Curtailed

variable {limit : Nat} {free limited : Outcome × Sink}

theorem whole (outcome_eq : limited.1 = free.1) (handed_eq : limited.2.handed = free.2.handed)
    (fits : free.2.text.utf8ByteSize ≤ limit) : Curtailed limit free limited := by
  have written_eq : limited.2.written = free.2.written :=
    congrArg (fun attempts => (attempts.filter Attempt.taken).map Attempt.text) handed_eq
  have text_eq : limited.2.text = free.2.text := congrArg String.join written_eq
  constructor
  case written_begins => exact ⟨[], by rw [List.append_nil, written_eq]⟩
  case text_begins => exact ⟨"", by rw [String.append_empty, text_eq]⟩
  case bytes_le => rwa [text_eq]
  case same_of_fits => exact fun _ => ⟨outcome_eq, text_eq, handed_eq⟩
  case refused_of_exceeds => exact fun exceeds => absurd fits (Nat.not_le.mpr exceeds)

theorem cut {refused : String} (failed : limited.1 = .failed (.output .closed))
    (handed : limited.2.handed = limited.2.written.map (⟨·, true⟩) ++ [⟨refused, false⟩])
    (inOrder : limited.2.written ++ [refused] <+: free.2.written)
    (fits : limited.2.text.utf8ByteSize ≤ limit)
    (exceeds : limit < (limited.2.text ++ refused).utf8ByteSize) :
    Curtailed limit free limited := by
  obtain ⟨rest, parts⟩ := inOrder
  have text_eq : free.2.text = limited.2.text ++ refused ++ String.join rest := by
    rw [Sink.text, ← parts, String.join_append, Sink.join_concat]
    rfl
  constructor
  case written_begins =>
    rw [← parts, List.append_assoc]
    exact List.prefix_append ..
  case text_begins => exact ⟨refused ++ String.join rest, by rw [text_eq, String.append_assoc]⟩
  case bytes_le => exact fits
  case same_of_fits =>
    intro freeFits
    rw [text_eq, String.utf8ByteSize_append] at freeFits
    omega
  case refused_of_exceeds => exact fun _ => ⟨refused, failed, handed, ⟨rest, parts⟩, exceeds⟩

end Curtailed

namespace Script

private theorem perform_unbounded (script : Script) :
    ∃ after, script.perform .unbounded = (script.outcome, after) ∧
      after.handed = (Sink.printed script.texts).map (⟨·, true⟩) := by
  have received := Sink.deliver_receives script.texts .unbounded
  cases delivered : Sink.unbounded.deliver script.texts with
  | mk answer after =>
    rw [delivered] at received
    cases received with
    | all _ flushes handed => exact ⟨after, perform_of_flushes delivered flushes, handed⟩
    | refusal bounded => cases bounded

/-- The same texts, handed to a sink that takes everything and to one that does not. -/
theorem perform_limited (script : Script) (limit : Nat) :
    Curtailed limit (script.perform .unbounded) (script.perform (.limited limit)) := by
  obtain ⟨free, freely, freeHanded⟩ := script.perform_unbounded
  have freeWritten := Sink.written_of_handed freeHanded
  have received := Sink.deliver_receives script.texts (.limited limit)
  cases delivered : (Sink.limited limit).deliver script.texts with
  | mk answer after =>
    rw [delivered] at received
    cases received with
    | all fits flushes handed =>
        rw [freely, perform_of_flushes delivered flushes]
        refine .whole rfl (handed.trans freeHanded.symm) ?_
        rw [Sink.text, freeWritten]
        exact fits limit rfl
    | @refusal taken rest refused room _ bounded parts fits exceeds handed =>
        cases bounded
        obtain rfl : taken = after.written := (Sink.written_of_refusal handed).symm
        rw [freely, perform_of_error delivered]
        refine .cut rfl handed ?_ fits ?_
        · rw [freeWritten, parts]
          exact ⟨rest, by rw [List.append_assoc, List.singleton_append]⟩
        · rwa [Sink.bytes, Sink.join_concat] at exceeds

end Script

namespace Program

variable {program : Program} {script : Script} {passes : Nat} {sink : Sink}

private theorem execute_of_plays
    (plays : script.Plays sink (Statement.runAll (.execute passes) program (Machine.start sink))) :
    program.execute passes sink = script.perform sink := by
  rw [execute]
  generalize Statement.runAll (.execute passes) program (Machine.start sink) = result at plays ⊢
  cases plays with
  | cut environment refused => exact (Script.perform_of_error refused).symm
  | @whole after delivered =>
      rw [Script.perform, delivered]
      cases script.outcome with
      | completed =>
          dsimp only
          cases after.flush <;> rfl
      | failed error => rfl
      | unfinished => rfl

/-- A program has a script for every number of passes, and with more of them a longer one. -/
theorem execute_scripted {more : Nat} (fewer : passes ≤ more) (program : Program) :
    ∃ short long : Script, short.Begins long ∧
      (∀ sink, program.execute passes sink = short.perform sink) ∧
      ∀ sink, program.execute more sink = long.perform sink := by
  obtain ⟨short, long, begins, plays, longPlays⟩ :=
    Statement.runAll_scripted fewer program .empty
  exact ⟨short, long, begins, fun sink => execute_of_plays (plays sink),
    fun sink => execute_of_plays (longPlays sink)⟩

/-- The sink of a run has no say but to stop it.  Into a sink of `limit` bytes a program writes the
texts that it writes into one that takes everything, up to the first that does not fit: with that
one it fails, and hands over nothing more.  If all of them fit, the run ends as it does there.

Runs are cut off at a number of passes.  That is not seen of a run that ended, whatever its sink:
more passes do not change it, and they only lengthen one that was unfinished. -/
theorem execute_limited (program : Program) (limit passes : Nat) :
    Curtailed limit (program.execute passes .unbounded) (program.execute passes (.limited limit)) ∧
    ∀ more, passes ≤ more →
      (program.execute passes (.limited limit)).2.written <+:
        (program.execute more .unbounded).2.written ∧
      ∀ sink, Precedes (program.execute passes sink) (program.execute more sink) := by
  have curtailed : Curtailed limit (program.execute passes .unbounded)
      (program.execute passes (.limited limit)) := by
    obtain ⟨script, _, _, performs, _⟩ := execute_scripted (Nat.le_refl passes) program
    rw [performs, performs]
    exact script.perform_limited limit
  refine ⟨curtailed, fun more fewer => ?_⟩
  have precedes (sink : Sink) :
      Precedes (program.execute passes sink) (program.execute more sink) := by
    obtain ⟨short, long, begins, performs, longPerforms⟩ := execute_scripted fewer program
    rw [performs, longPerforms]
    exact begins.perform sink
  exact ⟨curtailed.written_begins.trans (precedes .unbounded).written_begins, precedes⟩

/-- A loop that prints the same line for ever. -/
def endlessLine : Program :=
  [.block [.loop none (.literal (.boolean true) 1) none
    (.block [.print (.literal (.string "ab") 1) true])]]

/-- Four bytes end what would go on for ever.  The second text is refused and no line break is tried
behind it, for which there would be room. -/
theorem execute_endlessLine :
    (endlessLine.execute 3 .unbounded).1 = .unfinished ∧
    (endlessLine.execute 3 (.limited 4)).2.handed = [⟨"ab", true⟩, ⟨"\n", true⟩, ⟨"ab", false⟩] ∧
    endlessLine.execute 5 (.limited 4) = endlessLine.execute 3 (.limited 4) ∧
    (endlessLine.execute 5 (.limited 4)).1 = .failed (.output .closed) ∧
    (endlessLine.execute 3 (.limited 4)).2.written <+:
      (endlessLine.execute 5 .unbounded).2.written := by
  obtain ⟨curtailed, lengthened⟩ := execute_limited endlessLine 4 3
  obtain ⟨inOrder, precedes⟩ := lengthened 5 (by decide)
  obtain ⟨refused, failed, _⟩ := curtailed.refused_of_exceeds (by decide +kernel)
  have same : endlessLine.execute 5 (.limited 4) = endlessLine.execute 3 (.limited 4) := by
    rcases precedes (.limited 4) with same | ⟨unfinished, _⟩
    · exact same.symm
    · rw [failed] at unfinished
      cases unfinished
  exact ⟨by decide +kernel, by decide +kernel, same, same ▸ failed, inOrder⟩

end Program

end LineScript
