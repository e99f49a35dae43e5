import LineScript.Proofs.Reading.Forks
import Mathlib.Data.List.Permutation

/-!
Reading line by line.

A line without braces is read by itself.  Wherever on it a statement fails, the tokens up to its
line end are given up and no more, so a line comes to one statement or to one error, and a list of
lines comes to what its lines come to.
-/

set_option autoImplicit false

namespace LineScript

/-- Kinds of tokens that neither end anything nor open or close a block. -/
def TokenKind.staysOnLine (kind : TokenKind) : Prop :=
  kind ≠ .leftBrace ∧ kind ≠ .rightBrace ∧ kind ≠ .lineEnd ∧ kind ≠ .inputEnd

/-- A line of tokens without braces, and the line end behind them. -/
structure Line where
  tokens : List Token
  ending : Token
  staysOnLine : ∀ token ∈ tokens, token.kind.staysOnLine
  lineEnd : ending.kind = .lineEnd

namespace Line

def toList (line : Line) : List Token :=
  line.tokens ++ [line.ending]

/-- The line by itself, and in front of further tokens. -/
def fork (line : Line) (behind : List Token) : Fork where
  stop := line.ending
  behind := behind
  other := []
  admits := TokenKind.staysOnLine
  ends := .inr ⟨line.lineEnd, fun stays => stays.1 rfl⟩

end Line

/-- A listing is another one with statements and errors in front of it. -/
structure Listing.Extends {limit inner : Nat} (statements : List Statement)
    (errors : List GrammarError) (listing : Listing limit) (behind : Listing inner) : Prop where
  statements_eq : listing.statements = statements ++ behind.statements
  errors_eq : listing.errors = errors ++ behind.errors
  rest_eq : listing.rest = behind.rest

/-- One statement or one error, and not both. -/
inductive Listing.Single : List Statement → List GrammarError → Prop where
  | statement (statement : Statement) : Single [statement] []
  | error (error : GrammarError) : Single [] [error]

namespace Statement

/-! ## One line -/

section

variable {line : Line} {behind tokens others : List Token}

/-- What is given up of a line ends with the line. -/
theorem synchronize_line (nested : Bool) (aligned : (line.fork behind).Aligned tokens others) :
    synchronize nested tokens = behind ∧ synchronize nested others = [] := by
  induction aligned with
  | stop => simp [synchronize, Line.fork, line.lineEnd]
  | @cons token tail otherTail stays _ ih =>
      obtain ⟨notLeft, notRight, notLineEnd, notInputEnd⟩ := stays
      have skips (tail : List Token) :
          synchronize nested (token :: tail) = synchronize nested tail := by
        rw [synchronize]
        split
        · contradiction
        · contradiction
        · contradiction
        · contradiction
        · rfl
      rw [skips, skips]
      exact ih

private theorem resume_line (nested : Bool) {tail otherTail : List Token}
    (tails : (line.fork behind).Aligned tail otherTail)
    (aligned : (line.fork behind).Aligned tokens others) :
    resume nested tail tokens = behind ∧ resume nested otherTail others = [] := by
  unfold resume
  constructor
  · split
    · exact (synchronize_line nested aligned).1
    · exact (synchronize_line nested tails).1
  · split
    · exact (synchronize_line nested aligned).2
    · exact (synchronize_line nested tails).2

/-- The two results of reading the statement of a line: it takes the line end, or fails on the
line, and records no error besides. -/
inductive ReadsLine (fork : Fork) {limit otherLimit : Nat} :
    Recorded Statement limit → Recorded Statement otherLimit → Prop where
  | success {statement : Statement} {shorter : fork.behind.length < limit}
      {otherShorter : fork.other.length < otherLimit} :
      ReadsLine fork ⟨.success statement fork.behind shorter, []⟩
        ⟨.success statement fork.other otherShorter, []⟩
  | failure {error : GrammarError} {rest otherRest : List Token} {bounded : rest.length ≤ limit}
      {otherBounded : otherRest.length ≤ otherLimit} :
      fork.Aligned rest otherRest →
      ReadsLine fork ⟨.failure error rest bounded, []⟩ ⟨.failure error otherRest otherBounded, []⟩

private theorem readEnd_readsLine {statement : Statement} {limit otherLimit : Nat}
    {shorter : tokens.length < limit} {otherShorter : others.length < otherLimit}
    (aligned : (line.fork behind).Aligned tokens others) :
    ReadsLine (line.fork behind) (readEnd statement limit tokens shorter).record
      (readEnd statement otherLimit others otherShorter).record := by
  cases aligned with
  | stop =>
      have lineEnd : (line.fork behind).stop.kind = .lineEnd := line.lineEnd
      simp only [readEnd, lineEnd]
      exact .success
  | @cons token tail otherTail stays aligned =>
      obtain ⟨notLeft, notRight, notLineEnd, notInputEnd⟩ := id stays
      simp only [readEnd]
      exact .failure (.cons stays aligned)

private theorem read_readsLine (aligned : (line.fork behind).Aligned tokens others) :
    ReadsLine (line.fork behind) (read tokens) (read others) := by
  have mirrors := (readers_mirror (line.fork behind)).2.1 tokens others aligned
  have silent := mirrors.errors_eq_nil fun stays => stays.1 rfl
  rw [read, read]
  generalize readOpen tokens = result at mirrors silent ⊢
  generalize readOpen others = other at mirrors ⊢
  obtain ⟨outcome, errors⟩ := result
  obtain ⟨otherOutcome, otherErrors⟩ := other
  obtain ⟨mirrored, rfl, _, _⟩ := mirrors
  obtain rfl : errors = [] := silent
  cases mirrored with
  | success rests => exact readEnd_readsLine rests
  | failure _ rests => exact .failure rests

theorem extends_of_success (nested : Bool) {token : Token} {tail rest : List Token}
    {statement : Statement} {errors : List GrammarError}
    {shorter : rest.length < (token :: tail).length}
    (notLineEnd : token.kind ≠ .lineEnd) (notInputEnd : token.kind ≠ .inputEnd)
    (notRightBrace : token.kind ≠ .rightBrace)
    (success : read (token :: tail) = ⟨.success statement rest shorter, errors⟩) :
    (readList nested (token :: tail)).Extends [statement] errors (readList nested rest) := by
  rw [readList_success notLineEnd notInputEnd notRightBrace (congrArg Recorded.outcome success),
    success]
  exact ⟨rfl, rfl, rfl⟩

theorem extends_of_failure (nested : Bool) {token : Token} {tail rest : List Token}
    {error : GrammarError} {errors : List GrammarError}
    {bounded : rest.length ≤ (token :: tail).length}
    (notLineEnd : token.kind ≠ .lineEnd) (notInputEnd : token.kind ≠ .inputEnd)
    (notRightBrace : token.kind ≠ .rightBrace)
    (failure : read (token :: tail) = ⟨.failure error rest bounded, errors⟩) :
    (readList nested (token :: tail)).Extends [] (errors ++ [error])
      (readList nested (resume nested tail rest)) := by
  rw [readList_failure notLineEnd notInputEnd notRightBrace (congrArg Recorded.outcome failure),
    failure]
  exact ⟨rfl, rfl, rfl⟩

/-- A line that holds a token is one statement or one error, whatever stands behind it. -/
private theorem readList_single (nested : Bool) {token : Token} {tail otherTail : List Token}
    (aligned : (line.fork behind).Aligned (token :: tail) (token :: otherTail))
    (stays : token.kind.staysOnLine) :
    ∃ statements errors, Listing.Single statements errors ∧
      (readList nested (token :: tail)).Extends statements errors (readList nested behind) ∧
      (readList nested (token :: otherTail)).Extends statements errors (readList nested []) := by
  obtain ⟨notLeft, notRight, notLineEnd, notInputEnd⟩ := stays
  have tails := aligned.tail ((line.fork behind).ne_stop notInputEnd notLineEnd)
  have reads := read_readsLine aligned
  generalize first : read (token :: tail) = result at reads
  generalize second : read (token :: otherTail) = other at reads
  cases reads with
  | @success statement _ _ =>
      exact ⟨[statement], [], .statement statement,
        extends_of_success nested notLineEnd notInputEnd notRight first,
        extends_of_success nested notLineEnd notInputEnd notRight second⟩
  | @failure error _ _ _ _ rests =>
      have stopped := extends_of_failure nested notLineEnd notInputEnd notRight first
      have otherStopped := extends_of_failure nested notLineEnd notInputEnd notRight second
      obtain ⟨same, otherSame⟩ := resume_line nested tails rests
      rw [same] at stopped
      rw [otherSame] at otherStopped
      exact ⟨[], [error], .error error, stopped, otherStopped⟩

end

/-- A line comes to the same by itself and in front of further tokens: to nothing if it is empty,
and else to one statement or one error. -/
private theorem readList_line (nested : Bool) (line : Line) (behind : List Token) :
    ∃ statements errors,
      (line.tokens = [] ∧ statements = [] ∧ errors = [] ∨
        line.tokens ≠ [] ∧ Listing.Single statements errors) ∧
      (readList nested (line.toList ++ behind)).Extends statements errors (readList nested behind) ∧
      (readList nested line.toList).Extends statements errors (readList nested []) := by
  have aligned := Fork.Aligned.of_append (line.fork behind) line.staysOnLine
  obtain ⟨tokens, ending, stays, lineEnd⟩ := line
  cases tokens with
  | nil =>
      refine ⟨[], [], .inl ⟨rfl, rfl, rfl⟩, ?_, ?_⟩
      · rw [Line.toList, List.nil_append, List.singleton_append, readList_lineEnd lineEnd]
        exact ⟨rfl, rfl, rfl⟩
      · rw [Line.toList, List.nil_append, readList_lineEnd lineEnd]
        exact ⟨rfl, rfl, rfl⟩
  | cons token tail =>
      have alone := readList_single nested aligned (stays token List.mem_cons_self)
      obtain ⟨statements, errors, single, extended, extendedAlone⟩ := alone
      refine ⟨statements, errors, .inr ⟨List.cons_ne_nil _ _, single⟩, ?_, extendedAlone⟩
      rw [Line.toList, List.append_assoc]
      exact extended

private theorem readList_nil (nested : Bool) : readList nested [] = .stop [] := by
  rw [readList]

/-- What a line comes to by itself stands in front of what the tokens behind it come to. -/
theorem readList_append_line (nested : Bool) (line : Line) (behind : List Token) :
    (readList nested (line.toList ++ behind)).Extends (readList nested line.toList).statements
      (readList nested line.toList).errors (readList nested behind) := by
  obtain ⟨statements, errors, _, extended, alone⟩ := readList_line nested line behind
  rw [readList_nil] at alone
  rw [alone.statements_eq, alone.errors_eq]
  simpa only [Listing.stop, List.append_nil] using extended

private theorem readList_alone (nested : Bool) (line : Line) :
    (readList nested line.toList).rest = [] ∧
      (line.tokens = [] → (readList nested line.toList).statements = [] ∧
        (readList nested line.toList).errors = []) ∧
      (line.tokens ≠ [] → Listing.Single (readList nested line.toList).statements
        (readList nested line.toList).errors) := by
  obtain ⟨statements, errors, yields, _, alone⟩ := readList_line nested line []
  rw [readList_nil] at alone
  rw [alone.statements_eq, alone.errors_eq, alone.rest_eq]
  simp only [Listing.stop, List.append_nil]
  rcases yields with ⟨empty, nothing⟩ | ⟨inhabited, single⟩
  · exact ⟨trivial, fun _ => nothing, fun inhabited => absurd empty inhabited⟩
  · exact ⟨trivial, fun empty => absurd empty inhabited, fun _ => single⟩

/-! ## Lists of lines -/

/-- Lines are read one by one.  A list of lines comes to what each of them comes to by itself, in
order: one statement or one error for each that holds a token.  So how one line fails changes
nothing about any other. -/
theorem readList_lines (nested : Bool) (lines : List Line) :
    (readList nested (lines.flatMap Line.toList)).statements =
      lines.flatMap (fun line => (readList nested line.toList).statements) ∧
    (readList nested (lines.flatMap Line.toList)).errors =
      lines.flatMap (fun line => (readList nested line.toList).errors) ∧
    (readList nested (lines.flatMap Line.toList)).rest = [] ∧
    ∀ line ∈ lines, (readList nested line.toList).rest = [] ∧
      (line.tokens = [] → (readList nested line.toList).statements = [] ∧
        (readList nested line.toList).errors = []) ∧
      (line.tokens ≠ [] → Listing.Single (readList nested line.toList).statements
        (readList nested line.toList).errors) := by
  induction lines with
  | nil =>
      rw [List.flatMap_nil, readList_nil]
      exact ⟨rfl, rfl, rfl, List.forall_mem_nil _⟩
  | cons line lines ih =>
      obtain ⟨statements_eq, errors_eq, rest_eq, each⟩ := ih
      have extended := readList_append_line nested line (lines.flatMap Line.toList)
      rw [← List.flatMap_cons] at extended
      refine ⟨?_, ?_, ?_, List.forall_mem_cons.mpr ⟨readList_alone nested line, each⟩⟩
      · rw [extended.statements_eq, statements_eq, List.flatMap_cons]
      · rw [extended.errors_eq, errors_eq, List.flatMap_cons]
      · rw [extended.rest_eq, rest_eq]

/-- The tokens of `var x =`, which end where a value should stand. -/
def valuelessLine : Line where
  tokens := [⟨.varWord, none, 1⟩, ⟨.identifier, some (.text "x"), 1⟩, ⟨.equal, none, 1⟩]
  ending := ⟨.lineEnd, none, 1⟩
  staysOnLine := by simp [TokenKind.staysOnLine]
  lineEnd := rfl

/-- The tokens of `y`. -/
def namingLine : Line where
  tokens := [⟨.identifier, some (.text "y"), 2⟩]
  ending := ⟨.lineEnd, none, 2⟩
  staysOnLine := by simp [TokenKind.staysOnLine]
  lineEnd := rfl

/-- Inside a block, a line that fails at its very end does not reach for the value on the next. -/
theorem readList_valuelessLine :
    (readList true (valuelessLine.toList ++ namingLine.toList)).statements =
      [.expression (.reference "y" 2)] ∧
    (readList true (valuelessLine.toList ++ namingLine.toList)).errors =
      [.expectedExpression .lineEnd 1] ∧
    Listing.Single (readList true valuelessLine.toList).statements
      (readList true valuelessLine.toList).errors := by
  have failed : (readList true valuelessLine.toList).statements = [] ∧
      (readList true valuelessLine.toList).errors = [.expectedExpression .lineEnd 1] := by
    cbv
  have named : (readList true namingLine.toList).statements = [.expression (.reference "y" 2)] ∧
      (readList true namingLine.toList).errors = [] := by
    cbv
  obtain ⟨statements_eq, errors_eq, _, each⟩ := readList_lines true [valuelessLine, namingLine]
  simp only [List.flatMap_cons, List.flatMap_nil, List.append_nil] at statements_eq errors_eq
  rw [failed.1, named.1] at statements_eq
  rw [failed.2, named.2] at errors_eq
  exact ⟨statements_eq, errors_eq, (each _ List.mem_cons_self).2.2 (List.cons_ne_nil _ _)⟩

end Statement

end LineScript
