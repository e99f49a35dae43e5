import LineScript.Proofs.Scanning.Places
import LineScript.Validation.Validator

/-!
How validation goes through the tokens.

Validation stands at one token after another.  It goes on behind a token that it takes, and behind
the line of a token that it refuses, so it always comes to an end.  The tokens of a source stand on
lines that increase from one line end to the next; therefore no line has two errors, and the errors
are reported in the order of their lines.
-/

set_option autoImplicit false

namespace LineScript

namespace Validation

namespace Validator

/-! ## The line that is blamed -/

/-- A refusal names the line of the token. -/
def Blames (line : Nat) : Except GrammarError Validator → Prop
  | .ok _ => True
  | .error error => error.line = line

private theorem blames_ite {line : Nat} {condition : Prop} [Decidable condition]
    {first second : Except GrammarError Validator} (here : Blames line first)
    (otherwise : Blames line second) : Blames line (if condition then first else second) := by
  split
  · exact here
  · exact otherwise

section Blame

variable (token : Token) (validator : Validator)

private theorem blames_useName (position : Position) :
    Blames token.line (validator.useName token position) :=
  blames_ite trivial rfl

private theorem blames_closeBrace (line : Nat) : Blames line (validator.closeBrace line) := by
  unfold closeBrace
  cases validator.braces with
  | nil => rfl
  | cons brace others => trivial

private theorem blames_finish (line : Nat) : Blames line (validator.finish line) := by
  unfold finish
  cases validator.braces with
  | nil => trivial
  | cons brace others => rfl

private theorem blames_endLine : Blames token.line (validator.endLine token) := by
  unfold endLine
  split
  · exact blames_finish _ _
  · exact blames_closeBrace _ _
  · trivial

private theorem blames_stepOperand (clause : Clause) :
    Blames token.line (validator.stepOperand clause token) :=
  blames_ite trivial (blames_ite trivial
    (blames_ite (blames_useName token validator _) (blames_ite trivial rfl)))

private theorem blames_endClause (clause : Clause) :
    Blames token.line (validator.endClause clause token) := by
  cases clause with
  | line => exact blames_endLine token validator
  | condition | loopStart | loopCondition | loopStep => trivial

private theorem blames_stepOperator (clause : Clause) (assignable : Bool) :
    Blames token.line (validator.stepOperator clause assignable token) := by
  have closes : Blames token.line (validator.closeParen clause token.line) :=
    blames_ite trivial (blames_ite trivial rfl)
  have assigns : Blames token.line (if clause = .line ∧ assignable then
      .ok (validator.moveTo (.operand clause)) else .error (.invalidAssignmentTarget token.line)) :=
    blames_ite trivial rfl
  have ends : Blames token.line (if 0 < validator.parens then
      .error (.unbalanced .rightParen token.line) else validator.endClause clause token) :=
    blames_ite rfl (blames_endClause token validator clause)
  exact blames_ite trivial (blames_ite closes (blames_ite assigns (blames_ite ends rfl)))

private theorem blames_stepBoundary : Blames token.line (validator.stepBoundary token) := by
  unfold stepBoundary
  split <;> first
    | trivial
    | exact blames_finish validator token.line
    | exact blames_closeBrace validator token.line
    | exact blames_useName token validator _
    | exact blames_stepOperand token validator _

private theorem blames_stepPrint : Blames token.line (validator.stepPrint token) := by
  unfold stepPrint
  split <;> first
    | exact blames_endLine token validator
    | exact blames_useName token validator _
    | exact blames_stepOperand token validator _

private theorem blames_stepClosed (afterBranch : Bool) :
    Blames token.line (validator.stepClosed afterBranch token) := by
  unfold stepClosed
  split <;> first
    | trivial
    | exact blames_finish validator token.line
    | exact blames_closeBrace validator token.line
    | exact blames_ite trivial rfl

private theorem blames_step : Blames token.line (validator.step token) := by
  unfold step
  cases validator.position with
  | done => trivial
  | boundary => exact blames_stepBoundary token validator
  | declaredName site => exact blames_ite (blames_ite rfl trivial) rfl
  | printStart => exact blames_stepPrint token validator
  | operand clause => exact blames_stepOperand token validator clause
  | operator clause assignable => exact blames_stepOperator token validator clause assignable
  | declaredEqual _ | loopOpen | loopStepEqual | loopBody => exact blames_ite trivial rfl
  | loopStart | elseArm => exact blames_ite trivial (blames_ite trivial rfl)
  | loopStep => exact blames_ite (blames_useName token validator _) (blames_ite trivial rfl)
  | closed afterBranch => exact blames_stepClosed token validator afterBranch

end Blame

private theorem line_eq_of_step {token : Token} {validator : Validator} {error : GrammarError}
    (refused : validator.step token = .error error) : error.line = token.line := by
  have blamed := blames_step token validator
  rwa [refused] at blamed

/-! ## Behind a refused token -/

private theorem skipLine_suffix (validator : Validator) (tokens : List Token) :
    (validator.skipLine tokens).2 <:+ tokens := by
  fun_induction skipLine validator tokens with
  | case1 => exact List.suffix_refl []
  | case2 validator token tail _ => exact List.suffix_cons token tail
  | case3 => exact List.nil_suffix
  | case4 validator token tail _ ih | case5 validator token tail _ _ ih
  | case6 validator token tail _ _ _ _ ih | case7 validator token tail _ _ _ _ ih =>
      exact ih.trans (List.suffix_cons token tail)

/-- The tokens that are passed over reach to the end of a line, or to the end of all tokens. -/
private theorem skipLine_passes (validator : Validator) (tokens : List Token) :
    (validator.skipLine tokens).2 = [] ∨
      ∃ passed ending, tokens = passed ++ ending :: (validator.skipLine tokens).2 ∧
        ending.kind = .lineEnd := by
  have longer (token : Token) {tail rest : List Token}
      (passes : rest = [] ∨ ∃ passed ending, tail = passed ++ ending :: rest ∧
        ending.kind = .lineEnd) :
      rest = [] ∨ ∃ passed ending, token :: tail = passed ++ ending :: rest ∧
        ending.kind = .lineEnd := by
    refine passes.imp_right ?_
    rintro ⟨passed, ending, rfl, lineEnd⟩
    exact ⟨token :: passed, ending, rfl, lineEnd⟩
  fun_induction skipLine validator tokens with
  | case1 | case3 => exact .inl rfl
  | case2 validator token tail lineEnd => exact .inr ⟨[], token, rfl, lineEnd⟩
  | case4 validator token tail _ ih | case5 validator token tail _ _ ih
  | case6 validator token tail _ _ _ _ ih | case7 validator token tail _ _ _ _ ih =>
      exact longer token ih

end Validator

/-! ## Turn by turn -/

/-- A turn of validation that ends in an error: the index of the refused token, and the index of the
token to go on with. -/
structure Report where
  error : GrammarError
  index : Nat
  resume : Nat
deriving DecidableEq, Repr

/-- Each report is about one token, and validation goes on behind it. -/
structure Report.Placed (tokens : List Token) (report : Report) : Prop where
  progress : report.index < report.resume
  blame : ∃ token, tokens[report.index]? = some token ∧ report.error.line = token.line

/-- A line ends at one of the tokens from index `first` on, in front of index `second`. -/
def LineEndsBetween (tokens : List Token) (first second : Nat) : Prop :=
  ∃ place ending, first ≤ place ∧ place < second ∧ tokens[place]? = some ending ∧
    ending.kind = .lineEnd

/-- The line ends in front of a token.  Tokens with as many belong to one line of tokens. -/
def lineEndsBefore (tokens : List Token) (index : Nat) : Nat :=
  (tokens.take index).countP fun token => token.kind = .lineEnd

namespace LineEndsBetween

variable {tokens : List Token} {first second third : Nat}

theorem mono (between : LineEndsBetween tokens first second) (further : second ≤ third) :
    LineEndsBetween tokens first third := by
  obtain ⟨place, ending, behind, before, found, lineEnd⟩ := between
  exact ⟨place, ending, behind, Nat.lt_of_lt_of_le before further, found, lineEnd⟩

theorem lineEndsBefore_lt (between : LineEndsBetween tokens first second) :
    lineEndsBefore tokens first < lineEndsBefore tokens second := by
  obtain ⟨place, ending, behind, before, found, lineEnd⟩ := between
  have here : lineEndsBefore tokens (place + 1) = lineEndsBefore tokens place + 1 := by
    simp [lineEndsBefore, List.take_add_one, found, lineEnd]
  have earlier : lineEndsBefore tokens first ≤ lineEndsBefore tokens place :=
    (List.take_sublist_take_left behind).countP_le
  have later : lineEndsBefore tokens (place + 1) ≤ lineEndsBefore tokens second :=
    (List.take_sublist_take_left before).countP_le
  omega

end LineEndsBetween

namespace Validator

/-- Validation of `tokens` that stands at an index comes to its end with these reports. -/
inductive Run (tokens : List Token) : Validator → Nat → List Report → Prop where
  | exhausted {validator : Validator} {index : Nat} :
      tokens.length ≤ index → Run tokens validator index []
  | finished {validator next : Validator} {index : Nat} {token : Token} :
      tokens[index]? = some token → validator.step token = .ok next → next.position = .done →
      Run tokens validator index []
  | taken {validator next : Validator} {index : Nat} {token : Token} {reports : List Report} :
      tokens[index]? = some token → validator.step token = .ok next → next.position ≠ .done →
      Run tokens next (index + 1) reports → Run tokens validator index reports
  | refused {validator : Validator} {index resume : Nat} {token : Token} {error : GrammarError}
      {reports : List Report} :
      tokens[index]? = some token → validator.step token = .error error →
      resume ≤ tokens.length → (validator.recover (tokens.drop index)).2 = tokens.drop resume →
      Run tokens (validator.recover (tokens.drop index)).1 resume reports →
      Run tokens validator index (⟨error, index, resume⟩ :: reports)

variable {tokens : List Token} {validator : Validator} {index : Nat} {reports : List Report}

private theorem getElem?_of_drop {token : Token} {tail : List Token}
    (behind : tokens.drop index = token :: tail) :
    tokens[index]? = some token ∧ tokens.drop (index + 1) = tail := by
  rw [← List.head?_drop, List.drop_add_one_eq_tail_drop, behind]
  exact ⟨rfl, rfl⟩

/-- Validation ends, whatever the tokens are, and reports its errors on the way. -/
theorem exists_run (tokens : List Token) (validator : Validator) (index : Nat) :
    ∃ reports, Run tokens validator index reports ∧
      reports.map Report.error = validator.errors (tokens.drop index) := by
  generalize behind : tokens.drop index = rest
  fun_induction errors validator rest generalizing index with
  | case1 validator => exact ⟨[], .exhausted (List.drop_eq_nil_iff.mp behind), rfl⟩
  | case2 validator token tail next stepped done =>
      exact ⟨[], .finished (getElem?_of_drop behind).1 stepped done, rfl⟩
  | case3 validator token tail next stepped running ih =>
      obtain ⟨here, further⟩ := getElem?_of_drop behind
      obtain ⟨reports, run, same⟩ := ih (index + 1) further
      exact ⟨reports, .taken here stepped running run, same⟩
  | case4 validator token tail error refused ih =>
      rw [← behind] at ih ⊢
      have suffix : (validator.recover (tokens.drop index)).2 <:+ tokens :=
        (skipLine_suffix _ _).trans (List.drop_suffix index tokens)
      have further := List.suffix_iff_eq_drop.mp suffix
      obtain ⟨reports, run, same⟩ := ih _ further.symm
      refine ⟨_, .refused (getElem?_of_drop behind).1 refused (Nat.sub_le _ _) further run, ?_⟩
      rw [List.map_cons, same]

/-! ### What a run reports -/

private theorem lt_resume {resume : Nat} {token : Token} (here : tokens[index]? = some token)
    (further : (validator.recover (tokens.drop index)).2 = tokens.drop resume) :
    index < resume := by
  obtain ⟨inside, _⟩ := List.getElem?_eq_some_iff.mp here
  have shorter : (tokens.drop resume).length < (tokens.drop index).length := by
    rw [← further, List.drop_eq_getElem_cons inside]
    exact length_recover_lt _ _ _
  rw [List.length_drop, List.length_drop] at shorter
  omega

/-- The tokens that are given up with a refused one end in a line end, if there are any behind. -/
private theorem lineEndsBetween_resume {resume : Nat} (inside : resume < tokens.length)
    (further : (validator.recover (tokens.drop index)).2 = tokens.drop resume) :
    LineEndsBetween tokens index resume := by
  rcases skipLine_passes validator.abandon (tokens.drop index) with
    nothing | ⟨passed, ending, split, lineEnd⟩
  · have exhausted : tokens.drop resume = [] := further.symm.trans nothing
    exact absurd (List.drop_eq_nil_iff.mp exhausted) (by omega)
  · change tokens.drop index = passed ++ ending :: (validator.recover (tokens.drop index)).2 at split
    rw [further] at split
    refine ⟨index + passed.length, ending, by omega, ?_, ?_, lineEnd⟩
    · have lengths := congrArg List.length split
      simp only [List.length_drop, List.length_append, List.length_cons] at lengths
      omega
    · rw [← List.getElem?_drop, split, List.getElem?_append_right (Nat.le_refl _), Nat.sub_self]
      rfl

/-- A run reports from its index on, and never twice without a line end between. -/
theorem Run.placed (run : Run tokens validator index reports) :
    (∀ report ∈ reports, index ≤ report.index ∧ report.Placed tokens) ∧
      reports.Pairwise fun earlier later => LineEndsBetween tokens earlier.index later.index := by
  induction run with
  | exhausted _ | finished _ _ _ => exact ⟨List.forall_mem_nil _, .nil⟩
  | taken _ _ _ _ ih =>
      obtain ⟨placed, apart⟩ := ih
      refine ⟨fun report member => ?_, apart⟩
      obtain ⟨behind, place⟩ := placed report member
      exact ⟨Nat.le_of_succ_le behind, place⟩
  | @refused validator index resume token error reports here refused _ further _ ih =>
      obtain ⟨placed, apart⟩ := ih
      have progress : index < resume := lt_resume here further
      constructor
      · intro report member
        rcases List.mem_cons.mp member with rfl | later
        · exact ⟨Nat.le_refl index, progress, token, here, line_eq_of_step refused⟩
        · obtain ⟨behind, place⟩ := placed report later
          exact ⟨by omega, place⟩
      · refine List.pairwise_cons.mpr ⟨fun report later => ?_, apart⟩
        obtain ⟨behind, place⟩ := placed report later
        obtain ⟨_, found, _⟩ := place.blame
        have inside : report.index < tokens.length := (List.getElem?_eq_some_iff.mp found).1
        have between : LineEndsBetween tokens index resume :=
          lineEndsBetween_resume (Nat.lt_of_le_of_lt behind inside) further
        exact between.mono behind

end Validator

end Validation

/-! ## The lines of a source -/

namespace Scan

open Lexeme (Divides)

private theorem line_le_of_mem {text : List Char} {lexemes : List Lexeme}
    (divides : Divides text lexemes)
    (line : Nat) (lineOpen : Bool) :
    ∀ token ∈ (ofLexemes line lineOpen lexemes).tokens, line ≤ token.line := by
  rw [tokens_ofLexemes]
  refine List.forall_mem_append.mpr ⟨(orderly_body divides line lineOpen).below, ?_⟩
  simp [Token.plain]

/-- Tokens stand in the order of their lines, and behind a line end on a later line. -/
theorem pairwise_lines {text : List Char} {lexemes : List Lexeme} (divides : Divides text lexemes)
    (line : Nat) (lineOpen : Bool) :
    (ofLexemes line lineOpen lexemes).tokens.Pairwise fun token next =>
      token.line ≤ next.line ∧ (token.kind = .lineEnd → token.line < next.line) := by
  induction divides generalizing line lineOpen with
  | nil => exact List.pairwise_singleton _ _
  | @cons written rest lexeme lexemes taken others ih =>
      rw [ofLexemes_cons]
      refine List.pairwise_append.mpr ⟨?_, ih _ _, fun token member next later => ?_⟩
      · cases lexeme.token? line lineOpen with
        | none => exact .nil
        | some token => exact List.pairwise_singleton _ _
      · have gives : lexeme.token? line lineOpen = some token := Option.mem_toList.mp member
        have here : token.line = line := (taken.spelled gives).2
        have below := line_le_of_mem others _ _ next later
        refine ⟨by omega, fun lineEnd => ?_⟩
        obtain ⟨rfl, _⟩ := taken.eq_lineBreak gives lineEnd
        rw [here]
        exact below

end Scan

namespace Validation

open Validator

private theorem line_lt_of_lineEndsBetween {source : String} {first second : Nat}
    {token next : Token}
    (between : LineEndsBetween (Scan.ofText source).tokens first second)
    (here : (Scan.ofText source).tokens[first]? = some token)
    (there : (Scan.ofText source).tokens[second]? = some next) : token.line < next.line := by
  have ordered := List.pairwise_iff_getElem.mp
    (Scan.pairwise_lines (Lexeme.divides_split source.toList) 1 false)
  obtain ⟨place, ending, behind, before, found, lineEnd⟩ := between
  obtain ⟨insideFirst, rfl⟩ := List.getElem?_eq_some_iff.mp here
  obtain ⟨insidePlace, rfl⟩ := List.getElem?_eq_some_iff.mp found
  obtain ⟨insideSecond, rfl⟩ := List.getElem?_eq_some_iff.mp there
  have strictly := (ordered place second insidePlace insideSecond before).2 lineEnd
  rcases Nat.eq_or_lt_of_le behind with rfl | earlier
  · exact strictly
  · exact Nat.lt_of_le_of_lt (ordered first place insideFirst insidePlace earlier).1 strictly

/-- Validation of every source comes to an end.  Behind each error it goes on at a later token; it
reports at most one error between two line ends, and the errors in the order of their lines. -/
theorem validate_turns (source : String) :
    ∃ reports, Run (Scan.ofText source).tokens fresh 0 reports ∧
      reports.map Report.error = validate (Scan.ofText source).tokens ∧
      (∀ report ∈ reports, report.index < report.resume) ∧
      (reports.map fun report =>
        lineEndsBefore (Scan.ofText source).tokens report.index).Pairwise (· < ·) ∧
      ((validate (Scan.ofText source).tokens).map GrammarError.line).Pairwise (· < ·) := by
  obtain ⟨reports, run, same⟩ := exists_run (Scan.ofText source).tokens fresh 0
  obtain ⟨placed, apart⟩ := run.placed
  change reports.map Report.error = validate (Scan.ofText source).tokens at same
  refine ⟨reports, run, same, fun report member => (placed report member).2.progress, ?_, ?_⟩
  · exact List.pairwise_map.mpr (apart.imp LineEndsBetween.lineEndsBefore_lt)
  · rw [← same, List.map_map, List.pairwise_map]
    refine apart.imp_of_mem fun earlier later between => ?_
    obtain ⟨token, here, blamed⟩ := (placed _ earlier).2.blame
    obtain ⟨next, there, blamedNext⟩ := (placed _ later).2.blame
    rw [Function.comp_apply, Function.comp_apply, blamed, blamedNext]
    exact line_lt_of_lineEndsBetween between here there

end Validation

end LineScript
