import LineScript.Proofs.Grammar.Programs
import LineScript.Proofs.Scoping
import LineScript.Validation.Validator

/-!
Acceptance by the validator, one token at a time.

A validator accepts tokens that it finds no error in.  Each lemma here says what acceptance before
one token means for acceptance behind it; no later proof looks into a step.
-/

set_option autoImplicit false

namespace LineScript

def NameScopes.names (scopes : NameScopes) : List String :=
  scopes.innermost ++ scopes.enclosing.flatten

namespace NameScopes

theorem isVisible_iff {name : String} {scopes : NameScopes} :
    scopes.isVisible name = true ↔ name ∈ scopes.names := by
  simp [isVisible, names, ScopeStack.toList]

theorem declaredHere_iff {name : String} {scopes : NameScopes} :
    scopes.declaredHere name = true ↔ name ∈ scopes.innermost := by
  simp [declaredHere]

/-- The scopes behind declarations in the innermost one. -/
def adding (added : List String) (scopes : NameScopes) : NameScopes :=
  { scopes with innermost := added ++ scopes.innermost }

theorem declare_of_new {name : String} {scopes : NameScopes} (new : name ∉ scopes.innermost) :
    scopes.declare name = scopes.adding [name] := by
  have fresh : ¬ scopes.declaredHere name = true := fun declared =>
    new (declaredHere_iff.mp declared)
  simp only [declare, if_neg fresh, adding, List.singleton_append]

@[simp] theorem adding_nil (scopes : NameScopes) : scopes.adding [] = scopes := rfl

theorem adding_adding (added earlier : List String) (scopes : NameScopes) :
    adding added (scopes.adding earlier) = scopes.adding (added ++ earlier) := by
  simp [adding]

@[simp] theorem names_adding (added : List String) (scopes : NameScopes) :
    (scopes.adding added).names = added ++ scopes.names := by
  simp [adding, names]

@[simp] theorem innermost_adding (added : List String) (scopes : NameScopes) :
    (scopes.adding added).innermost = added ++ scopes.innermost := rfl

@[simp] theorem enclosing_adding (added : List String) (scopes : NameScopes) :
    (scopes.adding added).enclosing = scopes.enclosing := rfl

@[simp] theorem leave_adding_enter (added : List String) (scopes : NameScopes) :
    (adding added (scopes.enter [])).leave = scopes := rfl

@[simp] theorem names_enter (scopes : NameScopes) :
    names (scopes.enter []) = scopes.names := by
  simp [names, ScopeStack.enter, ScopeStack.toList]

end NameScopes

namespace Validation

namespace Validator

variable {validator next : Validator} {clause : Clause} {token : Token} {tail tokens : List Token}

/-- The validator finds no error in the tokens. -/
def Accepts (validator : Validator) (tokens : List Token) : Prop :=
  validator.errors tokens = []

private theorem accepts_cons_of_step (stepped : validator.step token = .ok next)
    (running : next.position ≠ .done) :
    validator.Accepts (token :: tail) ↔ next.Accepts tail := by
  unfold Accepts
  rw [errors]
  simp only [stepped, if_neg running]

private theorem accepts_cons_of_done (stepped : validator.step token = .ok next)
    (done : next.position = .done) : validator.Accepts (token :: tail) := by
  unfold Accepts
  rw [errors]
  simp only [stepped, if_pos done]

private theorem not_accepts_cons_of_step {error : GrammarError}
    (refused : validator.step token = .error error) :
    ¬ validator.Accepts (token :: tail) := by
  unfold Accepts
  rw [errors]
  simp [refused]

/-! ## Inside expressions -/

/-- Acceptance where an operand has to start. -/
def AcceptsOperand (clause : Clause) (validator : Validator) (tokens : List Token) : Prop :=
  (validator.moveTo (.operand clause)).Accepts tokens

/-- Acceptance behind an operand, where no assignment is possible any more. -/
def AcceptsOperator (clause : Clause) (validator : Validator) (tokens : List Token) : Prop :=
  (validator.moveTo (.operator clause false)).Accepts tokens

def nested (validator : Validator) : Validator :=
  { validator with parens := validator.parens + 1 }

theorem step_literal (literal : token.kind.isLiteral = true) :
    (validator.moveTo (.operand clause)).step token =
      .ok (validator.moveTo (.operator clause false)) := by
  obtain ⟨kind, payload, line⟩ := token
  cases kind <;> first | rfl | cases literal

theorem acceptsOperand_literal (literal : token.kind.isLiteral = true) :
    AcceptsOperand clause validator (token :: tail) ↔ AcceptsOperator clause validator tail :=
  accepts_cons_of_step (step_literal literal) (by simp [moveTo])

theorem step_useName {position : Position} (visible : token.name ∈ validator.scopes.names) :
    validator.useName token position = .ok (validator.moveTo position) := by
  simp only [useName, if_pos (NameScopes.isVisible_iff.mpr visible)]

theorem step_useName_error (position : Position) (hidden : token.name ∉ validator.scopes.names) :
    validator.useName token position = .error (.undefinedVariable token.name token.line) := by
  have invisible : ¬ validator.scopes.isVisible token.name = true := fun visible =>
    hidden (NameScopes.isVisible_iff.mp visible)
  simp only [useName, if_neg invisible]

/-- A name that is used must be visible. -/
theorem accepts_useName {position : Position}
    (uses : validator.step token = validator.useName token position)
    (running : position ≠ .done) :
    validator.Accepts (token :: tail) ↔
      token.name ∈ validator.scopes.names ∧ (validator.moveTo position).Accepts tail := by
  by_cases visible : token.name ∈ validator.scopes.names
  · rw [accepts_cons_of_step (uses.trans (step_useName visible)) running]
    simp [visible]
  · have refused := step_useName_error position visible
    simp [visible, not_accepts_cons_of_step (uses.trans refused)]

theorem step_identifier (named : token.kind = .identifier) :
    (validator.moveTo (.operand clause)).step token =
      (validator.moveTo (.operand clause)).useName token (.operator clause false) := by
  simp [step, moveTo, stepOperand, named, TokenKind.isUnaryOperator]

theorem acceptsOperand_identifier (named : token.kind = .identifier) :
    AcceptsOperand clause validator (token :: tail) ↔
      token.name ∈ validator.scopes.names ∧ AcceptsOperator clause validator tail :=
  accepts_useName (step_identifier named) (by simp)

theorem step_openParen (opens : token.kind = .leftParen) :
    (validator.moveTo (.operand clause)).step token =
      .ok (validator.nested.moveTo (.operand clause)) := by
  simp [step, moveTo, stepOperand, opens, nested]

theorem acceptsOperand_paren (opens : token.kind = .leftParen) :
    AcceptsOperand clause validator (token :: tail) ↔
      AcceptsOperand clause validator.nested tail :=
  accepts_cons_of_step (step_openParen opens) (by simp [moveTo])

theorem step_unary {operator : UnaryOperator}
    (leads : UnaryOperator.ofKind? token.kind = some operator) :
    (validator.moveTo (.operand clause)).step token = .ok (validator.moveTo (.operand clause)) := by
  obtain ⟨kind, payload, line⟩ := token
  cases kind <;> first | rfl | cases leads

theorem acceptsOperand_unary {operator : UnaryOperator}
    (leads : UnaryOperator.ofKind? token.kind = some operator) :
    AcceptsOperand clause validator (token :: tail) ↔ AcceptsOperand clause validator tail :=
  accepts_cons_of_step (step_unary leads) (by simp [moveTo])

theorem not_acceptsOperand (starts : Grammar.startsExpression token.kind = false) :
    ¬ AcceptsOperand clause validator (token :: tail) := by
  have refused : (validator.moveTo (.operand clause)).step token =
      .error (.expectedExpression token.kind token.line) := by
    obtain ⟨kind, payload, line⟩ := token
    cases kind <;> first | rfl | cases starts
  exact not_accepts_cons_of_step refused

theorem step_binary {operator : BinaryOperator}
    (joins : BinaryOperator.ofKind? token.kind = some operator) :
    (validator.moveTo (.operator clause false)).step token =
      .ok (validator.moveTo (.operand clause)) := by
  obtain ⟨kind, payload, line⟩ := token
  cases kind <;> first | rfl | cases joins

theorem acceptsOperator_binary {operator : BinaryOperator}
    (joins : BinaryOperator.ofKind? token.kind = some operator) :
    AcceptsOperator clause validator (token :: tail) ↔ AcceptsOperand clause validator tail :=
  accepts_cons_of_step (step_binary joins) (by simp [moveTo])

theorem step_closeParen (closes : token.kind = .rightParen) :
    (validator.nested.moveTo (.operator clause false)).step token =
      .ok (validator.moveTo (.operator clause false)) := by
  simp [step, moveTo, stepOperator, closeParen, nested, closes, TokenKind.isBinaryOperator]

theorem acceptsOperator_paren (closes : token.kind = .rightParen) :
    AcceptsOperator clause validator.nested (token :: tail) ↔
      AcceptsOperator clause validator tail :=
  accepts_cons_of_step (step_closeParen closes) (by simp [moveTo])

/-- Inside parentheses only an operator or a closing parenthesis may follow an operand. -/
theorem not_acceptsOperator_nested (foreign : BinaryOperator.ofKind? token.kind = none)
    (unclosed : token.kind ≠ .rightParen) :
    ¬ AcceptsOperator clause validator.nested (token :: tail) := by
  have notBinary : token.kind.isBinaryOperator = false := by
    rw [← BinaryOperator.isSome_ofKind?, foreign]
    rfl
  have refused : ∃ error,
      (validator.nested.moveTo (.operator clause false)).step token = .error error := by
    simp only [step, moveTo, stepOperator, notBinary, if_neg unclosed, nested]
    split
    · next same => cases same
    · split
      · exact ⟨_, if_neg (by simp)⟩
      · split
        · exact ⟨_, rfl⟩
        · exact ⟨_, rfl⟩
  obtain ⟨error, refused⟩ := refused
  exact not_accepts_cons_of_step refused

/-! ## Between statements -/

variable {braces : List Brace} {scopes : NameScopes}

def resting (braces : List Brace) (scopes : NameScopes) : Validator where
  position := .boundary
  braces := braces
  parens := 0
  scopes := scopes
  pending := none
  headerOpen := false

def inHeader (braces : List Brace) (scopes : NameScopes) : Validator :=
  { resting braces scopes with headerOpen := true }

theorem accepts_congr {other : Validator} (same : validator.step token = other.step token) :
    validator.Accepts (token :: tail) ↔ other.Accepts (token :: tail) := by
  cases stepped : other.step token with
  | error error =>
      rw [stepped] at same
      exact iff_of_false (not_accepts_cons_of_step same) (not_accepts_cons_of_step stepped)
  | ok next =>
      rw [stepped] at same
      by_cases done : next.position = .done
      · exact iff_of_true (accepts_cons_of_done same done) (accepts_cons_of_done stepped done)
      · rw [accepts_cons_of_step same done, accepts_cons_of_step stepped done]

/-- Acceptance where a statement has to end.  A closing brace and the end of input are left to what
the statement stands in. -/
def AcceptsEnd (braces : List Brace) (scopes : NameScopes) : List Token → Prop
  | [] => False
  | token :: tail =>
    match token.kind with
    | .lineEnd => (resting braces scopes).Accepts tail
    | .inputEnd | .rightBrace => (resting braces scopes).Accepts (token :: tail)
    | _ => False

theorem acceptsOperator_line
    (closes : BinaryOperator.ofKind? token.kind = none) (outside : validator.parens = 0)
    (committed : validator.commit.moveTo .boundary = resting braces scopes) :
    AcceptsOperator .line validator (token :: tail) ↔ AcceptsEnd braces scopes (token :: tail) := by
  obtain ⟨position, open_, parens, names, pending, headerOpen⟩ := validator
  cases outside
  unfold AcceptsOperator AcceptsEnd
  obtain ⟨kind, payload, line⟩ := token
  cases kind
  case lineEnd =>
    refine accepts_cons_of_step ?_ (by simp [resting])
    rw [← committed]
    cases pending <;> rfl
  case inputEnd =>
    apply accepts_congr
    rw [← committed]
    cases pending <;> rfl
  case rightBrace =>
    apply accepts_congr
    rw [← committed]
    cases pending <;> rfl
  all_goals
    first
    | exact iff_of_false (not_accepts_cons_of_step rfl) id
    | cases closes

/-- Behind a closing brace a statement ends, unless `else` goes on with a branch. -/
theorem accepts_closed {afterBranch : Bool} (notElse : afterBranch = true → token.kind ≠ .elseWord) :
    ((resting braces scopes).moveTo (.closed afterBranch)).Accepts (token :: tail) ↔
      AcceptsEnd braces scopes (token :: tail) := by
  unfold AcceptsEnd
  obtain ⟨kind, payload, line⟩ := token
  cases kind
  case lineEnd => exact accepts_cons_of_step rfl (by simp [resting])
  case inputEnd => exact accepts_congr rfl
  case rightBrace => exact accepts_congr rfl
  case elseWord =>
    cases afterBranch with
    | true => exact absurd rfl (notElse rfl)
    | false => exact iff_of_false (not_accepts_cons_of_step rfl) id
  all_goals exact iff_of_false (not_accepts_cons_of_step rfl) id

theorem step_closed_else (otherwise : token.kind = .elseWord) :
    ((resting braces scopes).moveTo (.closed true)).step token =
      .ok ((resting braces scopes).moveTo .elseArm) := by
  simp [step, moveTo, stepClosed, otherwise]

theorem accepts_closed_else (otherwise : token.kind = .elseWord) :
    ((resting braces scopes).moveTo (.closed true)).Accepts (token :: tail) ↔
      ((resting braces scopes).moveTo .elseArm).Accepts tail :=
  accepts_cons_of_step (step_closed_else otherwise) (by simp [moveTo])

theorem step_closeBrace {brace : Brace} (closes : token.kind = .rightBrace) :
    (resting (brace :: braces) scopes).step token =
      .ok ((resting braces scopes.leave).moveTo (.closed (brace = .branch))) := by
  simp [step, moveTo, stepBoundary, closeBrace, resting, closes]

theorem accepts_closeBrace {brace : Brace} (closes : token.kind = .rightBrace) :
    (resting (brace :: braces) scopes).Accepts (token :: tail) ↔
      ((resting braces scopes.leave).moveTo (.closed (brace = .branch))).Accepts tail :=
  accepts_cons_of_step (step_closeBrace closes) (by simp [moveTo])

theorem not_accepts_closeBrace (closes : token.kind = .rightBrace) :
    ¬ (resting [] scopes).Accepts (token :: tail) := by
  have refused : (resting [] scopes).step token = .error (.unbalanced .leftBrace token.line) := by
    simp [step, stepBoundary, closeBrace, resting, closes]
  exact not_accepts_cons_of_step refused

theorem step_lineEnd (ends : token.kind = .lineEnd) :
    (resting braces scopes).step token = .ok (resting braces scopes) := by
  simp [step, stepBoundary, resting, ends]

theorem accepts_lineEnd (ends : token.kind = .lineEnd) :
    (resting braces scopes).Accepts (token :: tail) ↔ (resting braces scopes).Accepts tail :=
  accepts_cons_of_step (step_lineEnd ends) (by simp [resting])

theorem step_inputEnd (ends : token.kind = .inputEnd) :
    (resting [] scopes).step token = .ok ((resting [] scopes).moveTo .done) := by
  simp [step, stepBoundary, finish, resting, ends]

theorem accepts_inputEnd (ends : token.kind = .inputEnd) :
    (resting braces scopes).Accepts (token :: tail) ↔ braces = [] := by
  cases braces with
  | nil => exact iff_of_true (accepts_cons_of_done (step_inputEnd ends) rfl) rfl
  | cons brace others =>
      have refused : (resting (brace :: others) scopes).step token =
          .error (.unbalanced .rightBrace token.line) := by
        simp [step, stepBoundary, finish, resting, ends]
      exact iff_of_false (not_accepts_cons_of_step refused) (by simp)

/-! ## Tokens that are asked for -/

private theorem accepts_iff_kind {kind : TokenKind} {error : GrammarError}
    (stepped : validator.step token = if token.kind = kind then .ok next else .error error)
    (running : next.position ≠ .done) :
    validator.Accepts (token :: tail) ↔ token.kind = kind ∧ next.Accepts tail := by
  by_cases same : token.kind = kind
  · rw [if_pos same] at stepped
    simp [accepts_cons_of_step stepped running, same]
  · rw [if_neg same] at stepped
    simp [not_accepts_cons_of_step stepped, same]

theorem accepts_loopOpen :
    (validator.moveTo .loopOpen).Accepts (token :: tail) ↔
      token.kind = .leftParen ∧ (validator.moveTo .loopStart).Accepts tail :=
  accepts_iff_kind rfl (by simp [moveTo])

theorem accepts_declaredEqual {site : Site} :
    (validator.moveTo (.declaredEqual site)).Accepts (token :: tail) ↔
      token.kind = .equal ∧ AcceptsOperand site.clause validator tail :=
  accepts_iff_kind rfl (by simp [moveTo])

theorem accepts_loopStepEqual :
    (validator.moveTo .loopStepEqual).Accepts (token :: tail) ↔
      token.kind = .equal ∧ AcceptsOperand .loopStep validator tail :=
  accepts_iff_kind rfl (by simp [moveTo])

theorem accepts_loopBody :
    ((inHeader braces scopes).moveTo .loopBody).Accepts (token :: tail) ↔
      token.kind = .leftBrace ∧ (resting (.loop :: braces) scopes).Accepts tail :=
  accepts_iff_kind rfl (by simp [resting])

theorem accepts_loopStart (notVar : token.kind ≠ .varWord) :
    (validator.moveTo .loopStart).Accepts (token :: tail) ↔
      token.kind = .semicolon ∧ AcceptsOperand .loopCondition validator tail :=
  accepts_iff_kind (if_neg notVar) (by simp [moveTo])

theorem accepts_loopStep (notName : token.kind ≠ .identifier) :
    (validator.moveTo .loopStep).Accepts (token :: tail) ↔
      token.kind = .rightParen ∧ (validator.moveTo .loopBody).Accepts tail :=
  accepts_iff_kind (if_neg notName) (by simp [moveTo])

theorem accepts_loopStep_name (named : token.kind = .identifier) :
    (validator.moveTo .loopStep).Accepts (token :: tail) ↔
      token.name ∈ validator.scopes.names ∧ (validator.moveTo .loopStepEqual).Accepts tail :=
  accepts_useName (if_pos named) (by simp)

theorem step_declaredName {site : Site} (named : token.kind = .identifier)
    (new : token.name ∉ validator.scopes.innermost) :
    (validator.moveTo (.declaredName site)).step token =
      .ok (({ validator with pending := some token.name } : Validator).moveTo
        (.declaredEqual site)) := by
  have unknown : ¬ validator.scopes.declaredHere token.name = true := fun known =>
    new (NameScopes.declaredHere_iff.mp known)
  exact (if_pos named).trans (if_neg unknown)

theorem step_declaredName_error {site : Site} (named : token.kind = .identifier)
    (declared : token.name ∈ validator.scopes.innermost) :
    (validator.moveTo (.declaredName site)).step token =
      .error (.nameReserved token.name token.line) := by
  have known : validator.scopes.declaredHere token.name = true :=
    NameScopes.declaredHere_iff.mpr declared
  exact (if_pos named).trans (if_pos known)

/-- A name that is declared must be new in its scope. -/
theorem accepts_declaredName {site : Site} :
    (validator.moveTo (.declaredName site)).Accepts (token :: tail) ↔
      token.kind = .identifier ∧ token.name ∉ validator.scopes.innermost ∧
        (({ validator with pending := some token.name } : Validator).moveTo
          (.declaredEqual site)).Accepts tail := by
  by_cases named : token.kind = .identifier
  · by_cases declared : token.name ∈ validator.scopes.innermost
    · simp [named, declared, not_accepts_cons_of_step (step_declaredName_error named declared)]
    · rw [accepts_cons_of_step (step_declaredName named declared) (by simp [moveTo])]
      simp only [named, declared, true_and, not_false_eq_true]
  · have refused : (validator.moveTo (.declaredName site)).step token =
        .error (.expected .variableName token.kind token.line) := if_neg named
    simp [named, not_accepts_cons_of_step refused]

/-! ## Ends of clauses in headers -/

/-- Behind an operand of a header only its terminator may follow, if no operator does. -/
private theorem acceptsOperator_clause (inHeader : clause ≠ .line)
    (closes : BinaryOperator.ofKind? token.kind = none) (outside : validator.parens = 0)
    (ended : token.kind = clause.terminator →
      (validator.moveTo (.operator clause false)).step token = .ok next)
    (running : next.position ≠ .done) :
    AcceptsOperator clause validator (token :: tail) ↔
      token.kind = clause.terminator ∧ next.Accepts tail := by
  by_cases same : token.kind = clause.terminator
  · simp only [same, true_and]
    exact accepts_cons_of_step (ended same) running
  · have refused : ∃ error,
        (validator.moveTo (.operator clause false)).step token = .error error := by
      obtain ⟨position, opened, parens, names, pending, headerOpen⟩ := validator
      cases outside
      obtain ⟨kind, payload, line⟩ := token
      cases clause <;> cases kind <;>
        first
        | exact ⟨_, rfl⟩
        | exact absurd rfl same
        | exact absurd rfl inHeader
        | cases closes
    obtain ⟨error, refused⟩ := refused
    exact iff_of_false (not_accepts_cons_of_step refused) (fun both => same both.1)

theorem step_condition (opens : token.kind = .leftBrace) :
    ((inHeader braces scopes).moveTo (.operator .condition false)).step token =
      .ok (resting (.branch :: braces) scopes) := by
  obtain ⟨kind, payload, line⟩ := token
  cases opens
  rfl

theorem acceptsOperator_condition (closes : BinaryOperator.ofKind? token.kind = none) :
    AcceptsOperator .condition (inHeader braces scopes) (token :: tail) ↔
      token.kind = .leftBrace ∧ (resting (.branch :: braces) scopes).Accepts tail :=
  acceptsOperator_clause (by simp) closes rfl step_condition (by simp [resting])

theorem step_loopStart (outside : validator.parens = 0) (ends : token.kind = .semicolon) :
    (validator.moveTo (.operator .loopStart false)).step token =
      .ok (validator.commit.moveTo (.operand .loopCondition)) := by
  obtain ⟨position, opened, parens, names, pending, headerOpen⟩ := validator
  cases outside
  obtain ⟨kind, payload, line⟩ := token
  cases ends
  cases pending <;> rfl

theorem acceptsOperator_loopStart (closes : BinaryOperator.ofKind? token.kind = none)
    (outside : validator.parens = 0) :
    AcceptsOperator .loopStart validator (token :: tail) ↔
      token.kind = .semicolon ∧ AcceptsOperand .loopCondition validator.commit tail :=
  acceptsOperator_clause (by simp) closes outside (step_loopStart outside) (by simp [moveTo])

theorem step_loopCondition (outside : validator.parens = 0) (ends : token.kind = .semicolon) :
    (validator.moveTo (.operator .loopCondition false)).step token =
      .ok (validator.moveTo .loopStep) := by
  obtain ⟨position, opened, parens, names, pending, headerOpen⟩ := validator
  cases outside
  obtain ⟨kind, payload, line⟩ := token
  cases ends
  rfl

theorem acceptsOperator_loopCondition (closes : BinaryOperator.ofKind? token.kind = none)
    (outside : validator.parens = 0) :
    AcceptsOperator .loopCondition validator (token :: tail) ↔
      token.kind = .semicolon ∧ (validator.moveTo .loopStep).Accepts tail :=
  acceptsOperator_clause (by simp) closes outside (step_loopCondition outside) (by simp [moveTo])

theorem step_loopStep (outside : validator.parens = 0) (ends : token.kind = .rightParen) :
    (validator.moveTo (.operator .loopStep false)).step token =
      .ok (validator.moveTo .loopBody) := by
  obtain ⟨position, opened, parens, names, pending, headerOpen⟩ := validator
  cases outside
  obtain ⟨kind, payload, line⟩ := token
  cases ends
  rfl

theorem acceptsOperator_loopStep (closes : BinaryOperator.ofKind? token.kind = none)
    (outside : validator.parens = 0) :
    AcceptsOperator .loopStep validator (token :: tail) ↔
      token.kind = .rightParen ∧ (validator.moveTo .loopBody).Accepts tail :=
  acceptsOperator_clause (by simp) closes outside (step_loopStep outside) (by simp [moveTo])

/-! ## Starts of statements -/

theorem step_var (declares : token.kind = .varWord) :
    (resting braces scopes).step token =
      .ok ((resting braces scopes).moveTo (.declaredName .line)) := by
  simp [step, stepBoundary, resting, declares]

theorem accepts_var (declares : token.kind = .varWord) :
    (resting braces scopes).Accepts (token :: tail) ↔
      ((resting braces scopes).moveTo (.declaredName .line)).Accepts tail :=
  accepts_cons_of_step (step_var declares) (by simp [moveTo])

theorem accepts_loopStart_var (declares : token.kind = .varWord) :
    (validator.moveTo .loopStart).Accepts (token :: tail) ↔
      (validator.moveTo (.declaredName .loopStart)).Accepts tail :=
  accepts_cons_of_step (if_pos declares) (by simp [moveTo])

theorem step_print {newline : Bool} (prints : Grammar.Prints token.kind newline) :
    (resting braces scopes).step token = .ok ((resting braces scopes).moveTo .printStart) := by
  obtain ⟨kind, payload, line⟩ := token
  cases prints <;> rfl

theorem accepts_print {newline : Bool} (prints : Grammar.Prints token.kind newline) :
    (resting braces scopes).Accepts (token :: tail) ↔
      ((resting braces scopes).moveTo .printStart).Accepts tail :=
  accepts_cons_of_step (step_print prints) (by simp [moveTo])

theorem step_for (loops : token.kind = .forWord) :
    (resting braces scopes).step token =
      .ok ((inHeader braces (scopes.enter [])).moveTo .loopOpen) := by
  obtain ⟨kind, payload, line⟩ := token
  cases loops
  rfl

theorem accepts_for (loops : token.kind = .forWord) :
    (resting braces scopes).Accepts (token :: tail) ↔
      ((inHeader braces (scopes.enter [])).moveTo .loopOpen).Accepts tail :=
  accepts_cons_of_step (step_for loops) (by simp [moveTo])

theorem step_block (opens : token.kind = .leftBrace) :
    (resting braces scopes).step token = .ok (resting (.block :: braces) (scopes.enter [])) := by
  obtain ⟨kind, payload, line⟩ := token
  cases opens
  rfl

theorem accepts_block (opens : token.kind = .leftBrace) :
    (resting braces scopes).Accepts (token :: tail) ↔
      (resting (.block :: braces) (scopes.enter [])).Accepts tail :=
  accepts_cons_of_step (step_block opens) (by simp [resting])

theorem not_accepts_else (dangles : token.kind = .elseWord) :
    ¬ (resting braces scopes).Accepts (token :: tail) := by
  have refused : (resting braces scopes).step token = .error (.danglingElse token.line) := by
    simp [step, stepBoundary, resting, dangles]
  exact not_accepts_cons_of_step refused

/-- A branch starts as a statement or behind `else`. -/
theorem step_if {position : Position} (starts : position = .boundary ∨ position = .elseArm)
    (branches : token.kind = .ifWord) :
    ((resting braces scopes).moveTo position).step token =
      .ok ((inHeader braces (scopes.enter [])).moveTo (.operand .condition)) := by
  obtain ⟨kind, payload, line⟩ := token
  cases branches
  rcases starts with rfl | rfl <;> rfl

theorem accepts_if {position : Position} (starts : position = .boundary ∨ position = .elseArm)
    (branches : token.kind = .ifWord) :
    ((resting braces scopes).moveTo position).Accepts (token :: tail) ↔
      AcceptsOperand .condition (inHeader braces (scopes.enter [])) tail :=
  accepts_cons_of_step (step_if starts branches) (by simp [moveTo])

/-- Behind `else`, what is no branch is a block. -/
theorem accepts_elseArm (notIf : token.kind ≠ .ifWord) :
    ((resting braces scopes).moveTo .elseArm).Accepts (token :: tail) ↔
      token.kind = .leftBrace ∧ (resting (.block :: braces) (scopes.enter [])).Accepts tail :=
  accepts_iff_kind (if_neg notIf) (by simp [resting])

theorem accepts_printStart_end
    (ends : token.kind = .lineEnd ∨ token.kind = .inputEnd ∨ token.kind = .rightBrace) :
    ((resting braces scopes).moveTo .printStart).Accepts (token :: tail) ↔
      AcceptsEnd braces scopes (token :: tail) := by
  unfold AcceptsEnd
  obtain ⟨kind, payload, line⟩ := token
  rcases ends with same | same | same <;> cases same
  · exact accepts_cons_of_step rfl (by simp [resting])
  · exact accepts_congr rfl
  · exact accepts_congr rfl

/-- A token that starts an expression as a statement of its own or behind a print keyword. -/
structure StartsRoot (position : Position) (token : Token) : Prop where
  name : token.kind = .identifier → ∀ validator : Validator,
    (validator.moveTo position).step token =
      (validator.moveTo position).useName token (.operator .line true)
  operand : token.kind ≠ .identifier → ∀ validator : Validator,
    (validator.moveTo position).step token = (validator.moveTo (.operand .line)).step token

theorem startsRoot_printStart (inside : token.kind ≠ .lineEnd ∧ token.kind ≠ .inputEnd ∧
    token.kind ≠ .rightBrace) : StartsRoot .printStart token := by
  obtain ⟨kind, payload, line⟩ := token
  obtain ⟨notLineEnd, notInputEnd, notRightBrace⟩ := inside
  constructor
  · intro named validator
    cases named
    rfl
  · intro other validator
    cases kind <;> first | rfl | contradiction

theorem startsRoot_boundary (notLineEnd : token.kind ≠ .lineEnd) (notInputEnd : token.kind ≠ .inputEnd)
    (notRightBrace : token.kind ≠ .rightBrace) (notVar : token.kind ≠ .varWord)
    (notPrint : token.kind ≠ .printWord) (notPrintln : token.kind ≠ .printlnWord)
    (notIf : token.kind ≠ .ifWord) (notFor : token.kind ≠ .forWord)
    (notLeftBrace : token.kind ≠ .leftBrace) (notElse : token.kind ≠ .elseWord) :
    StartsRoot .boundary token := by
  obtain ⟨kind, payload, line⟩ := token
  constructor
  · intro named validator
    cases named
    rfl
  · intro other validator
    cases kind <;> first | rfl | contradiction

/-- Behind a bare name the equals sign alone tells whether it may be assigned to. -/
theorem step_bareName (notSign : token.kind ≠ .equal) :
    (validator.moveTo (.operator .line true)).step token =
      (validator.moveTo (.operator .line false)).step token := by
  obtain ⟨position, opened, parens, names, pending, headerOpen⟩ := validator
  obtain ⟨kind, payload, line⟩ := token
  cases kind <;> cases pending <;> cases opened <;> first | rfl | contradiction

theorem accepts_bareName (notSign : token.kind ≠ .equal) :
    (validator.moveTo (.operator .line true)).Accepts (token :: tail) ↔
      AcceptsOperator .line validator (token :: tail) :=
  accepts_congr (step_bareName notSign)

theorem step_bareName_sign (assigns : token.kind = .equal) :
    (validator.moveTo (.operator .line true)).step token =
      .ok (validator.moveTo (.operand .line)) := by
  simp [step, moveTo, stepOperator, assigns, TokenKind.isBinaryOperator]

theorem accepts_bareName_sign (assigns : token.kind = .equal) :
    (validator.moveTo (.operator .line true)).Accepts (token :: tail) ↔
      AcceptsOperand .line validator tail :=
  accepts_cons_of_step (step_bareName_sign assigns) (by simp [moveTo])

theorem not_acceptsOperator_sign (assigns : token.kind = .equal) :
    ¬ AcceptsOperator clause validator (token :: tail) := by
  have refused : (validator.moveTo (.operator clause false)).step token =
      .error (.invalidAssignmentTarget token.line) := by
    simp [step, moveTo, stepOperator, assigns, TokenKind.isBinaryOperator]
  exact not_accepts_cons_of_step refused

end Validator

end Validation

end LineScript
