import LineScript.Proofs.Validation.Expressions
import Mathlib.Data.List.Permutation

/-!
The validator and the reader of programs agree.

The validator finds nothing wrong with a token list exactly when the list is read without errors
and the program read is well scoped.
-/

set_option autoImplicit false

namespace LineScript

namespace Validation

open Grammar Validator

variable {tokens : List Token} {validator : Validator} {braces : List Brace} {scopes : NameScopes}

/-! ## Parts of statements -/

/-- A whole expression at a place where its first token decides whether it may be assigned to. -/
theorem read_agrees (validator : Validator) (position : Position) (ready : Ready tokens)
    (starts : ∀ token ∈ tokens.head?, StartsRoot position token) :
    (Expression.read tokens).Holds
      (fun tree rest => Ready rest ∧ Closes 7 rest ∧ ((validator.moveTo position).Accepts tokens ↔
        tree.Visible validator.scopes.names ∧ AcceptsOperator .line validator rest))
      (¬ (validator.moveTo position).Accepts tokens) := by
  obtain ⟨token, tail, rfl⟩ := ready.eq_cons
  have start := starts token rfl
  by_cases assigned : token.kind = .identifier ∧ ∃ sign behind, tail = sign :: behind ∧
      sign.kind = .equal
  · obtain ⟨named, sign, behind, rfl, assigns⟩ := assigned
    have inside : token.kind ≠ .inputEnd := by rw [named]; decide
    have readyBehind : Ready behind := (ready.tail inside).tail (by rw [assigns]; decide)
    have shape := eq_identifier (hasOwnPayload_of_ready ready) named
    have target : Logic [token] (.reference token.name token.line) := by
      rw [shape]
      exact .operand (.operand (.operand (.operand (.operand (.operand (.primary .name))))))
    have foreign : BinaryOperator.ofKind? sign.kind = none := by rw [assigns]; rfl
    have accepted : (validator.moveTo position).Accepts (token :: sign :: behind) ↔
        token.name ∈ validator.scopes.names ∧ AcceptsOperand .line validator behind := by
      rw [accepts_useName (start.name named validator) (by simp)]
      exact and_congr Iff.rfl (accepts_bareName_sign assigns)
    unfold Expression.read
    refine (target.readLevel_gives (closes_of_ofKind?_eq_none foreign)).andThen fun shorter => ?_
    simp only [if_pos assigns, Parsed.holds_within, Parsed.holds_map]
    refine (Expression.readers_agree.1 .disjunction behind readyBehind).imp
      (fun value rest _ found => ?_) fun refuses accepts => ?_
    · refine ⟨found.ready, found.closes, accepted.trans ?_⟩
      rw [Expression.Visible, and_assoc]
      exact and_congr Iff.rfl (found.iff .line validator)
    · exact refuses .line validator (accepted.mp accepts).2
  · have same : (validator.moveTo position).Accepts (token :: tail) ↔
        AcceptsOperand .line validator (token :: tail) := by
      by_cases named : token.kind = .identifier
      · have inside : token.kind ≠ .inputEnd := by rw [named]; decide
        obtain ⟨sign, behind, rfl⟩ := (ready.tail inside).eq_cons
        have notSign : sign.kind ≠ .equal := fun assigns =>
          assigned ⟨named, sign, behind, rfl, assigns⟩
        rw [accepts_useName (start.name named validator) (by simp),
          acceptsOperand_identifier named]
        exact and_congr Iff.rfl (accepts_bareName notSign)
      · exact accepts_congr (start.operand named validator)
    unfold Expression.read
    refine ((Expression.readers_agree.1 .disjunction _ ready).and
      (Expression.readers_take.1 .disjunction _)).andThen (fun left rest shorter found => ?_)
      fun refused accepts => refused.1 .line validator (same.mp accepts)
    obtain ⟨agrees, used, split, derived⟩ := found
    obtain ⟨sign, behind, rfl⟩ := agrees.ready.eq_cons
    dsimp only
    split
    · next assigns =>
      have refused : ¬ (validator.moveTo position).Accepts (token :: tail) := fun accepts =>
        not_acceptsOperator_sign assigns ((agrees.iff .line validator).mp (same.mp accepts)).2
      cases left with
      | reference name line =>
          rw [derived.eq_singleton_of_reference, List.singleton_append, List.cons.injEq] at split
          exact absurd ⟨by rw [split.1], sign, behind, split.2, assigns⟩ assigned
      | literal | assign | unary | binary | group => exact refused
    · exact ⟨agrees.ready, agrees.closes, same.trans (agrees.iff .line validator)⟩

def declaring (name : String) (validator : Validator) : Validator :=
  { validator with pending := some name }

private theorem readName_holds (tokens : List Token) :
    (Statement.readName tokens).Holds
      (fun target rest => ∃ token, tokens = token :: rest ∧ token.kind = .identifier ∧
        target = (token.name, token.line))
      (∀ token tail, tokens = token :: tail → token.kind ≠ .identifier) := by
  unfold Statement.readName
  rw [Parsed.holds_map]
  exact (expect_holds .identifier tokens).imp
    (fun token rest _ found => ⟨token, found.1, found.2, rfl⟩) id

private theorem readDeclaration_agrees {keyword : Token} {tail : List Token} {site : Site}
    (declares : keyword.kind = .varWord) (ready : Ready tail) :
    (Statement.readDeclaration (keyword :: tail)).Holds
      (fun statement rest => ∃ name initializer line, statement = .declare name initializer line ∧
        Ready rest ∧ Closes 7 rest ∧ ((validator.moveTo (.declaredName site)).Accepts tail ↔
          (initializer.Visible validator.scopes.names ∧ name ∉ validator.scopes.innermost) ∧
            AcceptsOperator site.clause (declaring name validator) rest))
      (¬ (validator.moveTo (.declaredName site)).Accepts tail) := by
  unfold Statement.readDeclaration
  refine (expect_gives declares).bind fun _ => ?_
  refine (readName_holds tail).bind (fun target rest _ found => ?_) fun missing accepts => ?_
  · obtain ⟨token, rfl, named, rfl⟩ := found
    have readySign : Ready rest := ready.tail (by rw [named]; decide)
    refine (expect_holds .equal rest).bind (fun sign rest _ found => ?_) fun missing accepts => ?_
    · obtain ⟨rfl, assigns⟩ := found
      have readyValue : Ready rest := readySign.tail (by rw [assigns]; decide)
      have accepted : (validator.moveTo (.declaredName site)).Accepts (token :: sign :: rest) ↔
          token.name ∉ validator.scopes.innermost ∧
            AcceptsOperand site.clause (declaring token.name validator) rest := by
        rw [accepts_declaredName, accepts_declaredEqual]
        simp only [named, assigns, true_and]
        rfl
      rw [Parsed.holds_map]
      refine (Expression.readers_agree.1 .disjunction rest readyValue).imp
        (fun initializer rest _ found => ?_) fun refuses accepts => ?_
      · refine ⟨_, _, _, rfl, found.ready, found.closes, accepted.trans ?_⟩
        refine (and_congr Iff.rfl (found.iff site.clause (declaring token.name validator))).trans ?_
        exact and_left_comm.trans and_assoc.symm
      · exact refuses _ _ (accepted.mp accepts).2
    · obtain ⟨sign, behind, rfl⟩ := readySign.eq_cons
      rw [accepts_declaredName, accepts_declaredEqual] at accepts
      exact missing sign behind rfl accepts.2.2.1
  · obtain ⟨token, behind, rfl⟩ := ready.eq_cons
    exact missing token behind rfl (accepts_declaredName.mp accepts).1

private theorem readPrint_agrees {keyword : Token} {tail : List Token} {newline : Bool}
    (prints : Prints keyword.kind newline) (ready : Ready tail) :
    (Statement.readPrint (keyword :: tail)).Holds
      (fun statement rest => ∃ tree, statement = .print tree newline ∧ Ready rest ∧
        ((resting braces scopes).Accepts (keyword :: tail) ↔
          tree.Visible scopes.names ∧ AcceptsEnd braces scopes rest))
      (¬ (resting braces scopes).Accepts (keyword :: tail)) := by
  rw [accepts_print prints]
  unfold Statement.readPrint Statement.readPrinted
  rw [Parsed.holds_map, sameNewline_of_prints prints]
  obtain ⟨token, behind, rfl⟩ := ready.eq_cons
  by_cases ends : token.kind = .lineEnd ∨ token.kind = .inputEnd ∨ token.kind = .rightBrace
  · have accepted : ((resting braces scopes).moveTo .printStart).Accepts (token :: behind) ↔
        (Expression.literal (.string "") keyword.line).Visible scopes.names ∧
          AcceptsEnd braces scopes (token :: behind) := by
      rw [accepts_printStart_end ends]
      simp [Expression.Visible]
    rcases ends with same | same | same <;> simp only [nextKind?_cons, same] <;>
      exact ⟨_, rfl, ready, accepted⟩
  · rw [not_or, not_or] at ends
    have starts : ∀ first ∈ (token :: behind).head?, StartsRoot .printStart first := by
      simpa using startsRoot_printStart ends
    split
    · next same => cases same
    · next same => exact absurd (Option.some.inj same) ends.1
    · next same => exact absurd (Option.some.inj same) ends.2.1
    · next same => exact absurd (Option.some.inj same) ends.2.2
    · rw [Parsed.holds_within]
      refine (read_agrees _ _ ready starts).imp (fun tree rest _ found => ?_) id
      obtain ⟨readyRest, closes, accepted⟩ := found
      refine ⟨tree, rfl, readyRest, accepted.trans ?_⟩
      obtain ⟨ending, left, rfl⟩ := readyRest.eq_cons
      exact and_congr Iff.rfl
        (acceptsOperator_line (ofKind?_eq_none_of_closes closes) rfl rfl)

/-! ## Loop headers -/

/-- The next token is of this kind, and the tokens behind it are as asked. -/
def NextIs (kind : TokenKind) (behind : List Token → Prop) : List Token → Prop
  | [] => False
  | token :: tail => token.kind = kind ∧ behind tail

private theorem not_nextIs {kind : TokenKind} {behind : List Token → Prop}
    (missing : ∀ token tail, tokens = token :: tail → token.kind ≠ kind) :
    ¬ NextIs kind behind tokens := by
  cases tokens with
  | nil => exact id
  | cons token tail => exact fun next => missing token tail rfl next.1

/-- The first part of a header ends with a semicolon. -/
private theorem readLoopStart_agrees {limit : Nat} {shorter : tokens.length < limit}
    (ready : Ready tokens) :
    (Statement.readLoopStart limit tokens shorter).Holds
      (fun start rest => Ready rest ∧
        (((inHeader braces scopes).moveTo .loopStart).Accepts tokens ↔
          Statement.WellScopedPart scopes.enclosing.flatten scopes.innermost start ∧
            NextIs .semicolon (AcceptsOperand .loopCondition
              (inHeader braces (scopes.adding (Statement.declaredBy start)))) rest))
      (¬ ((inHeader braces scopes).moveTo .loopStart).Accepts tokens) := by
  obtain ⟨token, tail, rfl⟩ := ready.eq_cons
  unfold Statement.readLoopStart
  rw [nextKind?_cons]
  split
  · next same =>
    have declares := Option.some.inj same
    rw [Parsed.holds_within, Parsed.holds_map, accepts_loopStart_var declares]
    refine (readDeclaration_agrees declares (ready.tail (by rw [declares]; decide))).imp
      (fun start rest _ found => ?_) id
    obtain ⟨name, initializer, line, rfl, readyRest, closes, accepted⟩ := found
    refine ⟨readyRest, accepted.trans (and_congr_right fun inScope => ?_)⟩
    obtain ⟨ending, behind, rfl⟩ := readyRest.eq_cons
    rw [Site.clause, acceptsOperator_loopStart (ofKind?_eq_none_of_closes closes) rfl]
    have committed : (declaring name (inHeader braces scopes)).commit =
        inHeader braces (scopes.adding [name]) := by
      have new : name ∉ scopes.innermost := inScope.2
      rw [← NameScopes.declare_of_new new]
      rfl
    rw [committed]
    rfl
  · next different =>
    refine ⟨ready, ?_⟩
    rw [accepts_loopStart (fun same => different (congrArg some same))]
    exact (iff_of_eq (true_and _)).symm

/-- The last part of a header ends with its closing parenthesis. -/
private theorem readLoopStep_agrees {limit : Nat} {shorter : tokens.length < limit}
    (ready : Ready tokens) :
    (Statement.readLoopStep limit tokens shorter).Holds
      (fun step rest => Ready rest ∧ Statement.declaredBy step = [] ∧
        (((inHeader braces scopes).moveTo .loopStep).Accepts tokens ↔
          Statement.WellScopedPart scopes.enclosing.flatten scopes.innermost step ∧
            NextIs .rightParen ((inHeader braces scopes).moveTo .loopBody).Accepts rest))
      (¬ ((inHeader braces scopes).moveTo .loopStep).Accepts tokens) := by
  unfold Statement.readLoopStep
  split
  · next same =>
    rw [Parsed.holds_within]
    refine (readName_holds tokens).bind (fun target rest _ found => ?_) fun missing _ => ?_
    · obtain ⟨token, rfl, named, rfl⟩ := found
      have readySign : Ready rest := ready.tail (by rw [named]; decide)
      rw [accepts_loopStep_name named]
      refine (expect_holds .equal rest).bind (fun sign rest _ found => ?_) fun missing accepts => ?_
      · obtain ⟨rfl, assigns⟩ := found
        have readyValue : Ready rest := readySign.tail (by rw [assigns]; decide)
        rw [Parsed.holds_map, accepts_loopStepEqual]
        refine (Expression.readers_agree.1 .disjunction rest readyValue).imp
          (fun value rest _ found => ?_) fun refuses accepts => ?_
        · refine ⟨found.ready, rfl, ?_⟩
          obtain ⟨ending, behind, rfl⟩ := found.ready.eq_cons
          have valued := found.iff .loopStep (inHeader braces scopes)
          rw [acceptsOperator_loopStep (ofKind?_eq_none_of_closes found.closes) rfl] at valued
          simp only [assigns, true_and]
          exact (and_congr Iff.rfl valued).trans and_assoc.symm
        · exact refuses _ _ accepts.2.2
      · obtain ⟨sign, behind, rfl⟩ := readySign.eq_cons
        exact missing sign behind rfl (accepts_loopStepEqual.mp accepts.2).1
    · obtain ⟨token, tail, rfl⟩ := ready.eq_cons
      exact missing token tail rfl (Option.some.inj same)
  · next different =>
    obtain ⟨token, tail, rfl⟩ := ready.eq_cons
    refine ⟨ready, rfl, ?_⟩
    rw [accepts_loopStep (fun same => different (congrArg some same))]
    exact (iff_of_eq (true_and _)).symm

/-- The names of a header by the rules of scope, `names` being those visible around the loop. -/
def HeaderScoped (names : List String) (header : Statement.LoopHeader) : Prop :=
  Statement.WellScopedPart names [] header.start ∧
    header.condition.Visible (Statement.declaredBy header.start ++ names) ∧
    Statement.WellScopedPart names (Statement.declaredBy header.start) header.step

def behindHeader (braces : List Brace) (scopes : NameScopes) (header : Statement.LoopHeader) :
    Validator :=
  (inHeader braces (NameScopes.adding (Statement.declaredBy header.start) (scopes.enter []))).moveTo
    .loopBody

private theorem readLoopHeader_agrees {keyword : Token} {tail : List Token}
    (loops : keyword.kind = .forWord)
    (ready : Ready (keyword :: tail)) :
    (Statement.readLoopHeader (keyword :: tail)).Holds
      (fun header rest => Ready rest ∧ Statement.declaredBy header.step = [] ∧
        ((resting braces scopes).Accepts (keyword :: tail) ↔
          HeaderScoped scopes.names header ∧ (behindHeader braces scopes header).Accepts rest))
      (¬ (resting braces scopes).Accepts (keyword :: tail)) := by
  have readyTail : Ready tail := ready.tail (by rw [loops]; decide)
  rw [accepts_for loops]
  unfold Statement.readLoopHeader
  refine (expect_gives loops).bind fun _ => ?_
  refine (expect_holds .leftParen tail).andThen (fun opening opened shorter found => ?_)
    fun missing accepts => ?_
  · obtain ⟨rfl, opens⟩ := found
    rw [accepts_loopOpen]
    simp only [opens, true_and]
    have readyStart : Ready opened := readyTail.tail (by rw [opens]; decide)
    refine (readLoopStart_agrees readyStart).bind (fun start rest _ started => ?_) id
    obtain ⟨readyFirst, started⟩ := started
    rw [started]
    refine (expect_holds .semicolon rest).bind (fun first rest _ found => ?_)
      fun missing accepts => not_nextIs missing accepts.2
    obtain ⟨rfl, firstEnds⟩ := found
    have readyCondition : Ready rest := readyFirst.tail (by rw [firstEnds]; decide)
    refine (Expression.readers_agree.1 .disjunction rest readyCondition).bind
      (fun condition rest _ decided => ?_) fun refuses accepts => refuses _ _ accepts.2.2
    obtain ⟨second, rest, rfl⟩ := decided.ready.eq_cons
    have decides := decided.iff .loopCondition (inHeader braces
      (NameScopes.adding (Statement.declaredBy start) (scopes.enter [])))
    rw [acceptsOperator_loopCondition (ofKind?_eq_none_of_closes decided.closes) rfl] at decides
    refine (expect_holds .semicolon _).andThen (fun token rest _ found => ?_)
      fun missing accepts => missing _ _ rfl (decides.mp accepts.2.2).2.1
    obtain ⟨same, secondEnds⟩ := found
    cases same
    have readyStep : Ready rest := decided.ready.tail (by rw [secondEnds]; decide)
    refine (readLoopStep_agrees readyStep).bind (fun step rest _ stepped => ?_)
      fun refused accepts => refused (decides.mp accepts.2.2).2.2
    obtain ⟨readyClosing, addsNothing, stepped⟩ := stepped
    rw [Parsed.holds_map]
    refine (expect_holds .rightParen rest).imp (fun closing rest _ found => ?_)
      fun missing accepts => not_nextIs missing (stepped.mp (decides.mp accepts.2.2).2.2).2
    obtain ⟨rfl, closes⟩ := found
    refine ⟨readyClosing.tail (by rw [closes]; decide), addsNothing, ?_⟩
    have conditions : AcceptsOperand .loopCondition _ _ ↔ _ := decides
    have visible : NameScopes.names (NameScopes.adding (Statement.declaredBy start)
        (scopes.enter [])) = Statement.declaredBy start ++ scopes.names := by simp
    have here : (NameScopes.adding (Statement.declaredBy start) (scopes.enter [])).innermost =
        Statement.declaredBy start := List.append_nil _
    simp only [NextIs, firstEnds, conditions, secondEnds, stepped, closes, true_and, here]
    unfold HeaderScoped
    rw [← visible, and_assoc, and_assoc]
    rfl
  · obtain ⟨opening, rest, rfl⟩ := readyTail.eq_cons
    exact missing opening rest rfl (accepts_loopOpen.mp accepts).1

/-! ## Statements -/

private theorem readEnd_agrees {statement : Statement} {limit : Nat}
    {shorter : tokens.length < limit}
    (ready : Ready tokens) :
    (Statement.readEnd statement limit tokens shorter).Holds
      (fun found rest => found = statement ∧ Ready rest ∧
        (AcceptsEnd braces scopes tokens ↔ (resting braces scopes).Accepts rest))
      (¬ AcceptsEnd braces scopes tokens) := by
  obtain ⟨token, tail, rfl⟩ := ready.eq_cons
  obtain ⟨kind, payload, line⟩ := token
  cases kind
  case lineEnd => exact ⟨rfl, ready.tail (by simp), Iff.rfl⟩
  case inputEnd => exact ⟨rfl, ready, Iff.rfl⟩
  case rightBrace => exact ⟨rfl, ready, Iff.rfl⟩
  all_goals exact id

/-- The names that statements add to the scope they stand in, the last ones first. -/
def addedBy : List Statement → List String
  | [] => []
  | statement :: statements => addedBy statements ++ statement.declared

/-- What the validator asks before a statement is asked of the statement and of what follows. -/
def AgreesOpen (braces : List Brace) (scopes : NameScopes) (tokens : List Token)
    (statement : Statement) (rest : List Token) : Prop :=
  Ready rest ∧ ((resting braces scopes).Accepts tokens ↔
    statement.WellScoped scopes.enclosing.flatten scopes.innermost ∧
      AcceptsEnd braces (scopes.adding statement.declared) rest)

/-- The same of a statement with the end of its line. -/
def AgreesLine (braces : List Brace) (scopes : NameScopes) (tokens : List Token)
    (statement : Statement) (rest : List Token) : Prop :=
  Ready rest ∧ ((resting braces scopes).Accepts tokens ↔
    statement.WellScoped scopes.enclosing.flatten scopes.innermost ∧
      (resting braces (scopes.adding statement.declared)).Accepts rest)

/-- The same of statements up to where their list stops. -/
def AgreesList (nested : Bool) (braces : List Brace) (scopes : NameScopes) (tokens : List Token)
    (statements : List Statement) (rest : List Token) : Prop :=
  Ready rest ∧ StopsList nested rest ∧ ((resting braces scopes).Accepts tokens ↔
    Statement.WellScopedAll scopes.enclosing.flatten scopes.innermost statements ∧
      (resting braces (scopes.adding (addedBy statements))).Accepts rest)

/-- The same of a block.  Its scope holds the `names` of its header, and `around` are the scopes
around it. -/
def AgreesBlock (brace : Brace) (braces : List Brace) (around : NameScopes) (names : List String)
    (tokens : List Token) (block : Statement) (rest : List Token) : Prop :=
  ∃ statements, block = .block statements ∧ Ready rest ∧
    (NextIs .leftBrace
        (resting (brace :: braces) (NameScopes.adding names (around.enter []))).Accepts tokens ↔
      Statement.WellScopedAll around.names names statements ∧
        ((resting braces around).moveTo (.closed (brace = .branch))).Accepts rest)

/-- The same of a branch, which may stand behind `else`. -/
def AgreesBranch (position : Position) (braces : List Brace) (scopes : NameScopes)
    (tokens : List Token) (statement : Statement) (rest : List Token) : Prop :=
  Ready rest ∧ statement.declared = [] ∧ ∀ outer here, here ++ outer = scopes.names →
    (((resting braces scopes).moveTo position).Accepts tokens ↔
      statement.WellScoped outer here ∧ AcceptsEnd braces scopes rest)

/-- The same of what stands behind `else`, which is a scope of its own. -/
def AgreesElse (braces : List Brace) (scopes : NameScopes) (tokens : List Token)
    (statement : Statement) (rest : List Token) : Prop :=
  Ready rest ∧ (((resting braces scopes).moveTo .elseArm).Accepts tokens ↔
    statement.WellScoped scopes.names [] ∧ AcceptsEnd braces scopes rest)

def StartsStatement (tokens : List Token) : Prop :=
  ∀ token ∈ tokens.head?,
    token.kind ≠ .lineEnd ∧ token.kind ≠ .inputEnd ∧ token.kind ≠ .rightBrace

end Validation

open Grammar Validation Validator

namespace Statement

/-! ## One reader at a time

What is shown of a reader is said of its tokens alone, for every validator that may stand in front of
them, so that the readers it calls can be taken as given. -/

def ReadAgrees (tokens : List Token) : Prop :=
  ∀ braces scopes, Ready tokens → StartsStatement tokens →
    (read tokens).Holds (AgreesLine braces scopes tokens) (¬ (resting braces scopes).Accepts tokens)

def OpenAgrees (tokens : List Token) : Prop :=
  ∀ braces scopes, Ready tokens → StartsStatement tokens →
    (readOpen tokens).Holds (AgreesOpen braces scopes tokens)
      (¬ (resting braces scopes).Accepts tokens)

def BlockAgrees (tokens : List Token) : Prop :=
  ∀ brace braces around names, Ready tokens →
    (readBlock tokens).Holds (AgreesBlock brace braces around names tokens)
      (¬ NextIs .leftBrace
        (resting (brace :: braces) (NameScopes.adding names (around.enter []))).Accepts tokens)

def ListAgrees (nested : Bool) (tokens : List Token) : Prop :=
  ∀ braces scopes, Ready tokens → (nested = true ↔ braces ≠ []) →
    (readList nested tokens).Holds (AgreesList nested braces scopes tokens)
      (¬ (resting braces scopes).Accepts tokens)

def LoopAgrees (tokens : List Token) : Prop :=
  ∀ braces scopes, Ready tokens → nextKind? tokens = some .forWord →
    (readLoop tokens).Holds (AgreesOpen braces scopes tokens)
      (¬ (resting braces scopes).Accepts tokens)

def BranchAgrees (tokens : List Token) : Prop :=
  ∀ position braces scopes, Ready tokens → nextKind? tokens = some .ifWord →
    (position = .boundary ∨ position = .elseArm) →
    (readBranch tokens).Holds (AgreesBranch position braces scopes tokens)
      (¬ ((resting braces scopes).moveTo position).Accepts tokens)

def ElseAgrees (tokens : List Token) : Prop :=
  ∀ braces scopes, Ready tokens →
    (readElse tokens).Holds (AgreesElse braces scopes tokens)
      (¬ ((resting braces scopes).moveTo .elseArm).Accepts tokens)

variable {tokens : List Token}

private theorem readAgrees (openAgrees : OpenAgrees tokens) : ReadAgrees tokens := by
  intro braces scopes ready starts
  rw [read]
  refine (openAgrees braces scopes ready starts).andThen (fun statement rest shorter found => ?_) id
  obtain ⟨readyEnd, accepted⟩ := found
  rw [Recorded.holds_record, accepted]
  refine (readEnd_agrees readyEnd).imp (fun _ behind _ ended => ?_)
    fun refused accepts => refused accepts.2
  obtain ⟨rfl, readyRest, ended⟩ := ended
  exact ⟨readyRest, accepted.trans (and_congr Iff.rfl ended)⟩

private theorem openAgrees_declaration
    (kind : nextKind? tokens = some .varWord) : OpenAgrees tokens := by
  intro braces scopes ready _
  obtain ⟨keyword, tail, rfl, declares⟩ := exists_cons_of_nextKind? kind
  have readyTail : Ready tail := ready.tail (by rw [declares]; decide)
  rw [readOpen_declaration kind, Recorded.holds_record, accepts_var declares]
  refine (readDeclaration_agrees declares readyTail).imp (fun statement rest _ found => ?_) id
  obtain ⟨name, initializer, line, rfl, readyRest, closes, accepted⟩ := found
  refine ⟨readyRest, (accepts_var declares).trans (accepted.trans
    (and_congr_right fun inScope => ?_))⟩
  obtain ⟨ending, behind, rfl⟩ := readyRest.eq_cons
  have new : name ∉ scopes.innermost := inScope.2
  apply acceptsOperator_line (ofKind?_eq_none_of_closes closes) rfl
  rw [declared, ← NameScopes.declare_of_new new]
  rfl

private theorem openAgrees_print {kind : TokenKind} {newline : Bool} (prints : Prints kind newline)
    (same : nextKind? tokens = some kind) : OpenAgrees tokens := by
  intro braces scopes ready _
  obtain ⟨keyword, tail, rfl, rfl⟩ := exists_cons_of_nextKind? same
  rw [readOpen_print (prints.nextKind?_eq rfl), Recorded.holds_record]
  refine (readPrint_agrees prints (ready.tail prints.ne_inputEnd)).imp
    (fun statement rest _ found => ?_) id
  obtain ⟨tree, rfl, readyRest, accepted⟩ := found
  exact ⟨readyRest, accepted⟩

private theorem openAgrees_branch (kind : nextKind? tokens = some .ifWord)
    (branchAgrees : BranchAgrees tokens) : OpenAgrees tokens := by
  intro braces scopes ready _
  rw [readOpen_branch kind]
  refine (branchAgrees .boundary braces scopes ready kind (.inl rfl)).imp
    (fun statement rest _ found => ?_) id
  obtain ⟨readyRest, addsNothing, accepted⟩ := found
  refine ⟨readyRest, ?_⟩
  rw [addsNothing]
  exact accepted scopes.enclosing.flatten scopes.innermost rfl

private theorem openAgrees_loop (kind : nextKind? tokens = some .forWord)
    (loopAgrees : LoopAgrees tokens) :
    OpenAgrees tokens := by
  intro braces scopes ready _
  rw [readOpen_loop kind]
  exact loopAgrees braces scopes ready kind

private theorem openAgrees_block (kind : nextKind? tokens = some .leftBrace)
    (blockAgrees : BlockAgrees tokens) : OpenAgrees tokens := by
  intro braces scopes ready _
  obtain ⟨opening, tail, rfl, opens⟩ := exists_cons_of_nextKind? kind
  have accepted : (resting braces scopes).Accepts (opening :: tail) ↔ NextIs .leftBrace
      (resting (.block :: braces) (NameScopes.adding [] (scopes.enter []))).Accepts
        (opening :: tail) := by
    rw [accepts_block opens]
    exact (iff_of_eq (by simp [NextIs, opens])).symm
  rw [readOpen_block kind]
  refine (blockAgrees .block braces scopes [] ready).imp (fun block rest _ found => ?_)
    fun refused accepts => refused (accepted.mp accepts)
  obtain ⟨statements, rfl, readyRest, blockAccepted⟩ := found
  refine ⟨readyRest, accepted.trans (blockAccepted.trans (and_congr Iff.rfl ?_))⟩
  obtain ⟨ending, behind, rfl⟩ := readyRest.eq_cons
  exact accepts_closed (by simp)

private theorem openAgrees_else (kind : nextKind? tokens = some .elseWord) : OpenAgrees tokens := by
  intro braces scopes ready _
  obtain ⟨keyword, tail, rfl, dangles⟩ := exists_cons_of_nextKind? kind
  rw [readOpen]
  simp only [kind, Recorded.holds_record]
  exact (expect_holds .elseWord _).andThen (fun _ _ _ _ => not_accepts_else dangles)
    fun _ => not_accepts_else dangles

private theorem openAgrees_expression (notVar : nextKind? tokens ≠ some .varWord)
    (notPrint : nextKind? tokens ≠ some .printWord)
    (notPrintln : nextKind? tokens ≠ some .printlnWord) (notIf : nextKind? tokens ≠ some .ifWord)
    (notFor : nextKind? tokens ≠ some .forWord) (notLeftBrace : nextKind? tokens ≠ some .leftBrace)
    (notElse : nextKind? tokens ≠ some .elseWord) : OpenAgrees tokens := by
  intro braces scopes ready starts
  obtain ⟨token, tail, rfl⟩ := ready.eq_cons
  have startsRoot : StartsRoot .boundary token := by
    obtain ⟨notLineEnd, notInputEnd, notRightBrace⟩ := starts token rfl
    apply startsRoot_boundary <;> simp_all
  rw [readOpen_expression notVar notPrint notPrintln notIf notFor notLeftBrace notElse,
    Recorded.holds_record, Parsed.holds_map]
  refine (read_agrees (resting braces scopes) .boundary ready (by simpa using startsRoot)).imp
    (fun tree rest _ found => ?_) id
  obtain ⟨readyRest, closes, accepted⟩ := found
  refine ⟨readyRest, accepted.trans (and_congr Iff.rfl ?_)⟩
  obtain ⟨ending, behind, rfl⟩ := readyRest.eq_cons
  exact acceptsOperator_line (ofKind?_eq_none_of_closes closes) rfl rfl

private theorem blockAgrees
    (listAgrees : ∀ inside : List Token, inside.length < tokens.length → ListAgrees true inside) :
    BlockAgrees tokens := by
  intro brace braces around names ready
  apply readBlock_holds (fun unopened => not_nextIs unopened)
  intro opening tail same opens
  subst same
  have readyTail : Ready tail := ready.tail (by rw [opens]; decide)
  have inside : (NameScopes.adding names (around.enter [])).innermost = names :=
    List.append_nil names
  refine (listAgrees tail (Nat.lt_succ_self _) (brace :: braces)
    (NameScopes.adding names (around.enter [])) readyTail (by simp)).close
    (fun statements closing rest found closes => ?_) (fun statements rest found unclosed => ?_)
    fun refused accepts => refused accepts.2
  · obtain ⟨readyRest, _, accepted⟩ := found
    refine ⟨statements, rfl, readyRest.tail (by rw [closes]; decide), ?_⟩
    rw [accepts_closeBrace closes, inside] at accepted
    simp only [NextIs, opens, true_and]
    exact accepted
  · obtain ⟨readyRest, stops, accepted⟩ := found
    obtain ⟨ending, behind, rfl⟩ := readyRest.eq_cons
    rcases stops ending rfl with ends | ⟨_, closes⟩
    · intro accepts
      have finished := (accepted.mp accepts.2).2
      rw [accepts_inputEnd ends] at finished
      cases finished
    · exact absurd closes (unclosed ending rfl)

private theorem listAgrees_lineEnd {nested : Bool} {token : Token} {tail : List Token}
    (kind : token.kind = .lineEnd) (listAgrees : ListAgrees nested tail) :
    ListAgrees nested (token :: tail) := by
  intro braces scopes ready nesting
  rw [readList_lineEnd kind, Listing.holds_within, accepts_lineEnd kind]
  refine (listAgrees braces scopes (ready.tail (by rw [kind]; decide)) nesting).imp
    (fun statements rest found => ?_) id
  obtain ⟨readyRest, stops, accepted⟩ := found
  exact ⟨readyRest, stops, (accepts_lineEnd kind).trans accepted⟩

private theorem listAgrees_stop {nested : Bool} {token : Token} {tail : List Token}
    (stops : StopsList nested (token :: tail)) : ListAgrees nested (token :: tail) := by
  intro braces scopes ready _
  rw [readList_stop (stops token rfl), Listing.holds_stop]
  exact ⟨ready, stops, (iff_of_eq (true_and _)).symm⟩

private theorem listAgrees_unbalanced {nested : Bool} {token : Token} {tail : List Token}
    (kind : token.kind = .rightBrace) (outermost : ¬ nested = true) :
    ListAgrees nested (token :: tail) := by
  intro braces scopes ready nesting
  rw [readList_unbalanced kind outermost, Listing.holds_within, Listing.holds_prepend_cons]
  cases braces with
  | nil => exact not_accepts_closeBrace kind
  | cons brace others => exact absurd (nesting.mpr (by simp)) outermost

section

variable {nested : Bool} {token : Token} {tail rest : List Token}

private theorem startsStatement_cons (notLineEnd : token.kind ≠ .lineEnd)
    (notInputEnd : token.kind ≠ .inputEnd) (notRightBrace : token.kind ≠ .rightBrace) :
    StartsStatement (token :: tail) := by
  rintro _ ⟨⟩
  exact ⟨notLineEnd, notInputEnd, notRightBrace⟩

private theorem listAgrees_success {statement : Statement}
    {shorter : rest.length < (token :: tail).length}
    (success : (read (token :: tail)).outcome = .success statement rest shorter)
    (notLineEnd : token.kind ≠ .lineEnd) (notInputEnd : token.kind ≠ .inputEnd)
    (notRightBrace : token.kind ≠ .rightBrace) (readAgrees : ReadAgrees (token :: tail))
    (listAgrees : ListAgrees nested rest) : ListAgrees nested (token :: tail) := by
  intro braces scopes ready nesting
  have starts : StartsStatement (token :: tail) :=
    startsStatement_cons notLineEnd notInputEnd notRightBrace
  refine readList_holds_of_success notLineEnd notInputEnd notRightBrace success
    (readAgrees braces scopes ready starts) (fun found => ?_) id
  obtain ⟨readyRest, accepted⟩ := found
  rw [accepted]
  refine (listAgrees braces (scopes.adding statement.declared) readyRest nesting).imp
    (fun statements behind others => ?_) fun refused accepts => refused accepts.2
  obtain ⟨readyBehind, stops, listed⟩ := others
  refine ⟨readyBehind, stops, accepted.trans ((and_congr Iff.rfl listed).trans ?_)⟩
  rw [WellScopedAll, addedBy, and_assoc, ← NameScopes.adding_adding]
  rfl

private theorem listAgrees_failure {error : GrammarError}
    {bounded : rest.length ≤ (token :: tail).length}
    (failure : (read (token :: tail)).outcome = .failure error rest bounded)
    (notLineEnd : token.kind ≠ .lineEnd) (notInputEnd : token.kind ≠ .inputEnd)
    (notRightBrace : token.kind ≠ .rightBrace) (readAgrees : ReadAgrees (token :: tail)) :
    ListAgrees nested (token :: tail) := by
  intro braces scopes ready _
  have starts : StartsStatement (token :: tail) :=
    startsStatement_cons notLineEnd notInputEnd notRightBrace
  exact readList_holds_of_failure notLineEnd notInputEnd notRightBrace failure
    (readAgrees braces scopes ready starts) id

end

private theorem loopAgrees
    (blockAgrees : ∀ rest : List Token, rest.length < tokens.length → BlockAgrees rest) :
    LoopAgrees tokens := by
  intro braces scopes ready kind
  obtain ⟨keyword, tail, rfl, loops⟩ := exists_cons_of_nextKind? kind
  rw [readLoop]
  refine Recorded.Holds.bind (Recorded.holds_record.mpr (readLoopHeader_agrees loops ready))
    (fun header rest shorter found => ?_) id
  obtain ⟨readyBody, addsNothing, headed⟩ := found
  obtain ⟨opening, behind, rfl⟩ := readyBody.eq_cons
  have entered : (resting braces scopes).Accepts (keyword :: tail) ↔
      HeaderScoped scopes.names header ∧ NextIs .leftBrace (resting (.loop :: braces)
        (NameScopes.adding (declaredBy header.start) (scopes.enter []))).Accepts
          (opening :: behind) :=
    headed.trans (and_congr Iff.rfl accepts_loopBody)
  rw [Recorded.holds_map, entered]
  refine (blockAgrees _ shorter .loop braces scopes (declaredBy header.start) readyBody).imp
    (fun body rest _ found => ?_) fun refused accepts => refused accepts.2
  obtain ⟨statements, rfl, readyRest, accepted⟩ := found
  refine ⟨readyRest, entered.trans ((and_congr Iff.rfl accepted).trans ?_)⟩
  obtain ⟨ending, left, rfl⟩ := readyRest.eq_cons
  rw [accepts_closed (by simp)]
  obtain ⟨start, condition, step⟩ := header
  simp only [HeaderScoped, LoopHeader.around, WellScoped, WellScopedAll, declared,
    addsNothing, NameScopes.adding_nil, List.nil_append, and_true]
  simp only [and_assoc]
  rfl

/-- A condition is followed by its block. -/
private theorem accepts_condition {condition : Expression} {tail rest : List Token}
    {opening : Token}
    {braces : List Brace} {scopes : NameScopes}
    (decided : Agrees 7 (BeforeOperand tail) condition (opening :: rest)) :
    AcceptsOperand .condition (inHeader braces (scopes.enter [])) tail ↔
      condition.Visible scopes.names ∧ NextIs .leftBrace (resting (.branch :: braces)
        (NameScopes.adding [] (scopes.enter []))).Accepts (opening :: rest) := by
  refine (decided.iff .condition (inHeader braces (scopes.enter []))).trans ?_
  rw [acceptsOperator_condition (ofKind?_eq_none_of_closes decided.closes)]
  rfl

private theorem branchAgrees
    (blockAgrees : ∀ condition : List Token, condition.length < tokens.length →
      ∀ block : List Token, block.length < condition.length → BlockAgrees block)
    (elseAgrees : ∀ condition : List Token, condition.length < tokens.length →
      ∀ block : List Token, block.length < condition.length →
      ∀ (_ : List Token) (token : Token) (tail : List Token),
        (token :: tail).length < block.length → ElseAgrees tail) :
    BranchAgrees tokens := by
  intro position braces scopes ready kind starts
  obtain ⟨keyword, tail, rfl, branches⟩ := exists_cons_of_nextKind? kind
  have readyCondition : Ready tail := ready.tail (by rw [branches]; decide)
  rw [readBranch, accepts_if starts branches]
  apply Recorded.Gives.bind (Recorded.gives_record.mpr (expect_gives branches))
  intro shorter
  refine Recorded.Holds.bind (Recorded.holds_record.mpr
      (Expression.readers_agree.1 .disjunction tail readyCondition))
    (fun condition rest shorter' decided => ?_) fun refuses => refuses _ _
  obtain ⟨opening, rest, rfl⟩ := decided.ready.eq_cons
  rw [accepts_condition decided]
  refine (blockAgrees _ shorter _ shorter' .branch braces scopes [] decided.ready).andThen
    (fun thenBranch behind shorter'' found => ?_) fun refused accepts => refused accepts.2
  obtain ⟨statements, rfl, readyBehind, accepted⟩ := found
  obtain ⟨other, behind, rfl⟩ := readyBehind.eq_cons
  have entered : ((resting braces scopes).moveTo position).Accepts (keyword :: tail) ↔
      condition.Visible scopes.names ∧ WellScopedAll scopes.names [] statements ∧
        ((resting braces scopes).moveTo (.closed true)).Accepts (other :: behind) :=
    (accepts_if starts branches).trans
      ((accepts_condition decided).trans (and_congr Iff.rfl accepted))
  dsimp only
  split
  · next otherwise =>
    have readyElse : Ready behind := readyBehind.tail (by rw [otherwise]; decide)
    rw [Recorded.holds_within, Recorded.holds_map, accepted]
    refine (elseAgrees _ shorter _ shorter' [] other behind shorter'' braces scopes readyElse).imp
      (fun arm rest _ found => ?_)
      fun refused accepts => refused ((accepts_closed_else otherwise).mp accepts.2.2)
    obtain ⟨readyRest, armAccepted⟩ := found
    refine ⟨readyRest, rfl, fun outer here visible => entered.trans ?_⟩
    rw [accepts_closed_else otherwise, armAccepted]
    simp only [WellScoped, WellScopedPart, visible, List.nil_append, and_assoc]
  · next different =>
    refine ⟨readyBehind, rfl, fun outer here visible => entered.trans ?_⟩
    rw [accepts_closed (fun _ => different)]
    simp only [WellScoped, WellScopedPart, visible, List.nil_append, and_true, and_assoc]

private theorem elseAgrees_branch (kind : nextKind? tokens = some .ifWord)
    (branchAgrees : BranchAgrees tokens) : ElseAgrees tokens := by
  intro braces scopes ready
  rw [readElse, if_pos kind]
  refine (branchAgrees .elseArm braces scopes ready kind (.inr rfl)).imp
    (fun statement rest _ found => ?_) id
  obtain ⟨readyRest, _, accepted⟩ := found
  exact ⟨readyRest, accepted scopes.names [] rfl⟩

private theorem elseAgrees_block (kind : nextKind? tokens ≠ some .ifWord)
    (blockAgrees : BlockAgrees tokens) : ElseAgrees tokens := by
  intro braces scopes ready
  obtain ⟨token, tail, rfl⟩ := ready.eq_cons
  have notIf : token.kind ≠ .ifWord := fun same => kind (congrArg some same)
  rw [readElse, if_neg kind, accepts_elseArm notIf]
  refine (blockAgrees .block braces scopes [] ready).imp (fun block rest _ found => ?_) id
  obtain ⟨statements, rfl, readyRest, accepted⟩ := found
  refine ⟨readyRest, (accepts_elseArm notIf).trans (accepted.trans (and_congr Iff.rfl ?_))⟩
  obtain ⟨ending, behind, rfl⟩ := readyRest.eq_cons
  exact accepts_closed (by simp)

/-- The validator and all readers of statements agree, by induction along the readers' own
recursion. -/
theorem readers_agree :
    (∀ tokens, ReadAgrees tokens) ∧ (∀ tokens, OpenAgrees tokens) ∧
    (∀ tokens, BlockAgrees tokens) ∧ (∀ nested tokens, ListAgrees nested tokens) ∧
    (∀ tokens, LoopAgrees tokens) ∧ (∀ tokens, BranchAgrees tokens) ∧
    (∀ tokens, ElseAgrees tokens) := by
  apply read.mutual_induct
  · exact fun _ => readAgrees
  · exact fun _ => openAgrees_declaration
  · exact fun _ => openAgrees_print .print
  · exact fun _ => openAgrees_print .println
  · exact fun _ => openAgrees_branch
  · exact fun _ => openAgrees_loop
  · exact fun _ => openAgrees_block
  · exact fun _ => openAgrees_else
  · exact fun _ => openAgrees_expression
  · exact fun _ => blockAgrees
  · exact fun _ _ _ ready _ => absurd ready not_ready_nil
  · exact fun _ _ _ => listAgrees_lineEnd
  · exact fun _ _ _ ends => listAgrees_stop (by simp [StopsList, ends])
  · exact fun _ _ closes => listAgrees_stop (by simp [StopsList, closes])
  · exact fun _ _ _ closes outermost _ => listAgrees_unbalanced closes outermost
  · intro nested token tail result statement rest shorter success
    exact listAgrees_success success
  · intro nested token tail result error rest bounded failure notLineEnd notInputEnd notRightBrace
      readAgrees _
    exact listAgrees_failure failure notLineEnd notInputEnd notRightBrace readAgrees
  · exact fun _ => loopAgrees
  · exact fun _ => branchAgrees
  · exact fun _ => elseAgrees_branch
  · exact fun _ => elseAgrees_block

end Statement

namespace Validation

/-- The validator finds nothing wrong exactly when the tokens are read without errors and the
program read is well scoped. -/
theorem validate_eq_nil_iff {tokens : List Token} (own : OwnPayloads tokens)
    (ends : ∃ token ∈ tokens, token.kind = .inputEnd) :
    validate tokens = [] ↔ (Program.read tokens).2 = [] ∧ (Program.read tokens).1.WellScoped := by
  have listed := Statement.readers_agree.2.2.2.1 false tokens [] .empty ⟨own, ends⟩ (by simp)
  unfold Program.read
  generalize Statement.readList false tokens = listing at listed
  obtain ⟨statements, errors, rest, bounded⟩ := listing
  cases errors with
  | cons error others => exact iff_of_false listed (by simp)
  | nil =>
      obtain ⟨ready, stops, accepted⟩ := listed
      obtain ⟨ending, behind, rfl⟩ := ready.eq_cons
      rcases stops ending rfl with atEnd | ⟨nested, _⟩
      · rw [accepts_inputEnd atEnd] at accepted
        exact accepted.trans ⟨fun both => ⟨rfl, both.1⟩, fun both => ⟨both.2, rfl⟩⟩
      · cases nested

/-- The tokens of `for (var i = 0; true;) { var i = 1 }`. -/
def redeclaringLoop : List Token :=
  [⟨.forWord, none, 1⟩, ⟨.leftParen, none, 1⟩, ⟨.varWord, none, 1⟩,
    ⟨.identifier, some (.text "i"), 1⟩, ⟨.equal, none, 1⟩, ⟨.integerLiteral, some (.integer 0), 1⟩,
    ⟨.semicolon, none, 1⟩, ⟨.trueWord, none, 1⟩, ⟨.semicolon, none, 1⟩, ⟨.rightParen, none, 1⟩,
    ⟨.leftBrace, none, 1⟩, ⟨.varWord, none, 1⟩, ⟨.identifier, some (.text "i"), 1⟩,
    ⟨.equal, none, 1⟩, ⟨.integerLiteral, some (.integer 1), 1⟩, ⟨.rightBrace, none, 1⟩,
    ⟨.inputEnd, none, 1⟩]

/-- A body that declares the name of its loop again is read, and is not well scoped. -/
theorem not_wellScoped_redeclaringLoop :
    (Program.read redeclaringLoop).2 = [] ∧ ¬ (Program.read redeclaringLoop).1.WellScoped := by
  have own : OwnPayloads redeclaringLoop := by
    simp [OwnPayloads, redeclaringLoop, Token.hasOwnPayload]
  have ends : ∃ token ∈ redeclaringLoop, token.kind = .inputEnd := by
    simp [redeclaringLoop]
  have readClean : (Program.read redeclaringLoop).2 = [] := by cbv
  have refused : validate redeclaringLoop ≠ [] := by decide +kernel
  exact ⟨readClean, fun inScope =>
    refused ((validate_eq_nil_iff own ends).mpr ⟨readClean, inScope⟩)⟩

end Validation

end LineScript
