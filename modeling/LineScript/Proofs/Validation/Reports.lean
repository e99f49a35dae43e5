import LineScript.Proofs.Validation.Recovery

/-!
How far the reports of the validator can be trusted.

A program that is read without errors has no faults but those of its names.  The validator reports no
others either, up to an `else` that it does not recognize behind a refused line.  Names that it
reports as reserved are so.  As long as every refused line closes the braces that it opens, all that
is reported are faults of the program.
-/

set_option autoImplicit false

namespace LineScript

namespace Validation

open Grammar Validator

variable {faults : List GrammarError} {sure : Prop} {opened : Nat} {braces real : List Brace}
  {scopes actual : NameScopes} {rest : List Token}

/-! ## The validator and the program -/

/-- The braces and scopes of a validator against those that are open in the program.  The `opened`
innermost ones were passed over on the current line. -/
structure Follows (sure : Prop) (opened : Nat) (braces : List Brace) (scopes : NameScopes)
    (real : List Brace) (actual : NameScopes) : Prop where
  length_eq : braces.length = real.length
  braces_eq : sure → braces.drop opened = real.drop opened
  knows : Knows sure opened scopes actual

namespace Follows

theorem settle (follows : Follows sure opened braces scopes real actual) :
    Follows (sure ∧ opened = 0) 0 braces scopes real actual := by
  refine ⟨follows.length_eq, fun both => ?_, follows.knows.settle⟩
  obtain ⟨known, rfl⟩ := both
  exact follows.braces_eq known

/-- A brace that the validator takes for what it is, and a scope that it knows. -/
theorem open_brace {inner innerActual : NameScopes} (brace : Brace)
    (follows : Follows sure 0 braces scopes real actual) (knows : Knows sure 0 inner innerActual) :
    Follows sure 0 (brace :: braces) inner (brace :: real) innerActual := by
  refine ⟨congrArg Nat.succ follows.length_eq, fun known => ?_, knows⟩
  exact congrArg (brace :: ·) (follows.braces_eq known)

theorem pass_brace (brace : Brace) (names : List String)
    (follows : Follows sure opened braces scopes real actual) :
    Follows sure (opened + 1) (.block :: braces) (scopes.enter []) (brace :: real)
      (NameScopes.adding names (actual.enter [])) :=
  ⟨congrArg Nat.succ follows.length_eq, follows.braces_eq, follows.knows.enter_opened names⟩

theorem close_brace {brace : Brace} {names : List String}
    (follows : Follows sure opened braces scopes (brace :: real)
      (NameScopes.adding names (actual.enter []))) :
    ∃ first others, braces = first :: others ∧
      (sure → opened = 0 → first = brace) ∧
      Follows sure (opened - 1) others scopes.leave real actual := by
  cases braces with
  | nil => cases follows.length_eq
  | cons first others =>
      refine ⟨first, others, rfl, ?_, ?_⟩
      · rintro known rfl
        exact (List.cons.inj (follows.braces_eq known)).1
      · refine ⟨Nat.succ.inj follows.length_eq, fun known => ?_, follows.knows.leave⟩
        cases opened with
        | zero => exact (List.cons.inj (follows.braces_eq known)).2
        | succ opened => exact follows.braces_eq known

end Follows

/-- Reports are sound behind what was read: of a validator that goes on from there, and of one that
passes over the rest of the line. -/
structure Continues (faults : List GrammarError) (real : List Brace) (actual : NameScopes)
    (rest : List Token) : Prop where
  resume : ∀ {sure braces scopes}, Follows sure 0 braces scopes real actual →
    Reports faults sure (resting braces scopes) rest
  skip : ∀ {sure opened braces scopes}, Follows sure opened braces scopes real actual →
    Skips faults sure opened braces scopes rest

/-- The same before what is to be read.  It is passed over only inside of braces that are. -/
structure Begins (faults : List GrammarError) (real : List Brace) (actual : NameScopes)
    (tokens : List Token) : Prop where
  resume : ∀ {sure braces scopes}, Follows sure 0 braces scopes real actual →
    Reports faults sure (resting braces scopes) tokens
  skip : ∀ {sure opened braces scopes}, Follows sure (opened + 1) braces scopes real actual →
    Skips faults sure (opened + 1) braces scopes tokens

/-- The same behind the closing `brace` of a block, where an `else` may follow. -/
structure ContinuesClosed (brace : Brace) (faults : List GrammarError) (real : List Brace)
    (actual : NameScopes) (rest : List Token) : Prop where
  closed : ∀ {sure braces scopes afterBranch}, Follows sure 0 braces scopes real actual →
    (sure → afterBranch = decide (brace = .branch)) →
    Reports faults sure ((resting braces scopes).moveTo (.closed afterBranch)) rest
  skip : ∀ {sure opened braces scopes}, Follows sure opened braces scopes real actual →
    Skips faults sure opened braces scopes rest

/-! ## Ends of statements -/

namespace Validator

/-- At the end of a statement a validator does what one at rest does. -/
theorem Reports.of_end {validator : Validator} (ends : EndsStatement rest)
    (same : ∀ token : Token,
      token.kind = .lineEnd ∨ token.kind = .inputEnd ∨ token.kind = .rightBrace →
      validator.step token = (resting braces scopes).step token)
    (left : validator.abandon = resting braces scopes)
    (reports : Reports faults sure (resting braces scopes) rest) :
    Reports faults sure validator rest := by
  cases rest with
  | nil => exact reports_nil
  | cons token tail =>
      exact reports.congr (same token (ends token rfl)) left

private theorem step_operator_end {validator : Validator} {token : Token}
    (ends : token.kind = .lineEnd ∨ token.kind = .inputEnd ∨ token.kind = .rightBrace)
    (outside : validator.parens = 0)
    (committed : validator.commit.moveTo .boundary = resting braces scopes) :
    (validator.moveTo (.operator .line false)).step token = (resting braces scopes).step token := by
  obtain ⟨position, opened, parens, names, pending, headerOpen⟩ := validator
  cases outside
  rw [← committed]
  obtain ⟨kind, payload, line⟩ := token
  rcases ends with same | same | same <;> cases same <;> cases pending <;> rfl

private theorem step_closed_end {token : Token} {afterBranch : Bool}
    (ends : token.kind = .lineEnd ∨ token.kind = .inputEnd ∨ token.kind = .rightBrace) :
    ((resting braces scopes).moveTo (.closed afterBranch)).step token =
      (resting braces scopes).step token := by
  obtain ⟨kind, payload, line⟩ := token
  rcases ends with same | same | same <;> cases same <;> rfl

private theorem step_printStart_end {token : Token}
    (ends : token.kind = .lineEnd ∨ token.kind = .inputEnd ∨ token.kind = .rightBrace) :
    ((resting braces scopes).moveTo .printStart).step token =
      (resting braces scopes).step token := by
  obtain ⟨kind, payload, line⟩ := token
  rcases ends with same | same | same <;> cases same <;> rfl

end Validator

theorem Continues.closed {brace : Brace} (onward : Continues faults real actual rest)
    (ends : EndsStatement rest) : ContinuesClosed brace faults real actual rest where
  closed follows _ := Reports.of_end ends (fun _ => step_closed_end) rfl (onward.resume follows)
  skip := onward.skip

theorem Continues.begins (onward : Continues faults real actual rest) :
    Begins faults real actual rest where
  resume := onward.resume
  skip := onward.skip

/-- Behind the end of its line a statement is followed by what is to be read next. -/
theorem Begins.continues {token : Token} (behind : Begins faults real actual rest)
    (ends : token.kind = .lineEnd) : Continues faults real actual (token :: rest) where
  resume follows := (behind.resume follows).of_step (step_lineEnd ends)
  skip follows := Skips.of_lineEnd ends (behind.resume follows.settle)

theorem ContinuesClosed.continues {brace : Brace} {token : Token} {names : List String}
    (onward : ContinuesClosed brace faults real actual rest) (closes : token.kind = .rightBrace) :
    Continues faults (brace :: real) (NameScopes.adding names (actual.enter []))
      (token :: rest) where
  resume follows := by
    obtain ⟨first, others, rfl, same, outside⟩ := follows.close_brace
    refine (onward.closed outside fun known => ?_).of_step (step_closeBrace closes)
    rw [same known rfl]
  skip follows := by
    obtain ⟨first, others, rfl, _, outside⟩ := follows.close_brace
    exact (onward.skip outside).of_rightBrace closes

/-! ## Parts of statements -/

namespace Validator

/-- A declaration declares its name, whether it is refused or not. -/
private theorem reports_declaration {site : Site} {name : String} {line : Nat} {sign : Token}
    {tokens : List Token} {initializer : Expression} {validator : Validator}
    (assigns : sign.kind = .equal) (derived : Logic tokens initializer)
    (reserved : name ∈ validator.scopes.innermost → validator.abandon = resting braces scopes)
    (left : (declaring name validator).abandon = resting braces scopes)
    (knows : Knows sure 0 validator.scopes actual)
    (onward : Reports faults sure
      ((declaring name validator).moveTo (.operator site.clause false)) rest)
    (skips : Skips faults sure 0 braces scopes rest) :
    Reports (declarationFault actual.innermost name line ++
        (initializer.nameFaults actual.names ++ faults)) sure
      (validator.moveTo (.declaredName site))
      (⟨.identifier, some (.text name), line⟩ :: sign :: (tokens ++ rest)) := by
  have named : (Token.mk .identifier (some (.text name)) line).kind = .identifier := rfl
  have valued := derived.reports left knows onward skips
  by_cases declared : name ∈ validator.scopes.innermost
  · have fault : declarationFault actual.innermost name line = [.nameReserved name line] :=
      if_pos (knows.innermost_subset declared)
    have member : GrammarError.nameReserved name line ∈
        declarationFault actual.innermost name line := by
      rw [fault]
      exact List.mem_singleton_self _
    refine Reports.of_error (step_declaredName_error named declared)
      ((abandon_moveTo _ _).trans (reserved declared)) member (fun _ => member) ?_
    refine Skips.of_passedOver rfl (Skips.of_passedOver (by rw [assigns]; rfl) ?_)
    refine Skips.of_all_passedOver (fun token member => (derived.passedOver token member).1) ?_
    exact skips.mono (List.sublist_append_right _ faults)
  · refine Reports.mono ?_ (List.sublist_append_right _ _)
    refine Reports.of_step (step_declaredName named declared) ?_
    exact valued.of_step (if_pos assigns)

end Validator

end Validation

open Grammar Validation Validator Statement

namespace Grammar

variable {faults : List GrammarError} {sure : Prop} {braces : List Brace}
  {scopes inner actual : NameScopes} {rest : List Token}

theorem Declares.passedOver {tokens : List Token} {statement : Statement}
    (derived : Declares tokens statement) :
    ∀ token ∈ tokens, Validator.passedOver token.kind = true := by
  cases derived with
  | declare declares assigns derived =>
      simp only [List.forall_mem_cons]
      exact ⟨by rw [declares]; rfl, rfl, by rw [assigns]; rfl,
        fun token member => (derived.passedOver token member).1⟩

theorem LoopStart.passedOver {tokens : List Token} {start : Option Statement}
    (derived : LoopStart tokens start) :
    ∀ token ∈ tokens, Validator.passedOver token.kind = true := by
  cases derived with
  | absent => exact List.forall_mem_nil _
  | present declares => exact declares.passedOver

theorem LoopStep.passedOver {tokens : List Token} {step : Option Statement}
    (derived : LoopStep tokens step) :
    ∀ token ∈ tokens, Validator.passedOver token.kind = true := by
  cases derived with
  | absent => exact List.forall_mem_nil _
  | present assigns derived =>
      simp only [List.forall_mem_cons]
      exact ⟨rfl, by rw [assigns]; rfl, fun token member => (derived.passedOver token member).1⟩

theorem Header.declaredBy_eq {tokens : List Token} {start step : Option Statement}
    {condition : Expression} (derived : Header tokens start condition step) :
    declaredBy step = [] := by
  cases derived with
  | header _ _ _ _ _ _ steps _ => cases steps <;> rfl

theorem Header.passedOver {tokens : List Token} {start step : Option Statement}
    {condition : Expression} (derived : Header tokens start condition step) :
    ∀ token ∈ tokens, Validator.passedOver token.kind = true := by
  cases derived with
  | header loops opens starts firstEnds decides secondEnds steps closes =>
      simp only [List.forall_mem_cons, List.forall_mem_append]
      exact ⟨by rw [loops]; rfl, by rw [opens]; rfl, starts.passedOver, by rw [firstEnds]; rfl,
        fun token member => (decides.passedOver token member).1, by rw [secondEnds]; rfl,
        steps.passedOver, by rw [closes]; rfl, List.forall_mem_nil _⟩

/-! ## Loop headers -/

/-- A header opens a scope around that of its loop, which recovery leaves again. -/
theorem LoopStart.reports {tokens : List Token} {start : Option Statement} {first : Token}
    (derived : LoopStart tokens start) (firstEnds : first.kind = .semicolon)
    (knows : Knows sure 0 scopes actual)
    (onward : ∀ inner : NameScopes, inner.leave = scopes →
      Knows sure 0 inner (NameScopes.adding (declaredBy start) (actual.enter [])) →
      Reports faults sure ((inHeader braces inner).moveTo (.operand .loopCondition)) rest)
    (skips : Skips faults sure 0 braces scopes rest) :
    Reports (nameFaultsPart actual.names [] start ++ faults) sure
      ((inHeader braces (scopes.enter [])).moveTo .loopStart) (tokens ++ first :: rest) := by
  cases derived with
  | absent =>
      have stepped : ((inHeader braces (scopes.enter [])).moveTo .loopStart).step first =
          .ok ((inHeader braces (scopes.enter [])).moveTo (.operand .loopCondition)) :=
        (if_neg (by rw [firstEnds]; decide)).trans (if_pos firstEnds)
      exact (onward (scopes.enter []) rfl knows.enter).of_step stepped
  | present declares =>
      cases declares with
      | @declare keyword sign name line tokens initializer declares assigns derived =>
          have left : (NameScopes.declare name (scopes.enter [])).leave = scopes := rfl
          have stepped : ((inHeader braces (scopes.enter [])).moveTo .loopStart).step keyword =
              .ok ((inHeader braces (scopes.enter [])).moveTo (.declaredName .loopStart)) :=
            if_pos declares
          have ended : ((declaring name (inHeader braces (scopes.enter []))).moveTo
              (.operator .loopStart false)).step first = .ok ((inHeader braces
                (NameScopes.declare name (scopes.enter []))).moveTo (.operand .loopCondition)) :=
            step_loopStart rfl firstEnds
          have declared : Reports (declarationFault (actual.enter []).innermost name line ++
                (initializer.nameFaults actual.names ++ faults)) sure
              ((inHeader braces (scopes.enter [])).moveTo (.declaredName .loopStart))
              (⟨.identifier, some (.text name), line⟩ :: sign :: (tokens ++ first :: rest)) := by
            rw [← NameScopes.names_enter actual]
            have notReserved : name ∉ (inHeader braces (scopes.enter [])).scopes.innermost :=
              List.not_mem_nil
            refine reports_declaration assigns derived (absurd · notReserved) rfl knows.enter ?_ ?_
            · exact (onward _ left (knows.enter.declare name)).of_step ended
            · exact skips.of_passedOver (by rw [firstEnds]; rfl)
          rw [nameFaultsPart, nameFaults, List.append_assoc, List.nil_append]
          exact declared.of_step stepped

theorem LoopStep.reports {tokens : List Token} {step : Option Statement} {closing : Token}
    (derived : LoopStep tokens step) (closes : closing.kind = .rightParen)
    (left : inner.leave = scopes) (knows : Knows sure 0 inner actual)
    (onward : Reports faults sure ((inHeader braces inner).moveTo .loopBody) rest)
    (skips : Skips faults sure 0 braces scopes rest) :
    Reports (nameFaultsPart actual.enclosing.flatten actual.innermost step ++ faults) sure
      ((inHeader braces inner).moveTo .loopStep) (tokens ++ closing :: rest) := by
  have abandoned : (inHeader braces inner).abandon = resting braces scopes := by
    rw [← left]
    rfl
  cases derived with
  | absent =>
      have stepped : ((inHeader braces inner).moveTo .loopStep).step closing =
          .ok ((inHeader braces inner).moveTo .loopBody) :=
        (if_neg (by rw [closes]; decide)).trans (if_pos closes)
      exact onward.of_step stepped
  | @present name line sign tokens value assigns derived =>
      have named : (Token.mk .identifier (some (.text name)) line).kind = .identifier := rfl
      have uses : ((inHeader braces inner).moveTo .loopStep).step
            ⟨.identifier, some (.text name), line⟩ =
          ((inHeader braces inner).moveTo .loopStep).useName
            ⟨.identifier, some (.text name), line⟩ .loopStepEqual := rfl
      have stepped : ((inHeader braces inner).moveTo .loopStepEqual).step sign =
          .ok ((inHeader braces inner).moveTo (.operand .loopStep)) := if_pos assigns
      have skipsClosing : Skips faults sure 0 braces scopes (closing :: rest) :=
        skips.of_passedOver (by rw [closes]; rfl)
      have valued := derived.reports abandoned knows
        (onward.of_step (step_loopStep rfl closes)) skipsClosing
      rw [nameFaultsPart, nameFaults, Expression.nameFaults, List.append_assoc]
      refine Reports.of_useName uses ((abandon_moveTo _ _).trans abandoned) knows named
        (valued.of_step stepped) ?_
      refine Skips.of_passedOver (by rw [assigns]; rfl) ?_
      refine Skips.of_all_passedOver (fun token member => (derived.passedOver token member).1) ?_
      exact skipsClosing.mono (List.sublist_append_right _ faults)

theorem Header.reports {tokens : List Token} {start step : Option Statement}
    {condition : Expression} (derived : Header tokens start condition step)
    (knows : Knows sure 0 scopes actual)
    (onward : ∀ inner : NameScopes,
      Knows sure 0 inner (NameScopes.adding (declaredBy start) (actual.enter [])) →
      Reports faults sure ((inHeader braces inner).moveTo .loopBody) rest)
    (skips : Skips faults sure 0 braces scopes rest) :
    Reports (nameFaultsPart actual.names [] start ++
        (condition.nameFaults (declaredBy start ++ actual.names) ++
          (nameFaultsPart actual.names (declaredBy start) step ++ faults))) sure
      (resting braces scopes) (tokens ++ rest) := by
  cases derived with
  | @header keyword opening first second closing starting deciding stepping start step tree loops
      opens starts firstEnds decides secondEnds steps closes =>
      have opened : ((inHeader braces (scopes.enter [])).moveTo .loopOpen).step opening =
          .ok ((inHeader braces (scopes.enter [])).moveTo .loopStart) := if_pos opens
      simp only [List.cons_append, List.append_assoc, List.nil_append]
      refine Reports.of_step (step_for loops) (Reports.of_step opened ?_)
      have skipsStep : Skips faults sure 0 braces scopes (stepping ++ closing :: rest) :=
        Skips.of_all_passedOver steps.passedOver (skips.of_passedOver (by rw [closes]; rfl))
      have skipsSecond : Skips faults sure 0 braces scopes
          (second :: (stepping ++ closing :: rest)) :=
        skipsStep.of_passedOver (by rw [secondEnds]; rfl)
      refine starts.reports firstEnds knows (fun inner left knowsInner => ?_) ?_
      · have abandoned : (inHeader braces inner).abandon = resting braces scopes := by
          rw [← left]
          rfl
        have stepped := steps.reports closes left knowsInner (onward inner knowsInner) skips
        have names : (NameScopes.adding (declaredBy start) (actual.enter [])).names =
            declaredBy start ++ actual.names := by simp
        have here : (NameScopes.adding (declaredBy start) (actual.enter [])).innermost =
            declaredBy start := List.append_nil _
        have outer : (NameScopes.adding (declaredBy start)
            (actual.enter [])).enclosing.flatten = actual.names := rfl
        rw [here, outer] at stepped
        rw [← names]
        refine decides.reports abandoned knowsInner ?_ ?_
        · exact stepped.of_step (step_loopCondition rfl secondEnds)
        · exact skipsSecond.mono (List.sublist_append_right _ _)
      · refine Skips.of_all_passedOver (fun token member => (decides.passedOver token member).1) ?_
        refine skipsSecond.mono ?_
        exact (List.sublist_append_right _ _).trans (List.sublist_append_right _ _)

end Grammar

namespace Validation

variable {faults : List GrammarError} {real : List Brace} {actual : NameScopes}
  {tail rest : List Token} {opening : Token}

/-! ## Blocks and branches -/

/-- A block can be passed over from anywhere. -/
theorem Begins.pass {brace : Brace} {names : List String} {sure : Prop} {opened : Nat}
    {braces : List Brace} {scopes : NameScopes}
    (inside : Begins faults (brace :: real) (NameScopes.adding names (actual.enter [])) tail)
    (opens : opening.kind = .leftBrace)
    (follows : Follows sure opened braces scopes real actual) :
    Skips faults sure opened braces scopes (opening :: tail) :=
  Skips.of_leftBrace opens (inside.skip (follows.pass_brace brace names))

/-- Reports before a branch, which may stand behind `else`.  It declares nothing, so that it can be
passed over from anywhere. -/
structure BeginsBranch (faults : List GrammarError) (real : List Brace) (actual : NameScopes)
    (tokens : List Token) : Prop where
  resume : ∀ {sure braces scopes position}, position = .boundary ∨ position = .elseArm →
    Follows sure 0 braces scopes real actual →
    Reports faults sure ((resting braces scopes).moveTo position) tokens
  skip : ∀ {sure opened braces scopes}, Follows sure opened braces scopes real actual →
    Skips faults sure opened braces scopes tokens

private theorem beginsBranch {keyword : Token} {condition : List Token} {tree : Expression}
    (branches : keyword.kind = .ifWord) (decides : Logic condition tree)
    (opens : opening.kind = .leftBrace)
    (body : Begins faults (.branch :: real) (NameScopes.adding [] (actual.enter [])) tail) :
    BeginsBranch (tree.nameFaults actual.names ++ faults) real actual
      (keyword :: (condition ++ opening :: tail)) where
  resume starts follows := by
    rw [← NameScopes.names_enter actual]
    have entered := body.resume (follows.open_brace .branch follows.knows.enter)
    have decided := decides.reports rfl follows.knows.enter
      (entered.of_step (step_condition opens)) (body.pass opens follows)
    exact decided.of_step (step_if starts branches)
  skip follows := by
    refine Skips.of_passedOver (by rw [branches]; rfl) ?_
    refine Skips.of_all_passedOver (fun token member => (decides.passedOver token member).1) ?_
    exact (body.pass opens follows).mono (List.sublist_append_right _ faults)

/-- An `else` is not recognized only where the brace before it was passed over. -/
private theorem continuesClosed_else {other : Token} (otherwise : other.kind = .elseWord)
    (arm : ∀ {sure braces scopes}, Follows sure 0 braces scopes real actual →
      Reports faults sure ((resting braces scopes).moveTo .elseArm) tail)
    (skip : ∀ {sure opened braces scopes}, Follows sure opened braces scopes real actual →
      Skips faults sure opened braces scopes tail) :
    ContinuesClosed .branch faults real actual (other :: tail) where
  closed := by
    intro sure braces scopes afterBranch follows known
    cases afterBranch with
    | true => exact (arm follows).of_step (step_closed_else otherwise)
    | false =>
        have dangles : ((resting braces scopes).moveTo (.closed false)).step other =
            .error (.danglingElse other.line) := by
          simp [step, moveTo, stepClosed, otherwise]
        have skips : Skips faults sure 0 braces scopes (other :: tail) :=
          (skip follows).of_passedOver (by rw [otherwise]; rfl)
        have reported : Reports ([] ++ faults) sure
            ((resting braces scopes).moveTo (.closed false)) (other :: tail) :=
          Reports.of_error dangles rfl trivial (fun certain => Bool.noConfusion (known certain))
            skips
        exact reported
  skip follows := (skip follows).of_passedOver (by rw [otherwise]; rfl)

/-! ## Statements

What is shown of a phrase is said for everything that may stand behind it, so that the phrases it
contains can be taken as given. -/

def BeginsStatement (tokens : List Token) (statement : Statement) : Prop :=
  ∀ {faults real actual rest}, EndsStatement rest →
    Continues faults real (actual.adding statement.declared) rest →
    Begins (statement.nameFaults actual.enclosing.flatten actual.innermost ++ faults) real actual
      (tokens ++ rest)

def BeginsArm (tokens : List Token) (statement : Statement) : Prop :=
  statement.declared = [] ∧ ∀ {faults real actual rest outer here},
    here ++ outer = actual.names → EndsStatement rest → Continues faults real actual rest →
    BeginsBranch (statement.nameFaults outer here ++ faults) real actual (tokens ++ rest)

/-- The scope of a block holds the `names` of its header. -/
def BeginsBlock (tokens : List Token) (statements : List Statement) : Prop :=
  ∀ (brace : Brace) (names : List String) {faults real actual rest},
    ContinuesClosed brace faults real actual rest →
    ∃ opening tail, tokens = opening :: tail ∧ opening.kind = .leftBrace ∧
      Begins (nameFaultsAll actual.names names statements ++ faults) (brace :: real)
        (NameScopes.adding names (actual.enter [])) (tail ++ rest)

def BeginsLines (tokens : List Token) (statements : List Statement) : Prop :=
  ∀ {faults real actual rest}, EndsStatement rest →
    Continues faults real (actual.adding (addedBy statements)) rest →
    Begins (nameFaultsAll actual.enclosing.flatten actual.innermost statements ++ faults) real actual
      (tokens ++ rest)

/-- A statement without braces is passed over without a trace, also if it is a declaration. -/
theorem Continues.pass {names : List String} {tokens : List Token} {own : List GrammarError}
    {sure : Prop} {opened : Nat} {braces : List Brace} {scopes : NameScopes}
    (onward : Continues faults real (actual.adding names) rest)
    (passed : ∀ token ∈ tokens, passedOver token.kind = true)
    (follows : Follows sure (opened + 1) braces scopes real actual) :
    Skips (own ++ faults) sure (opened + 1) braces scopes (tokens ++ rest) := by
  have overlooked : Follows sure (opened + 1) braces scopes real (actual.adding names) :=
    ⟨follows.length_eq, follows.braces_eq, follows.knows.overlook names⟩
  refine Skips.of_all_passedOver passed ?_
  exact (onward.skip overlooked).mono (List.sublist_append_right own faults)

private theorem beginsStatement_declare {tokens : List Token} {statement : Statement}
    (derived : Declares tokens statement) : BeginsStatement tokens statement := by
  intro faults real actual rest ends onward
  refine ⟨fun {sure braces scopes} follows => ?_, onward.pass derived.passedOver⟩
  cases derived with
  | @declare keyword sign name line tokens initializer declares assigns derived =>
      have declared : Follows sure 0 braces (scopes.declare name) real (actual.adding [name]) :=
        ⟨follows.length_eq, follows.braces_eq, follows.knows.declare name⟩
      have reserved : name ∈ scopes.innermost →
          (resting braces scopes).abandon = resting braces (scopes.declare name) := by
        intro member
        rw [NameScopes.declare, if_pos (NameScopes.declaredHere_iff.mpr member)]
        rfl
      have ended : Reports faults sure ((declaring name (resting braces scopes)).moveTo
          (.operator .line false)) rest :=
        Reports.of_end ends (fun _ kind => step_operator_end kind rfl rfl) rfl
          (onward.resume declared)
      rw [nameFaults, List.append_assoc]
      refine Reports.of_step (step_var declares) ?_
      exact reports_declaration assigns derived reserved rfl follows.knows ended
        (onward.skip declared)

/-- An expression as a statement or behind a print keyword. -/
private theorem reports_root {tokens : List Token} {tree : Expression} {position : Position}
    {sure : Prop}
    {braces : List Brace} {scopes : NameScopes} (derived : Root tokens tree)
    (starts : ∀ token ∈ tokens.head?, StartsRoot position token) (ends : EndsStatement rest)
    (onward : Continues faults real actual rest)
    (follows : Follows sure 0 braces scopes real actual) :
    Reports (tree.nameFaults actual.names ++ faults) sure ((resting braces scopes).moveTo position)
      (tokens ++ rest) := by
  refine derived.reports starts ends rfl follows.knows ?_ (onward.skip follows)
  exact Reports.of_end ends (fun _ kind => step_operator_end kind rfl rfl) rfl
    (onward.resume follows)

private theorem beginsStatement_expression {tokens : List Token} {tree : Expression}
    (derived : Root tokens tree) : BeginsStatement tokens (.expression tree) := by
  intro faults real actual rest ends onward
  refine ⟨fun follows => ?_, onward.pass derived.passedOver⟩
  have starts : ∀ token ∈ tokens.head?, StartsRoot .boundary token := by
    obtain ⟨token, tail, rfl, starts⟩ := derived.head
    rintro _ ⟨⟩
    exact (startsRoot_of_startsExpression starts).1
  exact reports_root derived starts ends onward follows

private theorem passedOver_of_prints {kind : TokenKind} {newline : Bool}
    (prints : Prints kind newline) :
    passedOver kind = true := by
  cases prints <;> rfl

private theorem beginsStatement_print {keyword : Token} {newline : Bool} {tokens : List Token}
    {tree : Expression} (prints : Prints keyword.kind newline) (derived : Root tokens tree) :
    BeginsStatement (keyword :: tokens) (.print tree newline) := by
  intro faults real actual rest ends onward
  refine ⟨fun follows => ?_, onward.pass (List.forall_mem_cons.mpr
    ⟨passedOver_of_prints prints, derived.passedOver⟩)⟩
  have starts : ∀ token ∈ tokens.head?, StartsRoot .printStart token := by
    obtain ⟨token, tail, rfl, starts⟩ := derived.head
    rintro _ ⟨⟩
    exact (startsRoot_of_startsExpression starts).2
  exact (reports_root derived starts ends onward follows).of_step (step_print prints)

private theorem beginsStatement_printNothing {keyword : Token} {newline : Bool}
    (prints : Prints keyword.kind newline) :
    BeginsStatement [keyword] (.print (.literal (.string "") keyword.line) newline) := by
  intro faults real actual rest ends onward
  refine ⟨fun follows => ?_, onward.pass (List.forall_mem_singleton.mpr
    (passedOver_of_prints prints))⟩
  have ended := Reports.of_end ends (fun _ => step_printStart_end) rfl (onward.resume follows)
  exact ended.of_step (step_print prints)

private theorem beginsStatement_block {tokens : List Token} {statements : List Statement}
    (block : BeginsBlock tokens statements) : BeginsStatement tokens (.block statements) := by
  intro faults real actual rest ends onward
  have closed : ContinuesClosed .block faults real actual rest := onward.closed ends
  obtain ⟨opening, tail, rfl, opens, inside⟩ := block .block [] closed
  refine ⟨fun follows => ?_, inside.pass opens⟩
  have entered := inside.resume (follows.open_brace .block follows.knows.enter)
  exact entered.of_step (step_block opens)

/-- The faults of a loop, in the order of its tokens. -/
private theorem nameFaults_loop {start step : Option Statement} {condition : Expression}
    {statements : List Statement} (nothing : declaredBy step = []) (outer here : List String) :
    nameFaults outer here (.block [.loop start condition step (.block statements)]) =
      nameFaultsPart (here ++ outer) [] start ++
        (condition.nameFaults (declaredBy start ++ (here ++ outer)) ++
          (nameFaultsPart (here ++ outer) (declaredBy start) step ++
            nameFaultsAll (here ++ outer) (declaredBy start) statements)) := by
  simp [nameFaults, nameFaultsAll, nothing]

private theorem beginsStatement_loop {header body : List Token} {start step : Option Statement}
    {condition : Expression} {statements : List Statement}
    (derived : Header header start condition step) (block : BeginsBlock body statements) :
    BeginsStatement (header ++ body)
      (.block [.loop start condition step (.block statements)]) := by
  intro faults real actual rest ends onward
  have closed : ContinuesClosed .loop faults real actual rest := onward.closed ends
  obtain ⟨opening, tail, rfl, opens, inside⟩ := block .loop (declaredBy start) closed
  rw [nameFaults_loop derived.declaredBy_eq, List.append_assoc, List.append_assoc, List.append_assoc,
    List.append_assoc]
  constructor
  · intro sure braces scopes follows
    refine derived.reports follows.knows (fun inner knows => ?_) (inside.pass opens follows)
    have entered : ((inHeader braces inner).moveTo .loopBody).step opening =
        .ok (resting (.loop :: braces) inner) := if_pos opens
    exact (inside.resume (follows.open_brace .loop knows)).of_step entered
  · intro sure opened braces scopes follows
    refine Skips.of_all_passedOver derived.passedOver ((inside.pass opens follows).mono ?_)
    exact (List.sublist_append_right _ _).trans ((List.sublist_append_right _ _).trans
      (List.sublist_append_right _ _))

/-! ## Branches with their other arms -/

private theorem beginsArm_alone {keyword : Token} {condition body : List Token} {tree : Expression}
    {statements : List Statement} (branches : keyword.kind = .ifWord)
    (decides : Logic condition tree) (block : BeginsBlock body statements) :
    BeginsArm (keyword :: (condition ++ body)) (.branch tree (.block statements) none) := by
  refine ⟨rfl, fun {faults real actual rest outer here} names ends onward => ?_⟩
  have closed : ContinuesClosed .branch faults real actual rest := onward.closed ends
  obtain ⟨opening, tail, rfl, opens, inside⟩ := block .branch [] closed
  have begins := beginsBranch branches decides opens inside
  simp only [nameFaults, nameFaultsPart, names, List.nil_append, List.append_nil, List.append_assoc,
    List.cons_append]
  exact begins

private theorem beginsArm_else {keyword other : Token} {condition body last : List Token}
    {tree : Expression} {statements : List Statement} {next : Statement}
    (branches : keyword.kind = .ifWord) (decides : Logic condition tree)
    (block : BeginsBlock body statements)
    (arm : ∀ {faults real actual rest}, EndsStatement rest → Continues faults real actual rest →
      ContinuesClosed .branch (next.nameFaults actual.names [] ++ faults) real actual
        (other :: (last ++ rest))) :
    BeginsArm (keyword :: (condition ++ (body ++ other :: last)))
      (.branch tree (.block statements) (some next)) := by
  refine ⟨rfl, fun {faults real actual rest outer here} names ends onward => ?_⟩
  obtain ⟨opening, tail, rfl, opens, inside⟩ := block .branch [] (arm ends onward)
  have begins := beginsBranch branches decides opens inside
  simp only [nameFaults, nameFaultsPart, names, List.nil_append, List.append_assoc,
    List.cons_append]
  exact begins


private theorem continuesClosed_block {other : Token} {last : List Token} {others : List Statement}
    (otherwise : other.kind = .elseWord) (block : BeginsBlock last others)
    (ends : EndsStatement rest) (onward : Continues faults real actual rest) :
    ContinuesClosed .branch (nameFaults actual.names [] (.block others) ++ faults) real actual
      (other :: (last ++ rest)) := by
  have closed : ContinuesClosed .block faults real actual rest := onward.closed ends
  obtain ⟨opening, tail, rfl, opens, inside⟩ := block .block [] closed
  refine continuesClosed_else otherwise (fun {sure braces scopes} follows => ?_) (inside.pass opens)
  have entered : ((resting braces scopes).moveTo .elseArm).step opening =
      .ok (resting (.block :: braces) (scopes.enter [])) :=
    (if_neg (by rw [opens]; decide)).trans (if_pos opens)
  exact (inside.resume (follows.open_brace .block follows.knows.enter)).of_step entered

private theorem continuesClosed_branch {other : Token} {last : List Token} {next : Statement}
    (otherwise : other.kind = .elseWord) (arm : BeginsArm last next) (ends : EndsStatement rest)
    (onward : Continues faults real actual rest) :
    ContinuesClosed .branch (next.nameFaults actual.names [] ++ faults) real actual
      (other :: (last ++ rest)) := by
  have begins := arm.2 (List.nil_append actual.names) ends onward
  exact continuesClosed_else otherwise (begins.resume (.inr rfl)) begins.skip

private theorem beginsBlock {closing : Token} {inside : List Token} {statements : List Statement}
    (opens : opening.kind = .leftBrace) (lines : BeginsLines inside statements)
    (closes : closing.kind = .rightBrace) :
    BeginsBlock (opening :: (inside ++ [closing])) statements := by
  intro brace names faults real actual rest onward
  refine ⟨opening, inside ++ [closing], rfl, opens, ?_⟩
  have behind : Continues faults (brace :: real) (NameScopes.adding (addedBy statements)
      (NameScopes.adding names (actual.enter []))) (closing :: rest) := by
    rw [NameScopes.adding_adding]
    exact onward.continues closes
  have begins := lines (by simp [EndsStatement, closes]) behind
  rw [NameScopes.innermost_adding, show (ScopeStack.enter [] actual).innermost = [] from rfl,
    List.append_nil] at begins
  rw [List.append_assoc]
  exact begins

/-! ## Lines -/

private theorem beginsLines_line {first behind : List Token} {token : Token} {statement : Statement}
    {statements : List Statement} (ends : token.kind = .lineEnd)
    (head : BeginsStatement first statement) (lines : BeginsLines behind statements) :
    BeginsLines (first ++ token :: behind) (statement :: statements) := by
  intro faults real actual rest stops onward
  rw [addedBy, ← NameScopes.adding_adding] at onward
  have others := lines stops onward
  have begins := head (by simp [EndsStatement, ends]) (others.continues ends)
  rw [nameFaultsAll, List.append_assoc, List.append_assoc]
  exact begins

/-- Reports are sound before every program, by induction on its derivation. -/
private theorem beginsLines {tokens : List Token} {statements : List Statement}
    (derived : Lines tokens statements) : BeginsLines tokens statements := by
  refine Lines.rec (motive_1 := fun tokens statement _ => BeginsStatement tokens statement)
    (motive_2 := fun tokens statement _ => BeginsArm tokens statement)
    (motive_3 := fun tokens statements _ => BeginsBlock tokens statements)
    (motive_4 := fun tokens statements _ => BeginsLines tokens statements)
    ?declare ?print ?printNothing ?branch ?loop ?block ?expression ?alone ?otherwise ?chained
    ?braces ?empty ?blank ?line ?last derived
  case declare => exact fun declares => beginsStatement_declare declares
  case print => exact fun prints root => beginsStatement_print prints root
  case printNothing => exact fun prints => beginsStatement_printNothing prints
  case branch =>
    intro tokens statement _ arm faults real actual rest ends onward
    rw [arm.1] at onward
    have begins := arm.2 rfl ends onward
    exact ⟨begins.resume (.inl rfl), begins.skip⟩
  case loop => exact fun header _ block => beginsStatement_loop header block
  case block => exact fun _ block => beginsStatement_block block
  case expression => exact fun root => beginsStatement_expression root
  case alone => exact fun branches decides _ block => beginsArm_alone branches decides block
  case otherwise =>
    intro _ _ _ _ _ _ _ _ branches decides _ otherwise _ block last
    exact beginsArm_else branches decides block (continuesClosed_block otherwise last)
  case chained =>
    intro _ _ _ _ _ _ _ _ branches decides _ otherwise _ block arm
    exact beginsArm_else branches decides block (continuesClosed_branch otherwise arm)
  case braces => exact fun opens _ closes lines => beginsBlock opens lines closes
  case empty => exact fun _ onward => onward.begins
  case blank =>
    intro token tokens statements ends _ lines faults real actual rest stops onward
    exact ((lines stops onward).continues ends).begins
  case line => exact fun _ ends _ first lines => beginsLines_line ends first lines
  case last =>
    intro tokens statement _ head faults real actual rest stops onward
    rw [nameFaultsAll, nameFaultsAll, List.append_nil]
    exact head stops onward

/-! ## Programs -/

/-- Behind the last line there is nothing to report. -/
private theorem continues_of_stopsList (stops : StopsList false rest) :
    Continues [] [] actual rest := by
  cases rest with
  | nil =>
      refine ⟨fun _ => reports_nil, fun _ => ?_⟩
      unfold Skips
      rw [skipLine, refusals]
      exact .nil
  | cons token tail =>
      have ends : token.kind = .inputEnd := (stops token rfl).resolve_right fun nested =>
        Bool.noConfusion nested.1
      refine ⟨fun follows => ?_, fun _ => skips_inputEnd ends⟩
      obtain rfl := List.length_eq_zero_iff.mp follows.length_eq
      unfold Reports
      rw [refusals_of_done (step_inputEnd ends) rfl]
      exact .nil

private theorem sound_of_read {tokens : List Token} (own : OwnPayloads tokens)
    (clean : (Program.read tokens).2 = []) :
    Sound (Program.read tokens).1.nameFaults True (fresh.refusals tokens) := by
  obtain ⟨rest, ⟨used, same, lines⟩, stops⟩ := read_takesLines own clean
  have stopped : Continues [] []
      (NameScopes.adding (addedBy (Program.read tokens).1) .empty) rest :=
    continues_of_stopsList stops
  have start : Follows True 0 [] .empty [] .empty := ⟨rfl, fun _ => rfl, .single⟩
  have reports := (beginsLines lines stops.stops.endsStatement stopped).resume start
  rw [List.append_nil, ← same] at reports
  exact reports

/-- Errors are certain up to that of the first line that leaves a brace open. -/
theorem certain_of_closesLine {earlier later : List Refusal} {refusal : Refusal}
    (closed : ∀ other ∈ earlier, other.closesLine = true) :
    ((earlier ++ [refusal]).map Refusal.error).Sublist (certain (earlier ++ refusal :: later)) := by
  induction earlier with
  | nil => exact List.Sublist.cons_cons _ (List.nil_sublist _)
  | cons first others ih =>
      obtain ⟨here, behind⟩ := List.forall_mem_cons.mp closed
      simp only [List.cons_append, List.map_cons, certain, here, if_true]
      exact (ih behind).cons_cons _

/-- What the validator reports of a source that is read without errors.  Nothing but undefined and
reserved names and an `else` without its `if` is reported, and a reserved name is a fault of the
program.  All reports up to that of the first refused line that leaves a brace open, with this one,
are faults of the program, in their order. -/
theorem validate_reports_of_read {source : String}
    (clean : (Program.read (Scan.ofText source).tokens).2 = []) :
    validate (Scan.ofText source).tokens =
      (fresh.refusals (Scan.ofText source).tokens).map Refusal.error ∧
    (∀ error ∈ validate (Scan.ofText source).tokens,
      Tolerates (Program.read (Scan.ofText source).tokens).1.nameFaults error) ∧
    ∀ earlier refusal later,
      fresh.refusals (Scan.ofText source).tokens = earlier ++ refusal :: later →
      (∀ other ∈ earlier, other.closesLine = true) →
      ((earlier ++ [refusal]).map Refusal.error).Sublist
        (Program.read (Scan.ofText source).tokens).1.nameFaults := by
  have sound := sound_of_read (ready_ofText source).own clean
  have listed : validate (Scan.ofText source).tokens = _ := errors_eq_map_refusals fresh _
  refine ⟨listed, ?_, ?_⟩
  · intro error reported
    rw [listed] at reported
    obtain ⟨refusal, member, rfl⟩ := List.mem_map.mp reported
    exact sound.tolerated refusal member
  · intro earlier refusal later split closed
    have known := sound.certain trivial
    rw [split] at known
    exact (certain_of_closesLine closed).trans known

/-- Two lines with a name that is not there.  The second one opens a loop. -/
def brokenLoop : String :=
  "print y\nfor (var i = z; i < 3; i = i + 1) \x7b\nprint i\n\x7d\n"

private def brokenLoopTokens : List Token :=
  [.plain .printWord 1, ⟨.identifier, some (.text "y"), 1⟩, .plain .lineEnd 1, .plain .forWord 2,
    .plain .leftParen 2, .plain .varWord 2, ⟨.identifier, some (.text "i"), 2⟩, .plain .equal 2,
    ⟨.identifier, some (.text "z"), 2⟩, .plain .semicolon 2, ⟨.identifier, some (.text "i"), 2⟩,
    .plain .less 2, ⟨.integerLiteral, some (.integer 3), 2⟩, .plain .semicolon 2,
    ⟨.identifier, some (.text "i"), 2⟩, .plain .equal 2, ⟨.identifier, some (.text "i"), 2⟩,
    .plain .plus 2, ⟨.integerLiteral, some (.integer 1), 2⟩, .plain .rightParen 2,
    .plain .leftBrace 2, .plain .lineEnd 2, .plain .printWord 3,
    ⟨.identifier, some (.text "i"), 3⟩, .plain .lineEnd 3, .plain .rightBrace 4, .plain .lineEnd 4,
    .plain .inputEnd 5]

/-- Both names are reported rightly.  The name of the loop, whose header was given up, is not. -/
theorem validate_brokenLoop :
    validate (Scan.ofText brokenLoop).tokens =
      [.undefinedVariable "y" 1, .undefinedVariable "z" 2, .undefinedVariable "i" 3] ∧
    [.undefinedVariable "y" 1, .undefinedVariable "z" 2].Sublist
      (Program.read (Scan.ofText brokenLoop).tokens).1.nameFaults ∧
    .undefinedVariable "i" 3 ∉ (Program.read (Scan.ofText brokenLoop).tokens).1.nameFaults := by
  have scanned : (Scan.ofText brokenLoop).tokens = brokenLoopTokens := by decide +kernel
  have clean : (Program.read (Scan.ofText brokenLoop).tokens).2 = [] := by
    rw [scanned]
    cbv
  have split : fresh.refusals (Scan.ofText brokenLoop).tokens =
      [⟨.undefinedVariable "y" 1, brokenLoopTokens.drop 1⟩] ++
        ⟨.undefinedVariable "z" 2, brokenLoopTokens.drop 8⟩ ::
          [⟨.undefinedVariable "i" 3, brokenLoopTokens.drop 23⟩] := by
    rw [scanned]
    cbv
  have closed : ∀ other ∈ [Refusal.mk (.undefinedVariable "y" 1) (brokenLoopTokens.drop 1)],
      other.closesLine = true :=
    List.forall_mem_singleton.mpr (by cbv)
  have faults : (Program.read (Scan.ofText brokenLoop).tokens).1.nameFaults =
      [.undefinedVariable "y" 1, .undefinedVariable "z" 2] := by
    rw [scanned]
    cbv
  obtain ⟨listed, _, certain⟩ := validate_reports_of_read clean
  refine ⟨?_, certain _ _ _ split closed, ?_⟩
  · rw [listed, split]
    rfl
  · rw [faults]
    decide

/-- A branch on a name that is not there, with an `else`. -/
def brokenBranch : String :=
  "if y \x7b\nprint 1\n\x7d else \x7b\nprint 2\n\x7d\n"

private def brokenBranchTokens : List Token :=
  [.plain .ifWord 1, ⟨.identifier, some (.text "y"), 1⟩, .plain .leftBrace 1, .plain .lineEnd 1,
    .plain .printWord 2, ⟨.integerLiteral, some (.integer 1), 2⟩, .plain .lineEnd 2,
    .plain .rightBrace 3, .plain .elseWord 3, .plain .leftBrace 3, .plain .lineEnd 3,
    .plain .printWord 4, ⟨.integerLiteral, some (.integer 2), 4⟩, .plain .lineEnd 4,
    .plain .rightBrace 5, .plain .lineEnd 5, .plain .inputEnd 6]

/-- The `else` is reported, too, though the program is read without errors. -/
theorem validate_brokenBranch :
    (Program.read (Scan.ofText brokenBranch).tokens).2 = [] ∧
    (Program.read (Scan.ofText brokenBranch).tokens).1.nameFaults = [.undefinedVariable "y" 1] ∧
    validate (Scan.ofText brokenBranch).tokens = [.undefinedVariable "y" 1, .danglingElse 3] := by
  have scanned : (Scan.ofText brokenBranch).tokens = brokenBranchTokens := by decide +kernel
  rw [scanned]
  refine ⟨?_, ?_, ?_⟩ <;> cbv

end Validation

end LineScript
