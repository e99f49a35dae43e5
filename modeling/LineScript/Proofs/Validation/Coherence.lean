import LineScript.Proofs.Grammar.Programs
import LineScript.Validation.Validator

/-!
The state of the validator and the tokens behind it.

Validation goes from state to state, by tokens taken and by lines given up.  In every state the
scopes, the open braces, the open parentheses, the pending declaration and the open header are as
the position says, and as many braces are open as the tokens passed leave open.  Lines that were
given up make no difference.
-/

set_option autoImplicit false

namespace LineScript

/-! ## Nesting of braces -/

/-- How many braces are open behind a token if `depth` were before it.  A closing brace without an
open one counts as nothing. -/
def TokenKind.nestingAfter (depth : Nat) : TokenKind → Nat
  | .leftBrace => depth + 1
  | .rightBrace => depth - 1
  | _ => depth

def nestingFrom (depth : Nat) (tokens : List Token) : Nat :=
  tokens.foldl (fun depth token => token.kind.nestingAfter depth) depth

/-- How many braces a list of tokens opens and does not close. -/
def braceNesting (tokens : List Token) : Nat :=
  nestingFrom 0 tokens

@[simp] theorem nestingFrom_nil (depth : Nat) : nestingFrom depth [] = depth := rfl

@[simp] theorem nestingFrom_cons (depth : Nat) (token : Token) (tail : List Token) :
    nestingFrom depth (token :: tail) = nestingFrom (token.kind.nestingAfter depth) tail := rfl

private theorem nestingFrom_append (depth : Nat) (before behind : List Token) :
    nestingFrom depth (before ++ behind) = nestingFrom (nestingFrom depth before) behind :=
  List.foldl_append

theorem TokenKind.nestingAfter_other {kind : TokenKind} (notLeft : kind ≠ .leftBrace)
    (notRight : kind ≠ .rightBrace) (depth : Nat) : kind.nestingAfter depth = depth := by
  cases kind <;> first | rfl | contradiction

/-- The braces pair up: each one closes another that stands before it, and none is left. -/
inductive BracesPair : List Token → Prop where
  | nil : BracesPair []
  | other {token : Token} {tail : List Token} :
      token.kind ≠ .leftBrace → token.kind ≠ .rightBrace → BracesPair tail →
      BracesPair (token :: tail)
  | pair {opening closing : Token} {inside behind : List Token} :
      opening.kind = .leftBrace → BracesPair inside → closing.kind = .rightBrace →
      BracesPair behind → BracesPair (opening :: (inside ++ closing :: behind))

namespace BracesPair

theorem nestingFrom_eq {tokens : List Token} (paired : BracesPair tokens) (depth : Nat) :
    nestingFrom depth tokens = depth := by
  induction paired generalizing depth with
  | nil => rfl
  | other notLeft notRight _ ih =>
      rw [nestingFrom_cons, TokenKind.nestingAfter_other notLeft notRight, ih]
  | pair opens _ closes _ insideIH behindIH =>
      rw [nestingFrom_cons, opens, nestingFrom_append, insideIH, nestingFrom_cons, closes]
      exact behindIH depth

/-- At every place in a list whose braces pair up no fewer braces are open than before the list, and
at a closing brace there are more. -/
theorem le_nestingFrom {tokens before behind : List Token} (paired : BracesPair tokens)
    (depth : Nat) (split : tokens = before ++ behind) :
    depth ≤ nestingFrom depth before ∧
      ∀ token ∈ behind.head?, token.kind = .rightBrace → depth < nestingFrom depth before := by
  induction paired generalizing depth before behind with
  | nil =>
      obtain ⟨rfl, rfl⟩ := List.append_eq_nil_iff.mp split.symm
      exact ⟨Nat.le_refl depth, by simp⟩
  | @other token tail notLeft notRight _ ih =>
      cases before with
      | nil =>
          subst split
          exact ⟨Nat.le_refl depth, by simpa using notRight⟩
      | cons first others =>
          obtain ⟨rfl, rest⟩ := List.cons.inj split
          rw [nestingFrom_cons, TokenKind.nestingAfter_other notLeft notRight]
          exact ih depth rest
  | @pair opening closing inside after opens insidePaired closes _ insideIH behindIH =>
      cases before with
      | nil =>
          subst split
          exact ⟨Nat.le_refl depth, by simp [opens]⟩
      | cons first others =>
          obtain ⟨rfl, rest⟩ := List.cons.inj split
          rw [nestingFrom_cons, opens]
          change depth ≤ nestingFrom (depth + 1) others ∧
            ∀ token ∈ behind.head?, token.kind = .rightBrace → depth < nestingFrom (depth + 1) others
          rcases List.append_eq_append_iff.mp rest with ⟨passed, rfl, same⟩ | ⟨left, split, same⟩
          · -- the place is that of the closing brace, or lies behind it
            rw [nestingFrom_append, insidePaired.nestingFrom_eq]
            cases passed with
            | nil => exact ⟨Nat.le_succ depth, fun _ _ _ => Nat.lt_succ_self depth⟩
            | cons next passed =>
                obtain ⟨rfl, further⟩ := List.cons.inj same
                rw [nestingFrom_cons, closes]
                exact behindIH depth further
          · have more : depth < nestingFrom (depth + 1) others := (insideIH (depth + 1) split).1
            exact ⟨Nat.le_of_lt more, fun _ _ _ => more⟩

end BracesPair

theorem ScopeStack.depth_leave {α : Type} {scopes : ScopeStack α} (inside : 1 < scopes.depth) :
    scopes.leave.depth + 1 = scopes.depth := by
  obtain ⟨innermost, enclosing⟩ := scopes
  cases enclosing with
  | nil => exact absurd inside (Nat.lt_irrefl 1)
  | cons next others => rfl

namespace Validation

/-! ## What a position says -/

namespace Position

def inExpression : Position → Bool
  | operand _ | operator _ _ => true
  | _ => false

/-- Positions behind the name of a declaration and not yet behind its end. -/
def inDeclaration : Position → Bool
  | declaredEqual _ => true
  | operand .line | operand .loopStart => true
  | operator .line _ | operator .loopStart _ => true
  | _ => false

/-- Positions between the keyword of a branch or loop and the brace of its body. -/
def inHeader : Position → Bool
  | loopOpen | loopStart | loopStep | loopStepEqual | loopBody => true
  | declaredName .loopStart | declaredEqual .loopStart => true
  | operand .line | operator .line _ => false
  | operand _ | operator _ _ => true
  | _ => false

end Position

open Grammar (WithoutEnd withoutEnd_cons withoutEnd_append)

namespace Validator

/-- The parts of a validator fit together. -/
structure Coherent (validator : Validator) : Prop where
  depth_eq : validator.scopes.depth =
    1 + validator.braces.length + (if validator.headerOpen then 1 else 0)
  parens_eq : validator.position.inExpression = false → validator.parens = 0
  pending_eq : validator.position.inDeclaration = false → validator.pending = none
  headerOpen_eq : validator.headerOpen = validator.position.inHeader

variable {validator next : Validator} {token : Token} {position : Position}

private theorem coherent_fresh : fresh.Coherent := by
  constructor <;> simp [fresh, NameScopes.empty, ScopeStack.single, ScopeStack.depth,
    Position.inHeader]

/-! ## One token -/

/-- What a brace that is reported says about the token and the open braces. -/
def Explains (validator : Validator) (token : Token) : GrammarError → Prop
  | .unbalanced .leftBrace _ => token.kind = .rightBrace ∧ validator.braces = []
  | .unbalanced .rightBrace _ => token.kind = .inputEnd ∧ validator.braces ≠ []
  | _ => True

/-- What is true of a step: the parts of the validator still fit together, its braces follow the
token, and the end of input alone ends the validation. -/
def Takes (validator : Validator) (token : Token) : Except GrammarError Validator → Prop
  | .ok next => next.Coherent ∧
      next.braces.length = token.kind.nestingAfter validator.braces.length ∧
      (next.position = .done ↔ token.kind = .inputEnd)
  | .error error => validator.Explains token error

/-- Tokens that neither open nor close a brace nor end the input. -/
def passes (kind : TokenKind) : Bool :=
  kind ≠ .leftBrace && kind ≠ .rightBrace && kind ≠ .inputEnd

private theorem takes_of_passes (passing : passes token.kind = true) (coherent : next.Coherent)
    (same : next.braces = validator.braces) (running : next.position ≠ .done) :
    validator.Takes token (.ok next) := by
  simp only [passes, Bool.and_eq_true, decide_eq_true_eq] at passing
  obtain ⟨⟨notLeft, notRight⟩, notEnd⟩ := passing
  refine ⟨coherent, ?_, iff_of_false running notEnd⟩
  rw [same, TokenKind.nestingAfter_other notLeft notRight]

theorem Takes.congr {other : Validator} {result : Except GrammarError Validator}
    (takes : other.Takes token result) (same : other.braces = validator.braces) :
    validator.Takes token result := by
  unfold Takes Explains at takes ⊢
  rw [← same]
  exact takes

private theorem depth_declare (name : String) (scopes : NameScopes) :
    (scopes.declare name).depth = scopes.depth := by
  unfold NameScopes.declare
  split <;> rfl

@[simp] theorem commit_braces (validator : Validator) :
    validator.commit.braces = validator.braces := by
  unfold commit
  split <;> rfl

@[simp] theorem commit_pending (validator : Validator) : validator.commit.pending = none := by
  unfold commit
  split
  · assumption
  · rfl

@[simp] theorem commit_parens (validator : Validator) :
    validator.commit.parens = validator.parens := by
  unfold commit
  split <;> rfl

@[simp] theorem commit_headerOpen (validator : Validator) :
    validator.commit.headerOpen = validator.headerOpen := by
  unfold commit
  split <;> rfl

@[simp] theorem commit_depth (validator : Validator) :
    validator.commit.scopes.depth = validator.scopes.depth := by
  unfold commit
  split
  · rfl
  · exact depth_declare _ _

/-- A move within a header, or outside of one, to a position that asks for no less. -/
theorem Coherent.moveTo (coherent : validator.Coherent)
    (parens : position.inExpression = false → validator.parens = 0)
    (pending : position.inDeclaration = false → validator.pending = none)
    (header : position.inHeader = validator.position.inHeader) :
    (validator.moveTo position).Coherent :=
  ⟨coherent.depth_eq, parens, pending, coherent.headerOpen_eq.trans header.symm⟩

theorem Coherent.commit_moveTo (coherent : validator.Coherent) (outside : validator.parens = 0)
    (header : position.inHeader = validator.position.inHeader) :
    (validator.commit.moveTo position).Coherent := by
  constructor
  · have depth := coherent.depth_eq
    rw [← commit_depth, ← commit_braces, ← commit_headerOpen] at depth
    exact depth
  · exact fun _ => (commit_parens validator).trans outside
  · exact fun _ => commit_pending validator
  · exact (commit_headerOpen validator).trans (coherent.headerOpen_eq.trans header.symm)

/-! ### Between statements -/

/-- No header, expression or declaration is under way, wherever the validator is said to stand. -/
structure Settled (validator : Validator) : Prop where
  depth_eq : validator.scopes.depth = 1 + validator.braces.length
  parens_eq : validator.parens = 0
  pending_eq : validator.pending = none
  headerOpen_eq : validator.headerOpen = false

theorem Settled.coherent (settled : validator.Settled)
    (header : validator.position.inHeader = false) : validator.Coherent := by
  constructor
  · rw [settled.depth_eq, settled.headerOpen_eq]
    rfl
  · exact fun _ => settled.parens_eq
  · exact fun _ => settled.pending_eq
  · exact settled.headerOpen_eq.trans header.symm

theorem Coherent.settled (coherent : validator.Coherent)
    (parens : validator.parens = 0) (pending : validator.pending = none)
    (header : validator.position.inHeader = false) : validator.Settled := by
  have closed := coherent.headerOpen_eq.trans header
  refine ⟨?_, parens, pending, closed⟩
  rw [coherent.depth_eq, closed]
  rfl

theorem Coherent.settled_commit (coherent : validator.Coherent) (parens : validator.parens = 0)
    (header : validator.position.inHeader = false) : validator.commit.Settled := by
  have closed := coherent.headerOpen_eq.trans header
  constructor
  · rw [commit_depth, commit_braces, coherent.depth_eq, closed]
    rfl
  · rw [commit_parens, parens]
  · exact commit_pending validator
  · rw [commit_headerOpen, closed]

theorem Settled.openHeader (settled : validator.Settled) (header : position.inHeader = true) :
    (validator.openHeader position).Coherent := by
  have depth := settled.depth_eq
  constructor
  · change validator.scopes.depth + 1 = 1 + validator.braces.length + 1
    omega
  · exact fun _ => settled.parens_eq
  · exact fun _ => settled.pending_eq
  · exact header.symm

private theorem takes_openBrace {brace : Brace} (coherent : validator.Coherent)
    (parens : validator.parens = 0) (pending : validator.pending = none)
    (opens : token.kind = .leftBrace) :
    validator.Takes token (.ok (validator.openBrace brace)) := by
  have depth := coherent.depth_eq
  refine ⟨?_, by simp [openBrace, opens, TokenKind.nestingAfter], by simp [openBrace, opens]⟩
  constructor
  · simp only [openBrace]
    cases opened : validator.headerOpen <;> simp [opened] at depth ⊢ <;> omega
  · exact fun _ => parens
  · exact fun _ => pending
  · rfl

/-- There is a scope to leave wherever a brace is open. -/
theorem Settled.leave {brace : Brace} {others : List Brace} (settled : validator.Settled)
    (braces : validator.braces = brace :: others) (position : Position) :
    Settled { validator with
      position := position, braces := others, scopes := validator.scopes.leave } := by
  have depth := settled.depth_eq
  rw [braces, List.length_cons] at depth
  refine ⟨?_, settled.parens_eq, settled.pending_eq, settled.headerOpen_eq⟩
  have inside : 1 < validator.scopes.depth := by omega
  have left := ScopeStack.depth_leave inside
  change validator.scopes.leave.depth = 1 + others.length
  omega

theorem Settled.takes_closeBrace (settled : validator.Settled) (closes : token.kind = .rightBrace) :
    validator.Takes token (validator.closeBrace token.line) := by
  unfold closeBrace
  cases braces : validator.braces with
  | nil => exact ⟨closes, braces⟩
  | cons brace others =>
      refine ⟨(settled.leave braces _).coherent rfl, ?_, by simp [closes]⟩
      simp [braces, closes, TokenKind.nestingAfter]

theorem Settled.takes_finish (settled : validator.Settled) (ends : token.kind = .inputEnd) :
    validator.Takes token (validator.finish token.line) := by
  unfold finish
  cases braces : validator.braces with
  | nil =>
      have finished : (validator.moveTo .done).Settled := ⟨settled.depth_eq, settled.parens_eq,
        settled.pending_eq, settled.headerOpen_eq⟩
      refine ⟨finished.coherent rfl, ?_, iff_of_true rfl ends⟩
      simp [Validator.moveTo, ends, TokenKind.nestingAfter]
  | cons brace others => exact ⟨ends, by simp [braces]⟩

/-- What ends a statement commits its declaration first. -/
private theorem takes_endLine (coherent : validator.Coherent) (parens : validator.parens = 0)
    (header : validator.position.inHeader = false)
    (ends : token.kind = .lineEnd ∨ token.kind = .inputEnd ∨ token.kind = .rightBrace) :
    validator.Takes token (validator.endLine token) := by
  have settled := coherent.settled_commit parens header
  unfold endLine
  rcases ends with same | same | same <;> simp only [same]
  · exact takes_of_passes (by rw [same]; rfl) (coherent.commit_moveTo parens header.symm)
      (commit_braces validator) nofun
  · exact (settled.takes_finish same).congr (commit_braces validator)
  · exact (settled.takes_closeBrace same).congr (commit_braces validator)

/-! ### Names and expressions -/

private theorem takes_useName (passing : passes token.kind = true)
    (coherent : (validator.moveTo position).Coherent) (running : position ≠ .done) :
    validator.Takes token (validator.useName token position) := by
  unfold useName
  split
  · exact takes_of_passes passing coherent rfl running
  · trivial

private theorem takes_declareName {site : Site} (coherent : validator.Coherent)
    (stands : validator.position = .declaredName site) (passing : passes token.kind = true) :
    validator.Takes token (validator.declareName token site) := by
  unfold declareName
  split
  · trivial
  · refine takes_of_passes passing ⟨coherent.depth_eq, ?_, ?_, ?_⟩ rfl nofun
    · intro _
      exact coherent.parens_eq (by rw [stands]; rfl)
    · intro away
      cases away
    · rw [coherent.headerOpen_eq, stands]
      cases site <;> rfl

/-- Where an operand may stand. -/
private theorem takes_stepOperand {clause : Clause} (coherent : validator.Coherent)
    (pending : (Position.operand clause).inDeclaration = false → validator.pending = none)
    (header : (Position.operand clause).inHeader = validator.position.inHeader) :
    validator.Takes token (validator.stepOperand clause token) := by
  have operand : (validator.moveTo (.operand clause)).Coherent :=
    coherent.moveTo nofun pending header
  have operator : (validator.moveTo (.operator clause false)).Coherent := by
    refine coherent.moveTo nofun (fun away => pending ?_) ?_
    · cases clause <;> first | rfl | cases away
    · rw [← header]
      cases clause <;> rfl
  unfold stepOperand
  split
  · next opens =>
    refine takes_of_passes (by rw [opens]; rfl) ?_ rfl nofun
    exact ⟨operand.depth_eq, nofun, operand.pending_eq, operand.headerOpen_eq⟩
  · split
    · next leads =>
      refine takes_of_passes ?_ operand rfl nofun
      cases kind : token.kind <;> first | rfl | (rw [kind] at leads; cases leads)
    · split
      · next named => exact takes_useName (by rw [named]; rfl) operator nofun
      · split
        · next literal =>
          refine takes_of_passes ?_ operator rfl nofun
          cases kind : token.kind <;> first | rfl | (rw [kind] at literal; cases literal)
        · trivial

private theorem takes_closeParen {clause : Clause} {assignable : Bool}
    (coherent : validator.Coherent)
    (stands : validator.position = .operator clause assignable)
    (closes : token.kind = .rightParen) :
    validator.Takes token (validator.closeParen clause token.line) := by
  have passing : passes token.kind = true := by rw [closes]; rfl
  have pending := coherent.pending_eq
  have header := coherent.headerOpen_eq
  rw [stands] at pending header
  unfold closeParen
  split
  · refine takes_of_passes passing ⟨coherent.depth_eq, nofun, ?_, ?_⟩ rfl nofun
    · cases clause <;> exact pending
    · rw [header]
      cases clause <;> rfl
  · next outside =>
    split
    · next loops =>
      subst loops
      refine takes_of_passes passing (coherent.moveTo (fun _ => by omega) (fun _ => pending rfl) ?_) rfl nofun
      rw [stands]
      rfl
    · trivial

private theorem kind_of_endsLine {kind : TokenKind} (ends : Clause.line.endsWith kind = true) :
    kind = .lineEnd ∨ kind = .inputEnd ∨ kind = .rightBrace := by
  cases kind <;> first | exact absurd ends (by decide) | decide

private theorem kind_of_endsHeader {clause : Clause} {kind : TokenKind}
    (ends : clause.endsWith kind = true) (inHeader : clause ≠ .line) : kind = clause.terminator := by
  cases clause <;> first | contradiction | (cases kind <;> first | rfl | cases ends)

/-- What ends a clause, outside of all parentheses. -/
private theorem takes_endClause {clause : Clause} {assignable : Bool}
    (coherent : validator.Coherent)
    (stands : validator.position = .operator clause assignable) (parens : validator.parens = 0)
    (ends : clause.endsWith token.kind = true) :
    validator.Takes token (validator.endClause clause token) := by
  have pending := coherent.pending_eq
  rw [stands] at pending
  have header : validator.position.inHeader = (Position.operator clause assignable).inHeader := by
    rw [stands]
  cases clause with
  | line =>
      exact takes_endLine coherent parens header (kind_of_endsLine ends)
  | condition =>
      exact takes_openBrace coherent parens (pending rfl) (kind_of_endsHeader ends nofun)
  | loopStart =>
      refine takes_of_passes ?_ ?_ (commit_braces validator) nofun
      · rw [kind_of_endsHeader ends nofun]
        rfl
      · exact coherent.commit_moveTo parens header.symm
  | loopCondition =>
      refine takes_of_passes ?_ ?_ rfl nofun
      · rw [kind_of_endsHeader ends nofun]
        rfl
      · exact coherent.moveTo (fun _ => parens) (fun _ => pending rfl) header.symm
  | loopStep =>
      have closes := kind_of_endsHeader ends nofun
      rw [closes] at ends
      cases ends

private theorem takes_stepOperator {clause : Clause} {assignable : Bool}
    (coherent : validator.Coherent)
    (stands : validator.position = .operator clause assignable) :
    validator.Takes token (validator.stepOperator clause assignable token) := by
  have header : (Position.operand clause).inHeader = validator.position.inHeader := by
    rw [stands]
    cases clause <;> rfl
  have operand : (validator.moveTo (.operand clause)).Coherent := by
    refine coherent.moveTo nofun (fun away => coherent.pending_eq ?_) header
    rw [stands]
    cases clause <;> first | rfl | cases away
  unfold stepOperator
  split
  · next joins =>
    refine takes_of_passes ?_ operand rfl nofun
    cases kind : token.kind <;> first | rfl | (rw [kind] at joins; cases joins)
  · split
    · next closes => exact takes_closeParen coherent stands closes
    · split
      · next assigns =>
        split
        · exact takes_of_passes (by rw [assigns]; rfl) operand rfl nofun
        · trivial
      · split
        · next ends =>
          split
          · trivial
          · next outside => exact takes_endClause coherent stands (by omega) ends
        · trivial

/-! ### All positions -/

private theorem takes_stepBoundary (coherent : validator.Coherent)
    (stands : validator.position = .boundary) :
    validator.Takes token (validator.stepBoundary token) := by
  have parens : validator.parens = 0 := coherent.parens_eq (by rw [stands]; rfl)
  have pending : validator.pending = none := coherent.pending_eq (by rw [stands]; rfl)
  have header : validator.position.inHeader = false := by rw [stands]; rfl
  have settled := coherent.settled parens pending header
  unfold stepBoundary
  split
  · next kind => exact takes_of_passes (by rw [kind]; rfl) coherent rfl (by rw [stands]; nofun)
  · next kind => exact settled.takes_finish kind
  · next kind =>
    refine takes_of_passes (by rw [kind]; rfl) ?_ rfl nofun
    exact coherent.moveTo (fun _ => parens) (fun _ => pending) header.symm
  · next kind =>
    refine takes_of_passes (by rw [kind]; rfl) ?_ rfl nofun
    exact coherent.moveTo (fun _ => parens) (fun _ => pending) header.symm
  · next kind =>
    refine takes_of_passes (by rw [kind]; rfl) ?_ rfl nofun
    exact coherent.moveTo (fun _ => parens) (fun _ => pending) header.symm
  · next kind => exact takes_of_passes (by rw [kind]; rfl) (settled.openHeader rfl) rfl nofun
  · next kind => exact takes_of_passes (by rw [kind]; rfl) (settled.openHeader rfl) rfl nofun
  · next kind => exact takes_openBrace coherent parens pending kind
  · next kind => exact settled.takes_closeBrace kind
  · trivial
  · next kind =>
    refine takes_useName (by rw [kind]; rfl) ?_ nofun
    exact coherent.moveTo (fun _ => parens) (fun _ => pending) header.symm
  · exact takes_stepOperand coherent (fun _ => pending) header.symm

private theorem takes_stepPrint (coherent : validator.Coherent)
    (stands : validator.position = .printStart) :
    validator.Takes token (validator.stepPrint token) := by
  have parens : validator.parens = 0 := coherent.parens_eq (by rw [stands]; rfl)
  have pending : validator.pending = none := coherent.pending_eq (by rw [stands]; rfl)
  have header : validator.position.inHeader = false := by rw [stands]; rfl
  unfold stepPrint
  split
  · next kind => exact takes_endLine coherent parens header (.inl kind)
  · next kind => exact takes_endLine coherent parens header (.inr (.inl kind))
  · next kind => exact takes_endLine coherent parens header (.inr (.inr kind))
  · next kind =>
    refine takes_useName (by rw [kind]; rfl) ?_ nofun
    exact coherent.moveTo (fun _ => parens) (fun _ => pending) header.symm
  · exact takes_stepOperand coherent (fun _ => pending) header.symm

private theorem takes_stepClosed {afterBranch : Bool} (coherent : validator.Coherent)
    (stands : validator.position = .closed afterBranch) :
    validator.Takes token (validator.stepClosed afterBranch token) := by
  have parens : validator.parens = 0 := coherent.parens_eq (by rw [stands]; rfl)
  have pending : validator.pending = none := coherent.pending_eq (by rw [stands]; rfl)
  have header : validator.position.inHeader = false := by rw [stands]; rfl
  have settled := coherent.settled parens pending header
  unfold stepClosed
  split
  · next kind =>
    refine takes_of_passes (by rw [kind]; rfl) ?_ rfl nofun
    exact coherent.moveTo (fun _ => parens) (fun _ => pending) header.symm
  · next kind => exact settled.takes_finish kind
  · next kind => exact settled.takes_closeBrace kind
  · next kind =>
    split
    · refine takes_of_passes (by rw [kind]; rfl) ?_ rfl nofun
      exact coherent.moveTo (fun _ => parens) (fun _ => pending) header.symm
    · trivial
  · trivial

/-- Positions that ask for one kind of token and nothing else of the validator. -/
private theorem takes_ite {kind : TokenKind} {result : Except GrammarError Validator}
    (onKind : token.kind = kind → validator.Takes token (.ok next))
    (otherwise : validator.Takes token result) :
    validator.Takes token (if token.kind = kind then .ok next else result) := by
  split
  · next same => exact onKind same
  · exact otherwise

private theorem step_takes (coherent : validator.Coherent) (running : validator.position ≠ .done) :
    validator.Takes token (validator.step token) := by
  have parens := coherent.parens_eq
  have pending := coherent.pending_eq
  unfold step
  dsimp only
  cases stands : validator.position with
  | done => exact absurd stands running
  | boundary => exact takes_stepBoundary coherent stands
  | printStart => exact takes_stepPrint coherent stands
  | closed afterBranch => exact takes_stepClosed coherent stands
  | operator clause assignable => exact takes_stepOperator coherent stands
  | operand clause =>
      rw [stands] at pending
      exact takes_stepOperand coherent pending (by rw [stands])
  | declaredName site =>
      dsimp only
      split
      · next named => exact takes_declareName coherent stands (by rw [named]; rfl)
      · trivial
  | declaredEqual site =>
      rw [stands] at parens
      refine takes_ite (fun same => ?_) trivial
      refine takes_of_passes (by rw [same]; rfl) ?_ rfl nofun
      refine coherent.moveTo nofun ?_ (by rw [stands]; cases site <;> rfl)
      cases site <;> exact nofun
  | loopOpen =>
      rw [stands] at parens pending
      refine takes_ite (fun same => ?_) trivial
      refine takes_of_passes (by rw [same]; rfl) ?_ rfl nofun
      exact coherent.moveTo (fun _ => parens rfl) (fun _ => pending rfl) (by rw [stands]; rfl)
  | loopStart =>
      rw [stands] at parens pending
      refine takes_ite (fun same => ?_) (takes_ite (fun same => ?_) trivial)
      · refine takes_of_passes (by rw [same]; rfl) ?_ rfl nofun
        exact coherent.moveTo (fun _ => parens rfl) (fun _ => pending rfl) (by rw [stands]; rfl)
      · refine takes_of_passes (by rw [same]; rfl) ?_ rfl nofun
        exact coherent.moveTo nofun (fun _ => pending rfl) (by rw [stands]; rfl)
  | loopStep =>
      rw [stands] at parens pending
      dsimp only
      split
      · next named =>
        refine takes_useName (by rw [named]; rfl) ?_ nofun
        exact coherent.moveTo (fun _ => parens rfl) (fun _ => pending rfl) (by rw [stands]; rfl)
      · refine takes_ite (fun same => ?_) trivial
        refine takes_of_passes (by rw [same]; rfl) ?_ rfl nofun
        exact coherent.moveTo (fun _ => parens rfl) (fun _ => pending rfl) (by rw [stands]; rfl)
  | loopStepEqual =>
      rw [stands] at pending
      refine takes_ite (fun same => ?_) trivial
      refine takes_of_passes (by rw [same]; rfl) ?_ rfl nofun
      exact coherent.moveTo nofun (fun _ => pending rfl) (by rw [stands]; rfl)
  | loopBody =>
      rw [stands] at parens pending
      exact takes_ite (fun same => takes_openBrace coherent (parens rfl) (pending rfl) same) trivial
  | elseArm =>
      rw [stands] at parens pending
      have settled := coherent.settled (parens rfl) (pending rfl) (by rw [stands]; rfl)
      refine takes_ite (fun same => ?_) (takes_ite (fun same => ?_) trivial)
      · exact takes_of_passes (by rw [same]; rfl) (settled.openHeader rfl) rfl nofun
      · exact takes_openBrace coherent (parens rfl) (pending rfl) same

theorem takes_of_step {result : Except GrammarError Validator} (coherent : validator.Coherent)
    (running : validator.position ≠ .done) (stepped : validator.step token = result) :
    validator.Takes token result :=
  stepped ▸ step_takes coherent running

/-! ## Recovery -/

theorem Coherent.settled_abandon (coherent : validator.Coherent) : validator.abandon.Settled := by
  have depth := coherent.depth_eq
  rw [← commit_depth, ← commit_braces] at depth
  refine ⟨?_, rfl, commit_pending validator, rfl⟩
  unfold abandon
  dsimp only
  rw [commit_headerOpen]
  cases opened : validator.headerOpen with
  | false =>
      rw [opened] at depth
      exact depth
  | true =>
      rw [opened, if_pos rfl] at depth
      have inside : 1 < validator.commit.scopes.depth := by omega
      have left := ScopeStack.depth_leave inside
      rw [if_pos rfl]
      omega

private theorem tokensBeforeEnd_of_withoutEnd {before : List Token} (inside : WithoutEnd before)
    (behind : List Token) : tokensBeforeEnd (before ++ behind) = before ++ tokensBeforeEnd behind := by
  unfold tokensBeforeEnd
  exact List.takeWhile_append_of_pos (by simpa [WithoutEnd] using inside)

private theorem tokensBeforeEnd_eq_self {tokens : List Token} (inside : WithoutEnd tokens) :
    tokensBeforeEnd tokens = tokens := by
  have same := tokensBeforeEnd_of_withoutEnd inside []
  rwa [List.append_nil, show tokensBeforeEnd [] = [] from rfl, List.append_nil] at same

/-- The tokens between `tokens` and `rest` were passed from `depth` open braces.  The end of input, if
it is among them, is where they stop to count. -/
def Passed (depth : Nat) (tokens : List Token) (validator : Validator) (rest : List Token) : Prop :=
  ∃ passed, tokens = passed ++ rest ∧ (rest ≠ [] → WithoutEnd passed) ∧
    validator.braces.length = nestingFrom depth (tokensBeforeEnd passed)

theorem Passed.cons {depth behind : Nat} {tail rest : List Token}
    (passed : Passed behind tail validator rest) (inside : token.kind ≠ .inputEnd)
    (counted : token.kind.nestingAfter depth = behind) :
    Passed depth (token :: tail) validator rest := by
  obtain ⟨passed, split, withoutEnd, nesting⟩ := passed
  refine ⟨token :: passed, congrArg (token :: ·) split, ?_, ?_⟩
  · intro more
    exact withoutEnd_cons.mpr ⟨inside, withoutEnd more⟩
  · have kept : tokensBeforeEnd (token :: passed) = token :: tokensBeforeEnd passed := by
      simp [tokensBeforeEnd, inside]
    rw [kept, nestingFrom_cons, counted]
    exact nesting

theorem Passed.trans {depth : Nat} {tokens between rest : List Token}
    (first : Passed depth tokens validator between) (more : between ≠ [])
    (second : Passed validator.braces.length between next rest) :
    Passed depth tokens next rest := by
  obtain ⟨earlier, split, withoutEnd, nesting⟩ := first
  obtain ⟨later, splitLater, withoutEndLater, nestingLater⟩ := second
  refine ⟨earlier ++ later, ?_, ?_, ?_⟩
  · rw [split, splitLater, List.append_assoc]
  · intro left
    exact withoutEnd_append.mpr ⟨withoutEnd more, withoutEndLater left⟩
  · rw [tokensBeforeEnd_eq_self (withoutEnd more)] at nesting
    rw [tokensBeforeEnd_of_withoutEnd (withoutEnd more), nestingFrom_append, ← nesting]
    exact nestingLater

/-- Passing over tokens opens and closes the braces that they open and close. -/
theorem Settled.skipLine (settled : validator.Settled) (stands : validator.position = .boundary)
    (tokens : List Token) :
    (validator.skipLine tokens).1.Settled ∧ (validator.skipLine tokens).1.position = .boundary ∧
      Passed validator.braces.length tokens (validator.skipLine tokens).1
        (validator.skipLine tokens).2 := by
  fun_induction Validator.skipLine validator tokens with
  | case1 validator => exact ⟨settled, stands, [], rfl, by simp, rfl⟩
  | case2 validator token tail ends =>
      have inside : token.kind ≠ .inputEnd := by rw [ends]; decide
      have nothing : Passed validator.braces.length tail validator tail := ⟨[], rfl, by simp, rfl⟩
      refine ⟨settled, stands, nothing.cons inside ?_⟩
      rw [ends]
      rfl
  | case3 validator token tail ends =>
      refine ⟨settled, stands, token :: tail, (List.append_nil _).symm, by simp, ?_⟩
      simp [tokensBeforeEnd, ends]
  | case4 validator token tail opens ih =>
      have inside : token.kind ≠ .inputEnd := by rw [opens]; decide
      have entered : Settled { validator with
          braces := .block :: validator.braces, scopes := validator.scopes.enter [] } := by
        have depth := settled.depth_eq
        refine ⟨?_, settled.parens_eq, settled.pending_eq, settled.headerOpen_eq⟩
        change validator.scopes.depth + 1 = 1 + (validator.braces.length + 1)
        omega
      obtain ⟨settledAfter, standsAfter, passed⟩ := ih entered stands
      refine ⟨settledAfter, standsAfter, passed.cons inside ?_⟩
      rw [opens]
      rfl
  | case5 validator token tail closes braces ih =>
      have inside : token.kind ≠ .inputEnd := by rw [closes]; decide
      obtain ⟨settledAfter, standsAfter, passed⟩ := ih settled stands
      refine ⟨settledAfter, standsAfter, passed.cons inside ?_⟩
      rw [closes, braces]
      rfl
  | case6 validator token tail closes brace others braces ih =>
      have inside : token.kind ≠ .inputEnd := by rw [closes]; decide
      obtain ⟨settledAfter, standsAfter, passed⟩ :=
        ih (settled.leave braces validator.position) stands
      refine ⟨settledAfter, standsAfter, passed.cons inside ?_⟩
      rw [closes, braces]
      rfl
  | case7 validator token tail notLineEnd notInputEnd notLeft notRight ih =>
      obtain ⟨settledAfter, standsAfter, passed⟩ := ih settled stands
      refine ⟨settledAfter, standsAfter, passed.cons notInputEnd ?_⟩
      exact TokenKind.nestingAfter_other notLeft notRight _

/-! ## Whole validations -/

/-- Validation of `tokens` comes to stand in front of the tokens `rest`: each token is taken, ends
the validation, or is refused and its line given up. -/
inductive Reaches (tokens : List Token) : Validator → List Token → Prop where
  | start : Reaches tokens fresh tokens
  | taken {validator next : Validator} {token : Token} {tail : List Token} :
      Reaches tokens validator (token :: tail) → validator.step token = .ok next →
      next.position ≠ .done → Reaches tokens next tail
  | finished {validator next : Validator} {token : Token} {tail : List Token} :
      Reaches tokens validator (token :: tail) → validator.step token = .ok next →
      next.position = .done → Reaches tokens next (token :: tail)
  | recovered {validator : Validator} {token : Token} {tail : List Token} {error : GrammarError} :
      Reaches tokens validator (token :: tail) → validator.step token = .error error →
      Reaches tokens (validator.recover (token :: tail)).1 (validator.recover (token :: tail)).2

variable {tokens rest : List Token} {error : GrammarError}

/-- What is reported was refused on the way. -/
theorem Reaches.refused_of_mem (reached : Reaches tokens validator rest)
    (reported : error ∈ validator.errors rest) : ∃ refusing token tail,
      Reaches tokens refusing (token :: tail) ∧ refusing.step token = .error error := by
  fun_induction errors validator rest with
  | case1 validator => cases reported
  | case2 validator token tail next stepped done => cases reported
  | case3 validator token tail next stepped running ih =>
      exact ih (reached.taken stepped running) reported
  | case4 validator token tail first stepped ih =>
      rcases List.mem_cons.mp reported with rfl | later
      · exact ⟨validator, token, tail, reached, stepped⟩
      · exact ih (reached.recovered stepped) later

theorem step_of_done (done : validator.position = .done) :
    validator.step token = .ok validator := by
  unfold step
  simp only [done]

private theorem ne_done_of_step_error (refused : validator.step token = .error error) :
    validator.position ≠ .done := by
  intro done
  rw [step_of_done done] at refused
  cases refused

/-- The invariant of validation, along every way that it can take. -/
theorem Reaches.coherent (reached : Reaches tokens validator rest) :
    validator.Coherent ∧ Passed 0 tokens validator rest := by
  induction reached with
  | start => exact ⟨coherent_fresh, [], rfl, by simp, rfl⟩
  | @taken validator next token tail _ stepped running ih =>
      obtain ⟨coherent, passed⟩ := ih
      have alive : validator.position ≠ .done := by
        intro done
        rw [step_of_done done] at stepped
        cases stepped
        exact running done
      obtain ⟨coherentNext, nesting, ends⟩ := takes_of_step coherent alive stepped
      have inside : token.kind ≠ .inputEnd := fun atEnd => running (ends.mpr atEnd)
      have nothing : Passed next.braces.length tail next tail := ⟨[], rfl, by simp, rfl⟩
      exact ⟨coherentNext, passed.trans (by simp) (nothing.cons inside nesting.symm)⟩
  | @finished validator next token tail _ stepped done ih =>
      obtain ⟨coherent, passed⟩ := ih
      by_cases alive : validator.position = .done
      · rw [step_of_done alive] at stepped
        cases stepped
        exact ⟨coherent, passed⟩
      · obtain ⟨coherentNext, nesting, ends⟩ := takes_of_step coherent alive stepped
        rw [ends.mp done] at nesting
        obtain ⟨earlier, split, withoutEnd, counted⟩ := passed
        exact ⟨coherentNext, earlier, split, withoutEnd, nesting.trans counted⟩
  | @recovered validator token tail error _ refused ih =>
      obtain ⟨coherent, passed⟩ := ih
      have settled := coherent.settled_abandon
      obtain ⟨settledAfter, standsAfter, skipped⟩ := settled.skipLine rfl (token :: tail)
      have same : validator.abandon.braces = validator.braces := commit_braces validator
      rw [same] at skipped
      exact ⟨settledAfter.coherent (by rw [standsAfter]; rfl), passed.trans (by simp) skipped⟩

/-- A brace that is reported as missing does not pair up. -/
theorem not_bracesPair_of_unbalanced {brace : TokenKind} {line : Nat}
    (isBrace : brace = .leftBrace ∨ brace = .rightBrace)
    (reported : .unbalanced brace line ∈ validate tokens) :
    ¬ BracesPair (tokensBeforeEnd tokens) := by
  intro paired
  obtain ⟨validator, token, tail, reached, refused⟩ := Reaches.start.refused_of_mem reported
  obtain ⟨coherent, passed, split, withoutEnd, nesting⟩ := reached.coherent
  have inside : WithoutEnd passed := withoutEnd (List.cons_ne_nil token tail)
  have explained := takes_of_step coherent (ne_done_of_step_error refused) refused
  rw [tokensBeforeEnd_eq_self inside] at nesting
  rw [split, tokensBeforeEnd_of_withoutEnd inside] at paired
  rcases isBrace with rfl | rfl
  · -- a closing brace where none is open
    obtain ⟨closes, none⟩ := explained
    have kept : tokensBeforeEnd (token :: tail) = token :: tokensBeforeEnd tail := by
      simp [tokensBeforeEnd, closes]
    rw [kept] at paired
    have opened := (paired.le_nestingFrom 0 rfl).2 token rfl closes
    rw [none] at nesting
    exact absurd nesting.symm (Nat.ne_of_gt opened)
  · -- the end of input where one is open
    obtain ⟨ends, some⟩ := explained
    have stopped : tokensBeforeEnd (token :: tail) = [] := by
      simp [tokensBeforeEnd, ends]
    rw [stopped, List.append_nil] at paired
    have closed : braceNesting passed = 0 := paired.nestingFrom_eq 0
    rw [show nestingFrom 0 passed = braceNesting passed from rfl, closed] at nesting
    exact some (List.length_eq_zero_iff.mp nesting)

end Validator

open Validator

/-- In every state of every validation, whatever the tokens are and however many lines were given
up, the parts of the validator fit together, and the open braces are those of the tokens passed.  So
a brace that closes always has a scope to leave, and a missing brace is reported only where braces
do not pair up. -/
theorem reaches_coherent (tokens : List Token) :
    (∀ validator rest, Reaches tokens validator rest →
      validator.Coherent ∧
      (∃ passed, tokens = passed ++ rest ∧
        validator.braces.length = braceNesting (tokensBeforeEnd passed)) ∧
      (validator.braces ≠ [] → 1 < validator.scopes.depth)) ∧
    ∀ brace line, brace = .leftBrace ∨ brace = .rightBrace →
      .unbalanced brace line ∈ validate tokens → ¬ BracesPair (tokensBeforeEnd tokens) := by
  refine ⟨fun validator rest reached => ?_, fun brace line => not_bracesPair_of_unbalanced⟩
  obtain ⟨coherent, passed, split, _, nesting⟩ := reached.coherent
  refine ⟨coherent, ⟨passed, split, nesting⟩, fun opened => ?_⟩
  have depth := coherent.depth_eq
  have some := List.length_pos_iff.mpr opened
  omega

/-- The tokens of `for (i {`, of which the name is refused in the middle of the header, and on the
next line `} }`. -/
def brokenHeader : List Token :=
  [⟨.forWord, none, 1⟩, ⟨.leftParen, none, 1⟩, ⟨.identifier, some (.text "i"), 1⟩,
    ⟨.leftBrace, none, 1⟩, ⟨.lineEnd, none, 1⟩, ⟨.rightBrace, none, 2⟩, ⟨.rightBrace, none, 2⟩,
    ⟨.inputEnd, none, 2⟩]

/-- The validator behind the line that was given up: the scope of the header is closed, that of the
brace is open. -/
def behindBrokenHeader : Validator where
  position := .boundary
  braces := [.block]
  parens := 0
  scopes := ⟨[], [[]]⟩
  pending := none
  headerOpen := false

/-- The brace passed over in a broken header counts, and is the one that the next line closes first;
its other brace is one too many. -/
theorem reaches_behindBrokenHeader :
    Reaches brokenHeader behindBrokenHeader (brokenHeader.drop 5) ∧
    behindBrokenHeader.Coherent ∧ 1 < behindBrokenHeader.scopes.depth ∧
    validate brokenHeader =
      [.expected .varOrSemicolon .identifier 1, .unbalanced .leftBrace 2] ∧
    ¬ BracesPair (tokensBeforeEnd brokenHeader) := by
  have opened : Reaches brokenHeader
      { fresh with position := .loopStart, scopes := ⟨[], [[]]⟩, headerOpen := true }
      (brokenHeader.drop 2) :=
    (Reaches.start.taken rfl (by decide)).taken rfl (by decide)
  have reached : Reaches brokenHeader behindBrokenHeader (brokenHeader.drop 5) :=
    opened.recovered rfl
  have reported : validate brokenHeader =
      [.expected .varOrSemicolon .identifier 1, .unbalanced .leftBrace 2] := by
    decide +kernel
  obtain ⟨states, unpaired⟩ := reaches_coherent brokenHeader
  obtain ⟨coherent, _, inside⟩ := states _ _ reached
  refine ⟨reached, coherent, inside nofun, reported, ?_⟩
  exact unpaired .leftBrace 2 (.inl rfl) (by rw [reported]; decide)

end Validation

end LineScript
