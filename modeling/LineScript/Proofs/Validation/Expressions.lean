import LineScript.Proofs.Validation.Acceptance

/-!
The validator inside expressions.

The validator accepts an expression exactly when it can be read, its names are visible, and the
validator accepts what is left behind it.
-/

set_option autoImplicit false

namespace LineScript

theorem Level.rank_le_six (level : Level) : level.rank ≤ 6 := by
  cases level <;> decide

theorem Level.eq_of_rank_eq {level other : Level} (same : level.rank = other.rank) :
    level = other := by
  cases level <;> cases other <;> first | rfl | cases same

namespace Validation

open Grammar Validator

/-- Tokens as scanning gives them: they reach an end of input, and payloads are in place. -/
structure Ready (tokens : List Token) : Prop where
  own : OwnPayloads tokens
  ends : ∃ token ∈ tokens, token.kind = .inputEnd

theorem Ready.tail {token : Token} {tail : List Token} (ready : Ready (token :: tail))
    (inside : token.kind ≠ .inputEnd) : Ready tail := by
  obtain ⟨ending, member, ends⟩ := ready.ends
  refine ⟨ready.own.of_cons, ending, ?_, ends⟩
  rcases List.mem_cons.mp member with same | member
  · exact absurd (same ▸ ends) inside
  · exact member

theorem Ready.eq_cons {tokens : List Token} (ready : Ready tokens) :
    ∃ token tail, tokens = token :: tail := by
  obtain ⟨ending, member, _⟩ := ready.ends
  exact List.exists_cons_of_ne_nil (List.ne_nil_of_mem member)

theorem not_ready_nil : ¬ Ready [] := by
  rintro ⟨_, _, member, _⟩
  cases member

private theorem closes_one (tokens : List Token) : Closes 1 tokens :=
  fun _ _ operator _ => Level.rank_pos operator.level

/-- What the validator asks `before` an expression is asked of its names and of what is left. -/
structure Agrees (bound : Nat) (before : Clause → Validator → Prop) (tree : Expression)
    (rest : List Token) : Prop where
  ready : Ready rest
  closes : Closes bound rest
  iff : ∀ clause validator, before clause validator ↔
    tree.Visible validator.scopes.names ∧ AcceptsOperator clause validator rest

def Refuses (before : Clause → Validator → Prop) : Prop :=
  ∀ clause validator, ¬ before clause validator

def BeforeOperand (tokens : List Token) (clause : Clause) (validator : Validator) : Prop :=
  AcceptsOperand clause validator tokens

def BehindOperand (left : Expression) (tokens : List Token) (clause : Clause)
    (validator : Validator) : Prop :=
  left.Visible validator.scopes.names ∧ AcceptsOperator clause validator tokens

theorem hasOwnPayload_of_ready {token : Token} {tail : List Token}
    (ready : Ready (token :: tail)) : token.hasOwnPayload = true :=
  ready.own token List.mem_cons_self

/-- With its payload in place, a token makes an operand as its kind says. -/
theorem ofToken?_eq_none_iff {token : Token} (own : token.hasOwnPayload = true) :
    Expression.ofToken? token = none ↔
      token.kind.isLiteral = false ∧ token.kind ≠ .identifier := by
  obtain ⟨kind, payload, line⟩ := token
  unfold Token.hasOwnPayload at own
  unfold Expression.ofToken?
  split at own <;> simp_all [TokenKind.isLiteral]
  cases kind <;> simp_all

/-- The validator takes a single token that makes an operand if its name is visible. -/
private theorem beforeOperand_of_ofToken? {token : Token} {tail : List Token} {tree : Expression}
    {clause : Clause} {validator : Validator} (made : Expression.ofToken? token = some tree) :
    BeforeOperand (token :: tail) clause validator ↔
      tree.Visible validator.scopes.names ∧ AcceptsOperator clause validator tail := by
  have derived := derives_of_ofToken? made
  generalize shape : [token] = tokens at derived
  cases derived with
  | integer | decimal | string =>
      cases shape
      rw [BeforeOperand, acceptsOperand_literal rfl]
      simp [Expression.Visible]
  | truth same | falsity same =>
      cases shape
      rw [BeforeOperand, acceptsOperand_literal (by rw [same]; rfl)]
      simp [Expression.Visible]
  | name =>
      cases shape
      rw [BeforeOperand, acceptsOperand_identifier rfl]
      rfl
  | group opens _ _ => simp [(List.cons.inj shape).1, Expression.ofToken?, opens] at made

private theorem ne_inputEnd_of_ofToken? {token : Token} {tree : Expression}
    (made : Expression.ofToken? token = some tree) : token.kind ≠ .inputEnd :=
  (withoutEnd_cons.mp (derives_of_ofToken? made).withoutEnd).1

theorem ofKind?_eq_none_of_closes {token : Token} {tail : List Token}
    (closes : Closes 7 (token :: tail)) : BinaryOperator.ofKind? token.kind = none := by
  cases found : BinaryOperator.ofKind? token.kind with
  | none => rfl
  | some operator =>
      have bound := closes_cons.mp closes operator found
      have highest := Level.rank_le_six operator.level
      omega

end Validation

open Grammar Validation Validator

namespace Expression

/-! ## One reader at a time -/

def LevelAgrees (level : Level) (tokens : List Token) : Prop :=
  Ready tokens → (readLevel level tokens).Holds
    (Agrees (level.rank + 1) (BeforeOperand tokens)) (Refuses (BeforeOperand tokens))

def ChainAgrees (level : Level) (limit : Nat) (left : Expression) (tokens : List Token)
    (shorter : tokens.length < limit) : Prop :=
  Ready tokens → Closes level.rank tokens → (readChain level limit left tokens shorter).Holds
    (Agrees (level.rank + 1) (BehindOperand left tokens)) (Refuses (BehindOperand left tokens))

def OperandAgrees (level : Level) (tokens : List Token) : Prop :=
  Ready tokens → (readOperand level tokens).Holds
    (Agrees level.rank (BeforeOperand tokens)) (Refuses (BeforeOperand tokens))

def UnaryAgrees (tokens : List Token) : Prop :=
  Ready tokens → (readUnary tokens).Holds
    (Agrees 1 (BeforeOperand tokens)) (Refuses (BeforeOperand tokens))

def PrimaryAgrees (tokens : List Token) : Prop :=
  Ready tokens → (∀ token ∈ tokens.head?, UnaryOperator.ofKind? token.kind = none) →
    (readPrimary tokens).Holds
      (Agrees 1 (BeforeOperand tokens)) (Refuses (BeforeOperand tokens))

section

variable {level : Level} {tokens tail : List Token} {token : Token}

/-- What stands before a chain is what stands behind its first operand. -/
theorem levelAgrees (operandAgrees : OperandAgrees level tokens)
    (chainAgrees : ∀ left rest shorter, ChainAgrees level tokens.length left rest shorter) :
    LevelAgrees level tokens := by
  intro ready
  rw [readLevel]
  refine (operandAgrees ready).andThen (fun left rest shorter found => ?_) id
  refine (chainAgrees left rest shorter found.ready found.closes).imp
    (fun tree behind _ chained => ?_) fun refuses clause validator accepts => ?_
  · exact ⟨chained.ready, chained.closes, fun clause validator =>
      (found.iff clause validator).trans (chained.iff clause validator)⟩
  · exact refuses clause validator ((found.iff clause validator).mp accepts)

section

variable {limit : Nat} {left : Expression} {shorter : (token :: tail).length < limit}
  {operator : BinaryOperator}

private theorem chainAgrees_end (foreign : BinaryOperator.ofKind? token.kind = none) :
    ChainAgrees level limit left (token :: tail) shorter := by
  intro ready _
  rw [readChain]
  simp only [foreign]
  exact ⟨ready, closes_of_ofKind?_eq_none foreign, fun _ _ => Iff.rfl⟩

private theorem behindOperand_binary {right : Expression} {rest : List Token} {bound : Nat}
    (found : BinaryOperator.ofKind? token.kind = some operator)
    (taken : Agrees bound (BeforeOperand tail) right rest) (clause : Clause)
    (validator : Validator) :
    BehindOperand left (token :: tail) clause validator ↔
      BehindOperand (.binary operator left right token.line) rest clause validator := by
  unfold BehindOperand
  rw [acceptsOperator_binary found]
  exact (and_congr Iff.rfl (taken.iff clause validator)).trans and_assoc.symm

private theorem chainAgrees_operator (found : BinaryOperator.ofKind? token.kind = some operator)
    (operandAgrees : OperandAgrees operator.level tail)
    (chainAgrees : ∀ right rest (following : rest.length < tail.length),
      ChainAgrees operator.level limit (.binary operator left right token.line) rest
        (Nat.lt_trans following (Nat.lt_trans (Nat.lt_succ_self _) shorter))) :
    ChainAgrees operator.level limit left (token :: tail) shorter := by
  intro ready _
  have inside : token.kind ≠ .inputEnd := (joins_iff.mpr ⟨found, rfl⟩).ne_inputEnd
  rw [readChain]
  simp only [found, if_true]
  refine (operandAgrees (ready.tail inside)).andThen (fun right rest following taken => ?_)
    fun refuses clause validator behind => ?_
  · have joined : ∀ clause validator, BehindOperand left (token :: tail) clause validator ↔
        BehindOperand (.binary operator left right token.line) rest clause validator :=
      behindOperand_binary found taken
    refine (chainAgrees right rest following taken.ready taken.closes).imp
      (fun tree behind _ chained => ?_) fun refuses clause validator behind => ?_
    · exact ⟨chained.ready, chained.closes, fun clause validator =>
        (joined clause validator).trans (chained.iff clause validator)⟩
    · exact refuses clause validator ((joined clause validator).mp behind)
  · exact refuses clause validator ((acceptsOperator_binary found).mp behind.2)

/-- An operator that is not of the level and not tighter is looser, and closes the level. -/
private theorem chainAgrees_looser (found : BinaryOperator.ofKind? token.kind = some operator)
    (different : operator.level ≠ level) : ChainAgrees level limit left (token :: tail) shorter := by
  intro ready closes
  rw [readChain]
  simp only [found, if_neg different]
  refine ⟨ready, ?_, fun _ _ => Iff.rfl⟩
  rw [closes_cons] at closes ⊢
  intro other same
  have bound := closes other same
  rw [found] at same
  cases same
  have ranks : operator.level.rank ≠ level.rank := fun same =>
    different (Level.eq_of_rank_eq same)
  omega

end

private theorem operandAgrees_tighter {next : Level} (tighter : level.tighter = some next)
    (nextAgrees : LevelAgrees next tokens) : OperandAgrees level tokens := by
  intro ready
  have ranks : next.rank + 1 = level.rank := by
    cases level <;> cases tighter <;> rfl
  rw [readOperand_of_tighter tighter, ← ranks]
  exact nextAgrees ready

private theorem operandAgrees_tightest (tightest : level.tighter = none)
    (unaryAgrees : UnaryAgrees tokens) :
    OperandAgrees level tokens := by
  intro ready
  have rank : level.rank = 1 := by
    cases level <;> first | rfl | cases tightest
  rw [readOperand_of_tightest tightest, rank]
  exact unaryAgrees ready

private theorem unaryAgrees_operator {operator : UnaryOperator}
    (found : UnaryOperator.ofKind? token.kind = some operator) (unaryAgrees : UnaryAgrees tail) :
    UnaryAgrees (token :: tail) := by
  intro ready
  have inside : token.kind ≠ .inputEnd := (leads_iff.mpr found).ne_inputEnd
  rw [readUnary]
  simp only [found, Parsed.holds_within, Parsed.holds_map]
  refine (unaryAgrees (ready.tail inside)).imp (fun operand rest _ taken => ?_)
    fun refuses clause validator before => ?_
  · exact ⟨taken.ready, taken.closes, fun clause validator =>
      (acceptsOperand_unary found).trans (taken.iff clause validator)⟩
  · exact refuses clause validator ((acceptsOperand_unary found).mp before)

private theorem unaryAgrees_primary (foreign : UnaryOperator.ofKind? token.kind = none)
    (primaryAgrees : PrimaryAgrees (token :: tail)) : UnaryAgrees (token :: tail) := by
  intro ready
  rw [readUnary]
  simp only [foreign]
  exact primaryAgrees ready (by simpa using foreign)

private theorem primaryAgrees_single {operand : Expression} (made : ofToken? token = some operand) :
    PrimaryAgrees (token :: tail) := by
  intro ready _
  rw [readPrimary]
  simp only [made]
  exact ⟨ready.tail (ne_inputEnd_of_ofToken? made), closes_one tail,
    fun _ _ => beforeOperand_of_ofToken? made⟩

private theorem primaryAgrees_group (notSingle : ofToken? token = none)
    (opens : token.kind = .leftParen)
    (innerAgrees : LevelAgrees .disjunction tail) : PrimaryAgrees (token :: tail) := by
  intro ready _
  have inside : token.kind ≠ .inputEnd := by rw [opens]; decide
  rw [readPrimary]
  simp only [notSingle, if_pos opens]
  refine (innerAgrees (ready.tail inside)).andThen (fun inner rest shorter taken => ?_)
    fun refuses clause validator before => ?_
  · obtain ⟨next, behind, rfl⟩ := taken.ready.eq_cons
    have entered : ∀ clause (validator : Validator),
        BeforeOperand (token :: tail) clause validator ↔
          inner.Visible validator.scopes.names ∧
            AcceptsOperator clause validator.nested (next :: behind) :=
      fun clause validator =>
        (acceptsOperand_paren opens).trans (taken.iff clause validator.nested)
    dsimp only
    split
    · next closes =>
      refine ⟨taken.ready.tail (by rw [closes]; decide), closes_one behind,
        fun clause validator => ?_⟩
      rw [entered, acceptsOperator_paren closes]
      rfl
    · next unclosed =>
      intro clause validator before
      have foreign := ofKind?_eq_none_of_closes taken.closes
      exact not_acceptsOperator_nested foreign unclosed ((entered clause validator).mp before).2
  · exact refuses clause validator.nested ((acceptsOperand_paren opens).mp before)

private theorem primaryAgrees_none (notSingle : ofToken? token = none)
    (notOpening : token.kind ≠ .leftParen) :
    PrimaryAgrees (token :: tail) := by
  intro ready notUnary
  rw [readPrimary]
  simp only [notSingle, if_neg notOpening]
  intro clause validator
  have starts : startsExpression token.kind = false := by
    have leads : token.kind.isUnaryOperator = false := by
      rw [← UnaryOperator.isSome_ofKind?, notUnary token rfl]
      rfl
    have kinds := (ofToken?_eq_none_iff (hasOwnPayload_of_ready ready)).mp notSingle
    simp [startsExpression, leads, kinds, notOpening]
  exact not_acceptsOperand starts

end

/-- The validator and all readers of expressions agree, by induction along the readers' own
recursion. -/
theorem readers_agree :
    (∀ level tokens, LevelAgrees level tokens) ∧
    (∀ level limit left tokens shorter, ChainAgrees level limit left tokens shorter) ∧
    (∀ level tokens, OperandAgrees level tokens) ∧ (∀ tokens, UnaryAgrees tokens) ∧
    (∀ tokens, PrimaryAgrees tokens) := by
  apply readLevel.mutual_induct
  · exact fun _ _ => levelAgrees
  · exact fun _ _ _ _ _ ready => absurd ready not_ready_nil
  · exact fun _ _ _ _ _ _ foreign _ => chainAgrees_end foreign
  · exact fun _ _ _ _ _ _ found _ => chainAgrees_operator found
  · exact fun _ _ _ _ _ _ _ found different _ => chainAgrees_looser found different
  · exact fun _ _ _ => operandAgrees_tighter
  · exact fun _ _ => operandAgrees_tightest
  · exact fun _ ready => absurd ready not_ready_nil
  · exact fun _ _ _ => unaryAgrees_operator
  · exact fun _ _ => unaryAgrees_primary
  · exact fun ready => absurd ready not_ready_nil
  · exact fun _ _ _ => primaryAgrees_single
  · exact fun _ _ => primaryAgrees_group
  · exact fun _ _ => primaryAgrees_none

end Expression

end LineScript
