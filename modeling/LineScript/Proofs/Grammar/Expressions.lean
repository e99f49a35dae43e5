import LineScript.Proofs.Grammar
import LineScript.Proofs.ReadingRules

/-!
Reading expressions by the grammar.

What a reader of expressions takes from the front of a token list is derived by the grammar, with
the tree it returns.  Conversely a derived phrase is taken whole, whatever stands behind it, unless
an operator there binds at least as tightly as the phrase itself.
-/

set_option autoImplicit false

namespace LineScript

namespace Grammar

theorem joins_iff {level : Level} {kind : TokenKind} {operator : BinaryOperator} :
    Joins level kind operator ↔
      BinaryOperator.ofKind? kind = some operator ∧ operator.level = level := by
  constructor
  · intro joins
    cases joins <;> exact ⟨rfl, rfl⟩
  · rintro ⟨found, rfl⟩
    cases kind <;> simp only [BinaryOperator.ofKind?, Option.some.injEq, reduceCtorEq] at found <;>
      subst found <;> constructor

theorem leads_iff {kind : TokenKind} {operator : UnaryOperator} :
    Leads kind operator ↔ UnaryOperator.ofKind? kind = some operator := by
  constructor
  · intro leads
    cases leads <;> rfl
  · intro found
    cases kind <;> simp only [UnaryOperator.ofKind?, Option.some.injEq, reduceCtorEq] at found <;>
      subst found <;> constructor

private theorem operandPhrase_of_tighter {level next : Level}
    (tighter : level.tighter = some next) :
    operandPhrase level = .chain next := by
  cases level <;> simp_all [Level.tighter, operandPhrase]

private theorem operandPhrase_of_tightest {level : Level} (tightest : level.tighter = none) :
    operandPhrase level = .unary := by
  cases level <;> simp_all [Level.tighter, operandPhrase]

theorem derives_of_ofToken? {token : Token} {tree : Expression}
    (made : Expression.ofToken? token = some tree) : Derives .primary [token] tree := by
  obtain ⟨kind, payload, line⟩ := token
  unfold Expression.ofToken? at made
  split at made
  · next _ value sameKind samePayload =>
    cases made; cases sameKind; cases samePayload
    exact .integer
  · next _ value sameKind samePayload =>
    cases made; cases sameKind; cases samePayload
    exact .decimal
  · next _ value sameKind samePayload =>
    cases made; cases sameKind; cases samePayload
    exact .string
  · next sameKind =>
    cases made
    exact .truth sameKind
  · next sameKind =>
    cases made
    exact .falsity sameKind
  · next _ name sameKind samePayload =>
    cases made; cases sameKind; cases samePayload
    exact .name
  · cases made

/-! ## What is read is derived -/

/-- The tokens used up are derived with what was read from them. -/
def Takes {α : Type} (derives : List Token → α → Prop) (tokens : List Token) (value : α)
    (rest : List Token) : Prop :=
  ∃ used, tokens = used ++ rest ∧ derives used value

end Grammar

open Grammar

namespace Expression

theorem readers_take :
    (∀ level tokens, (readLevel level tokens).Holds (Takes (Derives (.chain level)) tokens) True) ∧
    (∀ level limit left tokens shorter, ∀ before, Derives (.chain level) before left →
      (readChain level limit left tokens shorter).Holds
        (fun tree rest => ∃ used, tokens = used ++ rest ∧
          Derives (.chain level) (before ++ used) tree) True) ∧
    (∀ level tokens, (readOperand level tokens).Holds
      (Takes (Derives (operandPhrase level)) tokens) True) ∧
    (∀ tokens, (readUnary tokens).Holds (Takes (Derives .unary) tokens) True) ∧
    (∀ tokens, (readPrimary tokens).Holds (Takes (Derives .primary) tokens) True) := by
  apply readLevel.mutual_induct
  -- a level is its first operand and the chain behind it
  · intro level tokens operandTakes chainTakes
    rw [readLevel]
    refine operandTakes.andThen (fun left rest shorter taken => ?_) id
    obtain ⟨used, rfl, derived⟩ := taken
    refine (chainTakes left rest shorter used (.operand derived)).imp
      (fun tree behind _ chained => ?_) id
    obtain ⟨more, rfl, joined⟩ := chained
    exact ⟨used ++ more, (List.append_assoc ..).symm, joined⟩
  · intro level limit left shorter _ before derived
    rw [readChain]
    exact ⟨[], rfl, by simpa using derived⟩
  · intro level limit left token tail shorter foreign _ before derived
    rw [readChain]
    simp only [foreign]
    exact ⟨[], rfl, by simpa using derived⟩
  · intro limit left token tail shorter operator found _ operandTakes chainTakes before derived
    rw [readChain]
    simp only [found, if_true]
    refine operandTakes.andThen (fun right rest following taken => ?_) id
    obtain ⟨used, rfl, rightDerived⟩ := taken
    have joined : Derives (.chain operator.level) (before ++ token :: used)
        (.binary operator left right token.line) :=
      .join derived (joins_iff.mpr ⟨found, rfl⟩) rightDerived
    refine (chainTakes right rest following _ joined).imp (fun tree behind _ chained => ?_) id
    obtain ⟨more, rfl, whole⟩ := chained
    exact ⟨token :: (used ++ more), by simp, by simpa using whole⟩
  · intro level limit left token tail shorter operator found different _ before derived
    rw [readChain]
    simp only [found, if_neg different]
    exact ⟨[], rfl, by simpa using derived⟩
  · intro level tokens next tighter nextTakes
    rw [readOperand_of_tighter tighter, operandPhrase_of_tighter tighter]
    exact nextTakes
  · intro level tokens tightest unaryTakes
    rw [readOperand_of_tightest tightest, operandPhrase_of_tightest tightest]
    exact unaryTakes
  · intro primaryTakes
    rw [readUnary]
    refine primaryTakes.imp (fun tree rest _ taken => ?_) id
    obtain ⟨used, same, derived⟩ := taken
    exact ⟨used, same, .primary derived⟩
  · intro token tail operator found unaryTakes
    rw [readUnary]
    simp only [found, Parsed.holds_within, Parsed.holds_map]
    refine unaryTakes.imp (fun tree rest _ taken => ?_) id
    obtain ⟨used, rfl, derived⟩ := taken
    exact ⟨token :: used, rfl, .unary (leads_iff.mpr found) derived⟩
  · intro token tail foreign primaryTakes
    rw [readUnary]
    simp only [foreign]
    refine primaryTakes.imp (fun tree rest _ taken => ?_) id
    obtain ⟨used, same, derived⟩ := taken
    exact ⟨used, same, .primary derived⟩
  · rw [readPrimary]
    trivial
  · intro token tail operand made
    rw [readPrimary]
    simp only [made]
    exact ⟨[token], rfl, derives_of_ofToken? made⟩
  · intro token tail notSingle opens innerTakes
    rw [readPrimary]
    simp only [notSingle, if_pos opens]
    refine innerTakes.andThen (fun inner rest shorter taken => ?_) id
    obtain ⟨inside, rfl, derived⟩ := taken
    cases rest with
    | nil => trivial
    | cons next behind =>
        dsimp only
        split
        · next closes => exact ⟨token :: (inside ++ [next]), by simp, .group opens derived closes⟩
        · trivial
  · intro token tail notSingle notOpening
    rw [readPrimary]
    simp only [notSingle, if_neg notOpening]
    trivial

end Expression

/-! ## What is derived is read -/

namespace Grammar

/-- No operator of a rank below `bound` stands at the front.  Behind a phrase of a level such an
operator would be taken for a part of it. -/
def Closes (bound : Nat) (tokens : List Token) : Prop :=
  ∀ token ∈ tokens.head?, ∀ operator,
    BinaryOperator.ofKind? token.kind = some operator → bound ≤ operator.level.rank

theorem closes_cons {bound : Nat} {token : Token} {tail : List Token} :
    Closes bound (token :: tail) ↔ ∀ operator,
      BinaryOperator.ofKind? token.kind = some operator → bound ≤ operator.level.rank := by
  simp [Closes]

theorem Closes.mono {bound lower : Nat} {tokens : List Token} (closes : Closes bound tokens)
    (fits : lower ≤ bound) : Closes lower tokens :=
  fun token first operator found => Nat.le_trans fits (closes token first operator found)

theorem closes_of_ofKind?_eq_none {bound : Nat} {token : Token} {tail : List Token}
    (foreign : BinaryOperator.ofKind? token.kind = none) : Closes bound (token :: tail) := by
  rw [closes_cons]
  intro operator found
  rw [foreign] at found
  cases found

theorem Derives.head_of_primary {tokens : List Token} {tree : Expression}
    (derived : Derives .primary tokens tree) :
    ∃ token tail, tokens = token :: tail ∧ UnaryOperator.ofKind? token.kind = none := by
  cases derived with
  | integer | decimal | string | name => exact ⟨_, _, rfl, rfl⟩
  | truth same | falsity same | group same => exact ⟨_, _, rfl, by rw [same]; rfl⟩

end Grammar

namespace Expression

/-- A chain ends before anything but an operator of its own level. -/
private theorem readChain_gives_of_closes {level : Level} {limit : Nat} {left : Expression}
    {tokens : List Token} {shorter : tokens.length < limit}
    (closes : Closes (level.rank + 1) tokens) :
    (readChain level limit left tokens shorter).Gives left tokens := by
  cases tokens with
  | nil =>
      rw [readChain]
      exact ⟨rfl, rfl⟩
  | cons token tail =>
      rw [readChain]
      cases found : BinaryOperator.ofKind? token.kind with
      | none => exact ⟨rfl, rfl⟩
      | some operator =>
          have looser := closes_cons.mp closes operator found
          have different : operator.level ≠ level := by
            rintro rfl
            omega
          simp only [if_neg different]
          exact ⟨rfl, rfl⟩

/-- Reading a derived phrase comes down to reading on behind it.  For a chain that means going on
with the chain, since operators of its own level may follow. -/
def ReadsOn : Phrase → List Token → Expression → Prop
  | .chain level, tokens, tree =>
      ∀ (rest : List Token) (succeeds : Expression → List Token → Prop) (fails : Prop),
        Closes level.rank rest →
        (∀ limit shorter, (readChain level limit tree rest shorter).Holds succeeds fails) →
        (readLevel level (tokens ++ rest)).Holds succeeds fails
  | .unary, tokens, tree => ∀ rest, (readUnary (tokens ++ rest)).Gives tree rest
  | .primary, tokens, tree => ∀ rest, (readPrimary (tokens ++ rest)).Gives tree rest

/-- An operand is read whole when nothing tighter than its operator follows. -/
theorem readOperand_gives {level : Level} {tokens rest : List Token} {tree : Expression}
    (readsOn : ReadsOn (operandPhrase level) tokens tree) (closes : Closes level.rank rest) :
    (readOperand level (tokens ++ rest)).Gives tree rest := by
  cases tighter : level.tighter with
  | some next =>
      rw [operandPhrase_of_tighter tighter] at readsOn
      rw [readOperand_of_tighter tighter]
      have lower := Level.rank_tighter_lt tighter
      exact readsOn rest _ _ (closes.mono (Nat.le_of_lt lower))
        fun _ _ => readChain_gives_of_closes (closes.mono lower)
  | none =>
      rw [operandPhrase_of_tightest tighter] at readsOn
      rw [readOperand_of_tightest tighter]
      exact readsOn rest

end Expression

namespace Grammar

theorem Derives.readsOn {phrase : Phrase} {tokens : List Token} {tree : Expression}
    (derived : Derives phrase tokens tree) : Expression.ReadsOn phrase tokens tree := by
  induction derived with
  | integer | decimal | string | name =>
      intro rest
      rw [List.singleton_append, Expression.readPrimary]
      exact ⟨rfl, rfl⟩
  | truth same | falsity same =>
      intro rest
      rw [List.singleton_append, Expression.readPrimary]
      simp only [Expression.ofToken?, same]
      exact ⟨rfl, rfl⟩
  | @group opening closing inside inner opens _ closes ih =>
      intro rest
      rw [List.cons_append, List.append_assoc, Expression.readPrimary]
      simp only [Expression.ofToken?, opens, if_true]
      have foreign : BinaryOperator.ofKind? closing.kind = none := by rw [closes]; rfl
      have innerGives : (Expression.readLevel .disjunction (inside ++ ([closing] ++ rest))).Gives
          inner ([closing] ++ rest) :=
        ih _ _ _ (closes_of_ofKind?_eq_none foreign)
          fun _ _ => Expression.readChain_gives_of_closes (closes_of_ofKind?_eq_none foreign)
      apply innerGives.andThen
      intro shorter
      simp only [List.singleton_append, if_pos closes]
      exact ⟨rfl, rfl⟩
  | primary derived ih =>
      intro rest
      obtain ⟨token, tail, rfl, foreign⟩ := derived.head_of_primary
      rw [List.cons_append, Expression.readUnary]
      simp only [foreign]
      exact ih rest
  | unary leads _ ih =>
      intro rest
      rw [List.cons_append, Expression.readUnary]
      simp only [leads_iff.mp leads]
      exact (ih rest).map.within
  | operand _ ih =>
      intro rest succeeds fails closes chain
      rw [Expression.readLevel]
      exact (Expression.readOperand_gives ih closes).andThen fun shorter => chain _ shorter
  | @join level token operator before behind left right _ joins _ leftIH rightIH =>
      intro rest succeeds fails closes chain
      obtain ⟨found, rfl⟩ := joins_iff.mp joins
      rw [List.append_assoc, List.cons_append]
      refine leftIH _ succeeds fails ?_ fun limit shorter => ?_
      · rw [closes_cons]
        intro other same
        rw [found] at same
        cases same
        exact Nat.le_refl _
      · rw [Expression.readChain]
        simp only [found, if_true]
        exact (Expression.readOperand_gives rightIH closes).andThen fun _ => chain _ _

theorem Logic.readLevel_gives {tokens rest : List Token} {tree : Expression}
    (derived : Logic tokens tree) (closes : Closes 7 rest) :
    (Expression.readLevel .disjunction (tokens ++ rest)).Gives tree rest :=
  derived.readsOn rest _ _ (closes.mono (by decide))
    fun _ _ => Expression.readChain_gives_of_closes closes

/-- A bare name is derived from its one token only. -/
theorem Derives.eq_singleton_of_reference {phrase : Phrase} {tokens : List Token} {name : String}
    {line : Nat} (derived : Derives phrase tokens (.reference name line)) :
    tokens = [⟨.identifier, some (.text name), line⟩] := by
  generalize same : Expression.reference name line = tree at derived
  induction derived with
  | name => cases same; rfl
  | primary _ ih | operand _ ih => exact ih same
  | integer | decimal | string | truth | falsity | group | unary | join => cases same

def startsExpression (kind : TokenKind) : Bool :=
  kind.isLiteral || kind.isUnaryOperator || kind = .identifier || kind = .leftParen

theorem Derives.head {phrase : Phrase} {tokens : List Token} {tree : Expression}
    (derived : Derives phrase tokens tree) :
    ∃ token tail, tokens = token :: tail ∧ startsExpression token.kind = true := by
  induction derived with
  | integer | decimal | string | name => exact ⟨_, _, rfl, rfl⟩
  | truth same | falsity same | group same => exact ⟨_, _, rfl, by rw [same]; rfl⟩
  | primary _ ih | operand _ ih => exact ih
  | @unary token operator tokens operand leads _ _ =>
      refine ⟨token, tokens, rfl, ?_⟩
      generalize token.kind = kind at leads
      cases leads <;> rfl
  | join _ _ _ leftIH _ =>
      obtain ⟨token, tail, rfl, starts⟩ := leftIH
      exact ⟨token, _, List.cons_append, starts⟩

/-! ## Whole expressions -/

theorem read_takes (tokens : List Token) :
    (Expression.read tokens).Holds (Takes Root tokens) True := by
  unfold Expression.read
  refine (Expression.readers_take.1 .disjunction tokens).andThen
    (fun left rest shorter taken => ?_) id
  obtain ⟨used, rfl, derived⟩ := taken
  cases rest with
  | nil => exact ⟨used, rfl, .logic derived⟩
  | cons sign tail =>
      dsimp only
      split
      · next same =>
        cases left with
        | reference name line =>
            simp only [Parsed.holds_within, Parsed.holds_map]
            refine (Expression.readers_take.1 .disjunction tail).imp
              (fun value rest _ taken => ?_) id
            obtain ⟨more, rfl, valueDerived⟩ := taken
            cases derived.eq_singleton_of_reference
            exact ⟨_ :: sign :: more, rfl, .assign same valueDerived⟩
        | literal | assign | unary | binary | group => trivial
      · exact ⟨used, rfl, .logic derived⟩

theorem Root.head {tokens : List Token} {tree : Expression} (derived : Root tokens tree) :
    ∃ token tail, tokens = token :: tail ∧ startsExpression token.kind = true := by
  cases derived with
  | logic derived => exact derived.head
  | assign _ _ => exact ⟨_, _, rfl, rfl⟩

theorem Root.read_gives {tokens rest : List Token} {tree : Expression} (derived : Root tokens tree)
    (closes : Closes 7 rest) (noSign : ∀ token ∈ rest.head?, token.kind ≠ .equal) :
    (Expression.read (tokens ++ rest)).Gives tree rest := by
  cases derived with
  | logic derived =>
      unfold Expression.read
      refine (derived.readLevel_gives closes).andThen fun shorter => ?_
      cases rest with
      | nil => exact ⟨rfl, rfl⟩
      | cons token tail =>
          simp only [if_neg (noSign token rfl)]
          exact ⟨rfl, rfl⟩
  | @assign name line sign tokens value same derived =>
      unfold Expression.read
      have target : Logic [⟨.identifier, some (.text name), line⟩] (.reference name line) :=
        .operand (.operand (.operand (.operand (.operand (.operand (.primary .name))))))
      have foreign : BinaryOperator.ofKind? sign.kind = none := by rw [same]; rfl
      refine (target.readLevel_gives (closes_of_ofKind?_eq_none foreign)).andThen fun shorter => ?_
      simp only [List.cons_append, if_pos same]
      exact (derived.readLevel_gives closes).map.within

end Grammar

end LineScript
