import LineScript.Proofs.ReadingRules

/-!
Reading in front of an end.

Two token lists that part behind a common token, the stop of a `Fork`, are read alike in front of
it: with the same value or the same error, and with rests that part at the same place.  The end of
input is such a stop for every reader.  The end of a line is one where no block is open, for it
stops every reader of a phrase; only the reader of a whole statement takes it.
-/

set_option autoImplicit false

namespace LineScript

/-! ## Lists that part behind a token -/

/-- A token that two lists have in common, and what stands behind it in each.  Tokens of the
admitted kinds may stand in front of it. -/
structure Fork where
  stop : Token
  behind : List Token
  other : List Token
  admits : TokenKind → Prop
  ends : stop.kind = .inputEnd ∨ stop.kind = .lineEnd ∧ ¬ admits .leftBrace

namespace Fork

variable {fork : Fork} {tokens others rest otherRest : List Token}

/-- The two lists are the same up to the stop of the fork. -/
inductive Aligned (fork : Fork) : List Token → List Token → Prop where
  | stop : Aligned fork (fork.stop :: fork.behind) (fork.stop :: fork.other)
  | cons {token : Token} {tokens others : List Token} :
      fork.admits token.kind → Aligned fork tokens others →
      Aligned fork (token :: tokens) (token :: others)

theorem ne_stop (fork : Fork) {token : Token} (notInputEnd : token.kind ≠ .inputEnd)
    (notLineEnd : token.kind ≠ .lineEnd) : token ≠ fork.stop := by
  intro same
  rcases fork.ends with ends | ⟨ends, _⟩
  · exact notInputEnd (same ▸ ends)
  · exact notLineEnd (same ▸ ends)

/-- What is found by a kind that neither end has is found in front of the stop. -/
private theorem ne_stop_of_some (fork : Fork) {α : Type} (find : TokenKind → Option α)
    {token : Token}
    {value : α} (found : find token.kind = some value) (inputEnd : find .inputEnd = none)
    (lineEnd : find .lineEnd = none) : token ≠ fork.stop := by
  apply fork.ne_stop
  · intro same
    rw [same, inputEnd] at found
    cases found
  · intro same
    rw [same, lineEnd] at found
    cases found

private theorem inputEnd_of_admits (fork : Fork) (opens : fork.admits .leftBrace) :
    fork.stop.kind = .inputEnd :=
  fork.ends.resolve_right fun lineEnd => lineEnd.2 opens

private theorem ne_stop_of_kind (fork : Fork) {token : Token} {kind : TokenKind}
    (same : token.kind = kind) (notInputEnd : kind ≠ .inputEnd) (notLineEnd : kind ≠ .lineEnd) :
    token ≠ fork.stop :=
  fork.ne_stop (same ▸ notInputEnd) (same ▸ notLineEnd)

namespace Aligned

theorem nextKind?_eq (aligned : fork.Aligned tokens others) :
    nextKind? tokens = nextKind? others := by
  cases aligned with
  | stop => rfl
  | cons _ _ => rfl

theorem head {token : Token} {tail : List Token} (aligned : fork.Aligned (token :: tail) others) :
    ∃ otherTail, others = token :: otherTail := by
  cases aligned with
  | stop => exact ⟨_, rfl⟩
  | cons _ _ => exact ⟨_, rfl⟩

theorem tail {token : Token} {tail otherTail : List Token}
    (aligned : fork.Aligned (token :: tail) (token :: otherTail)) (inside : token ≠ fork.stop) :
    fork.Aligned tail otherTail := by
  cases aligned with
  | stop => exact absurd rfl inside
  | cons _ aligned => exact aligned

/-- Aligned lists differ in length by what stands behind the stop. -/
theorem length_eq (aligned : fork.Aligned tokens others) :
    tokens.length + fork.other.length = others.length + fork.behind.length := by
  induction aligned with
  | stop =>
      simp only [List.length_cons]
      omega
  | cons _ _ ih =>
      simp only [List.length_cons]
      omega

/-- A brace in front of the stop tells that the stop is the end of input. -/
theorem ne_leftBrace {token : Token} {tail : List Token}
    (aligned : fork.Aligned (token :: tail) others) (closed : ¬ fork.admits .leftBrace) :
    token.kind ≠ .leftBrace := by
  intro opens
  cases aligned with
  | stop => exact fork.ne_stop_of_kind opens (by decide) (by decide) rfl
  | cons admitted _ => exact closed (opens ▸ admitted)

theorem length_le_iff (first : fork.Aligned tokens others) (second : fork.Aligned rest otherRest) :
    rest.length ≤ tokens.length ↔ otherRest.length ≤ others.length := by
  have outer := first.length_eq
  have inner := second.length_eq
  omega

theorem of_append (fork : Fork) {front : List Token}
    (admitted : ∀ token ∈ front, fork.admits token.kind) :
    fork.Aligned (front ++ fork.stop :: fork.behind) (front ++ fork.stop :: fork.other) := by
  induction front with
  | nil => exact .stop
  | cons token front ih =>
      have here := List.forall_mem_cons.mp admitted
      exact .cons here.1 (ih here.2)

end Aligned

end Fork

/-! ## Results that say the same -/

/-- The same value or the same error, with aligned rests.  The error is never that the tokens ran
out, since there is always the stop. -/
inductive Parsed.Mirrors {α : Type} {limit otherLimit : Nat} (fork : Fork) :
    Parsed α limit → Parsed α otherLimit → Prop where
  | success {value : α} {rest others : List Token} {shorter : rest.length < limit}
      {otherShorter : others.length < otherLimit} :
      fork.Aligned rest others →
      Mirrors fork (.success value rest shorter) (.success value others otherShorter)
  | failure {error : GrammarError} {rest others : List Token} {bounded : rest.length ≤ limit}
      {otherBounded : others.length ≤ otherLimit} :
      error ≠ .unexpectedEndOfInput → fork.Aligned rest others →
      Mirrors fork (.failure error rest bounded) (.failure error others otherBounded)

/-- Recorded errors are the same too.  There are none where no block can be opened. -/
structure Recorded.Mirrors {α : Type} {limit otherLimit : Nat} (fork : Fork)
    (result : Recorded α limit) (other : Recorded α otherLimit) : Prop where
  outcome : result.outcome.Mirrors fork other.outcome
  errors_eq : result.errors = other.errors
  notExhausted : .unexpectedEndOfInput ∉ result.errors
  errors_eq_nil : ¬ fork.admits .leftBrace → result.errors = []

structure Listing.Mirrors {limit otherLimit : Nat} (fork : Fork) (listing : Listing limit)
    (other : Listing otherLimit) : Prop where
  statements_eq : listing.statements = other.statements
  errors_eq : listing.errors = other.errors
  notExhausted : .unexpectedEndOfInput ∉ listing.errors
  rest : fork.Aligned listing.rest other.rest

namespace Parsed

variable {α β : Type} {inner limit otherInner otherLimit : Nat} {fork : Fork}
  {result : Parsed α inner} {other : Parsed α otherInner}

theorem Mirrors.within (mirrors : result.Mirrors fork other) (fits : inner ≤ limit)
    (otherFits : otherInner ≤ otherLimit) :
    (result.within fits).Mirrors fork (other.within otherFits) := by
  cases mirrors with
  | success aligned => exact .success aligned
  | failure known aligned => exact .failure known aligned

theorem Mirrors.map {change : α → β} (mirrors : result.Mirrors fork other) :
    (result.map change).Mirrors fork (other.map change) := by
  cases mirrors with
  | success aligned => exact .success aligned
  | failure known aligned => exact .failure known aligned

theorem Mirrors.andThen {fits : inner ≤ limit} {otherFits : otherInner ≤ otherLimit}
    {next : (value : α) → (rest : List Token) → rest.length < inner → Parsed β limit}
    {otherNext : (value : α) → (rest : List Token) → rest.length < otherInner →
      Parsed β otherLimit}
    (mirrors : result.Mirrors fork other)
    (onSuccess : ∀ value rest others shorter otherShorter, fork.Aligned rest others →
      (next value rest shorter).Mirrors fork (otherNext value others otherShorter)) :
    (result.andThen fits next).Mirrors fork (other.andThen otherFits otherNext) := by
  cases mirrors with
  | success aligned => exact onSuccess _ _ _ _ _ aligned
  | failure known aligned => exact .failure known aligned

theorem Mirrors.bind
    {next : (value : α) → (rest : List Token) → rest.length < inner → Parsed β rest.length}
    {otherNext : (value : α) → (rest : List Token) → rest.length < otherInner →
      Parsed β rest.length}
    (mirrors : result.Mirrors fork other)
    (onSuccess : ∀ value rest others shorter otherShorter, fork.Aligned rest others →
      (next value rest shorter).Mirrors fork (otherNext value others otherShorter)) :
    (result.bind next).Mirrors fork (other.bind otherNext) :=
  mirrors.andThen fun value rest others shorter otherShorter aligned =>
    (onSuccess value rest others shorter otherShorter aligned).within _ _

theorem Mirrors.record (mirrors : result.Mirrors fork other) :
    result.record.Mirrors fork other.record :=
  ⟨mirrors, rfl, List.not_mem_nil, fun _ => rfl⟩

end Parsed

namespace Recorded

variable {α β : Type} {inner limit otherInner otherLimit : Nat} {fork : Fork}
  {result : Recorded α inner} {other : Recorded α otherInner}

theorem Mirrors.within (mirrors : result.Mirrors fork other) (fits : inner ≤ limit)
    (otherFits : otherInner ≤ otherLimit) :
    (result.within fits).Mirrors fork (other.within otherFits) :=
  ⟨mirrors.outcome.within fits otherFits, mirrors.errors_eq, mirrors.notExhausted,
    mirrors.errors_eq_nil⟩

theorem Mirrors.map {change : α → β} (mirrors : result.Mirrors fork other) :
    (result.map change).Mirrors fork (other.map change) :=
  ⟨mirrors.outcome.map, mirrors.errors_eq, mirrors.notExhausted, mirrors.errors_eq_nil⟩

theorem Mirrors.andThen {fits : inner ≤ limit} {otherFits : otherInner ≤ otherLimit}
    {next : (value : α) → (rest : List Token) → rest.length < inner → Recorded β limit}
    {otherNext : (value : α) → (rest : List Token) → rest.length < otherInner →
      Recorded β otherLimit}
    (mirrors : result.Mirrors fork other)
    (onSuccess : ∀ value rest others shorter otherShorter, fork.Aligned rest others →
      (next value rest shorter).Mirrors fork (otherNext value others otherShorter)) :
    (result.andThen fits next).Mirrors fork (other.andThen otherFits otherNext) := by
  obtain ⟨outcome, errors⟩ := result
  obtain ⟨otherOutcome, otherErrors⟩ := other
  obtain ⟨mirrored, rfl, notExhausted, nothing⟩ := mirrors
  cases mirrored with
  | @success value rest others shorter otherShorter aligned =>
      have next := onSuccess value rest others shorter otherShorter aligned
      constructor
      · exact next.outcome
      · exact congrArg (errors ++ ·) next.errors_eq
      · exact List.not_mem_append notExhausted next.notExhausted
      · exact fun closed => List.append_eq_nil_iff.mpr ⟨nothing closed, next.errors_eq_nil closed⟩
  | failure known aligned => exact ⟨.failure known aligned, rfl, notExhausted, nothing⟩

theorem Mirrors.bind
    {next : (value : α) → (rest : List Token) → rest.length < inner → Recorded β rest.length}
    {otherNext : (value : α) → (rest : List Token) → rest.length < otherInner →
      Recorded β rest.length}
    (mirrors : result.Mirrors fork other)
    (onSuccess : ∀ value rest others shorter otherShorter, fork.Aligned rest others →
      (next value rest shorter).Mirrors fork (otherNext value others otherShorter)) :
    (result.bind next).Mirrors fork (other.bind otherNext) :=
  mirrors.andThen fun value rest others shorter otherShorter aligned =>
    (onSuccess value rest others shorter otherShorter aligned).within _ _

end Recorded

namespace Listing

variable {inner limit otherInner otherLimit : Nat} {fork : Fork}
  {listing : Listing inner} {other : Listing otherInner}

theorem Mirrors.within (mirrors : listing.Mirrors fork other) (fits : inner ≤ limit)
    (otherFits : otherInner ≤ otherLimit) :
    (listing.within fits).Mirrors fork (other.within otherFits) :=
  ⟨mirrors.statements_eq, mirrors.errors_eq, mirrors.notExhausted, mirrors.rest⟩

theorem Mirrors.prepend {statements : List Statement} {errors : List GrammarError}
    (mirrors : listing.Mirrors fork other) (notExhausted : .unexpectedEndOfInput ∉ errors) :
    (listing.prepend statements errors).Mirrors fork (other.prepend statements errors) where
  statements_eq := congrArg (statements ++ ·) mirrors.statements_eq
  errors_eq := congrArg (errors ++ ·) mirrors.errors_eq
  notExhausted := List.not_mem_append notExhausted mirrors.notExhausted
  rest := mirrors.rest

/-- The stop closes no block. -/
theorem Mirrors.close {opening : Token} (mirrors : listing.Mirrors fork other)
    (opens : fork.admits .leftBrace) :
    (listing.close opening).Mirrors fork (other.close opening) := by
  obtain ⟨statements, errors, rest, bounded⟩ := listing
  obtain ⟨otherStatements, otherErrors, otherRest, otherBounded⟩ := other
  obtain ⟨rfl, rfl, notExhausted, aligned⟩ := mirrors
  refine ⟨?_, rfl, notExhausted, fun closed => absurd opens closed⟩
  cases rest with
  | nil => cases aligned
  | cons token tail =>
      obtain ⟨otherTail, rfl⟩ := aligned.head
      simp only [Listing.close]
      split
      · next closes =>
        exact .success (aligned.tail (fork.ne_stop_of_kind closes (by decide) (by decide)))
      · exact .failure (by simp) aligned

end Listing

/-! ## Phrases -/

section Phrases

variable {fork : Fork} {tokens others : List Token}

/-- A token that is no end is taken from both lists or from neither. -/
private theorem expect_mirrors (kind : TokenKind) (aligned : fork.Aligned tokens others)
    (notInputEnd : kind ≠ .inputEnd) (notLineEnd : kind ≠ .lineEnd) :
    (expect kind tokens).Mirrors fork (expect kind others) := by
  cases tokens with
  | nil => cases aligned
  | cons token tail =>
      obtain ⟨otherTail, rfl⟩ := aligned.head
      simp only [expect]
      split
      · next same =>
        exact .success (aligned.tail (fork.ne_stop_of_kind same notInputEnd notLineEnd))
      · exact .failure (by simp) aligned

namespace Expression

private theorem ne_stop_of_ofToken? {token : Token} {operand : Expression}
    (made : ofToken? token = some operand) : token ≠ fork.stop :=
  fork.ne_stop_of_some (fun kind => ofToken? ⟨kind, token.payload, token.line⟩) made rfl rfl

/-- No reader of expressions takes the stop, or looks behind it. -/
theorem readers_mirror (fork : Fork) :
    (∀ level tokens others, fork.Aligned tokens others →
      (readLevel level tokens).Mirrors fork (readLevel level others)) ∧
    (∀ level limit left tokens shorter otherLimit others otherShorter,
      fork.Aligned tokens others →
      (readChain level limit left tokens shorter).Mirrors fork
        (readChain level otherLimit left others otherShorter)) ∧
    (∀ level tokens others, fork.Aligned tokens others →
      (readOperand level tokens).Mirrors fork (readOperand level others)) ∧
    (∀ tokens others, fork.Aligned tokens others →
      (readUnary tokens).Mirrors fork (readUnary others)) ∧
    (∀ tokens others, fork.Aligned tokens others →
      (readPrimary tokens).Mirrors fork (readPrimary others)) := by
  apply readLevel.mutual_induct
  · intro level tokens operandMirrors chainMirrors others aligned
    rw [readLevel, readLevel]
    apply (operandMirrors others aligned).andThen
    intro left rest otherRest shorter otherShorter behind
    exact chainMirrors left rest shorter _ _ _ behind
  · intro level limit left shorter _ otherLimit others otherShorter aligned
    cases aligned
  · intro level limit left token tail shorter foreign _ otherLimit others otherShorter aligned
    obtain ⟨otherTail, rfl⟩ := aligned.head
    rw [readChain, readChain]
    simp only [foreign]
    exact .success aligned
  · intro limit left token tail shorter operator found _ operandMirrors chainMirrors
      otherLimit others otherShorter aligned
    obtain ⟨otherTail, rfl⟩ := aligned.head
    have behind := aligned.tail (fork.ne_stop_of_some BinaryOperator.ofKind? found rfl rfl)
    rw [readChain, readChain]
    simp only [found, if_true]
    apply (operandMirrors otherTail behind).andThen
    intro right rest otherRest following otherFollowing behind
    exact chainMirrors right rest following _ _ _ behind
  · intro level limit left token tail shorter operator found different _
      otherLimit others otherShorter aligned
    obtain ⟨otherTail, rfl⟩ := aligned.head
    rw [readChain, readChain]
    simp only [found, if_neg different]
    exact .success aligned
  · intro level tokens next tighter nextMirrors others aligned
    rw [readOperand_of_tighter tighter, readOperand_of_tighter tighter]
    exact nextMirrors others aligned
  · intro level tokens tightest unaryMirrors others aligned
    rw [readOperand_of_tightest tightest, readOperand_of_tightest tightest]
    exact unaryMirrors others aligned
  · intro _ others aligned
    cases aligned
  · intro token tail operator found unaryMirrors others aligned
    obtain ⟨otherTail, rfl⟩ := aligned.head
    have behind := aligned.tail (fork.ne_stop_of_some UnaryOperator.ofKind? found rfl rfl)
    rw [readUnary, readUnary]
    simp only [found]
    exact (unaryMirrors otherTail behind).map.within _ _
  · intro token tail foreign primaryMirrors others aligned
    obtain ⟨otherTail, rfl⟩ := aligned.head
    rw [readUnary, readUnary]
    simp only [foreign]
    exact primaryMirrors (token :: otherTail) aligned
  · intro others aligned
    cases aligned
  · intro token tail operand made others aligned
    obtain ⟨otherTail, rfl⟩ := aligned.head
    have behind := aligned.tail (ne_stop_of_ofToken? made)
    rw [readPrimary, readPrimary]
    simp only [made]
    exact .success behind
  · intro token tail notSingle opens innerMirrors others aligned
    obtain ⟨otherTail, rfl⟩ := aligned.head
    have behind := aligned.tail (fork.ne_stop_of_kind opens (by decide) (by decide))
    rw [readPrimary, readPrimary]
    simp only [notSingle, if_pos opens]
    apply (innerMirrors otherTail behind).andThen
    intro inner rest otherRest shorter otherShorter aligned
    cases rest with
    | nil => cases aligned
    | cons next rest =>
        obtain ⟨otherRest, rfl⟩ := aligned.head
        dsimp only
        split
        · next closes =>
          exact .success (aligned.tail (fork.ne_stop_of_kind closes (by decide) (by decide)))
        · exact .failure (by simp) aligned
  · intro token tail notSingle notOpening others aligned
    obtain ⟨otherTail, rfl⟩ := aligned.head
    rw [readPrimary, readPrimary]
    simp only [notSingle, if_neg notOpening]
    exact .failure (by simp) aligned

private theorem read_mirrors (aligned : fork.Aligned tokens others) :
    (read tokens).Mirrors fork (read others) := by
  apply ((readers_mirror fork).1 .disjunction tokens others aligned).andThen
  intro left rest otherRest shorter otherShorter aligned
  cases rest with
  | nil => cases aligned
  | cons token tail =>
      obtain ⟨otherTail, rfl⟩ := aligned.head
      dsimp only
      split
      · next assigns =>
        have behind := aligned.tail (fork.ne_stop_of_kind assigns (by decide) (by decide))
        cases left with
        | reference name line =>
            exact ((readers_mirror fork).1 .disjunction tail otherTail behind).map.within _ _
        | literal | assign | unary | binary | group => exact .failure (by simp) behind
      · exact .success aligned

end Expression

namespace Statement

private theorem readName_mirrors (aligned : fork.Aligned tokens others) :
    (readName tokens).Mirrors fork (readName others) :=
  (expect_mirrors .identifier aligned (by decide) (by decide)).map

private theorem readDeclaration_mirrors (aligned : fork.Aligned tokens others) :
    (readDeclaration tokens).Mirrors fork (readDeclaration others) := by
  apply (expect_mirrors .varWord aligned (by decide) (by decide)).bind
  intro _ rest otherRest _ _ aligned
  apply (readName_mirrors aligned).bind
  intro target rest otherRest _ _ aligned
  apply (expect_mirrors .equal aligned (by decide) (by decide)).bind
  intro _ rest otherRest _ _ aligned
  exact ((Expression.readers_mirror fork).1 .disjunction rest otherRest aligned).map

private theorem readPrint_mirrors (aligned : fork.Aligned tokens others)
    (kind : nextKind? tokens = some .printWord ∨ nextKind? tokens = some .printlnWord) :
    (readPrint tokens).Mirrors fork (readPrint others) := by
  cases tokens with
  | nil => cases aligned
  | cons keyword tail =>
      obtain ⟨otherTail, rfl⟩ := aligned.head
      have inside : keyword ≠ fork.stop := by
        rcases kind with prints | prints
        · exact fork.ne_stop_of_kind (Option.some.inj prints) (by decide) (by decide)
        · exact fork.ne_stop_of_kind (Option.some.inj prints) (by decide) (by decide)
      have behind := aligned.tail inside
      apply Parsed.Mirrors.map
      simp only [readPrinted, behind.nextKind?_eq]
      split
      · exact .success behind
      · exact .success behind
      · exact .success behind
      · exact .success behind
      · exact (Expression.read_mirrors behind).within _ _

private theorem readLoopStart_mirrors {limit otherLimit : Nat} {shorter : tokens.length < limit}
    {otherShorter : others.length < otherLimit} (aligned : fork.Aligned tokens others) :
    (readLoopStart limit tokens shorter).Mirrors fork
      (readLoopStart otherLimit others otherShorter) := by
  simp only [readLoopStart, aligned.nextKind?_eq]
  split
  · exact (readDeclaration_mirrors aligned).map.within _ _
  · exact .success aligned

private theorem readLoopStep_mirrors {limit otherLimit : Nat} {shorter : tokens.length < limit}
    {otherShorter : others.length < otherLimit} (aligned : fork.Aligned tokens others) :
    (readLoopStep limit tokens shorter).Mirrors fork
      (readLoopStep otherLimit others otherShorter) := by
  simp only [readLoopStep, aligned.nextKind?_eq]
  split
  · apply Parsed.Mirrors.within
    apply (readName_mirrors aligned).bind
    intro target rest otherRest _ _ aligned
    apply (expect_mirrors .equal aligned (by decide) (by decide)).bind
    intro _ rest otherRest _ _ aligned
    exact ((Expression.readers_mirror fork).1 .disjunction rest otherRest aligned).map
  · exact .success aligned

private theorem readLoopHeader_mirrors (aligned : fork.Aligned tokens others) :
    (readLoopHeader tokens).Mirrors fork (readLoopHeader others) := by
  apply (expect_mirrors .forWord aligned (by decide) (by decide)).bind
  intro _ rest otherRest _ _ aligned
  apply (expect_mirrors .leftParen aligned (by decide) (by decide)).andThen
  intro _ opened otherOpened _ _ aligned
  apply (readLoopStart_mirrors aligned).bind
  intro start rest otherRest _ _ aligned
  apply (expect_mirrors .semicolon aligned (by decide) (by decide)).bind
  intro _ rest otherRest _ _ aligned
  apply ((Expression.readers_mirror fork).1 .disjunction rest otherRest aligned).bind
  intro condition rest otherRest _ _ aligned
  apply (expect_mirrors .semicolon aligned (by decide) (by decide)).andThen
  intro _ opened otherOpened _ _ aligned
  apply (readLoopStep_mirrors aligned).bind
  intro step rest otherRest _ _ aligned
  exact (expect_mirrors .rightParen aligned (by decide) (by decide)).map

/-! ## Statements -/

/-- The end of input is left to the list that the statement stands in. -/
private theorem readEnd_mirrors {statement : Statement} {limit otherLimit : Nat}
    {shorter : tokens.length < limit} {otherShorter : others.length < otherLimit}
    (ends : fork.stop.kind = .inputEnd) (aligned : fork.Aligned tokens others) :
    (readEnd statement limit tokens shorter).Mirrors fork
      (readEnd statement otherLimit others otherShorter) := by
  cases tokens with
  | nil => cases aligned
  | cons token tail =>
      obtain ⟨otherTail, rfl⟩ := aligned.head
      simp only [readEnd]
      split
      · next lineEnd =>
        have inside : token ≠ fork.stop := by
          rintro rfl
          rw [ends] at lineEnd
          cases lineEnd
        exact .success (aligned.tail inside)
      · exact .success aligned
      · exact .success aligned
      · exact .failure (by simp) aligned

private theorem readBlock_mirrors
    (listMirrors : ∀ inside : List Token, inside.length < tokens.length →
      fork.stop.kind = .inputEnd → ∀ otherInside, fork.Aligned inside otherInside →
      (readList true inside).Mirrors fork (readList true otherInside))
    (aligned : fork.Aligned tokens others) :
    (readBlock tokens).Mirrors fork (readBlock others) := by
  rw [readBlock, readBlock]
  by_cases opens : fork.admits .leftBrace
  · apply (expect_mirrors .leftBrace aligned (by decide) (by decide)).record.bind
    intro opening inside otherInside shorter _ aligned
    exact (listMirrors inside shorter (fork.inputEnd_of_admits opens) otherInside aligned).close
      opens
  · cases tokens with
    | nil => cases aligned
    | cons token tail =>
        obtain ⟨otherTail, rfl⟩ := aligned.head
        have different := aligned.ne_leftBrace opens
        simp only [expect, if_neg different]
        exact Parsed.Mirrors.record (.failure (by simp) aligned)

private theorem readLoop_mirrors
    (blockMirrors : ∀ rest : List Token, rest.length < tokens.length →
      ∀ otherRest, fork.Aligned rest otherRest →
      (readBlock rest).Mirrors fork (readBlock otherRest))
    (aligned : fork.Aligned tokens others) : (readLoop tokens).Mirrors fork (readLoop others) := by
  rw [readLoop, readLoop]
  apply (readLoopHeader_mirrors aligned).record.bind
  intro header rest otherRest shorter _ aligned
  exact (blockMirrors rest shorter otherRest aligned).map

private theorem readBranch_mirrors
    (blockMirrors : ∀ condition : List Token, condition.length < tokens.length →
      ∀ block : List Token, block.length < condition.length →
      ∀ otherBlock, fork.Aligned block otherBlock →
        (readBlock block).Mirrors fork (readBlock otherBlock))
    (elseMirrors : ∀ condition : List Token, condition.length < tokens.length →
      ∀ block : List Token, block.length < condition.length →
      ∀ (_ : List Token) (token : Token) (tail : List Token),
        (token :: tail).length < block.length → ∀ otherTail, fork.Aligned tail otherTail →
        (readElse tail).Mirrors fork (readElse otherTail))
    (aligned : fork.Aligned tokens others) :
    (readBranch tokens).Mirrors fork (readBranch others) := by
  rw [readBranch, readBranch]
  apply (expect_mirrors .ifWord aligned (by decide) (by decide)).record.bind
  intro _ rest otherRest shorter _ aligned
  apply ((Expression.readers_mirror fork).1 .disjunction rest otherRest aligned).record.bind
  intro condition rest otherRest shorter' _ aligned
  apply (blockMirrors _ shorter _ shorter' otherRest aligned).andThen
  intro thenBranch behind otherBehind shorter'' _ aligned
  cases behind with
  | nil => cases aligned
  | cons other tail =>
      obtain ⟨otherTail, rfl⟩ := aligned.head
      dsimp only
      split
      · next otherwise =>
        have behind := aligned.tail (fork.ne_stop_of_kind otherwise (by decide) (by decide))
        exact (elseMirrors _ shorter _ shorter' [] other tail shorter'' otherTail
          behind).map.within _ _
      · exact Parsed.Mirrors.record (.success aligned)

private theorem synchronize_aligned {nested : Bool} (ends : fork.stop.kind = .inputEnd)
    (aligned : fork.Aligned tokens others) :
    fork.Aligned (synchronize nested tokens) (synchronize nested others) := by
  induction aligned with
  | stop =>
      simp only [synchronize, ends]
      exact .stop
  | cons admitted aligned ih =>
      simp only [synchronize]
      split
      · exact aligned
      · exact .cons admitted aligned
      · exact .cons admitted aligned
      · split
        · exact .cons admitted aligned
        · exact ih
      · exact ih

private theorem resume_aligned {nested : Bool} {tail otherTail : List Token}
    (ends : fork.stop.kind = .inputEnd) (aligned : fork.Aligned tokens others)
    (behind : fork.Aligned tail otherTail) :
    fork.Aligned (resume nested tail tokens) (resume nested otherTail others) := by
  unfold resume
  simp only [behind.length_le_iff aligned]
  apply synchronize_aligned ends
  split
  · exact aligned
  · exact behind

section Lists

variable {nested : Bool} {token : Token} {tail rest : List Token}

private theorem readList_mirrors_success {statement : Statement}
    {shorter : rest.length < (token :: tail).length}
    (success : (read (token :: tail)).outcome = .success statement rest shorter)
    (notLineEnd : token.kind ≠ .lineEnd) (notInputEnd : token.kind ≠ .inputEnd)
    (notRightBrace : token.kind ≠ .rightBrace)
    (readMirrors : ∀ others, fork.Aligned (token :: tail) others →
      (read (token :: tail)).Mirrors fork (read others))
    (listMirrors : ∀ otherRest, fork.Aligned rest otherRest →
      (readList nested rest).Mirrors fork (readList nested otherRest))
    (aligned : fork.Aligned (token :: tail) others) :
    (readList nested (token :: tail)).Mirrors fork (readList nested others) := by
  obtain ⟨otherTail, rfl⟩ := aligned.head
  obtain ⟨mirrored, errors_eq, notExhausted, _⟩ := readMirrors _ aligned
  rw [success] at mirrored
  generalize otherSuccess : (read (token :: otherTail)).outcome = otherOutcome at mirrored
  cases mirrored with
  | success behind =>
      rw [readList_success notLineEnd notInputEnd notRightBrace success,
        readList_success notLineEnd notInputEnd notRightBrace otherSuccess, ← errors_eq]
      exact ((listMirrors _ behind).prepend notExhausted).within _ _

private theorem readList_mirrors_failure {error : GrammarError}
    {bounded : rest.length ≤ (token :: tail).length}
    (failure : (read (token :: tail)).outcome = .failure error rest bounded)
    (notLineEnd : token.kind ≠ .lineEnd) (notInputEnd : token.kind ≠ .inputEnd)
    (notRightBrace : token.kind ≠ .rightBrace) (ends : fork.stop.kind = .inputEnd)
    (readMirrors : ∀ others, fork.Aligned (token :: tail) others →
      (read (token :: tail)).Mirrors fork (read others))
    (listMirrors : ∀ otherRest, fork.Aligned (resume nested tail rest) otherRest →
      (readList nested (resume nested tail rest)).Mirrors fork (readList nested otherRest))
    (aligned : fork.Aligned (token :: tail) others) :
    (readList nested (token :: tail)).Mirrors fork (readList nested others) := by
  obtain ⟨otherTail, rfl⟩ := aligned.head
  have tails := aligned.tail (fork.ne_stop notInputEnd notLineEnd)
  obtain ⟨mirrored, errors_eq, notExhausted, _⟩ := readMirrors _ aligned
  rw [failure] at mirrored
  generalize otherFailure : (read (token :: otherTail)).outcome = otherOutcome at mirrored
  cases mirrored with
  | failure known behind =>
      have recorded : .unexpectedEndOfInput ∉ (read (token :: tail)).errors ++ [error] :=
        List.not_mem_append notExhausted (fun member => known (List.mem_singleton.mp member).symm)
      rw [readList_failure notLineEnd notInputEnd notRightBrace failure,
        readList_failure notLineEnd notInputEnd notRightBrace otherFailure, ← errors_eq]
      exact ((listMirrors _ (resume_aligned ends behind tails)).prepend recorded).within _ _

end Lists

/-- No reader takes the stop or looks behind it, but for that of a statement and its line end. -/
theorem readers_mirror (fork : Fork) :
    (∀ tokens, fork.stop.kind = .inputEnd → ∀ others, fork.Aligned tokens others →
      (read tokens).Mirrors fork (read others)) ∧
    (∀ tokens others, fork.Aligned tokens others →
      (readOpen tokens).Mirrors fork (readOpen others)) ∧
    (∀ tokens others, fork.Aligned tokens others →
      (readBlock tokens).Mirrors fork (readBlock others)) ∧
    (∀ nested tokens, fork.stop.kind = .inputEnd → ∀ others, fork.Aligned tokens others →
      (readList nested tokens).Mirrors fork (readList nested others)) ∧
    (∀ tokens others, fork.Aligned tokens others →
      (readLoop tokens).Mirrors fork (readLoop others)) ∧
    (∀ tokens others, fork.Aligned tokens others →
      (readBranch tokens).Mirrors fork (readBranch others)) ∧
    (∀ tokens others, fork.Aligned tokens others →
      (readElse tokens).Mirrors fork (readElse others)) := by
  apply read.mutual_induct
  · intro tokens openMirrors ends others aligned
    rw [read, read]
    apply (openMirrors others aligned).andThen
    intro statement rest otherRest shorter _ aligned
    exact (readEnd_mirrors ends aligned).record
  · intro tokens kind others aligned
    have otherKind := aligned.nextKind?_eq ▸ kind
    rw [readOpen_declaration kind, readOpen_declaration otherKind]
    exact (readDeclaration_mirrors aligned).record
  · intro tokens kind others aligned
    have otherKind := aligned.nextKind?_eq ▸ kind
    rw [readOpen_print (.inl kind), readOpen_print (.inl otherKind)]
    exact (readPrint_mirrors aligned (.inl kind)).record
  · intro tokens kind others aligned
    have otherKind := aligned.nextKind?_eq ▸ kind
    rw [readOpen_print (.inr kind), readOpen_print (.inr otherKind)]
    exact (readPrint_mirrors aligned (.inr kind)).record
  · intro tokens kind branchMirrors others aligned
    have otherKind := aligned.nextKind?_eq ▸ kind
    rw [readOpen_branch kind, readOpen_branch otherKind]
    exact branchMirrors others aligned
  · intro tokens kind loopMirrors others aligned
    have otherKind := aligned.nextKind?_eq ▸ kind
    rw [readOpen_loop kind, readOpen_loop otherKind]
    exact loopMirrors others aligned
  · intro tokens kind blockMirrors others aligned
    have otherKind := aligned.nextKind?_eq ▸ kind
    rw [readOpen_block kind, readOpen_block otherKind]
    exact blockMirrors others aligned
  · intro tokens kind others aligned
    have otherKind := aligned.nextKind?_eq ▸ kind
    rw [readOpen, readOpen]
    simp only [kind, otherKind]
    apply Parsed.Mirrors.record
    apply (expect_mirrors .elseWord aligned (by decide) (by decide)).andThen
    intro token rest otherRest _ _ aligned
    exact .failure (by simp) aligned
  · intro tokens notVar notPrint notPrintln notIf notFor notLeftBrace notElse others aligned
    rw [readOpen_expression notVar notPrint notPrintln notIf notFor notLeftBrace notElse]
    rw [aligned.nextKind?_eq] at notVar notPrint notPrintln notIf notFor notLeftBrace notElse
    rw [readOpen_expression notVar notPrint notPrintln notIf notFor notLeftBrace notElse]
    exact (Expression.read_mirrors aligned).map.record
  · exact fun tokens listMirrors others => readBlock_mirrors listMirrors
  · intro nested ends others aligned
    cases aligned
  · intro nested token tail lineEnd listMirrors ends others aligned
    obtain ⟨otherTail, rfl⟩ := aligned.head
    have inside : token ≠ fork.stop := by
      rintro rfl
      rw [ends] at lineEnd
      cases lineEnd
    rw [readList_lineEnd lineEnd, readList_lineEnd lineEnd]
    exact (listMirrors ends otherTail (aligned.tail inside)).within _ _
  · intro nested token tail inputEnd _ others aligned
    obtain ⟨otherTail, rfl⟩ := aligned.head
    rw [readList_stop (.inl inputEnd), readList_stop (.inl inputEnd)]
    exact ⟨rfl, rfl, List.not_mem_nil, aligned⟩
  · intro token tail closes _ others aligned
    obtain ⟨otherTail, rfl⟩ := aligned.head
    rw [readList_stop (.inr ⟨rfl, closes⟩), readList_stop (.inr ⟨rfl, closes⟩)]
    exact ⟨rfl, rfl, List.not_mem_nil, aligned⟩
  · intro nested token tail closes outermost listMirrors ends others aligned
    obtain ⟨otherTail, rfl⟩ := aligned.head
    have behind := aligned.tail (fork.ne_stop_of_kind closes (by decide) (by decide))
    rw [readList_unbalanced closes outermost, readList_unbalanced closes outermost]
    exact ((listMirrors ends otherTail behind).prepend (by simp)).within _ _
  · intro nested token tail result statement rest shorter success notLineEnd notInputEnd
      notRightBrace readMirrors listMirrors ends others
    exact readList_mirrors_success success notLineEnd notInputEnd notRightBrace
      (readMirrors ends) (listMirrors ends)
  · intro nested token tail result error rest bounded failure notLineEnd notInputEnd
      notRightBrace readMirrors listMirrors ends others
    exact readList_mirrors_failure failure notLineEnd notInputEnd notRightBrace ends
      (readMirrors ends) (listMirrors ends)
  · exact fun tokens blockMirrors others => readLoop_mirrors blockMirrors
  · exact fun tokens blockMirrors elseMirrors others => readBranch_mirrors blockMirrors elseMirrors
  · intro tokens kind branchMirrors others aligned
    have otherKind := aligned.nextKind?_eq ▸ kind
    rw [readElse, readElse, if_pos kind, if_pos otherKind]
    exact branchMirrors others aligned
  · intro tokens kind blockMirrors others aligned
    have otherKind := aligned.nextKind?_eq ▸ kind
    rw [readElse, readElse, if_neg kind, if_neg otherKind]
    exact blockMirrors others aligned

end Statement

end Phrases

end LineScript
