import LineScript.Proofs.Reading.Lines

/-!
Reading uses tokens up.

What a reader leaves is an end of the tokens it was given, after a success and after an error.  A
statement may fail with all its tokens left, and giving up the rest of a broken statement may give
up nothing; but no statement does both.  So every turn of the loop that reads a list of statements
uses a token up, and the loop ends.
-/

set_option autoImplicit false

namespace LineScript

/-! ## What is left -/

namespace Parsed

variable {α β : Type} {inner limit : Nat} {tokens : List Token}

def rest : Parsed α limit → List Token
  | success _ rest _ => rest
  | failure _ rest _ => rest

private theorem length_rest_le (result : Parsed α limit) : result.rest.length ≤ limit := by
  cases result with
  | success value rest shorter => exact Nat.le_of_lt shorter
  | failure error rest bounded => exact bounded

@[simp] theorem rest_within {fits : inner ≤ limit} {result : Parsed α inner} :
    (result.within fits).rest = result.rest := by
  cases result <;> rfl

@[simp] theorem rest_map {change : α → β} {result : Parsed α limit} :
    (result.map change).rest = result.rest := by
  cases result <;> rfl

/-- A first part that leaves an end, and a second that leaves an end of that. -/
private theorem rest_andThen_suffix {first : Parsed α inner} {fits : inner ≤ limit}
    {next : (value : α) → (rest : List Token) → rest.length < inner → Parsed β limit}
    (front : first.rest <:+ tokens)
    (behind : ∀ value rest shorter, (next value rest shorter).rest <:+ rest) :
    (first.andThen fits next).rest <:+ tokens := by
  cases first with
  | success value rest shorter => exact (behind value rest shorter).trans front
  | failure error rest bounded => exact front

private theorem rest_bind_suffix {first : Parsed α limit}
    {next : (value : α) → (rest : List Token) → rest.length < limit → Parsed β rest.length}
    (front : first.rest <:+ tokens)
    (behind : ∀ value rest shorter, (next value rest shorter).rest <:+ rest) :
    (first.bind next).rest <:+ tokens :=
  rest_andThen_suffix front fun value rest shorter => by
    rw [rest_within]
    exact behind value rest shorter

end Parsed

namespace Recorded

variable {α β : Type} {inner limit : Nat} {tokens : List Token}

def rest (result : Recorded α limit) : List Token :=
  result.outcome.rest

@[simp] theorem rest_record {result : Parsed α limit} : result.record.rest = result.rest :=
  rfl

@[simp] theorem rest_within {fits : inner ≤ limit} {result : Recorded α inner} :
    (result.within fits).rest = result.rest := by
  rw [rest, within, Parsed.rest_within, rest]

@[simp] theorem rest_map {change : α → β} {result : Recorded α limit} :
    (result.map change).rest = result.rest :=
  Parsed.rest_map

private theorem rest_andThen_suffix {first : Recorded α inner} {fits : inner ≤ limit}
    {next : (value : α) → (rest : List Token) → rest.length < inner → Recorded β limit}
    (front : first.rest <:+ tokens)
    (behind : ∀ value rest shorter, (next value rest shorter).rest <:+ rest) :
    (first.andThen fits next).rest <:+ tokens := by
  obtain ⟨outcome, errors⟩ := first
  cases outcome with
  | success value rest shorter => exact (behind value rest shorter).trans front
  | failure error rest bounded => exact front

private theorem rest_bind_suffix {first : Recorded α limit}
    {next : (value : α) → (rest : List Token) → rest.length < limit → Recorded β rest.length}
    (front : first.rest <:+ tokens)
    (behind : ∀ value rest shorter, (next value rest shorter).rest <:+ rest) :
    (first.bind next).rest <:+ tokens :=
  rest_andThen_suffix front fun value rest shorter => by
    rw [rest_within]
    exact behind value rest shorter

private theorem rest_record_bind_suffix {first : Parsed α limit}
    {next : (value : α) → (rest : List Token) → rest.length < limit → Recorded β rest.length}
    (front : first.rest <:+ tokens)
    (behind : ∀ value rest shorter, (next value rest shorter).rest <:+ rest) :
    (first.record.bind next).rest <:+ tokens :=
  rest_bind_suffix front behind

private theorem rest_record_bind_success {value : α} {rest : List Token}
    {shorter : rest.length < limit}
    {next : (value : α) → (rest : List Token) → rest.length < limit → Recorded β rest.length} :
    ((Parsed.success value rest shorter).record.bind next).rest = (next value rest shorter).rest := by
  show ((next value rest shorter).within (Nat.le_of_lt shorter)).rest = _
  exact rest_within

end Recorded

theorem Listing.rest_close_suffix {limit : Nat} {tokens : List Token} {opening : Token}
    {listing : Listing limit} (listed : listing.rest <:+ tokens) :
    (listing.close opening).rest <:+ tokens := by
  obtain ⟨statements, errors, rest, bounded⟩ := listing
  cases rest with
  | nil => exact listed
  | cons token tail =>
      simp only [Listing.close, Recorded.rest]
      split
      · exact (List.suffix_cons token tail).trans listed
      · exact listed

/-! ## Phrases -/

private theorem expect_rest_suffix (kind : TokenKind) (tokens : List Token) :
    (expect kind tokens).rest <:+ tokens := by
  unfold expect
  split
  · exact List.suffix_rfl
  · next token tail =>
    split
    · exact List.suffix_cons token tail
    · exact List.suffix_rfl

namespace Expression

/-- No reader of expressions leaves anything but an end of its tokens. -/
theorem readers_rest_suffix :
    (∀ level tokens, (readLevel level tokens).rest <:+ tokens) ∧
    (∀ level limit left tokens shorter,
      (readChain level limit left tokens shorter).rest <:+ tokens) ∧
    (∀ level tokens, (readOperand level tokens).rest <:+ tokens) ∧
    (∀ tokens, (readUnary tokens).rest <:+ tokens) ∧
    (∀ tokens, (readPrimary tokens).rest <:+ tokens) := by
  apply readLevel.mutual_induct
  · intro level tokens operandSuffix chainSuffix
    rw [readLevel]
    exact Parsed.rest_andThen_suffix operandSuffix chainSuffix
  · intro level limit left shorter _
    rw [readChain]
    exact List.suffix_rfl
  · intro level limit left token tail shorter foreign _
    rw [readChain]
    simp only [foreign]
    exact List.suffix_rfl
  · intro limit left token tail shorter operator found _ operandSuffix chainSuffix
    rw [readChain]
    simp only [found, if_true]
    exact Parsed.rest_andThen_suffix (operandSuffix.trans (List.suffix_cons token tail)) chainSuffix
  · intro level limit left token tail shorter operator found different _
    rw [readChain]
    simp only [found, if_neg different]
    exact List.suffix_rfl
  · intro level tokens next tighter nextSuffix
    rw [readOperand_of_tighter tighter]
    exact nextSuffix
  · intro level tokens tightest unarySuffix
    rw [readOperand_of_tightest tightest]
    exact unarySuffix
  · intro primarySuffix
    rw [readUnary]
    exact primarySuffix
  · intro token tail operator found unarySuffix
    rw [readUnary]
    simp only [found, Parsed.rest_within, Parsed.rest_map]
    exact unarySuffix.trans (List.suffix_cons token tail)
  · intro token tail foreign primarySuffix
    rw [readUnary]
    simp only [foreign]
    exact primarySuffix
  · rw [readPrimary]
    exact List.suffix_rfl
  · intro token tail operand made
    rw [readPrimary]
    simp only [made]
    exact List.suffix_cons token tail
  · intro token tail notSingle opens innerSuffix
    rw [readPrimary]
    simp only [notSingle, if_pos opens]
    apply Parsed.rest_andThen_suffix (innerSuffix.trans (List.suffix_cons token tail))
    intro inner rest shorter
    cases rest with
    | nil => exact List.suffix_rfl
    | cons next behind =>
        dsimp only
        split
        · exact List.suffix_cons next behind
        · exact List.suffix_rfl
  · intro token tail notSingle notOpening
    rw [readPrimary]
    simp only [notSingle, if_neg notOpening]
    exact List.suffix_rfl

private theorem readLevel_rest_suffix (level : Level) (tokens : List Token) :
    (readLevel level tokens).rest <:+ tokens :=
  readers_rest_suffix.1 level tokens

private theorem read_rest_suffix (tokens : List Token) : (read tokens).rest <:+ tokens := by
  apply Parsed.rest_andThen_suffix (readLevel_rest_suffix .disjunction tokens)
  intro left rest shorter
  cases rest with
  | nil => exact List.suffix_rfl
  | cons token tail =>
      have behind := (readLevel_rest_suffix .disjunction tail).trans (List.suffix_cons token tail)
      dsimp only
      split
      · cases left with
        | reference name line =>
            rw [Parsed.rest_within, Parsed.rest_map]
            exact behind
        | literal | assign | unary | binary | group => exact List.suffix_cons token tail
      · exact List.suffix_rfl

end Expression

namespace Statement

private theorem readName_rest_suffix (tokens : List Token) : (readName tokens).rest <:+ tokens := by
  rw [readName, Parsed.rest_map]
  exact expect_rest_suffix .identifier tokens

private theorem readDeclaration_rest_suffix (tokens : List Token) :
    (readDeclaration tokens).rest <:+ tokens := by
  apply Parsed.rest_bind_suffix (expect_rest_suffix .varWord tokens)
  intro _ rest _
  apply Parsed.rest_bind_suffix (readName_rest_suffix rest)
  intro target rest _
  apply Parsed.rest_bind_suffix (expect_rest_suffix .equal rest)
  intro _ rest _
  rw [Parsed.rest_map]
  exact Expression.readLevel_rest_suffix .disjunction rest

private theorem readPrint_rest_suffix (tokens : List Token) :
    (readPrint tokens).rest <:+ tokens := by
  cases tokens with
  | nil => exact List.suffix_rfl
  | cons keyword tail =>
      simp only [readPrint, Parsed.rest_map, readPrinted]
      split
      case h_5 =>
        rw [Parsed.rest_within]
        exact (Expression.read_rest_suffix tail).trans (List.suffix_cons keyword tail)
      all_goals exact List.suffix_cons keyword tail

private theorem readLoopStart_rest_suffix {limit : Nat} (tokens : List Token)
    (shorter : tokens.length < limit) : (readLoopStart limit tokens shorter).rest <:+ tokens := by
  unfold readLoopStart
  split
  · rw [Parsed.rest_within, Parsed.rest_map]
    exact readDeclaration_rest_suffix tokens
  · exact List.suffix_rfl

private theorem readLoopStep_rest_suffix {limit : Nat} (tokens : List Token)
    (shorter : tokens.length < limit) : (readLoopStep limit tokens shorter).rest <:+ tokens := by
  unfold readLoopStep
  split
  · rw [Parsed.rest_within]
    apply Parsed.rest_bind_suffix (readName_rest_suffix tokens)
    intro target rest _
    apply Parsed.rest_bind_suffix (expect_rest_suffix .equal rest)
    intro _ rest _
    rw [Parsed.rest_map]
    exact Expression.readLevel_rest_suffix .disjunction rest
  · exact List.suffix_rfl

private theorem readLoopHeader_rest_suffix (tokens : List Token) :
    (readLoopHeader tokens).rest <:+ tokens := by
  apply Parsed.rest_bind_suffix (expect_rest_suffix .forWord tokens)
  intro _ rest _
  apply Parsed.rest_andThen_suffix (expect_rest_suffix .leftParen rest)
  intro _ opened shorter
  apply Parsed.rest_bind_suffix (readLoopStart_rest_suffix opened shorter)
  intro start rest _
  apply Parsed.rest_bind_suffix (expect_rest_suffix .semicolon rest)
  intro _ rest _
  apply Parsed.rest_bind_suffix (Expression.readLevel_rest_suffix .disjunction rest)
  intro condition rest _
  apply Parsed.rest_andThen_suffix (expect_rest_suffix .semicolon rest)
  intro _ opened shorter
  apply Parsed.rest_bind_suffix (readLoopStep_rest_suffix opened shorter)
  intro step rest _
  rw [Parsed.rest_map]
  exact expect_rest_suffix .rightParen rest

/-! ## Statements -/

private theorem readEnd_rest_suffix {statement : Statement} {limit : Nat} (tokens : List Token)
    (shorter : tokens.length < limit) :
    (readEnd statement limit tokens shorter).rest <:+ tokens := by
  cases tokens with
  | nil => exact List.suffix_rfl
  | cons token tail =>
      simp only [readEnd]
      split
      · exact List.suffix_cons token tail
      all_goals exact List.suffix_rfl

private theorem synchronize_suffix (nested : Bool) (tokens : List Token) :
    synchronize nested tokens <:+ tokens := by
  induction tokens with
  | nil => exact List.suffix_rfl
  | cons token tail ih =>
      have behind := ih.trans (List.suffix_cons token tail)
      unfold synchronize
      split
      · exact List.suffix_cons token tail
      · exact List.suffix_rfl
      · exact List.suffix_rfl
      · split
        · exact List.suffix_rfl
        · exact behind
      · exact behind

private theorem resume_suffix (nested : Bool) {token : Token} {tail rest : List Token}
    (left : rest <:+ token :: tail) : resume nested tail rest <:+ token :: tail := by
  refine (synchronize_suffix nested _).trans ?_
  split
  · exact left
  · exact List.suffix_cons token tail

private theorem readBranch_rest_suffix {tokens : List Token}
    (blockSuffix : ∀ condition : List Token, condition.length < tokens.length →
      ∀ block : List Token, block.length < condition.length → (readBlock block).rest <:+ block)
    (elseSuffix : ∀ condition : List Token, condition.length < tokens.length →
      ∀ block : List Token, block.length < condition.length →
      ∀ (_ : List Token) (token : Token) (tail : List Token),
        (token :: tail).length < block.length → (readElse tail).rest <:+ tail) :
    (readBranch tokens).rest <:+ tokens := by
  rw [readBranch]
  apply Recorded.rest_record_bind_suffix (expect_rest_suffix .ifWord tokens)
  intro _ rest shorter
  apply Recorded.rest_record_bind_suffix (Expression.readLevel_rest_suffix .disjunction rest)
  intro condition rest shorter'
  apply Recorded.rest_andThen_suffix (blockSuffix _ shorter _ shorter')
  intro thenBranch behind shorter''
  cases behind with
  | nil => exact List.suffix_rfl
  | cons token tail =>
      dsimp only
      split
      · rw [Recorded.rest_within, Recorded.rest_map]
        exact (elseSuffix _ shorter _ shorter' [] token tail shorter'').trans
          (List.suffix_cons token tail)
      · exact List.suffix_rfl

/-- What any reader of statements leaves is an end of its tokens. -/
theorem readers_rest_suffix :
    (∀ tokens, (read tokens).rest <:+ tokens) ∧
    (∀ tokens, (readOpen tokens).rest <:+ tokens) ∧
    (∀ tokens, (readBlock tokens).rest <:+ tokens) ∧
    (∀ nested tokens, (readList nested tokens).rest <:+ tokens) ∧
    (∀ tokens, (readLoop tokens).rest <:+ tokens) ∧
    (∀ tokens, (readBranch tokens).rest <:+ tokens) ∧
    (∀ tokens, (readElse tokens).rest <:+ tokens) := by
  apply read.mutual_induct
  · intro tokens openSuffix
    rw [read]
    exact Recorded.rest_andThen_suffix openSuffix fun _ rest shorter =>
      readEnd_rest_suffix rest shorter
  · intro tokens kind
    rw [readOpen_declaration kind]
    exact readDeclaration_rest_suffix tokens
  · intro tokens kind
    rw [readOpen_print (.inl kind)]
    exact readPrint_rest_suffix tokens
  · intro tokens kind
    rw [readOpen_print (.inr kind)]
    exact readPrint_rest_suffix tokens
  · intro tokens kind branchSuffix
    rw [readOpen_branch kind]
    exact branchSuffix
  · intro tokens kind loopSuffix
    rw [readOpen_loop kind]
    exact loopSuffix
  · intro tokens kind blockSuffix
    rw [readOpen_block kind]
    exact blockSuffix
  · intro tokens kind
    rw [readOpen]
    simp only [kind, Recorded.rest_record]
    apply Parsed.rest_andThen_suffix (expect_rest_suffix .elseWord tokens)
    intro token rest _
    exact List.suffix_rfl
  · intro tokens notVar notPrint notPrintln notIf notFor notLeftBrace notElse
    rw [readOpen_expression notVar notPrint notPrintln notIf notFor notLeftBrace notElse,
      Recorded.rest_record, Parsed.rest_map]
    exact Expression.read_rest_suffix tokens
  · intro tokens listSuffix
    rw [readBlock]
    exact Recorded.rest_record_bind_suffix (expect_rest_suffix .leftBrace tokens)
      fun _ inside shorter => Listing.rest_close_suffix (listSuffix inside shorter)
  · intro nested
    rw [readList]
    exact List.suffix_rfl
  · intro nested token tail lineEnd listSuffix
    rw [readList_lineEnd lineEnd]
    exact listSuffix.trans (List.suffix_cons token tail)
  · intro nested token tail inputEnd
    rw [readList_stop (.inl inputEnd)]
    exact List.suffix_rfl
  · intro token tail closes
    rw [readList_stop (.inr ⟨rfl, closes⟩)]
    exact List.suffix_rfl
  · intro nested token tail closes outermost listSuffix
    rw [readList_unbalanced closes outermost]
    exact listSuffix.trans (List.suffix_cons token tail)
  · intro nested token tail result statement rest shorter success notLineEnd notInputEnd
      notRightBrace readSuffix listSuffix
    rw [readList_success notLineEnd notInputEnd notRightBrace success]
    have left : rest <:+ token :: tail := by
      rwa [Recorded.rest, success] at readSuffix
    exact listSuffix.trans left
  · intro nested token tail result error rest bounded failure notLineEnd notInputEnd
      notRightBrace readSuffix listSuffix
    rw [readList_failure notLineEnd notInputEnd notRightBrace failure]
    have left : rest <:+ token :: tail := by
      rwa [Recorded.rest, failure] at readSuffix
    exact listSuffix.trans (resume_suffix nested left)
  · intro tokens blockSuffix
    rw [readLoop]
    apply Recorded.rest_record_bind_suffix (readLoopHeader_rest_suffix tokens)
    intro header rest shorter
    rw [Recorded.rest_map]
    exact blockSuffix rest shorter
  · exact fun tokens => readBranch_rest_suffix
  · intro tokens kind branchSuffix
    rw [readElse, if_pos kind]
    exact branchSuffix
  · intro tokens kind blockSuffix
    rw [readElse, if_neg kind]
    exact blockSuffix

/-! ## Broken statements -/

section

variable {nested : Bool} {token : Token} {tail rest : List Token}

/-- A block that cannot be read has used its opening brace up. -/
private theorem length_rest_readBlock_le (opens : token.kind = .leftBrace) :
    (readBlock (token :: tail)).rest.length ≤ tail.length := by
  rw [readBlock]
  simp only [expect, if_pos opens, Recorded.rest_record_bind_success]
  exact Parsed.length_rest_le _

private theorem length_rest_read_le (opens : token.kind = .leftBrace) :
    (read (token :: tail)).rest.length ≤ tail.length := by
  have kind : nextKind? (token :: tail) = some .leftBrace := congrArg some opens
  have inBlock : (readBlock (token :: tail)).rest.length ≤ tail.length :=
    length_rest_readBlock_le opens
  rw [read, readOpen_block kind]
  generalize readBlock (token :: tail) = result at inBlock
  obtain ⟨outcome, errors⟩ := result
  cases outcome with
  | success statement rest shorter =>
      have behind : (readEnd statement (token :: tail).length rest shorter).rest <:+ rest :=
        readEnd_rest_suffix rest shorter
      exact Nat.le_trans behind.length_le (Nat.le_of_lt_succ shorter)
  | failure error rest bounded => exact inBlock

private theorem synchronize_of_skipped (notLineEnd : token.kind ≠ .lineEnd)
    (notLeftBrace : token.kind ≠ .leftBrace) (notInputEnd : token.kind ≠ .inputEnd)
    (notRightBrace : token.kind ≠ .rightBrace) :
    synchronize nested (token :: tail) = synchronize nested tail := by
  rw [synchronize]
  split <;> first | contradiction | rfl

/-- A statement that fails with all its tokens left starts with a token that is given up next.  So
nothing more needs to be given up behind a broken statement than the rest of its line. -/
private theorem resume_of_failure {error : GrammarError}
    {bounded : rest.length ≤ (token :: tail).length}
    (notLineEnd : token.kind ≠ .lineEnd) (notInputEnd : token.kind ≠ .inputEnd)
    (notRightBrace : token.kind ≠ .rightBrace)
    (failure : (read (token :: tail)).outcome = .failure error rest bounded) :
    resume nested tail rest = synchronize nested rest := by
  have left := readers_rest_suffix.1 (token :: tail)
  rw [Recorded.rest, failure] at left
  unfold resume
  split
  · rfl
  · next unused =>
    obtain rfl : rest = token :: tail := left.eq_of_length_le (Nat.not_le.mp unused)
    have notLeftBrace : token.kind ≠ .leftBrace := by
      intro opens
      have used : (read (token :: tail)).rest.length ≤ tail.length := length_rest_read_le opens
      rw [Recorded.rest, failure] at used
      exact unused used
    exact (synchronize_of_skipped notLineEnd notLeftBrace notInputEnd notRightBrace).symm

end

/-! ## Turns of the loop -/

/-- What one turn of reading a list of statements finds, and the tokens it leaves. -/
structure Turn where
  statements : List Statement
  errors : List GrammarError
  rest : List Token

/-- The turn that is made in front of some tokens, if the list does not end there.  Behind a broken
statement, what stands in front of the next place to stop is given up, whether there is anything or
not. -/
def turn? (nested : Bool) (tokens : List Token) : Option Turn :=
  match tokens with
  | [] => none
  | token :: tail =>
    match token.kind with
    | .lineEnd => some ⟨[], [], tail⟩
    | .inputEnd => none
    | .rightBrace =>
      if nested then none else some ⟨[], [.unbalanced .leftBrace token.line], tail⟩
    | _ =>
      match (read (token :: tail)).outcome with
      | .success statement rest _ => some ⟨[statement], (read (token :: tail)).errors, rest⟩
      | .failure error rest _ =>
        some ⟨[], (read (token :: tail)).errors ++ [error], synchronize nested rest⟩

/-- So many turns one after the other, up to tokens in front of which none is made. -/
inductive Turns (nested : Bool) :
    Nat → List Token → List Statement → List GrammarError → List Token → Prop where
  | ended {tokens : List Token} : turn? nested tokens = none → Turns nested 0 tokens [] [] tokens
  | turn {count : Nat} {tokens rest : List Token} {turn : Turn} {statements : List Statement}
      {errors : List GrammarError} :
      turn? nested tokens = some turn → Turns nested count turn.rest statements errors rest →
      Turns nested (count + 1) tokens (turn.statements ++ statements) (turn.errors ++ errors) rest

/-- What is true of a turn, in terms of the tokens and of the list read from them. -/
structure Advances (nested : Bool) (tokens : List Token) (turn : Turn) : Prop where
  suffix : turn.rest <:+ tokens
  shorter : turn.rest.length < tokens.length
  listed : (readList nested tokens).Extends turn.statements turn.errors (readList nested turn.rest)

private theorem advances_tail {nested : Bool} {token : Token} {tail : List Token}
    {errors : List GrammarError}
    (listed : (readList nested (token :: tail)).Extends [] errors (readList nested tail)) :
    Advances nested (token :: tail) ⟨[], errors, tail⟩ :=
  ⟨List.suffix_cons token tail, Nat.lt_succ_self _, listed⟩

/-- Every turn uses a token up. -/
private theorem advances_of_turn? {nested : Bool} {tokens : List Token} {turn : Turn}
    (made : turn? nested tokens = some turn) : Advances nested tokens turn := by
  unfold turn? at made
  split at made
  · cases made
  · next token tail =>
    split at made
    · next lineEnd =>
      cases made
      exact advances_tail (by rw [readList_lineEnd lineEnd]; exact ⟨rfl, rfl, rfl⟩)
    · cases made
    · next closes =>
      split at made
      · cases made
      · next outermost =>
        cases made
        exact advances_tail (by rw [readList_unbalanced closes outermost]; exact ⟨rfl, rfl, rfl⟩)
    · next notLineEnd notInputEnd notRightBrace =>
      have left := readers_rest_suffix.1 (token :: tail)
      generalize result : read (token :: tail) = found at made left
      obtain ⟨outcome, errors⟩ := found
      cases outcome with
      | success statement rest shorter =>
          cases made
          exact ⟨left, shorter,
            extends_of_success nested notLineEnd notInputEnd notRightBrace result⟩
      | failure error rest bounded =>
          cases made
          have resumed : resume nested tail rest = synchronize nested rest :=
            resume_of_failure notLineEnd notInputEnd notRightBrace
              (congrArg Recorded.outcome result)
          have listed := extends_of_failure nested notLineEnd notInputEnd notRightBrace result
          have shorter := length_resume_le nested tail rest
          rw [resumed] at listed shorter
          exact ⟨(synchronize_suffix nested rest).trans left, Nat.lt_succ_of_le shorter, listed⟩

private theorem readList_of_turn?_eq_none {nested : Bool} {tokens : List Token}
    (ended : turn? nested tokens = none) : readList nested tokens = .stop tokens := by
  unfold turn? at ended
  split at ended
  · rw [readList]
  · next token tail =>
    split at ended
    · cases ended
    · next inputEnd => exact readList_stop (.inl inputEnd)
    · next closes =>
      split at ended
      · next inside => exact readList_stop (.inr ⟨inside, closes⟩)
      · cases ended
    · split at ended <;> cases ended

/-- The turns in front of any tokens come to an end, and to the list that is read from them. -/
theorem exists_turns (nested : Bool) (tokens : List Token) :
    ∃ count, count ≤ tokens.length ∧
      Turns nested count tokens (readList nested tokens).statements
        (readList nested tokens).errors (readList nested tokens).rest := by
  cases made : turn? nested tokens with
  | none =>
      rw [readList_of_turn?_eq_none made]
      exact ⟨0, Nat.zero_le _, .ended made⟩
  | some turn =>
      obtain ⟨_, shorter, listed⟩ := advances_of_turn? made
      obtain ⟨count, few, turns⟩ := exists_turns nested turn.rest
      rw [listed.statements_eq, listed.errors_eq, listed.rest_eq]
      exact ⟨count + 1, Nat.lt_of_le_of_lt few shorter, .turn made turns⟩
termination_by tokens.length
decreasing_by exact shorter

/-- Reading a list of statements ends on any tokens, whether inside a block or not.  Each turn goes
on with an end of its tokens that is shorter, wherever its statement failed and however little was
given up behind it; there are no more turns than tokens, and they come to the list read. -/
theorem readList_ends (nested : Bool) (tokens : List Token) :
    (∀ turn, turn? nested tokens = some turn →
      turn.rest <:+ tokens ∧ turn.rest.length < tokens.length) ∧
    ∃ count, count ≤ tokens.length ∧
      Turns nested count tokens (readList nested tokens).statements
        (readList nested tokens).errors (readList nested tokens).rest := by
  refine ⟨fun turn made => ?_, exists_turns nested tokens⟩
  obtain ⟨suffix, shorter, _⟩ := advances_of_turn? made
  exact ⟨suffix, shorter⟩

/-- The tokens of `print { ) }`. -/
def unprintableBlock : List Token :=
  [⟨.printWord, none, 1⟩, ⟨.leftBrace, none, 1⟩, ⟨.rightParen, none, 1⟩, ⟨.rightBrace, none, 1⟩]

/-- Nothing is given up behind the keyword, for the brace is a place to stop, and in the block a
statement fails before it uses anything.  The list is read in two turns. -/
theorem readList_unprintableBlock :
    turn? true unprintableBlock =
      some ⟨[], [.expectedExpression .leftBrace 1], unprintableBlock.drop 1⟩ ∧
    (unprintableBlock.drop 1).length < unprintableBlock.length ∧
    (read (unprintableBlock.drop 2)).rest = unprintableBlock.drop 2 ∧
    ∃ count, count ≤ 4 ∧
      Turns true count unprintableBlock [.block []]
        [.expectedExpression .leftBrace 1, .expectedExpression .rightParen 1] [] := by
  have first : turn? true unprintableBlock =
      some ⟨[], [.expectedExpression .leftBrace 1], unprintableBlock.drop 1⟩ := by
    cbv
  have listed : (readList true unprintableBlock).statements = [.block []] ∧
      (readList true unprintableBlock).errors =
        [.expectedExpression .leftBrace 1, .expectedExpression .rightParen 1] ∧
      (readList true unprintableBlock).rest = [] := by
    cbv
  have unused : (read (unprintableBlock.drop 2)).rest = unprintableBlock.drop 2 := by
    cbv
  obtain ⟨progress, turns⟩ := readList_ends true unprintableBlock
  rw [listed.1, listed.2.1, listed.2.2] at turns
  exact ⟨first, (progress _ first).2, unused, turns⟩

end Statement

end LineScript
