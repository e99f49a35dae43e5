import LineScript.Proofs.Grammar.Expressions

/-!
Reading programs by the grammar.

A token list is read without errors exactly when the grammar derives a program from the tokens in
front of the end of input, and then this program is what is read.
-/

set_option autoImplicit false

namespace LineScript

namespace Grammar

def OwnPayloads (tokens : List Token) : Prop :=
  ∀ token ∈ tokens, token.hasOwnPayload = true

theorem OwnPayloads.of_append {before behind : List Token}
    (own : OwnPayloads (before ++ behind)) : OwnPayloads behind :=
  fun token member => own token (List.mem_append_right before member)

theorem OwnPayloads.of_cons {token : Token} {tail : List Token} (own : OwnPayloads (token :: tail)) :
    OwnPayloads tail :=
  fun _ member => own _ (List.mem_cons_of_mem token member)

theorem eq_identifier {token : Token} (own : token.hasOwnPayload = true)
    (same : token.kind = .identifier) :
    token = ⟨.identifier, some (.text token.name), token.line⟩ := by
  obtain ⟨kind, payload, line⟩ := token
  cases same
  cases payload with
  | none => cases own
  | some payload =>
      cases payload with
      | text value => rfl
      | integer value => cases own
      | decimal value => cases own

/-! ## What is read is derived -/

private theorem readName_takes {tokens : List Token} (own : OwnPayloads tokens) :
    (Statement.readName tokens).Holds (fun target rest =>
      tokens = ⟨.identifier, some (.text target.1), target.2⟩ :: rest) True := by
  unfold Statement.readName
  rw [Parsed.holds_map]
  refine (expect_holds .identifier tokens).imp (fun token rest _ found => ?_) fun _ => trivial
  obtain ⟨rfl, same⟩ := found
  rw [← eq_identifier (own token List.mem_cons_self) same]

private theorem readLogic_takes (tokens : List Token) :
    (Expression.readLevel .disjunction tokens).Holds (Takes Logic tokens) True :=
  Expression.readers_take.1 .disjunction tokens

private theorem readDeclaration_takes {tokens : List Token} (own : OwnPayloads tokens) :
    (Statement.readDeclaration tokens).Holds (Takes Declares tokens) True := by
  unfold Statement.readDeclaration
  refine (expect_holds .varWord tokens).bind (fun keyword rest _ found => ?_) fun _ => trivial
  obtain ⟨rfl, declares⟩ := found
  refine (readName_takes own.of_cons).bind (fun target rest _ named => ?_) id
  obtain ⟨name, line⟩ := target
  subst named
  refine (expect_holds .equal rest).bind (fun sign rest _ found => ?_) fun _ => trivial
  obtain ⟨rfl, assigns⟩ := found
  rw [Parsed.holds_map]
  refine (readLogic_takes rest).imp (fun initializer behind _ taken => ?_) id
  obtain ⟨used, rfl, derived⟩ := taken
  exact ⟨keyword :: _ :: sign :: used, rfl, .declare declares assigns derived⟩

theorem sameNewline_of_prints {kind : TokenKind} {newline : Bool} (prints : Prints kind newline) :
    decide (kind = .printlnWord) = newline := by
  cases prints <;> rfl

theorem Prints.nextKind?_eq {tokens : List Token} {kind : TokenKind} {newline : Bool}
    (prints : Prints kind newline) (starts : nextKind? tokens = some kind) :
    nextKind? tokens = some .printWord ∨ nextKind? tokens = some .printlnWord := by
  cases prints with
  | print => exact .inl starts
  | println => exact .inr starts

private theorem readPrint_takes {tokens : List Token} {kind : TokenKind} {newline : Bool}
    (prints : Prints kind newline) (starts : nextKind? tokens = some kind) :
    (Statement.readPrint tokens).Holds (Takes States tokens) True := by
  cases tokens with
  | nil => cases starts
  | cons keyword tail =>
      cases starts
      unfold Statement.readPrint Statement.readPrinted
      rw [Parsed.holds_map, sameNewline_of_prints prints]
      split
      iterate 4 exact ⟨[keyword], rfl, .printNothing prints⟩
      rw [Parsed.holds_within]
      refine (read_takes tail).imp (fun value rest _ taken => ?_) id
      obtain ⟨used, rfl, derived⟩ := taken
      exact ⟨keyword :: used, rfl, .print prints derived⟩

private theorem readLoopStart_takes {limit : Nat} {tokens : List Token}
    {shorter : tokens.length < limit}
    (own : OwnPayloads tokens) :
    (Statement.readLoopStart limit tokens shorter).Holds (Takes LoopStart tokens) True := by
  unfold Statement.readLoopStart
  split
  · rw [Parsed.holds_within, Parsed.holds_map]
    refine (readDeclaration_takes own).imp (fun start rest _ taken => ?_) id
    obtain ⟨used, rfl, derived⟩ := taken
    exact ⟨used, rfl, .present derived⟩
  · exact ⟨[], rfl, .absent⟩

private theorem readLoopStep_takes {limit : Nat} {tokens : List Token}
    {shorter : tokens.length < limit}
    (own : OwnPayloads tokens) :
    (Statement.readLoopStep limit tokens shorter).Holds (Takes LoopStep tokens) True := by
  unfold Statement.readLoopStep
  split
  · rw [Parsed.holds_within]
    refine (readName_takes own).bind (fun target rest _ named => ?_) id
    obtain ⟨name, line⟩ := target
    subst named
    refine (expect_holds .equal rest).bind (fun sign rest _ found => ?_) fun _ => trivial
    obtain ⟨rfl, assigns⟩ := found
    rw [Parsed.holds_map]
    refine (readLogic_takes rest).imp (fun value behind _ taken => ?_) id
    obtain ⟨used, rfl, derived⟩ := taken
    exact ⟨_ :: sign :: used, rfl, .present assigns derived⟩
  · exact ⟨[], rfl, .absent⟩

private theorem readLoopHeader_takes {tokens : List Token} (own : OwnPayloads tokens) :
    (Statement.readLoopHeader tokens).Holds (Takes (fun used header =>
      Header used header.start header.condition header.step) tokens) True := by
  unfold Statement.readLoopHeader
  refine (expect_holds .forWord tokens).bind (fun keyword rest _ found => ?_) fun _ => trivial
  obtain ⟨rfl, loops⟩ := found
  refine (expect_holds .leftParen rest).andThen (fun opening rest _ found => ?_) fun _ => trivial
  obtain ⟨rfl, opens⟩ := found
  refine (readLoopStart_takes own.of_cons.of_cons).bind (fun start rest _ taken => ?_) id
  obtain ⟨starting, rfl, startDerived⟩ := taken
  refine (expect_holds .semicolon rest).bind (fun first rest _ found => ?_) fun _ => trivial
  obtain ⟨rfl, firstEnds⟩ := found
  refine (readLogic_takes rest).bind (fun condition rest _ taken => ?_) id
  obtain ⟨deciding, rfl, conditionDerived⟩ := taken
  refine (expect_holds .semicolon rest).andThen (fun second rest _ found => ?_) fun _ => trivial
  obtain ⟨rfl, secondEnds⟩ := found
  have stepOwn : OwnPayloads rest := own.of_cons.of_cons.of_append.of_cons.of_append.of_cons
  refine (readLoopStep_takes stepOwn).bind (fun step rest _ taken => ?_) id
  obtain ⟨stepping, rfl, stepDerived⟩ := taken
  rw [Parsed.holds_map]
  refine (expect_holds .rightParen rest).imp (fun closing rest _ found => ?_) fun _ => trivial
  obtain ⟨rfl, closes⟩ := found
  exact ⟨_, by simp, .header loops opens startDerived firstEnds conditionDerived secondEnds
    stepDerived closes⟩

/-- Where a statement list may stop: before the end of input or a closing brace. -/
def Stops (tokens : List Token) : Prop :=
  ∀ token ∈ tokens.head?, token.kind = .inputEnd ∨ token.kind = .rightBrace

/-- A closing brace stops only a nested one. -/
def StopsList (nested : Bool) (tokens : List Token) : Prop :=
  ∀ token ∈ tokens.head?, token.kind = .inputEnd ∨ (nested = true ∧ token.kind = .rightBrace)

theorem StopsList.stops {nested : Bool} {tokens : List Token} (stops : StopsList nested tokens) :
    Stops tokens :=
  fun token first => (stops token first).imp id And.right

/-- The tokens used up are a statement, with its line end unless the list stops behind it. -/
def TakesLine (tokens : List Token) (statement : Statement) (rest : List Token) : Prop :=
  ∃ used, States used statement ∧
    ((∃ token, token.kind = .lineEnd ∧ tokens = used ++ token :: rest) ∨
      (tokens = used ++ rest ∧ Stops rest))

/-- The tokens used up are lines, and the list stops behind them. -/
def TakesLines (nested : Bool) (tokens : List Token) (statements : List Statement)
    (rest : List Token) : Prop :=
  Takes Lines tokens statements rest ∧ StopsList nested rest

private theorem readEnd_takes {used tokens : List Token} {statement : Statement} {limit : Nat}
    {shorter : tokens.length < limit} (states : States used statement) :
    (Statement.readEnd statement limit tokens shorter).Holds (TakesLine (used ++ tokens)) True := by
  unfold Statement.readEnd
  cases tokens with
  | nil => exact ⟨used, states, .inr ⟨rfl, by simp [Stops]⟩⟩
  | cons token tail =>
      dsimp only
      split
      · next same => exact ⟨used, states, .inl ⟨token, same, rfl⟩⟩
      · next same => exact ⟨used, states, .inr ⟨rfl, by simp [Stops, same]⟩⟩
      · next same => exact ⟨used, states, .inr ⟨rfl, by simp [Stops, same]⟩⟩
      · trivial

/-- Nothing more is listed where a list stops; at the top, a closing brace is an error there. -/
private theorem readList_of_stops {nested : Bool} {tokens : List Token} (stops : Stops tokens) :
    (Statement.readList nested tokens).Holds
      (fun statements rest => statements = [] ∧ rest = tokens ∧ StopsList nested tokens) True := by
  cases tokens with
  | nil =>
      rw [Statement.readList]
      exact ⟨rfl, rfl, by simp [StopsList]⟩
  | cons token tail =>
      rcases stops token rfl with same | same
      · rw [Statement.readList_stop (.inl same)]
        exact ⟨rfl, rfl, by simp [StopsList, same]⟩
      · cases nested with
        | true =>
            rw [Statement.readList_stop (.inr ⟨rfl, same⟩)]
            exact ⟨rfl, rfl, by simp [StopsList, same]⟩
        | false =>
            rw [Statement.readList_unbalanced same (by decide)]
            trivial

end Grammar

namespace Statement

open Grammar

def BlockTakes (tokens : List Token) : Prop :=
  OwnPayloads tokens → (readBlock tokens).Holds (fun block rest =>
    ∃ statements, block = .block statements ∧ Takes Blocks tokens statements rest) True

def ListTakes (nested : Bool) (tokens : List Token) : Prop :=
  OwnPayloads tokens → (readList nested tokens).Holds (TakesLines nested tokens) True

def ElseTakes (tokens : List Token) : Prop :=
  OwnPayloads tokens → (readElse tokens).Holds (fun arm rest => Takes Branches tokens arm rest ∨
    ∃ statements, arm = .block statements ∧ Takes Blocks tokens statements rest) True

section

variable {tokens : List Token}

private theorem readBlock_takes
    (listTakes : ∀ inside : List Token, inside.length < tokens.length → ListTakes true inside) :
    BlockTakes tokens := by
  intro own
  apply readBlock_holds (fun _ => trivial)
  intro opening tail same opens
  subst same
  refine (listTakes tail (Nat.lt_succ_self _) own.of_cons).close
    (fun statements closing rest listed closes => ?_) (fun _ _ _ _ => trivial) id
  obtain ⟨⟨inside, rfl, lines⟩, _⟩ := listed
  exact ⟨statements, rfl, opening :: (inside ++ [closing]), by simp, .braces opens lines closes⟩

private theorem readList_takes_stop {nested : Bool} {token : Token} {tail : List Token}
    (stops : StopsList nested (token :: tail)) : ListTakes nested (token :: tail) := by
  intro _
  rw [readList_stop (stops token rfl), Listing.holds_stop]
  exact ⟨⟨[], rfl, .empty⟩, stops⟩

/-- A statement that was read with its line end is a line; one that reaches up to where a list stops
is the last. -/
private theorem readList_takes_success {nested : Bool} {token : Token} {tail rest : List Token}
    {statement : Statement} {shorter : rest.length < (token :: tail).length}
    (success : (read (token :: tail)).outcome = .success statement rest shorter)
    (notLineEnd : token.kind ≠ .lineEnd) (notInputEnd : token.kind ≠ .inputEnd)
    (notRightBrace : token.kind ≠ .rightBrace)
    (readTakes : OwnPayloads (token :: tail) →
      (read (token :: tail)).Holds (TakesLine (token :: tail)) True)
    (listTakes : ListTakes nested rest) : ListTakes nested (token :: tail) := by
  intro own
  refine readList_holds_of_success notLineEnd notInputEnd notRightBrace success (readTakes own)
    (fun taken => ?_) id
  rcases taken with ⟨used, states, ⟨ending, ends, same⟩ | ⟨same, stops⟩⟩
  · have restOwn : OwnPayloads rest := (same ▸ own).of_append.of_cons
    refine (listTakes restOwn).imp (fun statements behind listed => ?_) id
    obtain ⟨⟨more, rfl, lines⟩, stops⟩ := listed
    exact ⟨⟨used ++ ending :: more, by simp [same], .line states ends lines⟩, stops⟩
  · refine (readList_of_stops stops).imp (fun statements behind listed => ?_) id
    obtain ⟨rfl, rfl, stopsHere⟩ := listed
    exact ⟨⟨used, same, .last states⟩, stopsHere⟩

private theorem readLoop_takes
    (blockTakes : ∀ rest : List Token, rest.length < tokens.length → BlockTakes rest)
    (own : OwnPayloads tokens) : (readLoop tokens).Holds (Takes States tokens) True := by
  rw [readLoop]
  refine Recorded.Holds.bind (Recorded.holds_record.mpr (readLoopHeader_takes own))
    (fun header rest shorter taken => ?_) id
  obtain ⟨used, rfl, headerDerived⟩ := taken
  rw [Recorded.holds_map]
  refine (blockTakes rest shorter own.of_append).imp (fun body behind _ taken => ?_) id
  obtain ⟨statements, rfl, more, rfl, blocks⟩ := taken
  exact ⟨used ++ more, by simp, .loop headerDerived blocks⟩

private theorem readBranch_takes
    (blockTakes : ∀ condition : List Token, condition.length < tokens.length →
      ∀ block : List Token, block.length < condition.length → BlockTakes block)
    (elseTakes : ∀ condition : List Token, condition.length < tokens.length →
      ∀ block : List Token, block.length < condition.length →
      ∀ (_ : List Token) (token : Token) (tail : List Token),
        (token :: tail).length < block.length → ElseTakes tail)
    (own : OwnPayloads tokens) : (readBranch tokens).Holds (Takes Branches tokens) True := by
  rw [readBranch]
  refine Recorded.Holds.bind (Recorded.holds_record.mpr (expect_holds .ifWord tokens))
    (fun keyword rest shorter found => ?_) fun _ => trivial
  obtain ⟨rfl, branches⟩ := found
  refine Recorded.Holds.bind (Recorded.holds_record.mpr (readLogic_takes rest))
    (fun condition rest shorter' taken => ?_) id
  obtain ⟨deciding, rfl, conditionDerived⟩ := taken
  have bodyOwn : OwnPayloads rest := own.of_cons.of_append
  refine (blockTakes _ shorter _ shorter' bodyOwn).andThen
    (fun thenBranch behind shorter'' taken => ?_) id
  obtain ⟨statements, rfl, body, rfl, blocks⟩ := taken
  cases behind with
  | nil => exact ⟨keyword :: (deciding ++ body), by simp, .alone branches conditionDerived blocks⟩
  | cons other tail =>
      dsimp only
      split
      · next otherwise =>
        rw [Recorded.holds_within, Recorded.holds_map]
        refine (elseTakes _ shorter _ shorter' [] other tail shorter''
          bodyOwn.of_append.of_cons).imp (fun arm behind _ taken => ?_) id
        rcases taken with ⟨last, rfl, chained⟩ | ⟨others, rfl, last, rfl, lastBlocks⟩
        · exact ⟨keyword :: (deciding ++ (body ++ other :: last)), by simp,
            .chained branches conditionDerived blocks otherwise chained⟩
        · exact ⟨keyword :: (deciding ++ (body ++ other :: last)), by simp,
            .otherwise branches conditionDerived blocks otherwise lastBlocks⟩
      · exact ⟨keyword :: (deciding ++ body), by simp,
          .alone branches conditionDerived blocks⟩

end

/-- Every reader uses up tokens that the grammar derives, by induction along the readers' own
recursion. -/
theorem readers_take :
    (∀ tokens, OwnPayloads tokens → (read tokens).Holds (TakesLine tokens) True) ∧
    (∀ tokens, OwnPayloads tokens → (readOpen tokens).Holds (Takes States tokens) True) ∧
    (∀ tokens, BlockTakes tokens) ∧ (∀ nested tokens, ListTakes nested tokens) ∧
    (∀ tokens, OwnPayloads tokens → (readLoop tokens).Holds (Takes States tokens) True) ∧
    (∀ tokens, OwnPayloads tokens → (readBranch tokens).Holds (Takes Branches tokens) True) ∧
    (∀ tokens, ElseTakes tokens) := by
  apply read.mutual_induct
  · intro tokens openTakes own
    rw [read]
    refine (openTakes own).andThen (fun statement rest shorter taken => ?_) id
    obtain ⟨used, rfl, states⟩ := taken
    rw [Recorded.holds_record]
    exact readEnd_takes states
  · intro tokens kind own
    rw [readOpen_declaration kind, Recorded.holds_record]
    refine (readDeclaration_takes own).imp (fun statement rest _ taken => ?_) id
    obtain ⟨used, rfl, derived⟩ := taken
    exact ⟨used, rfl, .declare derived⟩
  · intro tokens kind _
    rw [readOpen_print (.inl kind), Recorded.holds_record]
    exact readPrint_takes .print kind
  · intro tokens kind _
    rw [readOpen_print (.inr kind), Recorded.holds_record]
    exact readPrint_takes .println kind
  · intro tokens kind branchTakes own
    rw [readOpen_branch kind]
    refine (branchTakes own).imp (fun statement rest _ taken => ?_) id
    obtain ⟨used, rfl, derived⟩ := taken
    exact ⟨used, rfl, .branch derived⟩
  · intro tokens kind loopTakes own
    rw [readOpen_loop kind]
    exact loopTakes own
  · intro tokens kind blockTakes own
    rw [readOpen_block kind]
    refine (blockTakes own).imp (fun statement rest _ taken => ?_) id
    obtain ⟨statements, rfl, used, rfl, derived⟩ := taken
    exact ⟨used, rfl, .block derived⟩
  · intro tokens kind own
    rw [readOpen]
    simp only [kind, Recorded.holds_record]
    exact (expect_holds .elseWord tokens).andThen (fun _ _ _ _ => trivial) fun _ => trivial
  · intro tokens notVar notPrint notPrintln notIf notFor notLeftBrace notElse _
    rw [readOpen_expression notVar notPrint notPrintln notIf notFor notLeftBrace notElse,
      Recorded.holds_record, Parsed.holds_map]
    refine (read_takes tokens).imp (fun tree rest _ taken => ?_) id
    obtain ⟨used, rfl, derived⟩ := taken
    exact ⟨used, rfl, .expression derived⟩
  · exact fun _ => readBlock_takes
  · intro nested _
    rw [readList]
    exact ⟨⟨[], rfl, .empty⟩, by simp [StopsList, Listing.stop]⟩
  · intro nested token tail ends listTakes own
    rw [readList_lineEnd ends, Listing.holds_within]
    refine (listTakes own.of_cons).imp (fun statements rest listed => ?_) id
    obtain ⟨⟨used, rfl, lines⟩, stops⟩ := listed
    exact ⟨⟨token :: used, rfl, .blank ends lines⟩, stops⟩
  · exact fun _ _ _ ends => readList_takes_stop (by simp [StopsList, ends])
  · exact fun _ _ closes => readList_takes_stop (by simp [StopsList, closes])
  · intro nested token tail closes outermost _ _
    rw [readList_unbalanced closes outermost, Listing.holds_within, Listing.holds_prepend_cons]
    trivial
  · intro nested token tail result statement rest shorter success
    exact readList_takes_success success
  · intro nested token tail result error rest bounded failure notLineEnd notInputEnd
      notRightBrace readTakes _ own
    exact readList_holds_of_failure notLineEnd notInputEnd notRightBrace failure (readTakes own) id
  · exact fun _ => readLoop_takes
  · exact fun _ => readBranch_takes
  · intro tokens kind branchTakes own
    rw [readElse, if_pos kind]
    exact (branchTakes own).imp (fun _ _ _ => .inl) id
  · intro tokens kind blockTakes own
    rw [readElse, if_neg kind]
    exact (blockTakes own).imp (fun _ _ _ => .inr) id

end Statement

/-! ## What is derived is read -/

namespace Grammar

def EndsStatement (tokens : List Token) : Prop :=
  ∀ token ∈ tokens.head?,
    token.kind = .lineEnd ∨ token.kind = .inputEnd ∨ token.kind = .rightBrace

theorem EndsStatement.closes {tokens : List Token} (ends : EndsStatement tokens) (bound : Nat) :
    Closes bound tokens := by
  intro token first operator found
  rcases ends token first with same | same | same <;> rw [same] at found <;> cases found

theorem EndsStatement.ne_kind {tokens : List Token} (ends : EndsStatement tokens) {kind : TokenKind}
    (notLineEnd : kind ≠ .lineEnd) (notInputEnd : kind ≠ .inputEnd)
    (notRightBrace : kind ≠ .rightBrace) : ∀ token ∈ tokens.head?, token.kind ≠ kind := by
  rintro token first rfl
  rcases ends token first with same | same | same
  · exact notLineEnd same
  · exact notInputEnd same
  · exact notRightBrace same

theorem Declares.read_gives {tokens rest : List Token} {statement : Statement}
    (derived : Declares tokens statement) (closes : Closes 7 rest) :
    (Statement.readDeclaration (tokens ++ rest)).Gives statement rest := by
  cases derived with
  | declare declares assigns derived =>
      unfold Statement.readDeclaration
      simp only [List.cons_append]
      refine (expect_gives declares).bind fun _ => ?_
      apply Parsed.Gives.bind (Parsed.Gives.map (expect_gives rfl))
      intro _
      refine (expect_gives assigns).bind fun _ => ?_
      exact (derived.readLevel_gives closes).map

theorem LoopStart.read_gives {tokens rest : List Token} {start : Option Statement} {limit : Nat}
    {ending : Token} {shorter : (tokens ++ ending :: rest).length < limit}
    (derived : LoopStart tokens start) (ends : ending.kind = .semicolon) :
    (Statement.readLoopStart limit (tokens ++ ending :: rest) shorter).Gives start
      (ending :: rest) := by
  unfold Statement.readLoopStart
  cases derived with
  | absent =>
      simp only [List.nil_append, nextKind?_cons, ends]
      exact ⟨rfl, rfl⟩
  | present derived =>
      have foreign : BinaryOperator.ofKind? ending.kind = none := by rw [ends]; rfl
      have closes : Closes 7 (ending :: rest) := closes_of_ofKind?_eq_none foreign
      have reads := derived.read_gives closes
      cases derived with
      | declare declares assigns derived =>
          simp only [List.cons_append, nextKind?_cons, declares, if_true]
          exact reads.map.within

theorem LoopStep.read_gives {tokens rest : List Token} {step : Option Statement} {limit : Nat}
    {ending : Token} {shorter : (tokens ++ ending :: rest).length < limit}
    (derived : LoopStep tokens step) (ends : ending.kind = .rightParen) :
    (Statement.readLoopStep limit (tokens ++ ending :: rest) shorter).Gives step
      (ending :: rest) := by
  unfold Statement.readLoopStep
  cases derived with
  | absent =>
      simp only [List.nil_append, nextKind?_cons, ends]
      exact ⟨rfl, rfl⟩
  | present assigns derived =>
      have foreign : BinaryOperator.ofKind? ending.kind = none := by rw [ends]; rfl
      simp only [List.cons_append, nextKind?_cons, if_true]
      apply Parsed.Gives.within
      apply Parsed.Gives.bind (Parsed.Gives.map (expect_gives rfl))
      intro _
      refine (expect_gives assigns).bind fun _ => ?_
      exact (derived.readLevel_gives (closes_of_ofKind?_eq_none foreign)).map

theorem Header.read_gives {tokens rest : List Token} {start step : Option Statement}
    {condition : Expression} (derived : Header tokens start condition step) :
    (Statement.readLoopHeader (tokens ++ rest)).Gives ⟨start, condition, step⟩ rest := by
  cases derived with
  | @header keyword opening first second closing starting deciding stepping _ _ _ loops opens starts
      firstEnds decides secondEnds steps closes =>
      have foreign : BinaryOperator.ofKind? second.kind = none := by rw [secondEnds]; rfl
      have shape : keyword :: opening ::
            (starting ++ first :: (deciding ++ second :: (stepping ++ [closing]))) ++ rest =
          keyword :: opening ::
            (starting ++ first :: (deciding ++ second :: (stepping ++ closing :: rest))) := by simp
      rw [shape]
      unfold Statement.readLoopHeader
      refine (expect_gives loops).bind fun _ => ?_
      refine (expect_gives opens).andThen fun _ => ?_
      refine (starts.read_gives firstEnds).bind fun _ => ?_
      refine (expect_gives firstEnds).bind fun _ => ?_
      refine (decides.readLevel_gives (closes_of_ofKind?_eq_none foreign)).bind fun _ => ?_
      refine (expect_gives secondEnds).andThen fun _ => ?_
      refine (steps.read_gives closes).bind fun _ => ?_
      exact (expect_gives closes).map

theorem Branches.head {tokens : List Token} {statement : Statement}
    (derived : Branches tokens statement) :
    ∃ token tail, tokens = token :: tail ∧ token.kind = .ifWord := by
  cases derived with
  | alone branches _ _ | otherwise branches _ _ _ _ | chained branches _ _ _ _ =>
      exact ⟨_, _, rfl, branches⟩

theorem Blocks.head {tokens : List Token} {statements : List Statement}
    (derived : Blocks tokens statements) :
    ∃ token tail, tokens = token :: tail ∧ token.kind = .leftBrace := by
  cases derived with
  | braces opens _ _ => exact ⟨_, _, rfl, opens⟩

theorem Header.head {tokens : List Token} {start step : Option Statement} {condition : Expression}
    (derived : Header tokens start condition step) :
    ∃ token tail, tokens = token :: tail ∧ token.kind = .forWord := by
  cases derived with
  | header loops _ _ _ _ _ _ _ => exact ⟨_, _, rfl, loops⟩

def startsStatement (kind : TokenKind) : Bool :=
  startsExpression kind || kind = .varWord || kind = .printWord || kind = .printlnWord ||
    kind = .ifWord || kind = .forWord || kind = .leftBrace

theorem States.head {tokens : List Token} {statement : Statement} (derived : States tokens statement) :
    ∃ token tail, tokens = token :: tail ∧ startsStatement token.kind = true := by
  cases derived with
  | declare derived =>
      cases derived with
      | declare declares _ _ => exact ⟨_, _, rfl, by rw [declares]; rfl⟩
  | @print keyword _ tokens _ prints _ =>
      refine ⟨keyword, tokens, rfl, ?_⟩
      generalize keyword.kind = kind at prints
      cases prints <;> rfl
  | @printNothing keyword _ prints =>
      refine ⟨keyword, [], rfl, ?_⟩
      generalize keyword.kind = kind at prints
      cases prints <;> rfl
  | branch derived =>
      obtain ⟨token, tail, rfl, same⟩ := derived.head
      exact ⟨token, tail, rfl, by rw [same]; rfl⟩
  | loop header _ =>
      obtain ⟨token, tail, rfl, same⟩ := header.head
      exact ⟨token, _, rfl, by rw [same]; rfl⟩
  | block derived =>
      obtain ⟨token, tail, rfl, same⟩ := derived.head
      exact ⟨token, tail, rfl, by rw [same]; rfl⟩
  | expression derived =>
      obtain ⟨token, tail, rfl, starts⟩ := derived.head
      exact ⟨token, tail, rfl, by simp [startsStatement, starts]⟩

private theorem readPrint_gives {keyword : Token} {newline : Bool} {tokens rest : List Token}
    {value : Expression} (prints : Prints keyword.kind newline) (derived : Root tokens value)
    (ends : EndsStatement rest) :
    (Statement.readPrint (keyword :: (tokens ++ rest))).Gives (.print value newline) rest := by
  have reads := derived.read_gives (ends.closes 7)
    (ends.ne_kind (by decide) (by decide) (by decide))
  obtain ⟨token, tail, rfl, starts⟩ := derived.head
  have startsWith {kind : TokenKind} (same : some token.kind = some kind) :
      startsExpression kind = true := by
    cases same
    exact starts
  unfold Statement.readPrint Statement.readPrinted
  simp only [sameNewline_of_prints prints]
  apply Parsed.Gives.map
  simp only [List.cons_append, nextKind?_cons]
  split
  · next same => cases same
  · next same => cases startsWith same
  · next same => cases startsWith same
  · next same => cases startsWith same
  · exact reads.within

private theorem readPrint_gives_nothing {keyword : Token} {newline : Bool} {rest : List Token}
    (prints : Prints keyword.kind newline) (ends : EndsStatement rest) :
    (Statement.readPrint (keyword :: rest)).Gives
      (.print (.literal (.string "") keyword.line) newline) rest := by
  unfold Statement.readPrint Statement.readPrinted
  simp only [sameNewline_of_prints prints]
  apply Parsed.Gives.map
  cases rest with
  | nil => exact ⟨rfl, rfl⟩
  | cons token tail =>
      rcases ends token rfl with same | same | same <;> simp only [nextKind?_cons, same] <;>
        exact ⟨rfl, rfl⟩

private theorem readOpen_gives_expression {tokens rest : List Token} {tree : Expression}
    (derived : Root tokens tree) (ends : EndsStatement rest) :
    (Statement.readOpen (tokens ++ rest)).Gives (.expression tree) rest := by
  have reads := derived.read_gives (ends.closes 7)
    (ends.ne_kind (by decide) (by decide) (by decide))
  obtain ⟨token, tail, rfl, starts⟩ := derived.head
  have startsWith {kind : TokenKind} (same : nextKind? (token :: tail ++ rest) = some kind) :
      startsExpression kind = true := by
    cases same
    exact starts
  rw [Statement.readOpen]
  split
  case h_8 => exact Recorded.gives_record.mpr reads.map
  all_goals next same => cases startsWith same

private theorem readEnd_gives_line {statement : Statement} {limit : Nat} {ending : Token}
    {tail : List Token} {shorter : (ending :: tail).length < limit}
    (ends : ending.kind = .lineEnd) :
    (Statement.readEnd statement limit (ending :: tail) shorter).Gives statement tail := by
  unfold Statement.readEnd
  simp only [ends]
  exact ⟨rfl, rfl⟩

private theorem readEnd_gives_last {statement : Statement} {limit : Nat} {rest : List Token}
    {shorter : rest.length < limit} (stops : Stops rest) :
    (Statement.readEnd statement limit rest shorter).Gives statement rest := by
  unfold Statement.readEnd
  cases rest with
  | nil => exact ⟨rfl, rfl⟩
  | cons token tail =>
      rcases stops token rfl with same | same <;> simp only [same] <;> exact ⟨rfl, rfl⟩

theorem Stops.endsStatement {tokens : List Token} (stops : Stops tokens) : EndsStatement tokens :=
  fun token first => .inr (stops token first)

def Lists (statements : List Statement) (rest : List Token) {limit : Nat} (listing : Listing limit) :
    Prop :=
  listing.Holds (fun found left => found = statements ∧ left = rest) False

private theorem lists_nil {nested : Bool} {rest : List Token} (stops : StopsList nested rest) :
    Lists [] rest (Statement.readList nested rest) := by
  cases rest with
  | nil =>
      rw [Statement.readList]
      exact ⟨rfl, rfl⟩
  | cons token tail =>
      rw [Statement.readList_stop (stops token rfl)]
      exact ⟨rfl, rfl⟩

private theorem lists_cons {nested : Bool} {token : Token} {tail rest behind : List Token}
    {statement : Statement} {statements : List Statement}
    (starts : startsStatement token.kind = true)
    (first : (Statement.read (token :: tail)).Gives statement rest)
    (others : Lists statements behind (Statement.readList nested rest)) :
    Lists (statement :: statements) behind (Statement.readList nested (token :: tail)) := by
  have startsWith {kind : TokenKind} (same : token.kind = kind) :
      startsStatement kind = true := same ▸ starts
  obtain ⟨shorter, success⟩ := first.outcome
  refine Statement.readList_holds_of_success (fun same => ?_) (fun same => ?_) (fun same => ?_)
    success first (fun _ => ?_) id
  · cases startsWith same
  · cases startsWith same
  · cases startsWith same
  · exact Listing.Holds.imp others
      (fun _ _ same => ⟨congrArg (statement :: ·) same.1, same.2⟩) id

theorem Blocks.closes {tokens rest : List Token} {statements : List Statement}
    (derived : Blocks tokens statements) : Closes 7 (tokens ++ rest) := by
  obtain ⟨token, tail, rfl, same⟩ := derived.head
  exact closes_of_ofKind?_eq_none (by rw [same]; rfl)

/-- A branch is read up to its `else` and with whatever is read behind it. -/
private theorem readBranch_gives_else {keyword other : Token}
    {condition body last rest : List Token}
    {tree : Expression} {statements : List Statement} {arm : Statement}
    (branches : keyword.kind = .ifWord) (decides : Logic condition tree)
    (blocks : Blocks body statements)
    (reads : ∀ rest, (Statement.readBlock (body ++ rest)).Gives (.block statements) rest)
    (otherwise : other.kind = .elseWord)
    (armReads : (Statement.readElse (last ++ rest)).Gives arm rest) :
    (Statement.readBranch (keyword :: (condition ++ (body ++ other :: last)) ++ rest)).Gives
      (.branch tree (.block statements) (some arm)) rest := by
  have shape : keyword :: (condition ++ (body ++ other :: last)) ++ rest =
      keyword :: (condition ++ (body ++ other :: (last ++ rest))) := by simp
  rw [shape, Statement.readBranch]
  apply Recorded.Gives.bind (Recorded.gives_record.mpr (expect_gives branches))
  intro _
  refine Recorded.Gives.bind (Recorded.gives_record.mpr (decides.readLevel_gives blocks.closes))
    fun _ => ?_
  refine (reads _).andThen fun _ => ?_
  simp only [if_pos otherwise]
  exact armReads.map.within

theorem Lines.lists {tokens rest : List Token} {statements : List Statement} {nested : Bool}
    (derived : Lines tokens statements) (stops : StopsList nested rest) :
    Lists statements rest (Statement.readList nested (tokens ++ rest)) := by
  refine Lines.rec
    (motive_1 := fun tokens statement _ => ∀ rest, EndsStatement rest →
      (Statement.readOpen (tokens ++ rest)).Gives statement rest)
    (motive_2 := fun tokens statement _ => ∀ rest,
      (∀ token ∈ rest.head?, token.kind ≠ .elseWord) →
      (Statement.readBranch (tokens ++ rest)).Gives statement rest)
    (motive_3 := fun tokens statements _ => ∀ rest,
      (Statement.readBlock (tokens ++ rest)).Gives (.block statements) rest)
    (motive_4 := fun tokens statements _ => ∀ nested rest, StopsList nested rest →
      Lists statements rest (Statement.readList nested (tokens ++ rest)))
    ?declare ?print ?printNothing ?branch ?loop ?block ?expression ?alone ?otherwise ?chained
    ?braces ?empty ?blank ?line ?last derived nested rest stops
  case declare =>
    intro tokens statement derived rest ends
    have kind : nextKind? (tokens ++ rest) = some .varWord := by
      cases derived with
      | declare declares _ _ => simp [declares]
    rw [Statement.readOpen_declaration kind]
    exact Recorded.gives_record.mpr (derived.read_gives (ends.closes 7))
  case print =>
    intro keyword newline tokens value prints derived rest ends
    rw [List.cons_append, Statement.readOpen_print (prints.nextKind?_eq rfl)]
    exact Recorded.gives_record.mpr (readPrint_gives prints derived ends)
  case printNothing =>
    intro keyword newline prints rest ends
    rw [List.singleton_append, Statement.readOpen_print (prints.nextKind?_eq rfl)]
    exact Recorded.gives_record.mpr (readPrint_gives_nothing prints ends)
  case branch =>
    intro tokens statement derived reads rest ends
    rw [Statement.readOpen_branch (nextKind?_append derived.head rest)]
    exact reads rest (ends.ne_kind (by decide) (by decide) (by decide))
  case loop =>
    intro header body start step condition statements headerDerived _ reads rest _
    rw [List.append_assoc, Statement.readOpen_loop (nextKind?_append headerDerived.head _),
      Statement.readLoop]
    apply Recorded.Gives.bind (Recorded.gives_record.mpr headerDerived.read_gives)
    intro _
    exact (reads rest).map
  case block =>
    intro tokens statements derived reads rest _
    rw [Statement.readOpen_block (nextKind?_append derived.head rest)]
    exact reads rest
  case expression =>
    intro tokens tree derived rest ends
    exact readOpen_gives_expression derived ends
  case alone =>
    intro keyword condition body tree statements branches decides blocks reads rest noElse
    rw [List.cons_append, List.append_assoc, Statement.readBranch]
    apply Recorded.Gives.bind (Recorded.gives_record.mpr (expect_gives branches))
    intro _
    refine Recorded.Gives.bind (Recorded.gives_record.mpr (decides.readLevel_gives blocks.closes))
      fun _ => ?_
    refine (reads rest).andThen fun _ => ?_
    cases rest with
    | nil => exact ⟨rfl, rfl⟩
    | cons token tail =>
        simp only [if_neg (noElse token rfl)]
        exact ⟨rfl, rfl⟩
  case otherwise =>
    intro keyword other condition body last tree statements others branches decides blocks
      otherwise lastBlocks reads lastReads rest _
    apply readBranch_gives_else branches decides blocks reads otherwise
    have notIf : nextKind? (last ++ rest) ≠ some .ifWord := by
      rw [nextKind?_append lastBlocks.head rest]
      decide
    rw [Statement.readElse, if_neg notIf]
    exact lastReads rest
  case chained =>
    intro keyword other condition body last tree statements next branches decides blocks
      otherwise chained reads nextReads rest noElse
    apply readBranch_gives_else branches decides blocks reads otherwise
    rw [Statement.readElse, if_pos (nextKind?_append chained.head rest)]
    exact nextReads rest noElse
  case braces =>
    intro opening closing inside statements opens _ closes lists rest
    rw [List.cons_append, List.append_assoc, Statement.readBlock]
    apply Recorded.Gives.bind (Recorded.gives_record.mpr (expect_gives opens))
    intro _
    have stops : StopsList true ([closing] ++ rest) := by simp [StopsList, closes]
    refine (lists true _ stops).close (fun found ending left same _ => ?_)
      (fun found left same unclosed => ?_) id
    · obtain ⟨rfl, shape⟩ := same
      cases shape
      exact ⟨rfl, rfl⟩
    · obtain ⟨rfl, rfl⟩ := same
      exact unclosed closing rfl closes
  case empty =>
    intro nested rest stops
    exact lists_nil stops
  case blank =>
    intro token tokens statements ends _ lists nested rest stops
    rw [List.cons_append, Statement.readList_lineEnd ends]
    exact Listing.holds_within.mpr (lists nested rest stops)
  case line =>
    intro first behind ending statement statements states ends _ reads lists nested rest stops
    obtain ⟨token, tail, rfl, starts⟩ := states.head
    rw [List.append_assoc, List.cons_append]
    refine lists_cons starts ?_ (lists nested rest stops)
    have endsFirst : EndsStatement (ending :: behind ++ rest) := by simp [EndsStatement, ends]
    rw [Statement.read]
    exact (reads _ endsFirst).andThen fun _ =>
      Recorded.gives_record.mpr (readEnd_gives_line ends)
  case last =>
    intro tokens statement states reads nested rest stops
    obtain ⟨token, tail, rfl, starts⟩ := states.head
    rw [List.cons_append]
    refine lists_cons starts ?_ (lists_nil stops)
    rw [Statement.read]
    exact (reads rest stops.stops.endsStatement).andThen fun _ =>
      Recorded.gives_record.mpr (readEnd_gives_last stops.stops)

/-! ## The end of input -/

def WithoutEnd (tokens : List Token) : Prop :=
  ∀ token ∈ tokens, token.kind ≠ .inputEnd

@[simp] theorem withoutEnd_nil : WithoutEnd [] := by
  simp [WithoutEnd]

@[simp] theorem withoutEnd_cons {token : Token} {tail : List Token} :
    WithoutEnd (token :: tail) ↔ token.kind ≠ .inputEnd ∧ WithoutEnd tail := by
  simp [WithoutEnd]

@[simp] theorem withoutEnd_append {before behind : List Token} :
    WithoutEnd (before ++ behind) ↔ WithoutEnd before ∧ WithoutEnd behind := by
  simp [WithoutEnd, or_imp, forall_and]

theorem Joins.ne_inputEnd {level : Level} {kind : TokenKind} {operator : BinaryOperator}
    (joins : Joins level kind operator) : kind ≠ .inputEnd := by
  cases joins <;> decide

theorem Leads.ne_inputEnd {kind : TokenKind} {operator : UnaryOperator}
    (leads : Leads kind operator) : kind ≠ .inputEnd := by
  cases leads <;> decide

theorem Prints.ne_inputEnd {kind : TokenKind} {newline : Bool} (prints : Prints kind newline) :
    kind ≠ .inputEnd := by
  cases prints <;> decide

theorem Derives.withoutEnd {phrase : Phrase} {tokens : List Token} {tree : Expression}
    (derived : Derives phrase tokens tree) : WithoutEnd tokens := by
  induction derived with
  | integer | decimal | string | name => simp
  | truth same | falsity same => simp [same]
  | group opens _ closes inside => simp [opens, closes, inside]
  | primary _ tokens => exact tokens
  | unary leads _ tokens => exact withoutEnd_cons.mpr ⟨leads.ne_inputEnd, tokens⟩
  | operand _ tokens => exact tokens
  | join _ joins _ before behind => simp [before, behind, joins.ne_inputEnd]

theorem Root.withoutEnd {tokens : List Token} {tree : Expression} (derived : Root tokens tree) :
    WithoutEnd tokens := by
  cases derived with
  | logic derived => exact derived.withoutEnd
  | assign assigns derived => simp [assigns, derived.withoutEnd]

theorem Declares.withoutEnd {tokens : List Token} {statement : Statement}
    (derived : Declares tokens statement) : WithoutEnd tokens := by
  cases derived with
  | declare declares assigns derived => simp [declares, assigns, derived.withoutEnd]

theorem LoopStart.withoutEnd {tokens : List Token} {start : Option Statement}
    (derived : LoopStart tokens start) : WithoutEnd tokens := by
  cases derived with
  | absent => exact withoutEnd_nil
  | present declares => exact declares.withoutEnd

theorem LoopStep.withoutEnd {tokens : List Token} {step : Option Statement}
    (derived : LoopStep tokens step) : WithoutEnd tokens := by
  cases derived with
  | absent => exact withoutEnd_nil
  | present assigns derived => simp [assigns, derived.withoutEnd]

theorem Header.withoutEnd {tokens : List Token} {start step : Option Statement}
    {condition : Expression} (derived : Header tokens start condition step) :
    WithoutEnd tokens := by
  cases derived with
  | header loops opens starts firstEnds decides secondEnds steps closes =>
      simp [loops, opens, firstEnds, secondEnds, closes, decides.withoutEnd, starts.withoutEnd,
        steps.withoutEnd]

theorem Lines.withoutEnd {tokens : List Token} {statements : List Statement}
    (derived : Lines tokens statements) : WithoutEnd tokens := by
  refine Lines.rec (motive_1 := fun tokens _ _ => WithoutEnd tokens)
    (motive_2 := fun tokens _ _ => WithoutEnd tokens)
    (motive_3 := fun tokens _ _ => WithoutEnd tokens)
    (motive_4 := fun tokens _ _ => WithoutEnd tokens)
    ?declare ?print ?printNothing ?branch ?loop ?block ?expression ?alone ?otherwise ?chained
    ?braces ?empty ?blank ?line ?last derived
  case declare => exact fun declares => declares.withoutEnd
  case print => exact fun prints root => withoutEnd_cons.mpr ⟨prints.ne_inputEnd, root.withoutEnd⟩
  case printNothing => exact fun prints => withoutEnd_cons.mpr ⟨prints.ne_inputEnd, withoutEnd_nil⟩
  case branch => exact fun _ tokens => tokens
  case loop => exact fun header _ body => withoutEnd_append.mpr ⟨header.withoutEnd, body⟩
  case block => exact fun _ tokens => tokens
  case expression => exact fun root => root.withoutEnd
  case alone =>
    intro _ _ _ _ _ branches decides _ body
    simp [branches, decides.withoutEnd, body]
  case otherwise =>
    intro _ _ _ _ _ _ _ _ branches decides _ otherwise _ body last
    simp [branches, decides.withoutEnd, body, otherwise, last]
  case chained =>
    intro _ _ _ _ _ _ _ _ branches decides _ otherwise _ body last
    simp [branches, decides.withoutEnd, body, otherwise, last]
  case braces =>
    intro _ _ _ _ opens _ closes inside
    simp [opens, closes, inside]
  case empty => exact withoutEnd_nil
  case blank =>
    intro _ _ _ ends _ tokens
    simp [ends, tokens]
  case line =>
    intro _ _ _ _ _ _ ends _ first behind
    simp [first, ends, behind]
  case last => exact fun _ tokens => tokens

/-- Lines that reach up to where the list at the top stops are all that stands before the end. -/
theorem tokensBeforeEnd_append {used rest : List Token} (inside : WithoutEnd used)
    (stops : StopsList false rest) : tokensBeforeEnd (used ++ rest) = used := by
  unfold tokensBeforeEnd
  rw [List.takeWhile_append_of_pos (by simpa [WithoutEnd] using inside)]
  cases rest with
  | nil => simp
  | cons token tail =>
      rcases stops token rfl with same | ⟨nested, _⟩
      · simp [same]
      · cases nested

private theorem tokensBeforeEnd_split (tokens : List Token) :
    ∃ rest, tokens = tokensBeforeEnd tokens ++ rest ∧ StopsList false rest := by
  refine ⟨tokens.dropWhile fun token => token.kind ≠ .inputEnd,
    List.takeWhile_append_dropWhile.symm, fun token first => .inl ?_⟩
  have stopped := List.head?_dropWhile_not (fun token : Token => token.kind ≠ .inputEnd) tokens
  rw [Option.mem_def.mp first] at stopped
  simpa using stopped

theorem read_takesLines {tokens : List Token} (own : OwnPayloads tokens)
    (clean : (Program.read tokens).2 = []) :
    ∃ rest, TakesLines false tokens (Program.read tokens).1 rest := by
  have listed := Statement.readers_take.2.2.2.1 false tokens own
  have noErrors : (Statement.readList false tokens).errors = [] := clean
  unfold Listing.Holds at listed
  simp only [noErrors] at listed
  exact ⟨_, listed⟩

/-- A token list is read as this program without errors exactly when the grammar derives this
program from the tokens in front of the end of input. -/
theorem read_eq_iff_lines {tokens : List Token} {program : Program} (own : OwnPayloads tokens) :
    Program.read tokens = (program, []) ↔ Lines (tokensBeforeEnd tokens) program := by
  constructor
  · intro readClean
    obtain ⟨rest, ⟨used, same, lines⟩, stops⟩ := read_takesLines own (by rw [readClean])
    rw [readClean] at lines
    rw [same, tokensBeforeEnd_append lines.withoutEnd stops]
    exact lines
  · intro lines
    obtain ⟨rest, same, stops⟩ := tokensBeforeEnd_split tokens
    have listed := lines.lists stops
    rw [← same] at listed
    unfold Lists Listing.Holds at listed
    unfold Program.read
    generalize Statement.readList false tokens = listing at listed
    obtain ⟨statements, errors, left, bounded⟩ := listing
    cases errors with
    | nil => exact Prod.ext listed.1 rfl
    | cons error others => exact False.elim listed

/-- Two subtractions lean to the left, and each carries the line of its sign. -/
theorem read_subtractions :
    Program.read
      [⟨.printWord, none, 1⟩, ⟨.integerLiteral, some (.integer 1), 1⟩, ⟨.minus, none, 1⟩,
        ⟨.integerLiteral, some (.integer 2), 1⟩, ⟨.minus, none, 1⟩,
        ⟨.identifier, some (.text "n"), 1⟩, ⟨.lineEnd, none, 1⟩, ⟨.inputEnd, none, 2⟩] =
      ([.print (.binary (.arithmetic .subtract)
        (.binary (.arithmetic .subtract) (.literal (.int 1) 1) (.literal (.int 2) 1) 1)
        (.reference "n" 1) 1) false], []) := by
  refine (read_eq_iff_lines (by simp [OwnPayloads, Token.hasOwnPayload])).mpr ?_
  have product {tokens : List Token} {tree : Expression} (derived : Derives .primary tokens tree) :
      Derives (.chain .product) tokens tree := @Derives.operand .product _ _ (.primary derived)
  have first := @Derives.join .sum ⟨.minus, none, 1⟩ _ _ _ _ _
    (@Derives.operand .sum _ _ (product (@Derives.integer 1 1))) .subtract
    (product (@Derives.integer 2 1))
  have second := @Derives.join .sum ⟨.minus, none, 1⟩ _ _ _ _ _ first .subtract
    (product (@Derives.name "n" 1))
  have difference := @Derives.operand .disjunction _ _ (@Derives.operand .conjunction _ _
    (@Derives.operand .equality _ _ (@Derives.operand .relation _ _ second)))
  exact .line (.print .print (.logic difference)) rfl .empty

end Grammar

end LineScript
