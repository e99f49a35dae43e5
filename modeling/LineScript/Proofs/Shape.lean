import LineScript.Proofs.Grammar.Expressions

/-!
The shape of the trees that reading gives.

A saved program may hold any tree.  The trees read from tokens, with errors recorded or not, are of
a smaller kind: assignments stand at the root of a statement, the arms of a branch are blocks or
further branches, and a loop stands alone in a block of its own.
-/

set_option autoImplicit false

namespace LineScript

/-- No assignment anywhere in the expression. -/
inductive Expression.AssignFree : Expression → Prop where
  | literal {value : Value} {line : Nat} : AssignFree (.literal value line)
  | reference {name : String} {line : Nat} : AssignFree (.reference name line)
  | unary {operator : UnaryOperator} {operand : Expression} {line : Nat} :
      AssignFree operand → AssignFree (.unary operator operand line)
  | binary {operator : BinaryOperator} {left right : Expression} {line : Nat} :
      AssignFree left → AssignFree right → AssignFree (.binary operator left right line)
  | group {inner : Expression} : AssignFree inner → AssignFree (.group inner)

/-- No assignment but at the root. -/
inductive Expression.RootShaped : Expression → Prop where
  | free {tree : Expression} : AssignFree tree → RootShaped tree
  | assign {name : String} {value : Expression} {line : Nat} :
      AssignFree value → RootShaped (.assign name value line)

namespace Statement

/-- A loop starts with a declaration or with nothing. -/
inductive StartShaped : Option Statement → Prop where
  | absent : StartShaped none
  | declare {name : String} {initializer : Expression} {line : Nat} :
      initializer.AssignFree → StartShaped (some (.declare name initializer line))

inductive StepShaped : Option Statement → Prop where
  | absent : StepShaped none
  | assign {name : String} {value : Expression} {line : Nat} :
      value.AssignFree → StepShaped (some (.expression (.assign name value line)))

mutual

inductive Shaped : Statement → Prop where
  | expression {root : Expression} : root.RootShaped → Shaped (.expression root)
  | declare {name : String} {initializer : Expression} {line : Nat} :
      initializer.AssignFree → Shaped (.declare name initializer line)
  | print {root : Expression} {newline : Bool} : root.RootShaped → Shaped (.print root newline)
  | block {statements : List Statement} : ShapedAll statements → Shaped (.block statements)
  /-- A loop is no statement of this shape without the block around it. -/
  | loop {start step : Option Statement} {condition : Expression} {statements : List Statement} :
      StartShaped start → condition.AssignFree → StepShaped step → ShapedAll statements →
      Shaped (.block [.loop start condition step (.block statements)])
  | branch {condition : Expression} {statements : List Statement} {elseBranch : Option Statement} :
      condition.AssignFree → ShapedAll statements → ShapedElse elseBranch →
      Shaped (.branch condition (.block statements) elseBranch)

inductive ShapedElse : Option Statement → Prop where
  | absent : ShapedElse none
  | block {statements : List Statement} : ShapedAll statements → ShapedElse (some (.block statements))
  | branch {condition : Expression} {thenBranch : Statement} {elseBranch : Option Statement} :
      Shaped (.branch condition thenBranch elseBranch) →
      ShapedElse (some (.branch condition thenBranch elseBranch))

inductive ShapedAll : List Statement → Prop where
  | nil : ShapedAll []
  | cons {statement : Statement} {statements : List Statement} :
      Shaped statement → ShapedAll statements → ShapedAll (statement :: statements)

end

end Statement

/-! ## Expressions -/

namespace Grammar

theorem Derives.assignFree {phrase : Phrase} {tokens : List Token} {tree : Expression}
    (derived : Derives phrase tokens tree) : tree.AssignFree := by
  induction derived with
  | integer | decimal | string | truth | falsity => exact .literal
  | name => exact .reference
  | group _ _ _ inner => exact .group inner
  | primary _ tree | operand _ tree => exact tree
  | unary _ _ operand => exact .unary operand
  | join _ _ _ left right => exact .binary left right

theorem Root.rootShaped {tokens : List Token} {tree : Expression} (derived : Root tokens tree) :
    tree.RootShaped := by
  cases derived with
  | logic derived => exact .free derived.assignFree
  | assign _ derived => exact .assign derived.assignFree

end Grammar

theorem Expression.readLevel_assignFree (level : Level) (tokens : List Token) :
    (readLevel level tokens).Holds (fun tree _ => tree.AssignFree) True :=
  (readers_take.1 level tokens).imp (fun _ _ _ taken => by
    obtain ⟨_, _, derived⟩ := taken
    exact derived.assignFree) id

theorem Expression.read_rootShaped (tokens : List Token) :
    (read tokens).Holds (fun tree _ => tree.RootShaped) True :=
  (Grammar.read_takes tokens).imp (fun _ _ _ taken => by
    obtain ⟨_, _, derived⟩ := taken
    exact derived.rootShaped) id

/-! ## Statements -/

namespace Recorded

variable {α β : Type} {inner limit : Nat} {found : α → Prop} {made : β → Prop}

/-- What was read, if anything was, is as said, whatever errors were recorded. -/
def Yields (found : α → Prop) (result : Recorded α limit) : Prop :=
  result.outcome.Holds (fun value _ => found value) True

private theorem yields_record {result : Parsed α limit} :
    result.record.Yields found ↔ result.Holds (fun value _ => found value) True :=
  Iff.rfl

theorem Yields.imp {wider : α → Prop} {result : Recorded α limit} (yields : result.Yields found)
    (widens : ∀ value, found value → wider value) : result.Yields wider :=
  Parsed.Holds.imp yields (fun value _ _ => widens value) id

private theorem yields_within {fits : inner ≤ limit} {result : Recorded α inner} :
    (result.within fits).Yields found ↔ result.Yields found := by
  unfold Yields Recorded.within
  rw [Parsed.holds_within]

private theorem yields_map {change : α → β} {result : Recorded α limit} :
    (result.map change).Yields made ↔ result.Yields fun value => made (change value) :=
  Parsed.holds_map

theorem Yields.andThen {first : Recorded α inner} {fits : inner ≤ limit}
    {next : (value : α) → (rest : List Token) → rest.length < inner → Recorded β limit}
    (yields : first.Yields found)
    (onSuccess : ∀ value rest shorter, found value → (next value rest shorter).Yields made) :
    (first.andThen fits next).Yields made := by
  obtain ⟨outcome, errors⟩ := first
  cases outcome with
  | success value rest shorter => exact onSuccess value rest shorter yields
  | failure error rest bounded => trivial

theorem Yields.bind {first : Recorded α limit}
    {next : (value : α) → (rest : List Token) → rest.length < limit → Recorded β rest.length}
    (yields : first.Yields found)
    (onSuccess : ∀ value rest shorter, found value → (next value rest shorter).Yields made) :
    (first.bind next).Yields made :=
  yields.andThen fun value rest shorter reached =>
    yields_within.mpr (onSuccess value rest shorter reached)

end Recorded

namespace Statement

private theorem readDeclaration_shaped (tokens : List Token) :
    (readDeclaration tokens).Holds (fun statement _ => ∃ name initializer line,
      statement = .declare name initializer line ∧ initializer.AssignFree) True := by
  unfold readDeclaration
  refine (Parsed.holds_true (expect .varWord tokens)).bind (fun _ rest _ _ => ?_) id
  refine (Parsed.holds_true (readName rest)).bind (fun target rest _ _ => ?_) id
  refine (Parsed.holds_true (expect .equal rest)).bind (fun _ rest _ _ => ?_) id
  rw [Parsed.holds_map]
  exact (Expression.readLevel_assignFree .disjunction rest).imp
    (fun initializer _ _ free => ⟨_, initializer, _, rfl, free⟩) id

private theorem readPrint_shaped (tokens : List Token) :
    (readPrint tokens).Holds (fun statement _ => Shaped statement) True := by
  cases tokens with
  | nil => trivial
  | cons keyword tail =>
      unfold readPrint readPrinted
      rw [Parsed.holds_map]
      split
      iterate 4 exact .print (.free .literal)
      rw [Parsed.holds_within]
      exact (Expression.read_rootShaped tail).imp (fun root _ _ shaped => .print shaped) id

private theorem readLoopStart_shaped {limit : Nat} {tokens : List Token}
    {shorter : tokens.length < limit} :
    (readLoopStart limit tokens shorter).Holds (fun start _ => StartShaped start) True := by
  unfold readLoopStart
  split
  · rw [Parsed.holds_within, Parsed.holds_map]
    refine (readDeclaration_shaped tokens).imp (fun start _ _ shaped => ?_) id
    obtain ⟨name, initializer, line, rfl, free⟩ := shaped
    exact .declare free
  · exact .absent

private theorem readLoopStep_shaped {limit : Nat} {tokens : List Token}
    {shorter : tokens.length < limit} :
    (readLoopStep limit tokens shorter).Holds (fun step _ => StepShaped step) True := by
  unfold readLoopStep
  split
  · rw [Parsed.holds_within]
    refine (Parsed.holds_true (readName tokens)).bind (fun target rest _ _ => ?_) id
    refine (Parsed.holds_true (expect .equal rest)).bind (fun _ rest _ _ => ?_) id
    rw [Parsed.holds_map]
    exact (Expression.readLevel_assignFree .disjunction rest).imp
      (fun _ _ _ free => .assign free) id
  · exact .absent

private theorem readLoopHeader_shaped (tokens : List Token) :
    (readLoopHeader tokens).Holds (fun header _ => StartShaped header.start ∧
      header.condition.AssignFree ∧ StepShaped header.step) True := by
  unfold readLoopHeader
  refine (Parsed.holds_true (expect .forWord tokens)).bind (fun _ rest _ _ => ?_) id
  refine (Parsed.holds_true (expect .leftParen rest)).andThen (fun _ opened _ _ => ?_) id
  refine readLoopStart_shaped.bind (fun start rest _ startShaped => ?_) id
  refine (Parsed.holds_true (expect .semicolon rest)).bind (fun _ rest _ _ => ?_) id
  refine (Expression.readLevel_assignFree .disjunction rest).bind
    (fun condition rest _ conditionFree => ?_) id
  refine (Parsed.holds_true (expect .semicolon rest)).andThen (fun _ opened _ _ => ?_) id
  refine readLoopStep_shaped.bind (fun step rest _ stepShaped => ?_) id
  rw [Parsed.holds_map]
  exact (Parsed.holds_true (expect .rightParen rest)).imp
    (fun _ _ _ _ => ⟨startShaped, conditionFree, stepShaped⟩) id

private theorem readEnd_shaped {statement : Statement} {limit : Nat} {tokens : List Token}
    {shorter : tokens.length < limit} (shaped : Shaped statement) :
    (readEnd statement limit tokens shorter).Holds (fun found _ => Shaped found) True := by
  unfold readEnd
  cases tokens with
  | nil => exact shaped
  | cons token tail =>
      dsimp only
      split
      · exact shaped
      · exact shaped
      · exact shaped
      · trivial

def YieldsBlock {limit : Nat} (result : Recorded Statement limit) : Prop :=
  result.Yields fun block => ∃ statements, block = .block statements ∧ ShapedAll statements

def YieldsBranch {limit : Nat} (result : Recorded Statement limit) : Prop :=
  result.Yields fun branch => ∃ condition thenBranch elseBranch,
    branch = .branch condition thenBranch elseBranch ∧ Shaped branch

theorem Listing.close_yields {opening : Token} {limit : Nat} {listing : Listing limit}
    (shaped : ShapedAll listing.statements) :
    YieldsBlock (listing.close opening) := by
  obtain ⟨statements, errors, rest, bounded⟩ := listing
  unfold Listing.close YieldsBlock Recorded.Yields
  cases rest with
  | nil => trivial
  | cons token tail =>
      dsimp only
      split
      · exact ⟨statements, rfl, shaped⟩
      · trivial

private theorem readLoop_shaped {tokens : List Token}
    (blockShaped : ∀ rest : List Token, rest.length < tokens.length → YieldsBlock (readBlock rest)) :
    (readLoop tokens).Yields Shaped := by
  rw [readLoop]
  have headed : (readLoopHeader tokens).record.Yields _ := readLoopHeader_shaped tokens
  apply headed.bind
  intro header rest shorter shaped
  rw [Recorded.yields_map]
  refine (blockShaped rest shorter).imp fun body bodyShaped => ?_
  obtain ⟨statements, rfl, bodyShaped⟩ := bodyShaped
  exact .loop shaped.1 shaped.2.1 shaped.2.2 bodyShaped

private theorem readBranch_shaped {tokens : List Token}
    (blockShaped : ∀ condition : List Token, condition.length < tokens.length →
      ∀ block : List Token, block.length < condition.length → YieldsBlock (readBlock block))
    (elseShaped : ∀ condition : List Token, condition.length < tokens.length →
      ∀ block : List Token, block.length < condition.length →
      ∀ (_ : List Token) (token : Token) (tail : List Token),
        (token :: tail).length < block.length →
        (readElse tail).Yields fun arm => ShapedElse (some arm)) :
    YieldsBranch (readBranch tokens) := by
  rw [readBranch]
  have branches : (expect .ifWord tokens).record.Yields fun _ => True := Parsed.holds_true _
  apply branches.bind
  intro _ rest shorter _
  have decides : (Expression.readLevel .disjunction rest).record.Yields _ :=
    Expression.readLevel_assignFree .disjunction rest
  apply decides.bind
  intro condition rest shorter' free
  refine (blockShaped _ shorter _ shorter').andThen fun thenBranch behind shorter'' shaped => ?_
  obtain ⟨statements, rfl, thenShaped⟩ := shaped
  cases behind with
  | nil => exact ⟨_, _, _, rfl, .branch free thenShaped .absent⟩
  | cons other tail =>
      dsimp only
      split
      · rw [Recorded.yields_within, Recorded.yields_map]
        exact (elseShaped _ shorter _ shorter' [] other tail shorter'').imp
          fun arm armShaped => ⟨_, _, _, rfl, .branch free thenShaped armShaped⟩
      · exact ⟨_, _, _, rfl, .branch free thenShaped .absent⟩

/-- Whatever is read is of this shape, also from a list with errors in it. -/
theorem readers_shaped :
    (∀ tokens, (read tokens).Yields Shaped) ∧ (∀ tokens, (readOpen tokens).Yields Shaped) ∧
    (∀ tokens, YieldsBlock (readBlock tokens)) ∧
    (∀ nested tokens, ShapedAll (readList nested tokens).statements) ∧
    (∀ tokens, (readLoop tokens).Yields Shaped) ∧ (∀ tokens, YieldsBranch (readBranch tokens)) ∧
    (∀ tokens, (readElse tokens).Yields fun arm => ShapedElse (some arm)) := by
  apply read.mutual_induct
  · intro tokens openShaped
    rw [read]
    exact openShaped.andThen fun statement rest shorter shaped => readEnd_shaped shaped
  · intro tokens kind
    rw [readOpen_declaration kind]
    refine (readDeclaration_shaped tokens).imp (fun statement _ _ shaped => ?_) id
    obtain ⟨name, initializer, line, rfl, free⟩ := shaped
    exact .declare free
  · intro tokens kind
    rw [readOpen_print (.inl kind)]
    exact readPrint_shaped tokens
  · intro tokens kind
    rw [readOpen_print (.inr kind)]
    exact readPrint_shaped tokens
  · intro tokens kind branchShaped
    rw [readOpen_branch kind]
    apply branchShaped.imp
    intro branch shaped
    obtain ⟨_, _, _, _, shaped⟩ := shaped
    exact shaped
  · intro tokens kind loopShaped
    rw [readOpen_loop kind]
    exact loopShaped
  · intro tokens kind blockShaped
    rw [readOpen_block kind]
    apply blockShaped.imp
    intro block shaped
    obtain ⟨statements, rfl, shaped⟩ := shaped
    exact .block shaped
  · intro tokens kind
    rw [readOpen]
    simp only [kind, Recorded.yields_record]
    exact (Parsed.holds_true _).andThen (fun _ _ _ _ => trivial) id
  · intro tokens notVar notPrint notPrintln notIf notFor notLeftBrace notElse
    rw [readOpen_expression notVar notPrint notPrintln notIf notFor notLeftBrace notElse]
    exact Parsed.holds_map.mpr ((Expression.read_rootShaped tokens).imp
      (fun root _ _ shaped => .expression shaped) id)
  · intro tokens listShaped
    rw [readBlock]
    have opened : (expect .leftBrace tokens).record.Yields fun _ => True := Parsed.holds_true _
    exact opened.bind fun opening inside shorter _ =>
      Listing.close_yields (listShaped inside shorter)
  · intro nested
    rw [readList]
    exact .nil
  · intro nested token tail ends listShaped
    rw [readList_lineEnd ends]
    exact listShaped
  · intro nested token tail ends
    rw [readList_stop (.inl ends)]
    exact .nil
  · intro token tail closes
    rw [readList_stop (.inr ⟨rfl, closes⟩)]
    exact .nil
  · intro nested token tail closes outermost listShaped
    rw [readList_unbalanced closes outermost]
    exact listShaped
  · intro nested token tail result statement rest shorter success notLineEnd notInputEnd
      notRightBrace readShaped listShaped
    have shaped : Shaped statement := by
      unfold Recorded.Yields at readShaped
      rw [success] at readShaped
      exact readShaped
    rw [readList_success notLineEnd notInputEnd notRightBrace success]
    exact .cons shaped listShaped
  · intro nested token tail result error rest bounded failure notLineEnd notInputEnd
      notRightBrace readShaped listShaped
    rw [readList_failure notLineEnd notInputEnd notRightBrace failure]
    exact listShaped
  · exact fun _ => readLoop_shaped
  · exact fun _ => readBranch_shaped
  · intro tokens kind branchShaped
    rw [readElse, if_pos kind]
    apply branchShaped.imp
    intro branch shaped
    obtain ⟨condition, thenBranch, elseBranch, rfl, shaped⟩ := shaped
    exact .branch shaped
  · intro tokens kind blockShaped
    rw [readElse, if_neg kind]
    apply blockShaped.imp
    intro block shaped
    obtain ⟨statements, rfl, shaped⟩ := shaped
    exact .block shaped

end Statement

end LineScript
