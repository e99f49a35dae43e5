import LineScript.Program.Statement

/-!
Rules for results of reading.

`Parsed.Holds` says what is true of a result: one thing of the value and the tokens left after a
success, another after a failure.  `Recorded.Holds` counts a success with recorded errors as a
failure.  Each way of combining readers has one rule, so statements about a reader follow its
parts and never look at the bounds that results carry.
-/

set_option autoImplicit false

namespace LineScript

namespace Parsed

variable {α β : Type} {inner limit : Nat}

/-- What is true of a result: `succeeds` of the value and the rest, or `fails`. -/
def Holds (succeeds : α → List Token → Prop) (fails : Prop) : Parsed α limit → Prop
  | success value rest _ => succeeds value rest
  | failure _ _ _ => fails

def Gives (value : α) (rest : List Token) (result : Parsed α limit) : Prop :=
  result.Holds (fun found left => found = value ∧ left = rest) False

variable {succeeds : α → List Token → Prop} {after : β → List Token → Prop} {fails blocked : Prop}

@[simp] theorem holds_success {value : α} {rest : List Token} {shorter : rest.length < limit} :
    (success value rest shorter).Holds succeeds fails ↔ succeeds value rest :=
  Iff.rfl

@[simp] theorem holds_failure {error : GrammarError} {rest : List Token}
    {bounded : rest.length ≤ limit} :
    (failure error rest bounded : Parsed α limit).Holds succeeds fails ↔ fails :=
  Iff.rfl

@[simp] theorem holds_within {fits : inner ≤ limit} {result : Parsed α inner} :
    (result.within fits).Holds succeeds fails ↔ result.Holds succeeds fails := by
  cases result <;> rfl

@[simp] theorem holds_map {change : α → β} {result : Parsed α limit} :
    (result.map change).Holds after fails ↔
      result.Holds (fun value rest => after (change value) rest) fails := by
  cases result <;> rfl

theorem Holds.imp {wider : α → List Token → Prop} {result : Parsed α limit}
    (holds : result.Holds succeeds fails)
    (onSuccess : ∀ value rest, rest.length < limit → succeeds value rest → wider value rest)
    (onFailure : fails → blocked) : result.Holds wider blocked := by
  cases result with
  | success value rest shorter => exact onSuccess value rest shorter holds
  | failure error rest bounded => exact onFailure holds

theorem holds_true (result : Parsed α limit) : result.Holds (fun _ _ => True) True := by
  cases result <;> trivial

theorem Holds.and {wider : α → List Token → Prop} {result : Parsed α limit}
    (holds : result.Holds succeeds fails) (also : result.Holds wider blocked) :
    result.Holds (fun value rest => succeeds value rest ∧ wider value rest) (fails ∧ blocked) := by
  cases result with
  | success value rest shorter => exact ⟨holds, also⟩
  | failure error rest bounded => exact ⟨holds, also⟩

theorem Holds.andThen {first : Parsed α inner} {fits : inner ≤ limit}
    {next : (value : α) → (rest : List Token) → rest.length < inner → Parsed β limit}
    (holds : first.Holds succeeds fails)
    (onSuccess : ∀ value rest shorter,
      succeeds value rest → (next value rest shorter).Holds after blocked)
    (onFailure : fails → blocked) : (first.andThen fits next).Holds after blocked := by
  cases first with
  | success value rest shorter => exact onSuccess value rest shorter holds
  | failure error rest bounded => exact onFailure holds

theorem Holds.bind {first : Parsed α limit}
    {next : (value : α) → (rest : List Token) → rest.length < limit → Parsed β rest.length}
    (holds : first.Holds succeeds fails)
    (onSuccess : ∀ value rest shorter,
      succeeds value rest → (next value rest shorter).Holds after blocked)
    (onFailure : fails → blocked) : (first.bind next).Holds after blocked :=
  holds.andThen (fun value rest shorter reached =>
    holds_within.mpr (onSuccess value rest shorter reached)) onFailure

theorem Gives.map {change : α → β} {value : α} {rest : List Token} {result : Parsed α limit}
    (gives : result.Gives value rest) : (result.map change).Gives (change value) rest :=
  holds_map.mpr (gives.imp (fun _ _ _ same => ⟨congrArg change same.1, same.2⟩) id)

theorem Gives.within {fits : inner ≤ limit} {value : α} {rest : List Token}
    {result : Parsed α inner} (gives : result.Gives value rest) :
    (result.within fits).Gives value rest :=
  holds_within.mpr gives

/-- After a result that is known, only the continuation matters. -/
theorem Gives.andThen {first : Parsed α inner} {fits : inner ≤ limit}
    {next : (value : α) → (rest : List Token) → rest.length < inner → Parsed β limit}
    {value : α} {rest : List Token} (gives : first.Gives value rest)
    (onSuccess : ∀ shorter, (next value rest shorter).Holds after fails) :
    (first.andThen fits next).Holds after fails :=
  Holds.andThen gives (fun _ _ shorter same => by
    obtain ⟨rfl, rfl⟩ := same
    exact onSuccess shorter) False.elim

theorem Gives.bind {first : Parsed α limit}
    {next : (value : α) → (rest : List Token) → rest.length < limit → Parsed β rest.length}
    {value : α} {rest : List Token} (gives : first.Gives value rest)
    (onSuccess : ∀ shorter, (next value rest shorter).Holds after fails) :
    (first.bind next).Holds after fails :=
  gives.andThen fun shorter => holds_within.mpr (onSuccess shorter)

end Parsed

/-! ## Single tokens -/

theorem expect_holds (kind : TokenKind) (tokens : List Token) :
    (expect kind tokens).Holds (fun token rest => tokens = token :: rest ∧ token.kind = kind)
      (∀ token tail, tokens = token :: tail → token.kind ≠ kind) := by
  unfold expect
  split
  · simp
  · split
    · next same => exact ⟨rfl, same⟩
    · next different =>
      intro token tail same
      cases same
      exact different

theorem expect_gives {kind : TokenKind} {token : Token} {tail : List Token}
    (same : token.kind = kind) : (expect kind (token :: tail)).Gives token tail := by
  simp only [expect, if_pos same]
  exact ⟨rfl, rfl⟩

@[simp] theorem nextKind?_nil : nextKind? [] = none := rfl

@[simp] theorem nextKind?_cons (token : Token) (tail : List Token) :
    nextKind? (token :: tail) = some token.kind := rfl

theorem exists_cons_of_nextKind? {tokens : List Token} {kind : TokenKind}
    (starts : nextKind? tokens = some kind) :
    ∃ token tail, tokens = token :: tail ∧ token.kind = kind := by
  cases tokens with
  | nil => cases starts
  | cons token tail => exact ⟨token, tail, rfl, Option.some.inj starts⟩

theorem nextKind?_append {tokens : List Token} {kind : TokenKind}
    (starts : ∃ token tail, tokens = token :: tail ∧ token.kind = kind) (rest : List Token) :
    nextKind? (tokens ++ rest) = some kind := by
  obtain ⟨token, tail, rfl, rfl⟩ := starts
  rfl

/-! ## Results with recorded errors -/

namespace Recorded

variable {α β : Type} {inner limit : Nat}

/-- What is true of a result: `succeeds` after a success without recorded errors, `fails` after
anything else. -/
def Holds (succeeds : α → List Token → Prop) (fails : Prop) (result : Recorded α limit) : Prop :=
  match result.errors with
  | [] => result.outcome.Holds succeeds fails
  | _ :: _ => fails

def Gives (value : α) (rest : List Token) (result : Recorded α limit) : Prop :=
  result.Holds (fun found left => found = value ∧ left = rest) False

variable {succeeds : α → List Token → Prop} {after : β → List Token → Prop} {fails blocked : Prop}

@[simp] theorem holds_record {result : Parsed α limit} :
    result.record.Holds succeeds fails ↔ result.Holds succeeds fails :=
  Iff.rfl

@[simp] theorem gives_record {result : Parsed α limit} {value : α} {rest : List Token} :
    result.record.Gives value rest ↔ result.Gives value rest :=
  Iff.rfl

@[simp] theorem holds_within {fits : inner ≤ limit} {result : Recorded α inner} :
    (result.within fits).Holds succeeds fails ↔ result.Holds succeeds fails := by
  unfold Holds within
  cases result.errors with
  | nil => simp only [Parsed.holds_within]
  | cons error others => rfl

@[simp] theorem holds_map {change : α → β} {result : Recorded α limit} :
    (result.map change).Holds after fails ↔
      result.Holds (fun value rest => after (change value) rest) fails := by
  unfold Holds map
  cases result.errors with
  | nil => exact Parsed.holds_map
  | cons error others => rfl

theorem Holds.imp {wider : α → List Token → Prop} {result : Recorded α limit}
    (holds : result.Holds succeeds fails)
    (onSuccess : ∀ value rest, rest.length < limit → succeeds value rest → wider value rest)
    (onFailure : fails → blocked) : result.Holds wider blocked := by
  unfold Holds at holds ⊢
  cases errors : result.errors with
  | nil =>
      simp only [errors] at holds
      exact holds.imp onSuccess onFailure
  | cons error others =>
      simp only [errors] at holds
      exact onFailure holds

/-- Errors recorded by the first part count against the whole. -/
theorem Holds.andThen {first : Recorded α inner} {fits : inner ≤ limit}
    {next : (value : α) → (rest : List Token) → rest.length < inner → Recorded β limit}
    (holds : first.Holds succeeds fails)
    (onSuccess : ∀ value rest shorter,
      succeeds value rest → (next value rest shorter).Holds after blocked)
    (onFailure : fails → blocked) : (first.andThen fits next).Holds after blocked := by
  obtain ⟨outcome, errors⟩ := first
  unfold Holds at holds
  unfold Recorded.andThen
  cases errors with
  | nil =>
      cases outcome with
      | success value rest shorter => exact onSuccess value rest shorter holds
      | failure error rest bounded => exact onFailure holds
  | cons error others =>
      cases outcome with
      | success value rest shorter => exact onFailure holds
      | failure error rest bounded => exact onFailure holds

theorem Holds.bind {first : Recorded α limit}
    {next : (value : α) → (rest : List Token) → rest.length < limit → Recorded β rest.length}
    (holds : first.Holds succeeds fails)
    (onSuccess : ∀ value rest shorter,
      succeeds value rest → (next value rest shorter).Holds after blocked)
    (onFailure : fails → blocked) : (first.bind next).Holds after blocked :=
  holds.andThen (fun value rest shorter reached =>
    holds_within.mpr (onSuccess value rest shorter reached)) onFailure

theorem Gives.andThen {first : Recorded α inner} {fits : inner ≤ limit}
    {next : (value : α) → (rest : List Token) → rest.length < inner → Recorded β limit}
    {value : α} {rest : List Token} (gives : first.Gives value rest)
    (onSuccess : ∀ shorter, (next value rest shorter).Holds after fails) :
    (first.andThen fits next).Holds after fails :=
  Holds.andThen gives (fun _ _ shorter same => by
    obtain ⟨rfl, rfl⟩ := same
    exact onSuccess shorter) False.elim

theorem Gives.bind {first : Recorded α limit}
    {next : (value : α) → (rest : List Token) → rest.length < limit → Recorded β rest.length}
    {value : α} {rest : List Token} (gives : first.Gives value rest)
    (onSuccess : ∀ shorter, (next value rest shorter).Holds after fails) :
    (first.bind next).Holds after fails :=
  gives.andThen fun shorter => holds_within.mpr (onSuccess shorter)

theorem Gives.map {change : α → β} {value : α} {rest : List Token} {result : Recorded α limit}
    (gives : result.Gives value rest) : (result.map change).Gives (change value) rest :=
  holds_map.mpr (Holds.imp gives (fun _ _ _ same => ⟨congrArg change same.1, same.2⟩) id)

theorem Gives.within {fits : inner ≤ limit} {value : α} {rest : List Token}
    {result : Recorded α inner} (gives : result.Gives value rest) :
    (result.within fits).Gives value rest :=
  holds_within.mpr gives

theorem Gives.outcome {value : α} {rest : List Token} {result : Recorded α limit}
    (gives : result.Gives value rest) : ∃ shorter, result.outcome = .success value rest shorter := by
  obtain ⟨outcome, errors⟩ := result
  cases errors with
  | cons error others => exact False.elim gives
  | nil =>
      cases outcome with
      | failure error rest bounded => exact False.elim gives
      | success found left shorter =>
          obtain ⟨rfl, rfl⟩ : found = value ∧ left = rest := gives
          exact ⟨shorter, rfl⟩

end Recorded

/-! ## Lists of statements -/

namespace Listing

variable {inner limit : Nat} {succeeds after : List Statement → List Token → Prop}
  {fails blocked : Prop}

/-- What is true of a listing: `succeeds` if no error was recorded, `fails` otherwise. -/
def Holds (succeeds : List Statement → List Token → Prop) (fails : Prop)
    (listing : Listing limit) : Prop :=
  match listing.errors with
  | [] => succeeds listing.statements listing.rest
  | _ :: _ => fails

@[simp] theorem holds_within {fits : inner ≤ limit} {listing : Listing inner} :
    (listing.within fits).Holds succeeds fails ↔ listing.Holds succeeds fails :=
  Iff.rfl

@[simp] theorem holds_stop {tokens : List Token} :
    (Listing.stop tokens).Holds succeeds fails ↔ succeeds [] tokens :=
  Iff.rfl

@[simp] theorem holds_prepend_nil {statements : List Statement} {listing : Listing limit} :
    (listing.prepend statements []).Holds succeeds fails ↔
      listing.Holds (fun others rest => succeeds (statements ++ others) rest) fails :=
  Iff.rfl

@[simp] theorem holds_prepend_cons {statements : List Statement} {error : GrammarError}
    {errors : List GrammarError} {listing : Listing limit} :
    (listing.prepend statements (error :: errors)).Holds succeeds fails ↔ fails :=
  Iff.rfl

theorem Holds.imp {listing : Listing limit} (holds : listing.Holds succeeds fails)
    (onSuccess : ∀ statements rest, succeeds statements rest → after statements rest)
    (onFailure : fails → blocked) : listing.Holds after blocked := by
  unfold Holds at holds ⊢
  cases errors : listing.errors with
  | nil =>
      simp only [errors] at holds
      exact onSuccess _ _ holds
  | cons error others =>
      simp only [errors] at holds
      exact onFailure holds

theorem Holds.close {opening : Token} {listing : Listing limit}
    {closed : Statement → List Token → Prop} (holds : listing.Holds succeeds fails)
    (onSuccess : ∀ statements closing rest, succeeds statements (closing :: rest) →
      closing.kind = .rightBrace → closed (.block statements) rest)
    (unclosed : ∀ statements rest, succeeds statements rest →
      (∀ token ∈ rest.head?, token.kind ≠ .rightBrace) → blocked)
    (onFailure : fails → blocked) : (listing.close opening).Holds closed blocked := by
  obtain ⟨statements, errors, rest, bounded⟩ := listing
  unfold Listing.close
  cases errors with
  | cons error others => exact onFailure holds
  | nil =>
      cases rest with
      | nil => exact unclosed statements [] holds (by simp)
      | cons closing rest =>
          simp only [Recorded.Holds]
          split
          · next closes => exact onSuccess statements closing rest holds closes
          · next different => exact unclosed statements _ holds (by simpa using different)

end Listing

/-! ## Readers by what stands in front -/

namespace Expression

variable {level : Level} {tokens : List Token}

theorem readOperand_of_tighter {next : Level} (tighter : level.tighter = some next) :
    readOperand level tokens = readLevel next tokens := by
  rw [readOperand]
  split
  · next found same =>
    rw [tighter] at same
    cases same
    rfl
  · next same =>
    rw [tighter] at same
    cases same

theorem readOperand_of_tightest (tightest : level.tighter = none) :
    readOperand level tokens = readUnary tokens := by
  rw [readOperand]
  split
  · next found same =>
    rw [tightest] at same
    cases same
  · rfl

end Expression

namespace Statement

section

variable {tokens : List Token}

theorem readOpen_declaration (kind : nextKind? tokens = some .varWord) :
    readOpen tokens = (readDeclaration tokens).record := by
  rw [readOpen]
  simp only [kind]

theorem readOpen_print
    (kind : nextKind? tokens = some .printWord ∨ nextKind? tokens = some .printlnWord) :
    readOpen tokens = (readPrint tokens).record := by
  rw [readOpen]
  rcases kind with kind | kind <;> simp only [kind]

theorem readOpen_branch (kind : nextKind? tokens = some .ifWord) :
    readOpen tokens = readBranch tokens := by
  rw [readOpen]
  simp only [kind]

theorem readOpen_loop (kind : nextKind? tokens = some .forWord) :
    readOpen tokens = readLoop tokens := by
  rw [readOpen]
  simp only [kind]

theorem readOpen_block (kind : nextKind? tokens = some .leftBrace) :
    readOpen tokens = readBlock tokens := by
  rw [readOpen]
  simp only [kind]

theorem readOpen_expression (notVar : nextKind? tokens ≠ some .varWord)
    (notPrint : nextKind? tokens ≠ some .printWord)
    (notPrintln : nextKind? tokens ≠ some .printlnWord) (notIf : nextKind? tokens ≠ some .ifWord)
    (notFor : nextKind? tokens ≠ some .forWord) (notLeftBrace : nextKind? tokens ≠ some .leftBrace)
    (notElse : nextKind? tokens ≠ some .elseWord) :
    readOpen tokens = ((Expression.read tokens).map .expression).record := by
  rw [readOpen]
  split <;> first | contradiction | rfl

end

section

variable {nested : Bool} {token : Token} {tail : List Token}

theorem readList_lineEnd (ends : token.kind = .lineEnd) :
    readList nested (token :: tail) = (readList nested tail).within (Nat.le_succ _) := by
  rw [readList]
  simp only [ends]

theorem readList_stop (stops : token.kind = .inputEnd ∨ nested = true ∧ token.kind = .rightBrace) :
    readList nested (token :: tail) = .stop (token :: tail) := by
  rw [readList]
  rcases stops with ends | ⟨rfl, closes⟩
  · simp only [ends]
  · simp only [closes, if_true]

theorem readList_unbalanced (closes : token.kind = .rightBrace) (outermost : ¬ nested = true) :
    readList nested (token :: tail) =
      ((readList nested tail).prepend [] [.unbalanced .leftBrace token.line]).within
        (Nat.le_succ _) := by
  rw [readList]
  simp only [closes, if_neg outermost]

variable {rest : List Token}

theorem readList_success {statement : Statement} {shorter : rest.length < (token :: tail).length}
    (notLineEnd : token.kind ≠ .lineEnd) (notInputEnd : token.kind ≠ .inputEnd)
    (notRightBrace : token.kind ≠ .rightBrace)
    (success : (read (token :: tail)).outcome = .success statement rest shorter) :
    readList nested (token :: tail) =
      ((readList nested rest).prepend [statement] (read (token :: tail)).errors).within
        (Nat.le_of_lt shorter) := by
  rw [readList]
  split <;> try contradiction
  dsimp only
  rw [success]

theorem readList_failure {error : GrammarError} {bounded : rest.length ≤ (token :: tail).length}
    (notLineEnd : token.kind ≠ .lineEnd) (notInputEnd : token.kind ≠ .inputEnd)
    (notRightBrace : token.kind ≠ .rightBrace)
    (failure : (read (token :: tail)).outcome = .failure error rest bounded) :
    readList nested (token :: tail) =
      ((readList nested (resume nested tail rest)).prepend []
        ((read (token :: tail)).errors ++ [error])).within
        (Nat.le_succ_of_le (length_resume_le nested tail rest)) := by
  rw [readList]
  split <;> try contradiction
  dsimp only
  rw [failure]

end

variable {succeeds : Statement → List Token → Prop} {fails blocked : Prop}

theorem readBlock_holds {tokens : List Token}
    (unopened : (∀ token tail, tokens = token :: tail → token.kind ≠ .leftBrace) → fails)
    (opened : ∀ opening tail, tokens = opening :: tail → opening.kind = .leftBrace →
      ((readList true tail).close opening).Holds succeeds fails) :
    (readBlock tokens).Holds succeeds fails := by
  rw [readBlock]
  exact Recorded.Holds.bind (Recorded.holds_record.mpr (expect_holds .leftBrace tokens))
    (fun opening tail _ found => opened opening tail found.1 found.2) unopened

/-- A listing goes on behind a statement that was read, unless errors were recorded in it. -/
theorem readList_holds_of_success {nested : Bool} {token : Token} {tail rest : List Token}
    {statement : Statement} {shorter : rest.length < (token :: tail).length}
    {listed : List Statement → List Token → Prop}
    (notLineEnd : token.kind ≠ .lineEnd) (notInputEnd : token.kind ≠ .inputEnd)
    (notRightBrace : token.kind ≠ .rightBrace)
    (success : (read (token :: tail)).outcome = .success statement rest shorter)
    (first : (read (token :: tail)).Holds succeeds fails)
    (others : succeeds statement rest → (readList nested rest).Holds
      (fun statements behind => listed (statement :: statements) behind) blocked)
    (broken : fails → blocked) : (readList nested (token :: tail)).Holds listed blocked := by
  rw [readList_success notLineEnd notInputEnd notRightBrace success]
  generalize read (token :: tail) = result at success first
  obtain ⟨outcome, errors⟩ := result
  cases success
  cases errors with
  | nil => exact others first
  | cons error recorded => exact broken first

theorem readList_holds_of_failure {nested : Bool} {token : Token} {tail rest : List Token}
    {error : GrammarError} {bounded : rest.length ≤ (token :: tail).length}
    {listed : List Statement → List Token → Prop}
    (notLineEnd : token.kind ≠ .lineEnd) (notInputEnd : token.kind ≠ .inputEnd)
    (notRightBrace : token.kind ≠ .rightBrace)
    (failure : (read (token :: tail)).outcome = .failure error rest bounded)
    (first : (read (token :: tail)).Holds succeeds fails) (broken : fails → blocked) :
    (readList nested (token :: tail)).Holds listed blocked := by
  rw [readList_failure notLineEnd notInputEnd notRightBrace failure]
  generalize read (token :: tail) = result at failure first
  obtain ⟨outcome, errors⟩ := result
  cases failure
  cases errors with
  | nil => exact broken first
  | cons other recorded => exact broken first

end Statement

end LineScript
