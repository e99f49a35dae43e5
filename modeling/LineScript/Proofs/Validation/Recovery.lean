import LineScript.Proofs.Validation.Coherence
import LineScript.Proofs.Validation.NameFaults
import Mathlib.Data.List.Forall2

/-!
What the validator reports behind a refused line.

The validator gives up the rest of a line that it refuses a token of.  It keeps count of the braces it
passes, but takes each for that of a plain block, closes the scope of the header it stands in and
overlooks every declaration.  What it knows about the names and the open braces behind such a line is
therefore only part of the truth, and exact again once the braces opened on the line are closed.
The rules here say what this means for the errors that are reported, one token at a time.
-/

set_option autoImplicit false

namespace LineScript

/-- The tokens of the line that a list of tokens starts in. -/
def lineOf (tokens : List Token) : List Token :=
  tokens.takeWhile fun token => token.kind ≠ .lineEnd && token.kind ≠ .inputEnd

namespace NameScopes

variable {name other : String} {scopes : NameScopes}

private theorem mem_innermost_declare :
    other ∈ (scopes.declare name).innermost ↔ other = name ∨ other ∈ scopes.innermost := by
  unfold declare
  split
  · next declared =>
    refine ⟨.inr, fun either => ?_⟩
    rcases either with rfl | earlier
    · exact declaredHere_iff.mp declared
    · exact earlier
  · exact List.mem_cons

private theorem toList_declare (name : String) (scopes : NameScopes) :
    (scopes.declare name).toList = (scopes.declare name).innermost :: scopes.enclosing := by
  unfold declare
  split <;> rfl

end NameScopes

namespace Validation

open Grammar

/-- A token that the validator refuses: the error, and the tokens from the refused one on. -/
structure Refusal where
  error : GrammarError
  tokens : List Token
deriving DecidableEq, Repr

/-- The line closes all braces that it opens behind the refused token. -/
def Refusal.closesLine (refusal : Refusal) : Bool :=
  braceNesting (lineOf refusal.tokens) = 0

namespace Validator

/-- All refusals of a validation, in the order of the tokens. -/
def refusals (validator : Validator) (tokens : List Token) : List Refusal :=
  match tokens with
  | [] => []
  | token :: tail =>
    match validator.step token with
    | .ok next => if next.position = .done then [] else next.refusals tail
    | .error error =>
      ⟨error, token :: tail⟩ ::
        (validator.recover (token :: tail)).1.refusals (validator.recover (token :: tail)).2
termination_by tokens.length
decreasing_by
  · exact Nat.lt_succ_self _
  · exact length_recover_lt validator token tail

theorem errors_eq_map_refusals (validator : Validator) (tokens : List Token) :
    validator.errors tokens = (validator.refusals tokens).map Refusal.error := by
  fun_induction refusals validator tokens with
  | case1 validator => rw [errors]; rfl
  | case2 validator token tail next stepped done =>
      rw [errors]
      simp [stepped, done]
  | case3 validator token tail next stepped running ih =>
      rw [errors]
      simp [stepped, running, ih]
  | case4 validator token tail error refused ih =>
      rw [errors]
      simp [refused, ih]

variable {validator next other : Validator} {token : Token} {tail : List Token}

private theorem refusals_of_step (stepped : validator.step token = .ok next)
    (running : next.position ≠ .done) :
    validator.refusals (token :: tail) = next.refusals tail := by
  rw [refusals]
  simp only [stepped, if_neg running]

theorem refusals_of_done (stepped : validator.step token = .ok next)
    (done : next.position = .done) : validator.refusals (token :: tail) = [] := by
  rw [refusals]
  simp only [stepped, if_pos done]

private theorem refusals_of_error {error : GrammarError}
    (refused : validator.step token = .error error) :
    validator.refusals (token :: tail) = ⟨error, token :: tail⟩ ::
      (validator.recover (token :: tail)).1.refusals (validator.recover (token :: tail)).2 := by
  rw [refusals]
  simp only [refused]

/-- Validators that take a token alike and leave the statement alike report the same. -/
private theorem refusals_congr (same : validator.step token = other.step token)
    (left : validator.abandon = other.abandon) :
    validator.refusals (token :: tail) = other.refusals (token :: tail) := by
  rw [refusals, refusals, same, recover, recover, left]

end Validator

/-! ## Sound reports -/

/-- What may be reported of a program with these faults.  A name may seem undefined and an `else`
without its `if` behind a refused line; a name that is reported as reserved is so. -/
def Tolerates (faults : List GrammarError) : GrammarError → Prop
  | .undefinedVariable _ _ | .danglingElse _ => True
  | .nameReserved name line => .nameReserved name line ∈ faults
  | _ => False

/-- The errors up to that of the first line that leaves a brace open. -/
def certain : List Refusal → List GrammarError
  | [] => []
  | refusal :: others => refusal.error :: if refusal.closesLine then certain others else []

/-- What is refused can be told from the faults of the program.  Where the validator starts with
`sure` knowledge, what it reports at first are faults indeed. -/
structure Sound (faults : List GrammarError) (sure : Prop) (refusals : List Refusal) : Prop where
  tolerated : ∀ refusal ∈ refusals, Tolerates faults refusal.error
  certain : sure → (certain refusals).Sublist faults

variable {faults more own : List GrammarError} {sure weaker : Prop} {refusals : List Refusal}

theorem Tolerates.mono {error : GrammarError} (tolerated : Tolerates faults error)
    (among : faults ⊆ more) : Tolerates more error := by
  cases error with
  | nameReserved name line => exact among tolerated
  | undefinedVariable | danglingElse => trivial
  | expected | expectedExpression | unbalanced | invalidAssignmentTarget | unexpectedEndOfInput =>
      exact tolerated.elim

theorem Sound.nil : Sound faults sure [] :=
  ⟨List.forall_mem_nil _, fun _ => List.nil_sublist faults⟩

theorem Sound.mono (sound : Sound faults sure refusals) (among : faults.Sublist more)
    (stronger : weaker → sure) : Sound more weaker refusals :=
  ⟨fun refusal member => (sound.tolerated refusal member).mono among.subset,
    fun known => (sound.certain (stronger known)).trans among⟩

/-- The faults `own` to a statement stand before those behind it. -/
theorem Sound.cons {refusal : Refusal} (tolerated : Tolerates own refusal.error)
    (real : sure → refusal.error ∈ own)
    (others : Sound faults (sure ∧ refusal.closesLine = true) refusals) :
    Sound (own ++ faults) sure (refusal :: refusals) := by
  constructor
  · intro reported member
    rcases List.mem_cons.mp member with rfl | later
    · exact tolerated.mono (List.subset_append_left own faults)
    · exact (others.tolerated reported later).mono (List.subset_append_right own faults)
  · intro known
    have first : [refusal.error].Sublist own := List.singleton_sublist.mpr (real known)
    rw [Validation.certain]
    split
    · next closes => exact first.append (others.certain ⟨known, closes⟩)
    · exact first.trans (List.sublist_append_left own faults)

namespace Validator

/-! ## Taking tokens and passing over them -/

/-- The reports of a validator that stands before `tokens`. -/
def Reports (faults : List GrammarError) (sure : Prop) (validator : Validator)
    (tokens : List Token) : Prop :=
  Sound faults sure (validator.refusals tokens)

/-- The reports behind the line that `tokens` starts in, which is passed over.  So far `opened` braces
are open that the line opened. -/
def Skips (faults : List GrammarError) (sure : Prop) (opened : Nat) (braces : List Brace)
    (scopes : NameScopes) (tokens : List Token) : Prop :=
  Sound faults (sure ∧ nestingFrom opened (lineOf tokens) = 0)
    (((resting braces scopes).skipLine tokens).1.refusals
      ((resting braces scopes).skipLine tokens).2)

variable {validator next other : Validator} {token : Token} {tokens tail : List Token}
  {braces : List Brace} {scopes : NameScopes} {opened : Nat}

/-- A token that is taken is not reported, nor is anything behind the end of input. -/
theorem Reports.of_step (stepped : validator.step token = .ok next)
    (reports : Reports faults sure next tail) : Reports faults sure validator (token :: tail) := by
  unfold Reports
  by_cases done : next.position = .done
  · rw [refusals_of_done stepped done]
    exact .nil
  · rw [refusals_of_step stepped done]
    exact reports

theorem Reports.congr (same : validator.step token = other.step token)
    (left : validator.abandon = other.abandon) (reports : Reports faults sure other (token :: tail)) :
    Reports faults sure validator (token :: tail) := by
  unfold Reports
  rw [refusals_congr same left]
  exact reports

theorem Reports.mono (reports : Reports faults sure validator tokens) (among : faults.Sublist more) :
    Reports more sure validator tokens :=
  Sound.mono reports among id

theorem Skips.mono (skips : Skips faults sure opened braces scopes tokens)
    (among : faults.Sublist more) : Skips more sure opened braces scopes tokens :=
  Sound.mono skips among id

theorem reports_nil : Reports faults sure validator [] := by
  unfold Reports
  rw [refusals]
  exact .nil

/-- A refused token is reported, and its line is passed over. -/
theorem Reports.of_error {error : GrammarError} (refused : validator.step token = .error error)
    (left : validator.abandon = resting braces scopes) (tolerated : Tolerates own error)
    (real : sure → error ∈ own) (skips : Skips faults sure 0 braces scopes (token :: tail)) :
    Reports (own ++ faults) sure validator (token :: tail) := by
  unfold Reports
  rw [refusals_of_error refused, recover, left]
  refine Sound.cons tolerated real (Sound.mono skips (List.Sublist.refl faults) fun both => ?_)
  exact ⟨both.1, of_decide_eq_true both.2⟩

/-- Tokens that recovery passes over without a trace. -/
def passedOver (kind : TokenKind) : Bool :=
  kind ≠ .lineEnd && kind ≠ .inputEnd && kind ≠ .leftBrace && kind ≠ .rightBrace

theorem Skips.of_passedOver (passed : passedOver token.kind = true)
    (skips : Skips faults sure opened braces scopes tail) :
    Skips faults sure opened braces scopes (token :: tail) := by
  simp only [passedOver, Bool.and_eq_true, decide_eq_true_eq] at passed
  obtain ⟨⟨⟨notLineEnd, notInputEnd⟩, notLeft⟩, notRight⟩ := passed
  have line : lineOf (token :: tail) = token :: lineOf tail := by
    simp [lineOf, notLineEnd, notInputEnd]
  have skipped : (resting braces scopes).skipLine (token :: tail) =
      (resting braces scopes).skipLine tail := by
    rw [skipLine]
    split <;> first | contradiction | rfl
  unfold Skips
  rw [line, nestingFrom_cons, TokenKind.nestingAfter_other notLeft notRight, skipped]
  exact skips

theorem Skips.of_all_passedOver {passing : List Token}
    (passed : ∀ token ∈ passing, passedOver token.kind = true)
    (skips : Skips faults sure opened braces scopes tail) :
    Skips faults sure opened braces scopes (passing ++ tail) := by
  induction passing with
  | nil => exact skips
  | cons token others ih =>
      obtain ⟨here, later⟩ := List.forall_mem_cons.mp passed
      exact (ih later).of_passedOver here

theorem Skips.of_leftBrace (opens : token.kind = .leftBrace)
    (skips : Skips faults sure (opened + 1) (.block :: braces) (scopes.enter []) tail) :
    Skips faults sure opened braces scopes (token :: tail) := by
  have line : lineOf (token :: tail) = token :: lineOf tail := by
    simp [lineOf, opens]
  have skipped : (resting braces scopes).skipLine (token :: tail) =
      (resting (.block :: braces) (scopes.enter [])).skipLine tail := by
    rw [skipLine]
    simp only [opens]
    rfl
  unfold Skips
  rw [line, nestingFrom_cons, opens, skipped]
  exact skips

theorem Skips.of_rightBrace {brace : Brace} (closes : token.kind = .rightBrace)
    (skips : Skips faults sure (opened - 1) braces scopes.leave tail) :
    Skips faults sure opened (brace :: braces) scopes (token :: tail) := by
  have line : lineOf (token :: tail) = token :: lineOf tail := by
    simp [lineOf, closes]
  have skipped : (resting (brace :: braces) scopes).skipLine (token :: tail) =
      (resting braces scopes.leave).skipLine tail := by
    rw [skipLine]
    simp only [closes]
    rfl
  unfold Skips
  rw [line, nestingFrom_cons, closes, skipped]
  exact skips

/-- Behind the line the validator goes on.  What it knows is exact if no brace was left open. -/
theorem Skips.of_lineEnd (ends : token.kind = .lineEnd)
    (reports : Reports faults (sure ∧ opened = 0) (resting braces scopes) tail) :
    Skips faults sure opened braces scopes (token :: tail) := by
  have line : lineOf (token :: tail) = [] := by
    simp [lineOf, ends]
  have skipped : (resting braces scopes).skipLine (token :: tail) =
      (resting braces scopes, tail) := by
    rw [skipLine]
    simp only [ends]
  unfold Skips
  rw [line, nestingFrom_nil, skipped]
  exact reports

theorem skips_inputEnd (ends : token.kind = .inputEnd) :
    Skips faults sure opened braces scopes (token :: tail) := by
  have skipped : (resting braces scopes).skipLine (token :: tail) = (resting braces scopes, []) := by
    rw [skipLine]
    simp only [ends]
  unfold Skips
  rw [skipped, refusals]
  exact .nil

end Validator

/-! ## What the validator knows -/

/-- The scopes of a validator hold some of the names that are declared in the `actual` ones.  With
`sure` knowledge all names are there, but for the scopes of the `opened` innermost braces. -/
structure Knows (sure : Prop) (opened : Nat) (scopes actual : NameScopes) : Prop where
  some : List.Forall₂ (fun names real => names ⊆ real) scopes.toList actual.toList
  all : sure → List.Forall₂ (fun names real => real ⊆ names)
    (scopes.toList.drop opened) (actual.toList.drop opened)

namespace Knows

variable {opened : Nat} {scopes actual : NameScopes} {name : String} {names : List String}

theorem innermost_subset (knows : Knows sure opened scopes actual) :
    scopes.innermost ⊆ actual.innermost :=
  (List.forall₂_cons.mp knows.some).1

theorem flatten_subset {fewer more : List (List String)}
    (each : List.Forall₂ (fun names real => names ⊆ real) fewer more) :
    fewer.flatten ⊆ more.flatten := by
  induction each with
  | nil => exact List.Subset.refl _
  | cons first _ ih =>
      exact List.append_subset.mpr ⟨List.subset_append_of_subset_left _ first,
        List.subset_append_of_subset_right _ ih⟩

theorem subset_names (knows : Knows sure 0 scopes actual) (known : sure) :
    actual.names ⊆ scopes.names :=
  flatten_subset (knows.all known).flip

theorem single : Knows sure 0 .empty .empty :=
  ⟨.cons (List.Subset.refl _) .nil, fun _ => .cons (List.Subset.refl _) .nil⟩

theorem enter (knows : Knows sure 0 scopes actual) :
    Knows sure 0 (scopes.enter []) (actual.enter []) :=
  ⟨.cons (List.Subset.refl _) knows.some, fun known => .cons (List.Subset.refl _) (knows.all known)⟩

/-- Of a scope whose brace was passed over, nothing needs to be known. -/
theorem enter_opened (knows : Knows sure opened scopes actual) (names : List String) :
    Knows sure (opened + 1) (scopes.enter []) (NameScopes.adding names (actual.enter [])) :=
  ⟨.cons (List.nil_subset _) knows.some, knows.all⟩

theorem leave (knows : Knows sure opened scopes (NameScopes.adding names (actual.enter []))) :
    Knows sure (opened - 1) scopes.leave actual := by
  obtain ⟨innermost, enclosing⟩ := scopes
  obtain ⟨some, all⟩ := knows
  obtain ⟨_, outer⟩ := List.forall₂_cons.mp some
  cases enclosing with
  | nil => cases outer
  | cons next others =>
      refine ⟨outer, fun known => ?_⟩
      cases opened with
      | zero => exact (List.forall₂_cons.mp (all known)).2
      | succ opened => exact all known

theorem declare (knows : Knows sure 0 scopes actual) (name : String) :
    Knows sure 0 (scopes.declare name) (actual.adding [name]) := by
  obtain ⟨here, outer⟩ := List.forall₂_cons.mp knows.some
  constructor
  · rw [NameScopes.toList_declare]
    refine .cons (fun other member => ?_) outer
    rcases NameScopes.mem_innermost_declare.mp member with rfl | earlier
    · exact List.mem_cons_self
    · exact List.mem_cons_of_mem _ (here earlier)
  · intro known
    obtain ⟨back, outerBack⟩ := List.forall₂_cons.mp (knows.all known)
    rw [NameScopes.toList_declare]
    refine .cons (fun other member => NameScopes.mem_innermost_declare.mpr ?_) outerBack
    exact (List.mem_cons.mp member).imp_right fun earlier => back earlier

/-- A declaration in a scope whose brace was passed over is overlooked. -/
theorem overlook (knows : Knows sure (opened + 1) scopes actual) (names : List String) :
    Knows sure (opened + 1) scopes (actual.adding names) := by
  obtain ⟨here, outer⟩ := List.forall₂_cons.mp knows.some
  exact ⟨.cons (List.subset_append_of_subset_right names here) outer, knows.all⟩

theorem settle (knows : Knows sure opened scopes actual) :
    Knows (sure ∧ opened = 0) 0 scopes actual := by
  refine ⟨knows.some, fun both => ?_⟩
  obtain ⟨known, rfl⟩ := both
  exact knows.all known

end Knows

namespace Validator

/-! ## Expressions -/

variable {validator : Validator} {token : Token} {tail rest : List Token} {braces : List Brace}
  {scopes actual : NameScopes} {clause : Clause}

@[simp] theorem abandon_moveTo (position : Position) (validator : Validator) :
    (validator.moveTo position).abandon = validator.abandon := by
  obtain ⟨stands, opened, parens, names, pending, headerOpen⟩ := validator
  cases pending <;> rfl

@[simp] theorem abandon_nested (validator : Validator) :
    validator.nested.abandon = validator.abandon := by
  obtain ⟨stands, opened, parens, names, pending, headerOpen⟩ := validator
  cases pending <;> rfl

/-- A name that the validator does not see is not there, as far as it knows. -/
theorem Reports.of_useName {position : Position}
    (uses : validator.step token = validator.useName token position)
    (left : validator.abandon = resting braces scopes) (knows : Knows sure 0 validator.scopes actual)
    (named : token.kind = .identifier)
    (onward : Reports faults sure (validator.moveTo position) tail)
    (skips : Skips faults sure 0 braces scopes tail) :
    Reports (useFault actual.names token.name token.line ++ faults) sure validator
      (token :: tail) := by
  by_cases visible : token.name ∈ validator.scopes.names
  · have taken : Reports faults sure validator (token :: tail) :=
      onward.of_step (uses.trans (step_useName visible))
    exact taken.mono (List.sublist_append_right _ faults)
  · refine Reports.of_error (uses.trans (step_useName_error position visible)) left trivial
      (fun known => ?_) (skips.of_passedOver (by rw [named]; rfl))
    have hidden : token.name ∉ actual.names := fun there => visible (knows.subset_names known there)
    rw [useFault, if_neg hidden]
    exact List.mem_singleton_self _

/-- At the start of a statement a name may be assigned to.  Where no equals sign follows, this makes
no difference. -/
private theorem refusals_startsRoot {position : Position} (start : StartsRoot position token)
    (notSign : ∀ sign ∈ tail.head?, sign.kind ≠ .equal) :
    (validator.moveTo position).refusals (token :: tail) =
      (validator.moveTo (.operand .line)).refusals (token :: tail) := by
  by_cases named : token.kind = .identifier
  · have bare := start.name named validator
    have operand : (validator.moveTo (.operand .line)).step token =
        (validator.moveTo (.operand .line)).useName token (.operator .line false) :=
      step_identifier named
    by_cases visible : token.name ∈ validator.scopes.names
    · rw [refusals_of_step (bare.trans (step_useName visible)) (by simp [moveTo]),
        refusals_of_step (operand.trans (step_useName visible)) (by simp [moveTo])]
      cases tail with
      | nil => rw [refusals, refusals]
      | cons next behind => exact refusals_congr (step_bareName (notSign next rfl)) (by simp)
    · refine refusals_congr ?_ (by simp)
      exact (bare.trans (step_useName_error _ visible)).trans
        (operand.trans (step_useName_error _ visible)).symm
  · exact refusals_congr (start.operand named validator) (by simp)

theorem startsRoot_of_startsExpression (starts : startsExpression token.kind = true) :
    StartsRoot .boundary token ∧ StartsRoot .printStart token := by
  obtain ⟨kind, payload, line⟩ := token
  constructor
  · apply startsRoot_boundary <;> rintro ⟨⟩ <;> cases starts
  · refine startsRoot_printStart ⟨?_, ?_, ?_⟩ <;> rintro ⟨⟩ <;> cases starts

end Validator

end Validation

open Validation Validator

namespace Grammar

variable {faults : List GrammarError} {sure : Prop} {braces : List Brace}
  {scopes actual : NameScopes} {rest : List Token}

theorem Joins.passedOver {level : Level} {kind : TokenKind} {operator : BinaryOperator}
    (joins : Joins level kind operator) : passedOver kind = true ∧ kind ≠ .equal := by
  cases joins <;> decide

theorem Leads.passedOver {kind : TokenKind} {operator : UnaryOperator}
    (leads : Leads kind operator) : passedOver kind = true ∧ kind ≠ .equal := by
  cases leads <;> decide

/-- The tokens of an expression, none of which recovery stops at, and none of which assigns. -/
theorem Derives.passedOver {phrase : Phrase} {tokens : List Token} {tree : Expression}
    (derived : Derives phrase tokens tree) :
    ∀ token ∈ tokens, Validator.passedOver token.kind = true ∧ token.kind ≠ .equal := by
  induction derived with
  | integer | decimal | string | name => simp [Validator.passedOver]
  | truth same | falsity same => simp [same, Validator.passedOver]
  | group opens _ closes inside =>
      simp only [List.forall_mem_cons, List.forall_mem_append]
      refine ⟨by rw [opens]; decide, inside, by rw [closes]; decide, List.forall_mem_nil _⟩
  | primary _ ih | operand _ ih => exact ih
  | unary leads _ ih => exact List.forall_mem_cons.mpr ⟨leads.passedOver, ih⟩
  | join _ joins _ before behind =>
      exact List.forall_mem_append.mpr ⟨before, List.forall_mem_cons.mpr ⟨joins.passedOver, behind⟩⟩

/-- Whatever is sound behind an expression is sound before it, with the faults of the expression. -/
theorem Derives.reports {phrase : Phrase} {tokens : List Token} {tree : Expression}
    {clause : Clause} {validator : Validator} (derived : Derives phrase tokens tree)
    (left : validator.abandon = resting braces scopes)
    (knows : Knows sure 0 validator.scopes actual)
    (onward : Reports faults sure (validator.moveTo (.operator clause false)) rest)
    (skips : Skips faults sure 0 braces scopes rest) :
    Reports (tree.nameFaults actual.names ++ faults) sure (validator.moveTo (.operand clause))
      (tokens ++ rest) := by
  induction derived generalizing validator rest faults with
  | integer | decimal | string => exact onward.of_step (step_literal rfl)
  | truth same | falsity same => exact onward.of_step (step_literal (by rw [same]; rfl))
  | @name name line =>
      have named : (Token.mk .identifier (some (.text name)) line).kind = .identifier := rfl
      exact Reports.of_useName (step_identifier named) ((abandon_moveTo _ _).trans left) knows
        named onward skips
  | @group opening closing inside inner opens _ closes ih =>
      rw [List.cons_append, List.append_assoc]
      refine Reports.of_step (step_openParen opens) ?_
      refine ih ((abandon_nested validator).trans left) knows ?_ ?_
      · exact onward.of_step (step_closeParen closes)
      · exact skips.of_passedOver (by rw [closes]; rfl)
  | primary _ ih | operand _ ih => exact ih left knows onward skips
  | unary leads _ ih =>
      exact (ih left knows onward skips).of_step (step_unary (leads_iff.mp leads))
  | @join level token operator before behind leftTree rightTree _ joins derived leftIH rightIH =>
      rw [Expression.nameFaults, List.append_assoc, List.append_assoc]
      refine leftIH left knows ?_ ?_
      · exact (rightIH left knows onward skips).of_step (step_binary (joins_iff.mp joins).1)
      · -- behind a refused name the whole right operand is passed over
        refine Skips.of_passedOver joins.passedOver.1 ?_
        refine Skips.of_all_passedOver (fun token member => (derived.passedOver token member).1) ?_
        exact skips.mono (List.sublist_append_right _ faults)

theorem Root.passedOver {tokens : List Token} {tree : Expression} (derived : Root tokens tree) :
    ∀ token ∈ tokens, Validator.passedOver token.kind = true := by
  cases derived with
  | logic derived => exact fun token member => (derived.passedOver token member).1
  | assign assigns derived =>
      simp only [List.forall_mem_cons]
      exact ⟨rfl, by rw [assigns]; rfl, fun token member => (derived.passedOver token member).1⟩

theorem Root.reports {tokens : List Token} {tree : Expression} {position : Position}
    {validator : Validator} (derived : Root tokens tree)
    (starts : ∀ token ∈ tokens.head?, StartsRoot position token) (ends : EndsStatement rest)
    (left : validator.abandon = resting braces scopes)
    (knows : Knows sure 0 validator.scopes actual)
    (onward : Reports faults sure (validator.moveTo (.operator .line false)) rest)
    (skips : Skips faults sure 0 braces scopes rest) :
    Reports (tree.nameFaults actual.names ++ faults) sure (validator.moveTo position)
      (tokens ++ rest) := by
  cases derived with
  | logic derived =>
      have reports := derived.reports left knows onward skips
      obtain ⟨token, tail, rfl, _⟩ := derived.head
      have notSign : ∀ sign ∈ (tail ++ rest).head?, sign.kind ≠ .equal := by
        intro sign first
        cases tail with
        | nil => exact ends.ne_kind (by decide) (by decide) (by decide) sign first
        | cons next others =>
            cases first
            exact (derived.passedOver sign (by simp)).2
      unfold Reports
      rw [List.cons_append, refusals_startsRoot (starts token rfl) notSign]
      exact reports
  | @assign name line sign tokens value assigns derived =>
      have named : (Token.mk .identifier (some (.text name)) line).kind = .identifier := rfl
      have valued := derived.reports left knows onward skips
      rw [Expression.nameFaults, List.append_assoc]
      refine Reports.of_useName ((starts _ rfl).name named validator)
        ((abandon_moveTo _ _).trans left) knows named ?_ ?_
      · exact valued.of_step (step_bareName_sign assigns)
      · refine Skips.of_passedOver (by rw [assigns]; rfl) ?_
        refine Skips.of_all_passedOver (fun token member => (derived.passedOver token member).1) ?_
        exact skips.mono (List.sublist_append_right _ faults)

end Grammar

end LineScript
