import LineScript.Proofs.Grammar.Programs
import LineScript.Proofs.Saved.Decoding
import LineScript.Proofs.Scanning
import LineScript.Proofs.Stages
import Mathlib.Algebra.Group.Nat.Defs

/-!
Accepted programs can be saved.

Every line and every literal of a program comes from a token, so a program holds only what its tokens
hold.
-/

set_option autoImplicit false

namespace LineScript

structure Token.Storable (token : Token) : Prop where
  finite : ∀ number, token.payload = some (.decimal number) → number.isFinite = true
  line : StorableLine token.line

def StorableTokens (tokens : List Token) : Prop :=
  ∀ token ∈ tokens, token.Storable

namespace StorableTokens

variable {token : Token} {tokens before behind : List Token}

theorem append (both : StorableTokens (before ++ behind)) :
    StorableTokens before ∧ StorableTokens behind :=
  List.forall_mem_append.mp both

theorem cons (all : StorableTokens (token :: tokens)) : token.Storable ∧ StorableTokens tokens :=
  List.forall_mem_cons.mp all

theorem line (all : StorableTokens (token :: tokens)) : StorableLine token.line :=
  all.cons.1.line

end StorableTokens

namespace Grammar

theorem Derives.storable {phrase : Phrase} {tokens : List Token} {tree : Expression}
    (derived : Derives phrase tokens tree) (all : StorableTokens tokens) : tree.Storable := by
  induction derived with
  | integer | string | truth _ | falsity _ => exact .literal trivial all.line
  | decimal => exact .literal (all.cons.1.finite _ rfl) all.line
  | name => exact .reference all.line
  | group _ _ _ inner => exact .group (inner all.cons.2.append.1)
  | primary _ ih => exact ih all
  | unary _ _ operand => exact .unary (operand all.cons.2) all.line
  | operand _ ih => exact ih all
  | join _ _ _ left right =>
      exact .binary (left all.append.1) (right all.append.2.cons.2) all.append.2.line

theorem Root.storable {tokens : List Token} {tree : Expression} (derived : Root tokens tree)
    (all : StorableTokens tokens) : tree.Storable := by
  cases derived with
  | logic derived => exact derived.storable all
  | assign _ derived => exact .assign (derived.storable all.cons.2.cons.2) all.line

theorem Declares.storable {tokens : List Token} {statement : Statement}
    (derived : Declares tokens statement) (all : StorableTokens tokens) : statement.Storable := by
  cases derived with
  | declare _ _ derived =>
      exact .declare (derived.storable all.cons.2.cons.2.cons.2) all.cons.2.line

theorem LoopStart.storable {tokens : List Token} {start : Option Statement}
    (derived : LoopStart tokens start) (all : StorableTokens tokens) :
    Statement.StorableOptional start := by
  cases derived with
  | absent => exact .absent
  | present derived => exact .present (derived.storable all)

theorem LoopStep.storable {tokens : List Token} {step : Option Statement}
    (derived : LoopStep tokens step) (all : StorableTokens tokens) :
    Statement.StorableOptional step := by
  cases derived with
  | absent => exact .absent
  | present _ derived =>
      exact .present (.expression (.assign (derived.storable all.cons.2.cons.2) all.line))

theorem Header.storable {tokens : List Token} {start step : Option Statement}
    {condition : Expression} (derived : Header tokens start condition step)
    (all : StorableTokens tokens) :
    Statement.StorableOptional start ∧ condition.Storable ∧ Statement.StorableOptional step := by
  cases derived with
  | header _ _ start _ condition _ step _ =>
      obtain ⟨starting, behindStart⟩ := all.cons.2.cons.2.append
      obtain ⟨testing, behindCondition⟩ := behindStart.cons.2.append
      exact ⟨start.storable starting, condition.storable testing,
        step.storable behindCondition.cons.2.append.1⟩

theorem Lines.storable {tokens : List Token} {statements : List Statement}
    (derived : Lines tokens statements) (all : StorableTokens tokens) :
    Statement.StorableAll statements := by
  refine Lines.rec
    (motive_1 := fun tokens statement _ => StorableTokens tokens → statement.Storable)
    (motive_2 := fun tokens statement _ => StorableTokens tokens → statement.Storable)
    (motive_3 := fun tokens statements _ => StorableTokens tokens →
      Statement.StorableAll statements)
    (motive_4 := fun tokens statements _ => StorableTokens tokens →
      Statement.StorableAll statements)
    ?declare ?print ?printNothing ?branch ?loop ?block ?expression ?alone ?otherwise ?chained
    ?braces ?empty ?blank ?line ?last derived all
  case declare => exact fun derived all => derived.storable all
  case print => exact fun _ derived all => .print (derived.storable all.cons.2)
  case printNothing => exact fun _ all => .print (.literal trivial all.line)
  case branch => exact fun _ branch all => branch all
  case loop =>
    intro header body start step condition statements derived _ inside all
    obtain ⟨startStorable, conditionStorable, stepStorable⟩ := derived.storable all.append.1
    exact .block (.cons (.loop startStorable conditionStorable stepStorable
      (.block (inside all.append.2))) .nil)
  case block => exact fun _ inside all => .block (inside all)
  case expression => exact fun derived all => .expression (derived.storable all)
  case alone =>
    intro keyword condition body tree statements _ derived _ inside all
    obtain ⟨testing, arm⟩ := all.cons.2.append
    exact .branch (derived.storable testing) (.block (inside arm)) .absent
  case otherwise =>
    intro keyword other condition body last tree statements others _ derived _ _ _ inside
      otherwise all
    obtain ⟨testing, arms⟩ := all.cons.2.append
    exact .branch (derived.storable testing) (.block (inside arms.append.1))
      (.present (.block (otherwise arms.append.2.cons.2)))
  case chained =>
    intro keyword other condition body last tree statements next _ derived _ _ _ inside
      chained all
    obtain ⟨testing, arms⟩ := all.cons.2.append
    exact .branch (derived.storable testing) (.block (inside arms.append.1))
      (.present (chained arms.append.2.cons.2))
  case braces => exact fun _ _ _ inside all => inside all.cons.2.append.1
  case empty => exact fun _ => .nil
  case blank => exact fun _ _ behind all => behind all.cons.2
  case line =>
    exact fun _ _ _ first behind all => .cons (first all.append.1) (behind all.append.2.cons.2)
  case last => exact fun _ last all => .cons (last all) .nil

end Grammar

/-- A program accepted from a text with fewer lines than there are line numbers can be saved. -/
theorem compile_storable {source : String} {prior : Diagnostics} {program : Program}
    (short : source.length < 2 ^ 63) (accepted : (compile source prior).1 = some program) :
    Statement.StorableAll program := by
  obtain ⟨passes, rfl⟩ := compile_eq_some accepted
  have scanned := Scan.scanned_ofText source
  have own : Grammar.OwnPayloads (Scan.ofText source).tokens :=
    fun token member => (scanned token member).own
  have storable : StorableTokens (Scan.ofText source).tokens := by
    intro token member
    have line := (scanned token member).line
    exact ⟨(scanned token member).finite, by unfold StorableLine UInt64.size; omega⟩
  obtain ⟨rest, ⟨used, same, lines⟩, _⟩ := Grammar.read_takesLines own passes.readClean
  rw [same] at storable
  exact lines.storable storable.append.1

end LineScript
