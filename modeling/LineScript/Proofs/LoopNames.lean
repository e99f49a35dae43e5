import LineScript.Proofs.NameSafety
import LineScript.Proofs.Validation.NameFaults

/-!
Names of loops.

A run gives the body of a loop a scope of its own on every pass, inside that of the header.  The
validator has one scope for both.  So a body that declares the name of its header again passes a
check and is refused by the validator.  This is the only difference between the two: a program that
passes its check is well scoped exactly when no body does that.
-/

set_option autoImplicit false

namespace LineScript

namespace Statement

/-- The names that a loop body declares for itself, not those of the blocks inside it. -/
def bodyNames : Statement → List String
  | .block statements => declaredAll statements
  | body => body.declared

mutual

/-- No loop has a body that declares the name of its header again. -/
def keepsLoopNames : Statement → Bool
  | .expression _ | .declare _ _ _ | .print _ _ => true
  | .block statements => keepsLoopNamesAll statements
  | .branch _ thenBranch elseBranch =>
    thenBranch.keepsLoopNames && keepsLoopNamesPart elseBranch
  | .loop start _ _ body =>
    decide (∀ name ∈ declaredBy start, name ∉ body.bodyNames) && body.keepsLoopNames

def keepsLoopNamesAll : List Statement → Bool
  | [] => true
  | statement :: statements => statement.keepsLoopNames && keepsLoopNamesAll statements

def keepsLoopNamesPart : Option Statement → Bool
  | none => true
  | some statement => statement.keepsLoopNames

end

end Statement

def Program.keepsLoopNames (program : Program) : Bool :=
  Statement.keepsLoopNamesAll program

/-! ## Well-scoped programs keep the names of their loops -/

namespace Statement

/-- What a well-scoped list declares is new in its scope. -/
theorem WellScopedAll.new {outer here : List String} {statements : List Statement}
    (inScope : WellScopedAll outer here statements) :
    ∀ name ∈ here, name ∉ declaredAll statements := by
  intro name earlier member
  induction statements generalizing here with
  | nil => cases member
  | cons statement others ih =>
      rw [WellScopedAll] at inScope
      rcases List.mem_append.mp member with later | first
      · exact ih inScope.2 (List.mem_append_right _ earlier) later
      · cases statement with
        | declare declared initializer line =>
            cases List.mem_singleton.mp first
            exact inScope.1.2 earlier
        | expression | print | block | branch | loop => cases first

theorem WellScoped.new {outer here : List String} {statement : Statement}
    (inScope : WellScoped outer here statement) : ∀ name ∈ here, name ∉ statement.declared := by
  have alone : WellScopedAll outer here [statement] := ⟨inScope, trivial⟩
  exact alone.new

mutual

theorem WellScoped.keepsLoopNames {outer here : List String} {statement : Statement}
    (inScope : WellScoped outer here statement) : statement.keepsLoopNames = true := by
  match statement with
  | .expression _ | .declare _ _ _ | .print _ _ => rfl
  | .block statements => exact WellScopedAll.keepsLoopNames inScope
  | .branch condition thenBranch elseBranch =>
      rw [WellScoped] at inScope
      rw [Statement.keepsLoopNames, Bool.and_eq_true]
      exact ⟨inScope.2.1.keepsLoopNames, WellScopedPart.keepsLoopNames inScope.2.2⟩
  | .loop start condition step body =>
      rw [Statement.keepsLoopNames, Bool.and_eq_true, decide_eq_true_eq]
      cases body with
      | block statements =>
          rw [WellScoped] at inScope
          obtain ⟨_, _, _, bodyScoped⟩ := inScope
          exact ⟨fun name header => bodyScoped.new name (List.mem_append_right _ header),
            bodyScoped.keepsLoopNames⟩
      | expression | declare | print | branch | loop =>
          rw [WellScoped] at inScope
          · obtain ⟨_, _, _, bodyScoped⟩ := inScope
            exact ⟨fun name header => bodyScoped.new name (List.mem_append_right _ header),
              bodyScoped.keepsLoopNames⟩
          · rintro statements ⟨⟩

theorem WellScopedAll.keepsLoopNames {outer here : List String} {statements : List Statement}
    (inScope : WellScopedAll outer here statements) : keepsLoopNamesAll statements = true := by
  match statements with
  | [] => rfl
  | statement :: others =>
      rw [WellScopedAll] at inScope
      rw [keepsLoopNamesAll, Bool.and_eq_true]
      exact ⟨inScope.1.keepsLoopNames, WellScopedAll.keepsLoopNames inScope.2⟩

theorem WellScopedPart.keepsLoopNames {outer here : List String} {part : Option Statement}
    (inScope : WellScopedPart outer here part) : keepsLoopNamesPart part = true := by
  match part with
  | none => rfl
  | some statement => exact WellScoped.keepsLoopNames inScope

end

end Statement

/-! ## Checked programs that keep the names of their loops are well scoped -/

namespace Typing

variable {context : Typing} {name other : String} {family : Family}

private theorem isSome_find?_bind (found : (find? other (context.bind name family)).isSome = true) :
    other = name ∨ (context.find? other).isSome = true := by
  by_cases same : other = name
  · exact .inl same
  · have different : (other == name) = false := beq_eq_false_iff_ne.mpr same
    rw [find?, bind, ScopeStack.toList, List.findSome?_cons, List.lookup_cons, different] at found
    exact .inr found

private theorem isSome_lookup_bind
    (known : other = name ∨ (context.innermost.lookup other).isSome = true) :
    ((context.bind name family).innermost.lookup other).isSome = true := by
  rw [bind, List.lookup_cons]
  rcases known with rfl | known
  · rw [beq_self_eq_true]
    rfl
  · split
    · rfl
    · exact known

end Typing

theorem Expression.HasFamily.visible {context : Typing} {tree : Expression} {family : Family}
    {names : List String} (typed : tree.HasFamily context family)
    (known : ∀ name, (context.find? name).isSome = true → name ∈ names) : tree.Visible names := by
  induction typed with
  | literal => trivial
  | reference found => exact known _ (Option.isSome_of_eq_some found)
  | assign _ found ih => exact ⟨known _ (Option.isSome_of_eq_some found), ih⟩
  | unary _ _ ih => exact ih
  | binary _ _ _ leftIH rightIH => exact ⟨leftIH, rightIH⟩
  | group _ ih => exact ih

namespace Statement

/-- Every variable of a typing is among the names that are visible by the rules of scope. -/
def Within (context : Typing) (names : List String) : Prop :=
  ∀ name, (context.find? name).isSome = true → name ∈ names

/-- What the names of the innermost scope say about `declared` names: those that are taken are
variables of the innermost scope of the typing, so a check would refuse them too. -/
def Takes (context : Typing) (here declared : List String) : Prop :=
  ∀ name ∈ declared, name ∈ here → (context.innermost.lookup name).isSome = true

variable {context after : Typing} {outer here names : List String}

private theorem within_single : Within (ScopeStack.single []) [] := by
  intro name found
  cases found

private theorem takes_nil {declared : List String} : Takes context [] declared :=
  fun _ _ member => absurd member List.not_mem_nil

theorem Within.bind {name : String} {family : Family} (within : Within context names) :
    Within (context.bind name family) (name :: names) := by
  intro other found
  rcases Typing.isSome_find?_bind found with rfl | known
  · exact List.mem_cons_self
  · exact List.mem_cons_of_mem _ (within other known)

/-- A statement of the shape that reading gives leaves the typing as it is, unless it is a
declaration. -/
theorem Shaped.typed_cases {statement : Statement} (shaped : Shaped statement)
    (typed : Typed context statement after) :
    (statement.declared = [] ∧ after = context) ∨
      ∃ name family, statement.declared = [name] ∧ after = context.bind name family := by
  cases shaped with
  | expression | print | block | branch =>
      cases typed
      exact .inl ⟨rfl, rfl⟩
  | loop =>
      cases typed
      exact .inl ⟨rfl, rfl⟩
  | declare =>
      cases typed
      exact .inr ⟨_, _, rfl, rfl⟩

theorem StartShaped.wellScoped {start : Option Statement} (shaped : StartShaped start)
    (typed : TypedPart (context.enter []) start after) (within : Within context names) :
    WellScopedPart names [] start ∧ Within after (declaredBy start ++ names) := by
  cases shaped with
  | absent =>
      cases typed
      exact ⟨trivial, within⟩
  | declare =>
      obtain _ | ⟨typed⟩ := typed
      cases typed with
      | declare initialized new =>
          exact ⟨⟨initialized.visible within, List.not_mem_nil⟩, Within.bind within⟩

theorem StepShaped.wellScoped {step : Option Statement} (shaped : StepShaped step)
    (typed : TypedPart context step after) (within : Within context (here ++ outer)) :
    WellScopedPart outer here step := by
  cases shaped with
  | absent => trivial
  | assign =>
      obtain _ | ⟨typed⟩ := typed
      cases typed with
      | expression assigned => exact assigned.visible within

/-- The invariant goes from statement to statement: what is in scope for a check is in scope for the
validator, and what the validator takes for declared here a check does too, the names of loops
excepted. -/
theorem ShapedAll.wellScopedAll {statements : List Statement} (shaped : ShapedAll statements)
    (typed : TypedAll context statements after) (keeps : keepsLoopNamesAll statements = true)
    (within : Within context (here ++ outer)) (taken : Takes context here (declaredAll statements)) :
    WellScopedAll outer here statements := by
  refine ShapedAll.rec
    (motive_1 := fun statement _ => ∀ {context after : Typing} {outer here : List String},
      Typed context statement after → statement.keepsLoopNames = true →
      Within context (here ++ outer) → Takes context here statement.declared →
      WellScoped outer here statement)
    (motive_2 := fun elseBranch _ => ∀ {context after : Typing} {names : List String},
      TypedPart context elseBranch after → keepsLoopNamesPart elseBranch = true →
      Within context names → WellScopedPart names [] elseBranch)
    (motive_3 := fun statements _ => ∀ {context after : Typing} {outer here : List String},
      TypedAll context statements after → keepsLoopNamesAll statements = true →
      Within context (here ++ outer) → Takes context here (declaredAll statements) →
      WellScopedAll outer here statements)
    ?expression ?declare ?print ?block ?loop ?branch ?absent ?elseBlock ?elseBranch ?nil ?cons
    shaped typed keeps within taken
  case expression =>
    intro root _ context after outer here typed _ within _
    cases typed with
    | expression evaluated => exact evaluated.visible within
  case declare =>
    intro name initializer line _ context after outer here typed _ within taken
    cases typed with
    | declare initialized new =>
        refine ⟨initialized.visible within, fun declared => ?_⟩
        have known := taken name List.mem_cons_self declared
        rw [new] at known
        cases known
  case print =>
    intro root newline _ context after outer here typed _ within _
    cases typed with
    | print printed => exact printed.visible within
  case block =>
    intro statements _ inside context after outer here typed keeps within _
    cases typed with
    | block typed => exact inside typed keeps within takes_nil
  case loop =>
    intro start step condition statements startShaped _ stepShaped _ inside context after outer here
      typed keeps within _
    obtain _ | _ | _ | ⟨typed⟩ := typed
    obtain _ | ⟨typed, rest⟩ := typed
    cases typed with
    | loop startTyped decides bodyTyped stepTyped =>
        rw [keepsLoopNames, keepsLoopNamesAll, keepsLoopNames, Bool.and_eq_true, Bool.and_eq_true,
          decide_eq_true_eq] at keeps
        obtain ⟨⟨apart, bodyKeeps⟩, _⟩ := keeps
        obtain ⟨startScoped, withinLoop⟩ := startShaped.wellScoped startTyped within
        refine ⟨⟨startScoped, decides.visible withinLoop,
          stepShaped.wellScoped stepTyped withinLoop, ?_⟩, trivial⟩
        rw [stepShaped.declaredBy_eq]
        cases bodyTyped with
        | block bodyTyped =>
            exact inside bodyTyped bodyKeeps withinLoop fun name member header =>
              absurd member (apart name header)
  case branch =>
    intro condition statements elseBranch _ _ _ inside elseInside context after outer here typed
      keeps within _
    rw [keepsLoopNames, Bool.and_eq_true] at keeps
    cases typed with
    | branch decides thenTyped elseTyped =>
        cases thenTyped with
        | block thenTyped =>
            exact ⟨decides.visible within, inside thenTyped keeps.1 within takes_nil,
              elseInside elseTyped keeps.2 within⟩
  case absent => exact fun _ _ _ => trivial
  case elseBlock =>
    intro statements _ inside context after names typed keeps within
    obtain _ | ⟨typed⟩ := typed
    cases typed with
    | block typed => exact inside typed keeps within takes_nil
  case elseBranch =>
    intro condition thenBranch elseBranch _ inside context after names typed keeps within
    obtain _ | ⟨typed⟩ := typed
    exact inside typed keeps within takes_nil
  case nil => exact fun _ _ _ _ => trivial
  case cons =>
    intro statement statements shaped _ first others context after outer here typed keeps within taken
    rw [keepsLoopNamesAll, Bool.and_eq_true] at keeps
    obtain _ | ⟨typed, othersTyped⟩ := typed
    refine ⟨first typed keeps.1 within fun name member => taken name (List.mem_append_right _ member),
      ?_⟩
    rcases shaped.typed_cases typed with ⟨nothing, rfl⟩ | ⟨name, family, declares, rfl⟩
    · rw [nothing]
      exact others othersTyped keeps.2 within fun name member =>
        taken name (List.mem_append_left _ member)
    · rw [declares]
      refine others othersTyped keeps.2 within.bind fun other member declared => ?_
      apply Typing.isSome_lookup_bind
      rcases List.mem_cons.mp declared with same | earlier
      · exact .inl same
      · exact .inr (taken other (List.mem_append_left _ member) earlier)

end Statement

/-! ## Sources -/

namespace Validation

/-- A source that is read without errors and passes its check is valid exactly when no loop has a
body that declares the name of its header again. -/
theorem validate_eq_nil_iff_keepsLoopNames {source : String}
    (clean : (Program.read (Scan.ofText source).tokens).2 = [])
    (checked : (Program.read (Scan.ofText source).tokens).1.check = []) :
    validate (Scan.ofText source).tokens = [] ↔
      (Program.read (Scan.ofText source).tokens).1.keepsLoopNames = true := by
  have ready := ready_ofText source
  have shaped : Statement.ShapedAll (Program.read (Scan.ofText source).tokens).1 :=
    Statement.readers_shaped.2.2.2.1 false (Scan.ofText source).tokens
  obtain ⟨after, typed⟩ := Program.typedAll_of_checkFrom shaped Environment.fits_empty checked
  constructor
  · intro valid
    exact (wellScoped_of_validate ready valid).keepsLoopNames
  · intro keeps
    refine validate_eq_nil_of_wellScoped ready clean ?_
    exact shaped.wellScopedAll typed keeps Statement.within_single Statement.takes_nil

private def countingTokens (name : String) (initial : Token) : List Token :=
  [.plain .forWord 1, .plain .leftParen 1, .plain .varWord 1, ⟨.identifier, some (.text "i"), 1⟩,
    .plain .equal 1, ⟨.integerLiteral, some (.integer 0), 1⟩, .plain .semicolon 1,
    ⟨.identifier, some (.text "i"), 1⟩, .plain .less 1, ⟨.integerLiteral, some (.integer 1), 1⟩,
    .plain .semicolon 1, ⟨.identifier, some (.text "i"), 1⟩, .plain .equal 1,
    ⟨.identifier, some (.text "i"), 1⟩, .plain .plus 1, ⟨.integerLiteral, some (.integer 1), 1⟩,
    .plain .rightParen 1, .plain .leftBrace 1, .plain .lineEnd 1, .plain .varWord 2,
    ⟨.identifier, some (.text name), 2⟩, .plain .equal 2, initial, .plain .lineEnd 2,
    .plain .printWord 3, ⟨.identifier, some (.text name), 3⟩, .plain .lineEnd 3,
    .plain .rightBrace 4, .plain .lineEnd 4, .plain .inputEnd 5]

private def countingLoop (name : String) (initializer : Expression) : Program :=
  [.block [.loop (some (.declare "i" (.literal (.int 0) 1) 1))
    (.binary (.comparison .less) (.reference "i" 1) (.literal (.int 1) 1) 1)
    (some (.expression (.assign "i"
      (.binary (.arithmetic .add) (.reference "i" 1) (.literal (.int 1) 1) 1) 1)))
    (.block [.declare name initializer 2, .print (.reference name 3) false])]]

/-- A loop whose body declares a name of its own next to that of the header. -/
def steppingSource : String :=
  "for (var i = 0; i < 1; i = i + 1) \x7b\nvar j = i\nprint j\n\x7d\n"

theorem validate_steppingSource :
    (Program.read (Scan.ofText steppingSource).tokens).2 = [] ∧
    (Program.read (Scan.ofText steppingSource).tokens).1.check = [] ∧
    validate (Scan.ofText steppingSource).tokens = [] := by
  have scanned : (Scan.ofText steppingSource).tokens =
      countingTokens "j" ⟨.identifier, some (.text "i"), 2⟩ := by
    decide +kernel
  have read : Program.read (Scan.ofText steppingSource).tokens =
      (countingLoop "j" (.reference "i" 2), []) := by
    rw [scanned]
    cbv
  have clean : (Program.read (Scan.ofText steppingSource).tokens).2 = [] := congrArg Prod.snd read
  have checked : (Program.read (Scan.ofText steppingSource).tokens).1.check = [] := by
    rw [read]
    decide +kernel
  have keeps : (Program.read (Scan.ofText steppingSource).tokens).1.keepsLoopNames = true := by
    rw [read]
    decide +kernel
  exact ⟨clean, checked, (validate_eq_nil_iff_keepsLoopNames clean checked).mpr keeps⟩

/-- A loop whose body declares the name of the header again. -/
def shadowingSource : String :=
  "for (var i = 0; i < 1; i = i + 1) \x7b\nvar i = 5\nprint i\n\x7d\n"

/-- The check gives the second `i` a scope of its own, the validator does not. -/
theorem validate_shadowingSource :
    (Program.read (Scan.ofText shadowingSource).tokens).2 = [] ∧
    (Program.read (Scan.ofText shadowingSource).tokens).1.check = [] ∧
    validate (Scan.ofText shadowingSource).tokens = [.nameReserved "i" 2] := by
  have scanned : (Scan.ofText shadowingSource).tokens =
      countingTokens "i" ⟨.integerLiteral, some (.integer 5), 2⟩ := by
    decide +kernel
  have read : Program.read (Scan.ofText shadowingSource).tokens =
      (countingLoop "i" (.literal (.int 5) 2), []) := by
    rw [scanned]
    cbv
  refine ⟨congrArg Prod.snd read, ?_, ?_⟩
  · rw [read]
    decide +kernel
  · rw [scanned]
    decide +kernel

end Validation

end LineScript
