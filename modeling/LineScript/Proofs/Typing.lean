import LineScript.Evaluation.Machine

/-!
Families of values, and the typing of programs by them.

The two numeric kinds stand in for each other wherever a value is stored, so the kind of a variable
is known before a run only up to its family.  The rules here give every expression a family and
every statement a change to the families of the variables in scope.
-/

set_option autoImplicit false

namespace LineScript

/-- Kinds up to the difference between the two kinds of numbers. -/
inductive Family where
  | numeric
  | boolean
  | string
deriving DecidableEq, Repr

def Kind.family : Kind → Family
  | .int | .decimal => .numeric
  | .boolean => .boolean
  | .string => .string

def Value.family (value : Value) : Family :=
  value.kind.family

theorem Kind.accepts_iff {pinned offered : Kind} :
    pinned.accepts offered = true ↔ pinned.family = offered.family := by
  cases pinned <;> cases offered <;> decide

/-! ## Variables in scope -/

abbrev Typing := ScopeStack (List (String × Family))

namespace Typing

def find? (name : String) (context : Typing) : Option Family :=
  context.toList.findSome? fun frame => frame.lookup name

def bind (name : String) (family : Family) (context : Typing) : Typing :=
  { context with innermost := (name, family) :: context.innermost }

end Typing

def Frame.typing (frame : Frame) : List (String × Family) :=
  frame.map fun entry => (entry.1, entry.2.pinned.family)

def Frame.Consistent (frame : Frame) : Prop :=
  ∀ name binding, frame.find? name = some binding →
    binding.value.family = binding.pinned.family

namespace Frame

private theorem lookup_typing (name : String) (frame : Frame) :
    frame.typing.lookup name = (frame.find? name).map fun binding => binding.pinned.family := by
  induction frame with
  | nil => rfl
  | cons entry others ih =>
      obtain ⟨key, binding⟩ := entry
      by_cases same : name == key
      · simp [typing, find?, List.lookup_cons, same]
      · simpa [typing, find?, List.lookup_cons, same] using ih

private theorem typing_update (name : String) (value : Value) (frame : Frame) :
    (frame.update name value).typing = frame.typing := by
  unfold typing update
  rw [List.map_map]
  apply List.map_congr_left
  intro entry _
  simp only [Function.comp]
  split <;> rfl

private theorem find?_update (name other : String) (value : Value) (frame : Frame) :
    (frame.update name value).find? other = (frame.find? other).map fun binding =>
      if other = name then { binding with value := value } else binding := by
  induction frame with
  | nil => rfl
  | cons entry others ih =>
      obtain ⟨key, binding⟩ := entry
      unfold find? update at ih ⊢
      by_cases same : other == key
      · have keys := eq_of_beq same
        by_cases updated : key = name <;> simp [keys, updated]
      · have different : (other == key) = false := by simpa using same
        by_cases updated : key = name
        · subst updated
          simpa [List.lookup_cons, different] using ih
        · simpa [List.lookup_cons, different, updated] using ih

theorem Consistent.update {name : String} {value : Value} {frame : Frame} {binding : Binding}
    (consistent : frame.Consistent) (found : frame.find? name = some binding)
    (same : value.family = binding.pinned.family) : (frame.update name value).Consistent := by
  intro other result result?
  rw [find?_update, Option.map_eq_some_iff] at result?
  obtain ⟨earlier, earlier?, rfl⟩ := result?
  split
  · next here =>
    subst here
    rw [found] at earlier?
    cases earlier?
    exact same
  · exact consistent other earlier earlier?

end Frame

namespace Environment

def typing (environment : Environment) : Typing :=
  ⟨environment.innermost.typing, environment.enclosing.map Frame.typing⟩

def Consistent (environment : Environment) : Prop :=
  ∀ frame ∈ environment.toList, frame.Consistent

/-- An environment whose variables are as a typing says. -/
structure Fits (context : Typing) (environment : Environment) : Prop where
  typing_eq : environment.typing = context
  consistent : environment.Consistent

private theorem find?_frames (name : String) (frames : List Frame) :
    ((frames.map Frame.typing).findSome? fun frame => frame.lookup name) =
      (frames.findSome? fun frame => frame.find? name).map fun binding =>
        binding.pinned.family := by
  induction frames with
  | nil => rfl
  | cons frame others ih =>
      rw [List.map_cons, List.findSome?_cons, List.findSome?_cons, Frame.lookup_typing]
      cases frame.find? name with
      | none => exact ih
      | some binding => rfl

private theorem find?_typing (name : String) (environment : Environment) :
    environment.typing.find? name =
      (environment.find? name).map fun binding => binding.pinned.family :=
  find?_frames name environment.toList

private theorem family_of_find? {name : String} {frames : List Frame} {binding : Binding}
    (consistent : ∀ frame ∈ frames, frame.Consistent)
    (found : (frames.findSome? fun frame => frame.find? name) = some binding) :
    binding.value.family = binding.pinned.family := by
  obtain ⟨frame, member, here⟩ := List.exists_of_findSome?_eq_some found
  exact consistent frame member name binding here

private theorem typing_updateFrames (name : String) (value : Value) (frames : List Frame) :
    (updateFrames name value frames).map Frame.typing = frames.map Frame.typing := by
  induction frames with
  | nil => rfl
  | cons frame others ih =>
      rw [updateFrames]
      split
      · rw [List.map_cons, List.map_cons, Frame.typing_update]
      · rw [List.map_cons, List.map_cons, ih]

theorem typing_update (name : String) (value : Value) (environment : Environment) :
    (environment.update name value).typing = environment.typing := by
  unfold update typing
  split
  · rw [Frame.typing_update]
  · rw [typing_updateFrames]

private theorem consistent_updateFrames {name : String} {value : Value} {frames : List Frame}
    {binding : Binding} (consistent : ∀ frame ∈ frames, frame.Consistent)
    (found : (frames.findSome? fun frame => frame.find? name) = some binding)
    (same : value.family = binding.pinned.family) :
    ∀ frame ∈ updateFrames name value frames, frame.Consistent := by
  induction frames with
  | nil => cases found
  | cons frame others ih =>
      rw [List.findSome?_cons] at found
      rw [updateFrames]
      have first := consistent frame List.mem_cons_self
      have behind : ∀ other ∈ others, other.Consistent := fun other member =>
        consistent other (List.mem_cons_of_mem frame member)
      cases here : frame.find? name with
      | some earlier =>
          rw [here] at found
          cases found
          exact List.forall_mem_cons.mpr ⟨first.update here same, behind⟩
      | none =>
          rw [here] at found
          exact List.forall_mem_cons.mpr ⟨first, ih behind found⟩

theorem Consistent.update {name : String} {value : Value} {environment : Environment}
    {binding : Binding} (consistent : environment.Consistent)
    (found : environment.find? name = some binding)
    (same : value.family = binding.pinned.family) : (environment.update name value).Consistent := by
  have frames := consistent_updateFrames consistent found same
  unfold Consistent
  have split : (environment.update name value).toList =
      updateFrames name value environment.toList := by
    unfold Environment.update ScopeStack.toList
    rw [updateFrames]
    split <;> rfl
  rw [split]
  exact frames

namespace Fits

variable {context : Typing} {environment changed : Environment} {name : String} {value : Value}
  {family : Family} {line : Nat}

theorem find?_eq (fits : environment.Fits context) (name : String) :
    context.find? name = (environment.find? name).map fun binding => binding.pinned.family := by
  rw [← fits.typing_eq, find?_typing]

theorem get_of_find? (fits : environment.Fits context) (known : context.find? name = some family)
    (line : Nat) :
    ∃ value, environment.get name line = .ok value ∧ value.family = family := by
  rw [fits.find?_eq, Option.map_eq_some_iff] at known
  obtain ⟨binding, found, rfl⟩ := known
  refine ⟨binding.value, ?_, family_of_find? fits.consistent found⟩
  simp only [get, found]

theorem find?_of_get (fits : environment.Fits context)
    (gotten : environment.get name line = .ok value) : context.find? name = some value.family := by
  unfold get at gotten
  split at gotten
  · next binding found =>
    cases gotten
    rw [fits.find?_eq, found, Option.map_some, family_of_find? fits.consistent found]
  · cases gotten

theorem update (fits : environment.Fits context) (known : context.find? name = some value.family) :
    (environment.update name value).Fits context := by
  refine ⟨(typing_update name value environment).trans fits.typing_eq, ?_⟩
  rw [fits.find?_eq, Option.map_eq_some_iff] at known
  obtain ⟨binding, found, same⟩ := known
  exact fits.consistent.update found same.symm

theorem assign_of_find? (fits : environment.Fits context)
    (known : context.find? name = some value.family) (line : Nat) :
    ∃ changed, environment.assign name value line = .ok changed ∧ changed.Fits context := by
  have updated := fits.update known
  rw [fits.find?_eq, Option.map_eq_some_iff] at known
  obtain ⟨binding, found, same⟩ := known
  refine ⟨_, ?_, updated⟩
  simp only [assign, found, if_pos (Kind.accepts_iff.mpr same)]

theorem find?_of_assign (fits : environment.Fits context)
    (assigned : environment.assign name value line = .ok changed) :
    context.find? name = some value.family ∧ changed.Fits context := by
  unfold assign at assigned
  split at assigned
  · cases assigned
  · next binding found =>
    split at assigned
    · next accepted =>
      cases assigned
      have known : context.find? name = some value.family := by
        rw [fits.find?_eq, found, Option.map_some, Kind.accepts_iff.mp accepted]
        rfl
      exact ⟨known, fits.update known⟩
    · cases assigned

theorem lookup_eq (fits : environment.Fits context) (name : String) :
    context.innermost.lookup name =
      (environment.innermost.find? name).map fun binding => binding.pinned.family := by
  rw [← fits.typing_eq]
  exact Frame.lookup_typing name environment.innermost

theorem bind (fits : environment.Fits context) (name : String) (value : Value) :
    Fits (context.bind name value.family) { environment with
      innermost := (name, ⟨value.kind, value⟩) :: environment.innermost } := by
  refine ⟨by rw [← fits.typing_eq]; rfl, ?_⟩
  have outer := List.forall_mem_cons.mp fits.consistent
  refine List.forall_mem_cons.mpr ⟨fun other binding found => ?_, outer.2⟩
  unfold Frame.find? at found
  rw [List.lookup_cons] at found
  split at found
  · cases found
    rfl
  · exact outer.1 other binding found

theorem define_of_lookup (fits : environment.Fits context)
    (new : context.innermost.lookup name = none) (value : Value) (line : Nat) :
    ∃ changed, environment.define name value line = .ok changed ∧
      changed.Fits (context.bind name value.family) := by
  rw [fits.lookup_eq, Option.map_eq_none_iff] at new
  refine ⟨_, ?_, fits.bind name value⟩
  simp only [define, new]

theorem lookup_of_define (fits : environment.Fits context)
    (defined : environment.define name value line = .ok changed) :
    context.innermost.lookup name = none ∧ changed.Fits (context.bind name value.family) := by
  unfold define at defined
  split at defined
  · cases defined
  · next new =>
    cases defined
    exact ⟨by rw [fits.lookup_eq, new]; rfl, fits.bind name value⟩

theorem enter (fits : environment.Fits context) : Fits (context.enter []) (environment.enter []) := by
  refine ⟨by rw [← fits.typing_eq]; rfl, ?_⟩
  refine List.forall_mem_cons.mpr ⟨fun name binding found => ?_, fits.consistent⟩
  cases found

theorem leave (fits : environment.Fits context) : Fits context.leave environment.leave := by
  obtain ⟨rfl, consistent⟩ := fits
  obtain ⟨innermost, enclosing⟩ := environment
  cases enclosing with
  | nil => exact ⟨rfl, consistent⟩
  | cons next others => exact ⟨rfl, (List.forall_mem_cons.mp consistent).2⟩

end Fits

theorem fits_empty : Fits (ScopeStack.single []) empty := by
  refine ⟨rfl, List.forall_mem_cons.mpr ⟨fun name binding found => ?_, ?_⟩⟩
  · cases found
  · simp [empty, ScopeStack.single]

end Environment

/-! ## Typing rules -/

/-- The family of an operator's result.  A string takes anything behind it; otherwise arithmetic is
for numbers, and comparisons are for two operands of one family. -/
def BinaryOperator.family? : BinaryOperator → Family → Family → Option Family
  | .arithmetic .add, .string, _ => some .string
  | .arithmetic _, .numeric, .numeric => some .numeric
  | .comparison _, left, right => if left = right then some .boolean else none
  | .connective _, .boolean, .boolean => some .boolean
  | _, _, _ => none

def UnaryOperator.family? : UnaryOperator → Family → Option Family
  | .negate, .numeric => some .numeric
  | .not, .boolean => some .boolean
  | _, _ => none

inductive Expression.HasFamily (context : Typing) : Expression → Family → Prop where
  | literal {value : Value} {line : Nat} : HasFamily context (.literal value line) value.family
  | reference {name : String} {line : Nat} {family : Family} :
      context.find? name = some family → HasFamily context (.reference name line) family
  | assign {name : String} {value : Expression} {line : Nat} {family : Family} :
      HasFamily context value family → context.find? name = some family →
      HasFamily context (.assign name value line) family
  | unary {operator : UnaryOperator} {operand : Expression} {line : Nat} {family result : Family} :
      HasFamily context operand family → operator.family? family = some result →
      HasFamily context (.unary operator operand line) result
  | binary {operator : BinaryOperator} {left right : Expression} {line : Nat}
      {leftFamily rightFamily result : Family} :
      HasFamily context left leftFamily → HasFamily context right rightFamily →
      operator.family? leftFamily rightFamily = some result →
      HasFamily context (.binary operator left right line) result
  | group {inner : Expression} {family : Family} :
      HasFamily context inner family → HasFamily context (.group inner) family

namespace Statement

mutual

/-- A statement is well typed in a typing, and leaves another.  The arms of a branch and the body
of a loop leave the typing they find. -/
inductive Typed : Typing → Statement → Typing → Prop where
  | expression {context : Typing} {root : Expression} {family : Family} :
      root.HasFamily context family → Typed context (.expression root) context
  | declare {context : Typing} {name : String} {initializer : Expression} {line : Nat}
      {family : Family} :
      initializer.HasFamily context family → context.innermost.lookup name = none →
      Typed context (.declare name initializer line) (context.bind name family)
  | print {context : Typing} {root : Expression} {newline : Bool} {family : Family} :
      root.HasFamily context family → Typed context (.print root newline) context
  | block {context after : Typing} {statements : List Statement} :
      TypedAll (context.enter []) statements after → Typed context (.block statements) context
  | branch {context : Typing} {condition : Expression} {thenBranch : Statement}
      {elseBranch : Option Statement} :
      condition.HasFamily context .boolean → Typed context thenBranch context →
      TypedPart context elseBranch context →
      Typed context (.branch condition thenBranch elseBranch) context
  | loop {context inside : Typing} {start step : Option Statement} {condition : Expression}
      {body : Statement} :
      TypedPart context start inside → condition.HasFamily inside .boolean →
      Typed inside body inside → TypedPart inside step inside →
      Typed context (.loop start condition step body) inside

inductive TypedAll : Typing → List Statement → Typing → Prop where
  | nil {context : Typing} : TypedAll context [] context
  | cons {context between after : Typing} {statement : Statement} {statements : List Statement} :
      Typed context statement between → TypedAll between statements after →
      TypedAll context (statement :: statements) after

inductive TypedPart : Typing → Option Statement → Typing → Prop where
  | absent {context : Typing} : TypedPart context none context
  | present {context after : Typing} {statement : Statement} :
      Typed context statement after → TypedPart context (some statement) after

end

/-- Statements change no scope but the innermost. -/
theorem TypedAll.enclosing_eq {context after : Typing} {statements : List Statement}
    (typed : TypedAll context statements after) : after.enclosing = context.enclosing := by
  refine TypedAll.rec (motive_1 := fun context _ after _ => after.enclosing = context.enclosing)
    (motive_2 := fun context _ after _ => after.enclosing = context.enclosing)
    (motive_3 := fun context _ after _ => after.enclosing = context.enclosing)
    ?expression ?declare ?print ?block ?branch ?loop ?nil ?cons ?absent ?present typed
  case expression => exact fun _ => rfl
  case declare => exact fun _ _ => rfl
  case print => exact fun _ => rfl
  case block => exact fun _ _ => rfl
  case branch => exact fun _ _ _ _ _ => rfl
  case loop => exact fun _ _ _ _ start _ _ => start
  case nil => exact rfl
  case cons => exact fun _ _ first others => others.trans first
  case absent => exact rfl
  case present => exact fun _ same => same

theorem TypedAll.leave_eq {context after : Typing} {statements : List Statement}
    (typed : TypedAll (context.enter []) statements after) : after.leave = context := by
  have same := typed.enclosing_eq
  unfold ScopeStack.leave
  rw [same]
  rfl

end Statement

end LineScript
