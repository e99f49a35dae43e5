import LineScript.Proofs.Json.Nesting

/-!
What reading gives.

However a text is laid out, the values read from it could have been written: their whole numbers
are those of 64 bits, their decimals are finite, and they nest no deeper than was allowed.
-/

set_option autoImplicit false

namespace LineScript

namespace Json

/-! ## Pieces -/

namespace Lexeme

/-- Whether the number of a piece, if it has one, can be written. -/
def Bounded : Lexeme → Prop
  | .integer number => WithinWords number
  | .decimal number => number.isFinite = true
  | _ => True

def AllBounded (lexemes : List Lexeme) : Prop :=
  ∀ lexeme ∈ lexemes, lexeme.Bounded

theorem AllBounded.cons {lexeme : Lexeme} {lexemes : List Lexeme}
    (all : AllBounded (lexeme :: lexemes)) : lexeme.Bounded ∧ AllBounded lexemes :=
  List.forall_mem_cons.mp all

private theorem withinWords_of_toInteger? {number : NumberText} {value : Int}
    (whole : number.toInteger? = some value) : WithinWords value := by
  unfold NumberText.toInteger? at whole
  unfold WithinWords
  split at whole
  · simp only [Nat.reduceShiftLeft] at whole
    split at whole <;> split at whole <;> simp only [Option.some.injEq, reduceCtorEq] at whole <;>
      omega
  · cases whole

private theorem ofNumber_bounded (number : NumberText) : (ofNumber number).Bounded := by
  unfold ofNumber
  split
  · next whole => exact withinWords_of_toInteger? whole
  · split
    · next finite => exact finite
    · trivial

private theorem takeNumber?_bounded {negative : Bool} {text behind : List Char} {lexeme : Lexeme}
    (taken : takeNumber? negative text = some (lexeme, behind)) : lexeme.Bounded := by
  unfold takeNumber? at taken
  split at taken
  · cases taken
  split at taken
  · cases taken
  split at taken
  · cases taken
  · cases taken
    exact ofNumber_bounded _

private theorem ofItems_bounded (items : List Item) : (ofItems items).Bounded := by
  unfold ofItems
  split <;> trivial

private theorem first?_bounded {head : Char} {tail behind : List Char} {lexeme : Lexeme}
    (taken : first? head tail = some (lexeme, behind)) : lexeme.Bounded := by
  unfold first? at taken
  split at taken
  · exact takeNumber?_bounded taken
  · split at taken
    case h_10 =>
      split at taken
      · cases taken
        exact ofItems_bounded _
      · cases taken
    case h_11 => exact takeNumber?_bounded taken
    all_goals
      cases taken
      try trivial

theorem split?_bounded {text : List Char} {lexemes : List Lexeme}
    (pieces : split? text = some lexemes) : AllBounded lexemes := by
  fun_induction split? text generalizing lexemes with
  | case1 =>
      cases pieces
      nofun
  | case2 head tail blank ih => exact ih pieces
  | case3 => cases pieces
  | case4 head tail notBlank lexeme behind taken ih =>
      obtain ⟨others, behindPieces, rfl⟩ := Option.map_eq_some_iff.mp pieces
      exact List.forall_mem_cons.mpr ⟨first?_bounded taken, ih behindPieces⟩

end Lexeme

/-! ## Values -/

/-- A value that can be written and nests so many levels deep at most. -/
structure Fits (levels : Nat) (json : Json) : Prop where
  writable : Writable json
  nesting : json.nesting ≤ levels

section

variable {levels : Nat} {elements : List Json} {fields : List (String × Json)}

theorem writableElements_iff :
    WritableElements elements ↔ ∀ element ∈ elements, Writable element := by
  induction elements with
  | nil => exact ⟨fun _ => nofun, fun _ => .nil⟩
  | cons element others ih =>
      rw [List.forall_mem_cons, ← ih]
      constructor
      · rintro (_ | ⟨first, rest⟩)
        exact ⟨first, rest⟩
      · rintro ⟨first, rest⟩
        exact .cons first rest

theorem writableFields_iff : WritableFields fields ↔ ∀ field ∈ fields, Writable field.2 := by
  induction fields with
  | nil => exact ⟨fun _ => nofun, fun _ => .nil⟩
  | cons field others ih =>
      rw [List.forall_mem_cons, ← ih]
      constructor
      · rintro (_ | ⟨first, rest⟩)
        exact ⟨first, rest⟩
      · rintro ⟨first, rest⟩
        exact .cons first rest

theorem nestingOfElements_le_iff :
    nestingOfElements elements ≤ levels ↔ ∀ element ∈ elements, element.nesting ≤ levels := by
  induction elements with
  | nil => simp [nestingOfElements]
  | cons element others ih => rw [nestingOfElements, Nat.max_le, List.forall_mem_cons, ih]

theorem nestingOfFields_le_iff :
    nestingOfFields fields ≤ levels ↔ ∀ field ∈ fields, field.2.nesting ≤ levels := by
  induction fields with
  | nil => simp [nestingOfFields]
  | cons field others ih => rw [nestingOfFields, Nat.max_le, List.forall_mem_cons, ih]

/-- An array takes one level more than its elements. -/
theorem fits_array_iff :
    Fits (levels + 1) (.array elements) ↔ ∀ element ∈ elements, Fits levels element := by
  constructor
  · rintro ⟨writable, deep⟩ element member
    rw [nesting] at deep
    cases writable with
    | array parts =>
        exact ⟨writableElements_iff.mp parts element member,
          nestingOfElements_le_iff.mp (Nat.le_of_succ_le_succ deep) element member⟩
  · intro parts
    have writable := writableElements_iff.mpr fun element member => (parts element member).writable
    have deep := nestingOfElements_le_iff.mpr fun element member => (parts element member).nesting
    refine ⟨.array writable, ?_⟩
    rw [nesting]
    exact Nat.succ_le_succ deep

/-- An object takes one level more than the values of its fields. -/
theorem fits_object_iff :
    Fits (levels + 1) (.object fields) ↔ ∀ field ∈ fields, Fits levels field.2 := by
  constructor
  · rintro ⟨writable, deep⟩ field member
    rw [nesting] at deep
    cases writable with
    | object parts =>
        exact ⟨writableFields_iff.mp parts field member,
          nestingOfFields_le_iff.mp (Nat.le_of_succ_le_succ deep) field member⟩
  · intro parts
    have writable := writableFields_iff.mpr fun field member => (parts field member).writable
    have deep := nestingOfFields_le_iff.mpr fun field member => (parts field member).nesting
    refine ⟨.object writable, ?_⟩
    rw [nesting]
    exact Nat.succ_le_succ deep

theorem Fits.array (fits : Fits levels (.array elements)) :
    ∃ inner, levels = inner + 1 ∧ ∀ element ∈ elements, Fits inner element := by
  obtain ⟨inner, rfl⟩ := Nat.exists_eq_add_of_le' (Nat.le_of_add_left_le fits.nesting)
  exact ⟨inner, rfl, fits_array_iff.mp fits⟩

theorem Fits.object (fits : Fits levels (.object fields)) :
    ∃ inner, levels = inner + 1 ∧ ∀ field ∈ fields, Fits inner field.2 := by
  obtain ⟨inner, rfl⟩ := Nat.exists_eq_add_of_le' (Nat.le_of_add_left_le fits.nesting)
  exact ⟨inner, rfl, fits_object_iff.mp fits⟩

end

/-! ## Readers -/

/-- What is known of a value read in some way.  Of one that is passed over, nothing. -/
def Reading.Admits : Reading → Json → Prop
  | .meant levels, json => Fits levels json
  | .skipped, _ => True

section

variable {reading inner : Reading}

private theorem admits_scalar {lexeme : Lexeme} {value : Json} (bounded : lexeme.Bounded)
    (read : reading.scalar? lexeme = some value) : reading.Admits value := by
  cases reading with
  | skipped => trivial
  | meant levels =>
      have flat : Writable value → value.nesting = 0 → Fits levels value :=
        fun writable scalar => ⟨writable, scalar ▸ Nat.zero_le levels⟩
      cases lexeme <;> simp only [Reading.scalar?, reduceCtorEq, Option.some.injEq, if_false] at read
      all_goals subst read
      · exact flat .null rfl
      · exact flat .boolean rfl
      · exact flat (.integer bounded) rfl
      · exact flat (.decimal bounded) rfl
      · exact flat .string rfl

private theorem admits_array {elements : List Json} (entered : reading.enter = some inner)
    (parts : ∀ element ∈ elements, inner.Admits element) : reading.Admits (.array elements) := by
  match reading with
  | .skipped => trivial
  | .meant 0 => cases entered
  | .meant (levels + 1) =>
      cases entered
      exact fits_array_iff.mpr parts

private theorem admits_object {fields : List (String × Json)} (entered : reading.enter = some inner)
    (parts : ∀ field ∈ fields, inner.Admits field.2) : reading.Admits (.object fields) := by
  match reading with
  | .skipped => trivial
  | .meant 0 => cases entered
  | .meant (levels + 1) =>
      cases entered
      exact fits_object_iff.mpr parts

end

/-- Whatever is taken meets an expectation, and leaves bounded pieces behind. -/
def Delivers {α : Type} {lexemes : List Lexeme} (expected : α → Prop)
    (taken? : Option (Taken α lexemes)) : Prop :=
  ∀ taken, taken? = some taken → expected taken.value ∧ Lexeme.AllBounded taken.rest

section

variable {α β : Type} {expected : α → Prop} {further : β → Prop} {lexemes outer : List Lexeme}

private theorem delivers_none : Delivers expected (none : Option (Taken α lexemes)) :=
  nofun

private theorem delivers_some {taken : Taken α lexemes} (meets : expected taken.value)
    (bounded : Lexeme.AllBounded taken.rest) : Delivers expected (some taken) := by
  rintro _ ⟨⟩
  exact ⟨meets, bounded⟩

theorem Delivers.map {taken? : Option (Taken α lexemes)} {change : α → β}
    {fits : lexemes.length ≤ outer.length} (delivers : Delivers expected taken?)
    (changed : ∀ value, expected value → further (change value)) :
    Delivers further (taken?.map fun taken => (taken.map change).behind fits) := by
  intro _ read
  obtain ⟨taken, found, rfl⟩ := Option.map_eq_some_iff.mp read
  obtain ⟨meets, bounded⟩ := delivers taken found
  exact ⟨changed taken.value meets, bounded⟩

end

mutual

private theorem readValue?_delivers (reading : Reading) (lexemes : List Lexeme)
    (bounded : Lexeme.AllBounded lexemes) :
    Delivers reading.Admits (readValue? reading lexemes) := by
  rw [readValue?.eq_def]
  split
  · exact delivers_none
  · next tail =>
    split
    · exact delivers_none
    · next inner entered =>
      exact (readArray?_delivers inner tail bounded.cons.2).map fun _ => admits_array entered
  · next tail =>
    split
    · exact delivers_none
    · next inner entered =>
      exact (readObject?_delivers inner (fun _ => inner) tail bounded.cons.2).map
        fun _ => admits_object entered
  · next lexeme tail _ _ =>
    intro taken read
    obtain ⟨value, scalar, rfl⟩ := Option.map_eq_some_iff.mp read
    exact ⟨admits_scalar bounded.cons.1 scalar, bounded.cons.2⟩
termination_by (lexemes.length, 0)

theorem readArray?_delivers (reading : Reading) (lexemes : List Lexeme)
    (bounded : Lexeme.AllBounded lexemes) :
    Delivers (fun elements => ∀ element ∈ elements, reading.Admits element)
      (readArray? reading lexemes) := by
  rw [readArray?.eq_def]
  split
  · exact delivers_some nofun bounded.cons.2
  · exact readElements?_delivers reading lexemes bounded
termination_by (lexemes.length, 2)

private theorem readElements?_delivers (reading : Reading) (lexemes : List Lexeme)
    (bounded : Lexeme.AllBounded lexemes) :
    Delivers (fun elements => ∀ element ∈ elements, reading.Admits element)
      (readElements? reading lexemes) := by
  rw [readElements?.eq_def]
  split
  · exact delivers_none
  · next first rest shorter read =>
    obtain ⟨admitted, behind⟩ := readValue?_delivers reading lexemes bounded _ read
    split
    · exact delivers_some (by simpa using admitted) behind.cons.2
    · next tail _ =>
      refine (readElements?_delivers reading tail behind.cons.2).map fun others all => ?_
      exact List.forall_mem_cons.mpr ⟨admitted, all⟩
    · exact delivers_none
termination_by (lexemes.length, 1)
decreasing_by
  · exact Prod.Lex.right _ (by decide)
  · exact Prod.Lex.left _ _ (Nat.lt_trans (Nat.lt_succ_self _) shorter)

theorem readObject?_delivers (nameReading : Reading) (valueReading : String → Reading)
    (lexemes : List Lexeme) (bounded : Lexeme.AllBounded lexemes) :
    Delivers (fun fields => ∀ field ∈ fields, (valueReading field.1).Admits field.2)
      (readObject? nameReading valueReading lexemes) := by
  rw [readObject?.eq_def]
  split
  · exact delivers_some nofun bounded.cons.2
  · exact readFields?_delivers nameReading valueReading lexemes bounded
termination_by (lexemes.length, 2)

private theorem readFields?_delivers (nameReading : Reading) (valueReading : String → Reading)
    (lexemes : List Lexeme) (bounded : Lexeme.AllBounded lexemes) :
    Delivers (fun fields => ∀ field ∈ fields, (valueReading field.1).Admits field.2)
      (readFields? nameReading valueReading lexemes) := by
  rw [readFields?.eq_def]
  split
  · next lexeme tail =>
    split
    · exact delivers_none
    · next name _ =>
      split
      · exact delivers_none
      · next value rest shorter read =>
        obtain ⟨admitted, behind⟩ :=
          readValue?_delivers (valueReading name) tail bounded.cons.2.cons.2 _ read
        split
        · exact delivers_some (by simpa using admitted) behind.cons.2
        · next further _ =>
          refine (readFields?_delivers nameReading valueReading further behind.cons.2).map ?_
          exact fun others all => List.forall_mem_cons.mpr ⟨admitted, all⟩
        · exact delivers_none
  · exact delivers_none
termination_by (lexemes.length, 1)
decreasing_by
  · subst_vars
    exact Prod.Lex.left _ _ (by simp only [List.length_cons]; omega)
  · subst_vars
    exact Prod.Lex.left _ _ (by simp only [List.length_cons] at shorter ⊢; omega)

end

end Json

end LineScript
