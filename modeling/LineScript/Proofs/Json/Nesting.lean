import LineScript.Json.Reader
import LineScript.Proofs.Json.Pieces

/-!
Reading the pieces of a value gives the value, down to the level of nesting that is allowed.
-/

set_option autoImplicit false

namespace LineScript

namespace Json

mutual

/-- How many levels of arrays and objects a value has. -/
def nesting : Json → Nat
  | .array elements => nestingOfElements elements + 1
  | .object fields => nestingOfFields fields + 1
  | _ => 0

def nestingOfElements : List Json → Nat
  | [] => 0
  | element :: others => max (nesting element) (nestingOfElements others)

def nestingOfFields : List (String × Json) → Nat
  | [] => 0
  | (_, value) :: others => max (nesting value) (nestingOfFields others)

end

/-! ## What was read -/

section

variable {α β : Type} {first second : List Lexeme}

def Taken.result (taken : Taken α first) : α × List Lexeme :=
  (taken.value, taken.rest)

def result? (taken? : Option (Taken α first)) : Option (α × List Lexeme) :=
  taken?.map Taken.result

theorem result?_eq_none {taken? : Option (Taken α first)} : result? taken? = none ↔ taken? = none :=
  Option.map_eq_none_iff

theorem result?_eq_some {taken? : Option (Taken α first)} {value : α} {rest : List Lexeme} :
    result? taken? = some (value, rest) ↔ ∃ shorter, taken? = some ⟨value, rest, shorter⟩ := by
  constructor
  · intro read
    obtain ⟨⟨value, rest, shorter⟩, found, same⟩ := Option.map_eq_some_iff.mp read
    cases same
    exact ⟨shorter, found⟩
  · rintro ⟨shorter, rfl⟩
    rfl

private theorem result?_map {taken? : Option (Taken α first)} {change : α → β}
    {fits : first.length ≤ second.length} :
    result? (taken?.map fun taken => (taken.map change).behind fits) =
      (result? taken?).map (Prod.map change id) := by
  cases taken? <;> rfl

end

/-! ## One step of reading -/

private theorem readValue?_openArray (levels : Nat) (tail : List Lexeme) :
    result? (readValue? (.meant (levels + 1)) (.openArray :: tail)) =
      (result? (readArray? (.meant levels) tail)).map (Prod.map .array id) := by
  rw [readValue?]
  exact result?_map

private theorem readValue?_openObject (levels : Nat) (tail : List Lexeme) :
    result? (readValue? (.meant (levels + 1)) (.openObject :: tail)) =
      (result? (readObject? (.meant levels) (fun _ => .meant levels) tail)).map
        (Prod.map .object id) := by
  rw [readValue?]
  exact result?_map

section

variable {reading : Reading} {lexemes tail : List Lexeme} {value : Json}

private theorem readElements?_last
    (read : result? (readValue? reading lexemes) = some (value, .closeArray :: tail)) :
    result? (readElements? reading lexemes) = some ([value], tail) := by
  obtain ⟨shorter, found⟩ := result?_eq_some.mp read
  rw [readElements?, found]
  rfl

private theorem readElements?_comma
    (read : result? (readValue? reading lexemes) = some (value, .comma :: tail)) :
    result? (readElements? reading lexemes) =
      (result? (readElements? reading tail)).map (Prod.map (value :: ·) id) := by
  obtain ⟨shorter, found⟩ := result?_eq_some.mp read
  rw [readElements?, found]
  exact result?_map

private theorem readElements?_none (read : result? (readValue? reading lexemes) = none) :
    result? (readElements? reading lexemes) = none := by
  rw [readElements?, result?_eq_none.mp read]
  rfl

end

section

variable {nameReading : Reading} {valueReading : String → Reading} {name : String}
  {lexemes tail : List Lexeme} {value : Json}

private theorem readFields?_last
    (read : result? (readValue? (valueReading name) lexemes) = some (value, .closeObject :: tail)) :
    result? (readFields? nameReading valueReading (.string name :: .colon :: lexemes)) =
      some ([(name, value)], tail) := by
  obtain ⟨shorter, found⟩ := result?_eq_some.mp read
  rw [readFields?]
  simp only [Reading.name?, found]
  rfl

private theorem readFields?_comma
    (read : result? (readValue? (valueReading name) lexemes) = some (value, .comma :: tail)) :
    result? (readFields? nameReading valueReading (.string name :: .colon :: lexemes)) =
      (result? (readFields? nameReading valueReading tail)).map (Prod.map ((name, value) :: ·) id) := by
  obtain ⟨shorter, found⟩ := result?_eq_some.mp read
  rw [readFields?]
  simp only [Reading.name?, found]
  exact result?_map

private theorem readFields?_none (read : result? (readValue? (valueReading name) lexemes) = none) :
    result? (readFields? nameReading valueReading (.string name :: .colon :: lexemes)) = none := by
  rw [readFields?]
  simp only [Reading.name?, result?_eq_none.mp read]
  rfl

end

/-! ## Whole values -/

/-- What a reader of so many levels makes of a value of some depth, in front of a rest. -/
def within {α : Type} (levels depth : Nat) (value : α) (rest : List Lexeme) :
    Option (α × List Lexeme) :=
  if depth ≤ levels then some (value, rest) else none

theorem within_of_le {α : Type} {levels depth : Nat} (fits : depth ≤ levels) (value : α)
    (rest : List Lexeme) : within levels depth value rest = some (value, rest) :=
  if_pos fits

theorem within_of_lt {α : Type} {levels depth : Nat} (exceeds : levels < depth) (value : α)
    (rest : List Lexeme) : within levels depth value rest = none :=
  if_neg (Nat.not_le.mpr exceeds)

private theorem within_map {α β : Type} {change : α → β} (levels depth : Nat) (value : α)
    (rest : List Lexeme) :
    (within levels depth value rest).map (Prod.map change id) =
      within levels depth (change value) rest := by
  unfold within
  split <;> rfl

private theorem within_max {α : Type} {levels depth : Nat} (fits : depth ≤ levels) (other : Nat)
    (value : α)
    (rest : List Lexeme) :
    within levels (max depth other) value rest = within levels other value rest := by
  simp [within, fits]

theorem within_succ {α : Type} (levels depth : Nat) (value : α) (rest : List Lexeme) :
    within (levels + 1) (depth + 1) value rest = within levels depth value rest := by
  simp [within]

private theorem readArray?_lexemes (reading : Reading) (json : Json) (rest : List Lexeme) :
    result? (readArray? reading (lexemes json ++ rest)) =
      result? (readElements? reading (lexemes json ++ rest)) := by
  rw [readArray?]
  -- no value starts with the bracket that ends an array
  intro tail
  fun_cases lexemes json <;> simp

private theorem lexemes_array_append (first : Json) (others : List Json) (rest : List Lexeme) :
    lexemes (.array (first :: others)) ++ rest =
      .openArray :: (lexemes first ++ (elementLexemes others ++ .closeArray :: rest)) := by
  simp [lexemes]

private theorem lexemes_object_append (name : String) (first : Json) (others : List (String × Json))
    (rest : List Lexeme) :
    lexemes (.object ((name, first) :: others)) ++ rest =
      .openObject :: .string name :: .colon ::
        (lexemes first ++ (fieldLexemes others ++ .closeObject :: rest)) := by
  simp [lexemes]

private theorem elementLexemes_append (element : Json) (others : List Json) (rest : List Lexeme) :
    elementLexemes (element :: others) ++ rest =
      .comma :: (lexemes element ++ (elementLexemes others ++ rest)) := by
  simp [elementLexemes]

private theorem fieldLexemes_append (name : String) (value : Json) (others : List (String × Json))
    (rest : List Lexeme) :
    fieldLexemes ((name, value) :: others) ++ rest =
      .comma :: .string name :: .colon :: (lexemes value ++ (fieldLexemes others ++ rest)) := by
  simp [fieldLexemes]

/-- Behind its pieces, a value is read exactly if its depth is allowed. -/
def ReadsWithin (levels : Nat) (json : Json) : Prop :=
  ∀ rest, result? (readValue? (.meant levels) (lexemes json ++ rest)) =
    within levels json.nesting json rest

private theorem readElements?_lexemes {levels : Nat} {first : Json} {others : List Json}
    (reads : ∀ element ∈ first :: others, ReadsWithin levels element) (rest : List Lexeme) :
    result? (readElements? (.meant levels)
      (lexemes first ++ (elementLexemes others ++ .closeArray :: rest))) =
      within levels (nestingOfElements (first :: others)) (first :: others) rest := by
  induction others generalizing first with
  | nil =>
      have read := reads first List.mem_cons_self (.closeArray :: rest)
      simp only [elementLexemes, List.nil_append, nestingOfElements, Nat.max_zero]
      rcases Nat.lt_or_ge levels first.nesting with exceeds | fits
      · rw [within_of_lt exceeds] at read
        rw [readElements?_none read, within_of_lt exceeds]
      · rw [within_of_le fits] at read
        rw [readElements?_last read, within_of_le fits]
  | cons second more ih =>
      have read := reads first List.mem_cons_self
        (elementLexemes (second :: more) ++ .closeArray :: rest)
      rw [nestingOfElements]
      rcases Nat.lt_or_ge levels first.nesting with exceeds | fits
      · rw [within_of_lt exceeds] at read
        rw [readElements?_none read, within_of_lt (by omega)]
      · rw [within_of_le fits, elementLexemes_append] at read
        rw [elementLexemes_append, readElements?_comma read,
          ih (fun element member => reads element (List.mem_cons_of_mem _ member)), within_map,
          within_max fits]

private theorem readFields?_lexemes {nameReading : Reading} {valueReading : String → Reading}
    {levels : Nat}
    {name : String} {first : Json} {others : List (String × Json)}
    (meant : ∀ field ∈ (name, first) :: others, valueReading field.1 = .meant levels)
    (reads : ∀ field ∈ (name, first) :: others, ReadsWithin levels field.2) (rest : List Lexeme) :
    result? (readFields? nameReading valueReading (.string name :: .colon ::
      (lexemes first ++ (fieldLexemes others ++ .closeObject :: rest)))) =
      within levels (nestingOfFields ((name, first) :: others)) ((name, first) :: others) rest := by
  induction others generalizing name first with
  | nil =>
      have read := reads _ List.mem_cons_self (.closeObject :: rest)
      rw [← meant _ List.mem_cons_self] at read
      simp only [fieldLexemes, List.nil_append, nestingOfFields, Nat.max_zero]
      rcases Nat.lt_or_ge levels first.nesting with exceeds | fits
      · rw [within_of_lt exceeds] at read
        rw [readFields?_none read, within_of_lt exceeds]
      · rw [within_of_le fits] at read
        rw [readFields?_last read, within_of_le fits]
  | cons second more ih =>
      obtain ⟨nextName, next⟩ := second
      have read := reads _ List.mem_cons_self
        (fieldLexemes ((nextName, next) :: more) ++ .closeObject :: rest)
      rw [← meant _ List.mem_cons_self] at read
      rw [nestingOfFields]
      rcases Nat.lt_or_ge levels first.nesting with exceeds | fits
      · rw [within_of_lt exceeds] at read
        rw [readFields?_none read, within_of_lt (by omega)]
      · rw [within_of_le fits, fieldLexemes_append] at read
        rw [fieldLexemes_append, readFields?_comma read,
          ih (fun field member => meant field (List.mem_cons_of_mem _ member))
            (fun field member => reads field (List.mem_cons_of_mem _ member)), within_map,
          within_max fits]

theorem readObject?_lexemes {nameReading : Reading} {valueReading : String → Reading} {levels : Nat}
    {name : String} {first : Json} {others : List (String × Json)}
    (meant : ∀ field ∈ (name, first) :: others, valueReading field.1 = .meant levels)
    (reads : ∀ field ∈ (name, first) :: others, ReadsWithin levels field.2) (rest : List Lexeme) :
    result? (readObject? nameReading valueReading (.string name :: .colon ::
      (lexemes first ++ (fieldLexemes others ++ .closeObject :: rest)))) =
      within levels (nestingOfFields ((name, first) :: others)) ((name, first) :: others) rest := by
  rw [readObject?, readFields?_lexemes meant reads rest]
  simp

/-- Every value is read back from its pieces if it nests no deeper than allowed, and refused
otherwise. -/
theorem readsWithin (json : Json) (levels : Nat) : ReadsWithin levels json := by
  intro rest
  cases json with
  | null | boolean truth | integer number | decimal number | string text =>
      simp only [lexemes, List.singleton_append, readValue?]
      rfl
  | array elements =>
      cases levels with
      | zero =>
          simp only [within, nesting]
          cases elements <;> simp [lexemes, readValue?, Reading.enter, result?]
      | succ levels =>
          simp only [nesting, within_succ]
          cases elements with
          | nil =>
              simp only [lexemes, List.cons_append, readValue?_openArray, readArray?]
              rfl
          | cons first others =>
              rw [lexemes_array_append, readValue?_openArray, readArray?_lexemes,
                readElements?_lexemes (fun element member => readsWithin element levels), within_map]
  | object fields =>
      cases levels with
      | zero =>
          simp only [within, nesting]
          cases fields <;> simp [lexemes, readValue?, Reading.enter, result?]
      | succ levels =>
          simp only [nesting, within_succ]
          cases fields with
          | nil =>
              simp only [lexemes, List.cons_append, readValue?_openObject, readObject?]
              rfl
          | cons first others =>
              obtain ⟨name, value⟩ := first
              rw [lexemes_object_append, readValue?_openObject,
                readObject?_lexemes (fun _ _ => rfl) (fun field member => readsWithin field.2 levels),
                within_map]
termination_by sizeOf json
decreasing_by
  · subst_vars
    have smaller := List.sizeOf_lt_of_mem member
    simp only [Json.array.sizeOf_spec]
    omega
  · subst_vars
    obtain ⟨fieldName, part⟩ := field
    have smaller := List.sizeOf_lt_of_mem member
    simp only [Json.object.sizeOf_spec, Prod.mk.sizeOf_spec] at smaller ⊢
    omega

end Json

end LineScript
