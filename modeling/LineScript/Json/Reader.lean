import LineScript.Json.Lexeme

/-!
Reading JSON values.

A value that is meant to be used may nest only so deep and must not hold pieces that mean nothing.
A value that is skipped only has to be written correctly.
-/

set_option autoImplicit false

namespace LineScript

namespace Json

inductive Reading where
  /-- To be used, with so many levels of arrays and objects at most. -/
  | meant (levels : Nat)
  /-- To be passed over. -/
  | skipped
deriving DecidableEq, Repr

/-- How the parts of an array or object are read, if one may stand here. -/
def Reading.enter : Reading → Option Reading
  | meant 0 => none
  | meant (levels + 1) => some (meant levels)
  | skipped => some skipped

def Reading.scalar? (reading : Reading) : Lexeme → Option Json
  | .null => some .null
  | .boolean truth => some (.boolean truth)
  | .integer number => some (.integer number)
  | .decimal number => some (.decimal number)
  | .string text => some (.string text)
  | .hugeNumber | .brokenString => if reading = skipped then some .null else none
  | _ => none

def Reading.name? (reading : Reading) : Lexeme → Option String
  | .string text => some text
  | .brokenString => if reading = skipped then some "" else none
  | _ => none

/-- Something read from the front of `lexemes`, and what is left: at least one piece is used up. -/
structure Taken (α : Type) (lexemes : List Lexeme) where
  value : α
  rest : List Lexeme
  shorter : rest.length < lexemes.length

def Taken.behind {α : Type} {inner outer : List Lexeme} (fits : inner.length ≤ outer.length)
    (taken : Taken α inner) : Taken α outer :=
  ⟨taken.value, taken.rest, Nat.lt_of_lt_of_le taken.shorter fits⟩

def Taken.map {α β : Type} {lexemes : List Lexeme} (change : α → β) (taken : Taken α lexemes) :
    Taken β lexemes :=
  ⟨change taken.value, taken.rest, taken.shorter⟩

mutual

def readValue? (reading : Reading) (lexemes : List Lexeme) : Option (Taken Json lexemes) :=
  match lexemes with
  | [] => none
  | .openArray :: tail =>
    match reading.enter with
    | none => none
    | some inner =>
      (readArray? inner tail).map fun taken => (taken.map .array).behind (Nat.le_succ _)
  | .openObject :: tail =>
    match reading.enter with
    | none => none
    | some inner =>
      (readObject? inner (fun _ => inner) tail).map fun taken =>
        (taken.map .object).behind (Nat.le_succ _)
  | lexeme :: tail =>
    (reading.scalar? lexeme).map fun value => ⟨value, tail, Nat.lt_succ_self _⟩
termination_by (lexemes.length, 0)

/-- The elements of an array from behind its opening bracket. -/
def readArray? (reading : Reading) (lexemes : List Lexeme) : Option (Taken (List Json) lexemes) :=
  match lexemes with
  | .closeArray :: tail => some ⟨[], tail, Nat.lt_succ_self _⟩
  | other => readElements? reading other
termination_by (lexemes.length, 2)

/-- One element or more, with commas between them, up to the closing bracket. -/
def readElements? (reading : Reading) (lexemes : List Lexeme) :
    Option (Taken (List Json) lexemes) :=
  match readValue? reading lexemes with
  | none => none
  | some ⟨first, rest, shorter⟩ =>
    match rest with
    | .closeArray :: tail => some ⟨[first], tail, Nat.lt_trans (Nat.lt_succ_self _) shorter⟩
    | .comma :: tail =>
      (readElements? reading tail).map fun taken =>
        (taken.map (first :: ·)).behind
          (Nat.le_of_lt (Nat.lt_trans (Nat.lt_succ_self _) shorter))
    | _ => none
termination_by (lexemes.length, 1)
decreasing_by
  · exact Prod.Lex.right _ (by decide)
  · exact Prod.Lex.left _ _ (Nat.lt_trans (Nat.lt_succ_self _) shorter)

/-- The fields of an object from behind its opening brace.  `valueReading` says how the value of each
name is read. -/
def readObject? (nameReading : Reading) (valueReading : String → Reading)
    (lexemes : List Lexeme) : Option (Taken (List (String × Json)) lexemes) :=
  match lexemes with
  | .closeObject :: tail => some ⟨[], tail, Nat.lt_succ_self _⟩
  | other => readFields? nameReading valueReading other
termination_by (lexemes.length, 2)

/-- One field or more, with commas between them, up to the closing brace. -/
def readFields? (nameReading : Reading) (valueReading : String → Reading)
    (lexemes : List Lexeme) : Option (Taken (List (String × Json)) lexemes) :=
  match lexemes with
  | lexeme :: .colon :: tail =>
    match nameReading.name? lexeme with
    | none => none
    | some name =>
      match readValue? (valueReading name) tail with
      | none => none
      | some ⟨value, rest, shorter⟩ =>
        match rest with
        | .closeObject :: behind =>
          some ⟨[(name, value)], behind, by simp only [List.length_cons] at shorter ⊢; omega⟩
        | .comma :: behind =>
          (readFields? nameReading valueReading behind).map fun taken =>
            (taken.map ((name, value) :: ·)).behind
              (by simp only [List.length_cons] at shorter ⊢; omega)
        | _ => none
  | _ => none
termination_by (lexemes.length, 1)
decreasing_by
  · exact Prod.Lex.left _ _ (by simp only [List.length_cons]; omega)
  · exact Prod.Lex.left _ _ (by simp only [List.length_cons] at shorter ⊢; omega)

end

end Json

end LineScript
