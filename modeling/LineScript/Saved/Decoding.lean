import LineScript.Saved.Encoding

/-!
JSON values as programs.

Fields that a node does not have are ignored, and of a repeated field the last counts.  The optional
parts of a node may be null or missing; every other part must be there.
-/

set_option autoImplicit false

namespace LineScript

namespace Saved

/-- Something smaller than a given size, so that decoding may go on in it. -/
abbrev Within (limit : Nat) := { json : Json // sizeOf json < limit }

/-- The last field of a name. -/
def field? (name : String) : (fields : List (String × Json)) → Option (Within (sizeOf fields))
  | [] => none
  | (candidate, value) :: others =>
    match field? name others with
    | some ⟨found, smaller⟩ =>
      some ⟨found, Nat.lt_of_lt_of_le smaller (by simp only [List.cons.sizeOf_spec]; omega)⟩
    | none =>
      if candidate = name then
        some ⟨value, by simp only [List.cons.sizeOf_spec, Prod.mk.sizeOf_spec]; omega⟩
      else none

/-- The name that all fields share, and the value of the last. -/
def soleField? (json : Json) : Option (String × Within (sizeOf json)) :=
  match json with
  | .object ((name, value) :: others) =>
    if others.all fun field => field.1 = name then
      match field? name ((name, value) :: others) with
      | some ⟨found, smaller⟩ =>
        some (name, ⟨found, Nat.lt_trans smaller (by simp only [Json.object.sizeOf_spec]; omega)⟩)
      | none => none
    else none
  | _ => none

/-- The sort of a node and its parts. -/
def node? (json : Json) :
    Option (String × { fields : List (String × Json) // sizeOf fields < sizeOf json }) :=
  match soleField? json with
  | some (tag, ⟨.object fields, smaller⟩) =>
    some (tag, ⟨fields, Nat.lt_trans (by simp only [Json.object.sizeOf_spec]; omega) smaller⟩)
  | _ => none

def string? : Json → Option String
  | .string text => some text
  | _ => none

def boolean? : Json → Option Bool
  | .boolean truth => some truth
  | _ => none

/-- A line number: a whole number of 64 bits without sign. -/
def line? : Json → Option Nat
  | .integer number => if 0 ≤ number ∧ number < UInt64.size then some number.toNat else none
  | _ => none

def stringField? (name : String) (fields : List (String × Json)) : Option String :=
  (field? name fields).bind fun found => string? found.val

def booleanField? (name : String) (fields : List (String × Json)) : Option Bool :=
  (field? name fields).bind fun found => boolean? found.val

def lineField? (name : String) (fields : List (String × Json)) : Option Nat :=
  (field? name fields).bind fun found => line? found.val

/-- A literal value.  Any number may stand for a decimal, but only whole ones for an integer. -/
def decodeValue? (json : Json) : Option Value :=
  match soleField? json with
  | some ("Int", ⟨.integer number, _⟩) => (exactInt64? number).map .int
  | some ("Decimal", ⟨.decimal number, _⟩) => some (.decimal number)
  | some ("Decimal", ⟨.integer number, _⟩) => some (.decimal (Decimal.ofInt number))
  | some ("Bool", ⟨.boolean truth, _⟩) => some (.boolean truth)
  | some ("Str", ⟨.string text, _⟩) => some (.string text)
  | _ => none

/-- A name from a fixed list: written as a string, or as the sole field of an object with null for
its value. -/
def choice? (json : Json) : Option String :=
  match json with
  | .string text => some text
  | other =>
    match soleField? other with
    | some (name, ⟨.null, _⟩) => some name
    | _ => none

def unaryOfName? : String → Option UnaryOperator
  | "Negate" => some .negate
  | "Not" => some .not
  | _ => none

def binaryOfName? : String → Option BinaryOperator
  | "Add" => some (.arithmetic .add)
  | "Sub" => some (.arithmetic .subtract)
  | "Mul" => some (.arithmetic .multiply)
  | "Div" => some (.arithmetic .divide)
  | "Mod" => some (.arithmetic .remainder)
  | "Less" => some (.comparison .less)
  | "LessEqual" => some (.comparison .lessEqual)
  | "Greater" => some (.comparison .greater)
  | "GreaterEqual" => some (.comparison .greaterEqual)
  | "Equal" => some (.comparison .equal)
  | "NotEqual" => some (.comparison .notEqual)
  | "And" => some (.connective .and)
  | "Or" => some (.connective .or)
  | _ => none

def unaryField? (name : String) (fields : List (String × Json)) : Option UnaryOperator :=
  ((field? name fields).bind fun found => choice? found.val).bind unaryOfName?

def binaryField? (name : String) (fields : List (String × Json)) : Option BinaryOperator :=
  ((field? name fields).bind fun found => choice? found.val).bind binaryOfName?

def decodeExpression? (json : Json) : Option Expression :=
  match node? json with
  | none => none
  | some (tag, ⟨fields, _smaller⟩) =>
    let part (name : String) : Option Expression :=
      match field? name fields with
      | none => none
      | some ⟨value, _inside⟩ => decodeExpression? value
    match tag with
    | "Literal" => do
      let value ← (field? "value" fields).bind fun found => decodeValue? found.val
      return .literal value (← lineField? "line" fields)
    | "Variable" => return .reference (← stringField? "name" fields) (← lineField? "line" fields)
    | "Assign" =>
      return .assign (← stringField? "name" fields) (← part "value") (← lineField? "line" fields)
    | "UnaryOp" =>
      return .unary (← unaryField? "op" fields) (← part "expr") (← lineField? "line" fields)
    | "BinaryOp" =>
      return .binary (← binaryField? "op" fields) (← part "left") (← part "right")
        (← lineField? "line" fields)
    | "Group" => return .group (← part "inner")
    | _ => none
termination_by sizeOf json
decreasing_by
  exact Nat.lt_trans _inside _smaller

def expressionField? (name : String) (fields : List (String × Json)) : Option Expression :=
  (field? name fields).bind fun found => decodeExpression? found.val

mutual

def decodeStatement? (json : Json) : Option Statement :=
  match node? json with
  | none => none
  | some (tag, ⟨fields, _smaller⟩) =>
    let part (name : String) : Option Statement :=
      match field? name fields with
      | none => none
      | some ⟨value, _inside⟩ => decodeStatement? value
    let optionalPart (name : String) : Option (Option Statement) :=
      match field? name fields with
      | none => some none
      | some ⟨.null, _⟩ => some none
      | some ⟨value, _inside⟩ => (decodeStatement? value).map some
    match tag with
    | "Expression" => return .expression (← expressionField? "expr" fields)
    | "Var" =>
      return .declare (← stringField? "name" fields) (← expressionField? "initializer" fields)
        (← lineField? "line" fields)
    | "Print" =>
      return .print (← expressionField? "expr" fields) (← booleanField? "newline" fields)
    | "Block" =>
      match field? "statements" fields with
      | some ⟨.array elements, _inside⟩ => (decodeStatements? elements).map .block
      | _ => none
    | "If" =>
      return .branch (← expressionField? "condition" fields) (← part "then_branch")
        (← optionalPart "else_branch")
    | "For" =>
      return .loop (← optionalPart "init") (← expressionField? "condition" fields)
        (← optionalPart "iterate") (← part "body")
    | _ => none
termination_by sizeOf json
decreasing_by
  · exact Nat.lt_trans _inside _smaller
  · exact Nat.lt_trans _inside _smaller
  · exact Nat.lt_trans (by simp only [Json.array.sizeOf_spec] at _inside; omega) _smaller

def decodeStatements? (elements : List Json) : Option (List Statement) :=
  match elements with
  | [] => some []
  | element :: others => return (← decodeStatement? element) :: (← decodeStatements? others)
termination_by sizeOf elements

end

/-- What a part of a node is decoded from. -/
theorem exists_field?_of_part {α : Type} {decode? : Json → Option α} {name : String}
    {fields : List (String × Json)} {part : α}
    (read : (match field? name fields with
      | none => none
      | some ⟨value, _⟩ => decode? value) = some part) :
    ∃ found, field? name fields = some found ∧ decode? found.val = some part := by
  split at read
  · cases read
  · next found => exact ⟨_, found, read⟩

/-- What an optional part of a node is decoded from, if it is there. -/
theorem exists_field?_of_optionalPart {α : Type} {decode? : Json → Option α} {name : String}
    {fields : List (String × Json)} {part : Option α}
    (read : (match field? name fields with
      | none => some none
      | some ⟨.null, _⟩ => some none
      | some ⟨value, _⟩ => (decode? value).map some) = some part) :
    ∀ present, part = some present →
      ∃ found, field? name fields = some found ∧ decode? found.val = some present := by
  rintro present rfl
  split at read
  · cases read
  · cases read
  · next found =>
    obtain ⟨_, decoded, same⟩ := Option.map_eq_some_iff.mp read
    cases same
    exact ⟨_, found, decoded⟩

def decodeProgram? : Json → Option Program
  | .array elements => decodeStatements? elements
  | _ => none

end Saved

end LineScript
