import LineScript.Digits
import LineScript.Json.Basic

/-!
The pieces of a JSON text.

Two sorts of pieces are written correctly and still mean nothing here: a number beyond every finite
decimal, and a string with half of a surrogate pair.  They are kept apart from errors, because a
part of a text that nobody asks for may contain them.
-/

set_option autoImplicit false

namespace LineScript

namespace Json

inductive Lexeme where
  | openArray
  | closeArray
  | openObject
  | closeObject
  | comma
  | colon
  | null
  | boolean (truth : Bool)
  | integer (number : Int)
  | decimal (number : Decimal)
  | string (text : String)
  /-- A number beyond every finite decimal. -/
  | hugeNumber
  /-- A string with half of a surrogate pair. -/
  | brokenString
deriving DecidableEq, Repr

namespace Lexeme

def isBlank (character : Char) : Bool :=
  character = ' ' || character = '\t' || character = '\n' || character = '\r'

/-! ## Strings -/

/-- One item between quotes: a character, or a 16-bit code given by its digits. -/
inductive Item where
  | character (value : Char)
  | code (value : Nat)
deriving DecidableEq, Repr

def hexValue? (digit : Char) : Option Nat :=
  if digit.isDigit then some (digit.toNat - 48)
  else if 'a' ≤ digit ∧ digit ≤ 'f' then some (digit.toNat - 87)
  else if 'A' ≤ digit ∧ digit ≤ 'F' then some (digit.toNat - 55)
  else none

def codeValue? (first second third fourth : Char) : Option Nat :=
  match hexValue? first, hexValue? second, hexValue? third, hexValue? fourth with
  | some a, some b, some c, some d => some (4096 * a + 256 * b + 16 * c + d)
  | _, _, _, _ => none

def escapeValue? : Char → Option Char
  | '"' => some '"'
  | '\\' => some '\\'
  | '/' => some '/'
  | 'b' => some '\x08'
  | 'f' => some '\x0c'
  | 'n' => some '\n'
  | 'r' => some '\r'
  | 't' => some '\t'
  | _ => none

/-- The items from behind an opening quote to the closing one, and the text behind that. -/
def takeItems : List Char → Option (List Item × List Char)
  | [] => none
  | '"' :: rest => some ([], rest)
  | '\\' :: 'u' :: first :: second :: third :: fourth :: rest =>
    match codeValue? first second third fourth, takeItems rest with
    | some code, some (items, behind) => some (.code code :: items, behind)
    | _, _ => none
  | '\\' :: letter :: rest =>
    match escapeValue? letter, takeItems rest with
    | some character, some (items, behind) => some (.character character :: items, behind)
    | _, _ => none
  | character :: rest =>
    if character.toNat < 32 ∨ character = '\\' then none
    else
      match takeItems rest with
      | some (items, behind) => some (.character character :: items, behind)
      | none => none

def isLeadingSurrogate (code : Nat) : Bool :=
  0xD800 ≤ code && code < 0xDC00

def isTrailingSurrogate (code : Nat) : Bool :=
  0xDC00 ≤ code && code < 0xE000

/-- The characters that items stand for, if every surrogate has its partner right beside it. -/
def characters? : List Item → Option (List Char)
  | [] => some []
  | .character value :: rest => (characters? rest).map (value :: ·)
  | .code leading :: .code trailing :: rest =>
    if isLeadingSurrogate leading then
      if isTrailingSurrogate trailing then
        (characters? rest).map
          (Char.ofNat (0x10000 + 0x400 * (leading - 0xD800) + (trailing - 0xDC00)) :: ·)
      else none
    else if isTrailingSurrogate leading then none
    else (characters? (.code trailing :: rest)).map (Char.ofNat leading :: ·)
  | .code code :: rest =>
    if isLeadingSurrogate code || isTrailingSurrogate code then none
    else (characters? rest).map (Char.ofNat code :: ·)

def ofItems (items : List Item) : Lexeme :=
  match characters? items with
  | some characters => .string (String.ofList characters)
  | none => .brokenString

/-! ## Numbers -/

structure NumberText where
  negative : Bool
  whole : List Char
  fraction : Option (List Char)
  exponent : Option Int
deriving DecidableEq, Repr

def NumberText.toDecimal (number : NumberText) : Decimal :=
  let fraction := number.fraction.getD []
  Decimal.ofNumeral number.negative
    ⟨digitsValue (number.whole ++ fraction),
      number.exponent.getD 0 - (fraction.length : Int)⟩

/-- The whole number that is written, if it is one of 64 bits, with or without sign.  A number with a
point or a power of ten is not whole, and neither is negative zero. -/
def NumberText.toInteger? (number : NumberText) : Option Int :=
  match number.fraction, number.exponent with
  | none, none =>
    let value := digitsValue number.whole
    if number.negative then
      if 0 < value ∧ value ≤ 1 <<< 63 then some (-(value : Int)) else none
    else if value < 1 <<< 64 then some value
    else none
  | _, _ => none

def ofNumber (number : NumberText) : Lexeme :=
  match number.toInteger? with
  | some value => .integer value
  | none => if number.toDecimal.isFinite then .decimal number.toDecimal else .hugeNumber

/-- Digits, of which there has to be at least one. -/
def takeDigits? (text : List Char) : Option (List Char × List Char) :=
  match text.takeWhile Char.isDigit with
  | [] => none
  | digits => some (digits, text.dropWhile Char.isDigit)

/-- The digits before the point: a zero alone, or any that do not start with zero. -/
def takeWhole? (text : List Char) : Option (List Char × List Char) :=
  match takeDigits? text with
  | some ('0' :: _ :: _, _) => none
  | result => result

def takeFraction? (text : List Char) : Option (Option (List Char) × List Char) :=
  match text with
  | '.' :: rest => (takeDigits? rest).map fun (digits, behind) => (some digits, behind)
  | _ => some (none, text)

def takePower? (sign : Int) (text : List Char) : Option (Option Int × List Char) :=
  (takeDigits? text).map fun (digits, behind) =>
    (some (sign * (digitsValue digits : Int)), behind)

def takeExponent? (text : List Char) : Option (Option Int × List Char) :=
  match text with
  | 'e' :: '+' :: rest | 'E' :: '+' :: rest => takePower? 1 rest
  | 'e' :: '-' :: rest | 'E' :: '-' :: rest => takePower? (-1) rest
  | 'e' :: rest | 'E' :: rest => takePower? 1 rest
  | _ => some (none, text)

/-- A number without its sign, and the text behind it. -/
def takeNumber? (negative : Bool) (text : List Char) : Option (Lexeme × List Char) :=
  match takeWhole? text with
  | none => none
  | some (whole, behindWhole) =>
    match takeFraction? behindWhole with
    | none => none
    | some (fraction, behindFraction) =>
      match takeExponent? behindFraction with
      | none => none
      | some (exponent, behind) => some (ofNumber ⟨negative, whole, fraction, exponent⟩, behind)

/-! ## Whole texts -/

/-- The piece at the front of the text `head :: tail`, and the text behind it.  No piece starts with a
blank. -/
def first? (head : Char) (tail : List Char) : Option (Lexeme × List Char) :=
  if head.isDigit then takeNumber? false (head :: tail)
  else
    match head, tail with
    | '[', rest => some (.openArray, rest)
    | ']', rest => some (.closeArray, rest)
    | '\x7b', rest => some (.openObject, rest)
    | '\x7d', rest => some (.closeObject, rest)
    | ',', rest => some (.comma, rest)
    | ':', rest => some (.colon, rest)
    | 'n', 'u' :: 'l' :: 'l' :: rest => some (.null, rest)
    | 't', 'r' :: 'u' :: 'e' :: rest => some (.boolean true, rest)
    | 'f', 'a' :: 'l' :: 's' :: 'e' :: rest => some (.boolean false, rest)
    | '"', rest =>
      match takeItems rest with
      | some (items, behind) => some (ofItems items, behind)
      | none => none
    | '-', rest => takeNumber? true rest
    | _, _ => none

private theorem length_takeItems_le {text behind : List Char} {items : List Item}
    (taken : takeItems text = some (items, behind)) : behind.length ≤ text.length := by
  fun_induction takeItems text generalizing items behind <;> simp_all <;> omega

private theorem length_takeDigits?_lt {text digits behind : List Char}
    (taken : takeDigits? text = some (digits, behind)) : behind.length < text.length := by
  unfold takeDigits? at taken
  split at taken
  · simp at taken
  · next nonempty =>
    obtain ⟨rfl, rfl⟩ : _ = digits ∧ _ = behind := by simpa using taken
    have whole := congrArg List.length (List.takeWhile_append_dropWhile (p := Char.isDigit) (l := text))
    have : 0 < (text.takeWhile Char.isDigit).length := List.length_pos_iff.mpr nonempty
    simp only [List.length_append] at whole
    omega

private theorem length_takeWhole?_lt {text digits behind : List Char}
    (taken : takeWhole? text = some (digits, behind)) : behind.length < text.length := by
  unfold takeWhole? at taken
  split at taken
  · simp at taken
  · exact length_takeDigits?_lt taken

private theorem length_takeFraction?_le {text behind : List Char} {fraction : Option (List Char)}
    (taken : takeFraction? text = some (fraction, behind)) : behind.length ≤ text.length := by
  unfold takeFraction? at taken
  split at taken
  · obtain ⟨⟨digits, rest⟩, digitsTaken, same⟩ := Option.map_eq_some_iff.mp taken
    obtain ⟨rfl, rfl⟩ : _ ∧ rest = behind := by simpa using same
    exact Nat.le_succ_of_le (Nat.le_of_lt (length_takeDigits?_lt digitsTaken))
  · obtain ⟨rfl, rfl⟩ : _ ∧ text = behind := by simpa using taken
    exact Nat.le_refl _

private theorem length_takePower?_le {sign : Int} {text behind : List Char} {exponent : Option Int}
    (taken : takePower? sign text = some (exponent, behind)) : behind.length ≤ text.length := by
  obtain ⟨⟨digits, rest⟩, digitsTaken, same⟩ := Option.map_eq_some_iff.mp taken
  obtain ⟨rfl, rfl⟩ : _ ∧ rest = behind := by simpa using same
  exact Nat.le_of_lt (length_takeDigits?_lt digitsTaken)

private theorem length_takeExponent?_le {text behind : List Char} {exponent : Option Int}
    (taken : takeExponent? text = some (exponent, behind)) : behind.length ≤ text.length := by
  unfold takeExponent? at taken
  split at taken
  case h_7 =>
    obtain ⟨rfl, rfl⟩ : _ ∧ text = behind := by simpa using taken
    exact Nat.le_refl _
  all_goals
    have := length_takePower?_le taken
    simp only [List.length_cons]
    omega

private theorem length_takeNumber?_lt {negative : Bool} {text behind : List Char} {lexeme : Lexeme}
    (taken : takeNumber? negative text = some (lexeme, behind)) : behind.length < text.length := by
  unfold takeNumber? at taken
  split at taken
  · simp at taken
  next wholeTaken =>
  split at taken
  · simp at taken
  next fractionTaken =>
  split at taken
  · simp at taken
  next exponentTaken =>
  obtain ⟨rfl, rfl⟩ : _ ∧ _ = behind := by simpa using taken
  have := length_takeWhole?_lt wholeTaken
  have := length_takeFraction?_le fractionTaken
  have := length_takeExponent?_le exponentTaken
  omega

/-- Every piece uses up the character it starts with. -/
private theorem length_first?_le {head : Char} {tail behind : List Char} {lexeme : Lexeme}
    (taken : first? head tail = some (lexeme, behind)) : behind.length ≤ tail.length := by
  unfold first? at taken
  split at taken
  · exact Nat.le_of_lt_succ (length_takeNumber?_lt taken)
  · have items := @length_takeItems_le
    have number := @length_takeNumber?_lt
    grind

/-- The pieces of a text, if it falls into pieces; blanks between them are dropped. -/
def split? (text : List Char) : Option (List Lexeme) :=
  match text with
  | [] => some []
  | head :: tail =>
    if isBlank head then split? tail
    else
      match _taken : first? head tail with
      | none => none
      | some (lexeme, behind) => (split? behind).map (lexeme :: ·)
termination_by text.length
decreasing_by
  · exact Nat.lt_succ_self _
  · exact Nat.lt_succ_of_le (length_first?_le _taken)

end Lexeme

end Json

end LineScript
