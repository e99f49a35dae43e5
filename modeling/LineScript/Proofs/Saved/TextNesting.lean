import LineScript.Proofs.Saved.RoundTrip

/-!
How deep the text of a saved program nests.

The depth of a text is counted on its characters alone: the most brackets and braces that are open
at one time, those between quotes left out.  A written value nests in its text as it does as a value,
so the depth of the text alone decides whether a saved program is read back.
-/

set_option autoImplicit false

namespace LineScript

namespace Json

/-! ## Brackets of a text -/

/-- Where a character of a text stands. -/
inductive Place where
  | outside
  | quoted
  /-- Between quotes and behind a backslash. -/
  | escaped
deriving DecidableEq, Repr

def opens (character : Char) : Bool :=
  character = '[' || character = '\x7b'

def closes (character : Char) : Bool :=
  character = ']' || character = '\x7d'

def Place.after (character : Char) : Place → Place
  | outside => if character = '"' then quoted else outside
  | quoted => if character = '"' then outside else if character = '\\' then escaped else quoted
  | escaped => quoted

/-- How many brackets are open behind a character, if `depth` were open before it. -/
def Place.depthAfter (character : Char) (depth : Nat) : Place → Nat
  | outside => if opens character then depth + 1 else if closes character then depth - 1 else depth
  | quoted | escaped => depth

/-- The most brackets open at one time in a text that starts at `place` with `depth` of them
open. -/
def deepest (place : Place) (depth : Nat) : List Char → Nat
  | [] => depth
  | character :: tail =>
    max depth (deepest (place.after character) (place.depthAfter character depth) tail)

def textNesting (text : String) : Nat :=
  deepest .outside 0 text.toList

private theorem le_deepest (place : Place) (depth : Nat) (text : List Char) :
    depth ≤ deepest place depth text := by
  cases text with
  | nil => exact Nat.le_refl depth
  | cons character tail => exact Nat.le_max_left depth _

private theorem deepest_cons_of_depthAfter {place : Place} {depth : Nat} {character : Char}
    (same : place.depthAfter character depth = depth) (tail : List Char) :
    deepest place depth (character :: tail) = deepest (place.after character) depth tail := by
  rw [deepest, same]
  exact Nat.max_eq_right (le_deepest _ depth tail)

/-! ## Texts of a known depth -/

/-- In front of any rest, the text nests so many levels deep and leaves nothing open. -/
def Nests (text : List Char) (levels : Nat) : Prop :=
  ∀ (depth : Nat) (rest : List Char),
    deepest .outside depth (text ++ rest) = max (depth + levels) (deepest .outside depth rest)

/-- Whether a character neither opens nor closes anything. -/
def isPlain (character : Char) : Bool :=
  !(opens character || closes character || character = '"')

namespace Nests

variable {text first second : List Char} {levels others : Nat} {character : Char}

theorem nil : Nests [] 0 := by
  intro depth rest
  exact (Nat.max_eq_right (le_deepest .outside depth rest)).symm

theorem append (front : Nests first levels) (back : Nests second others) :
    Nests (first ++ second) (max levels others) := by
  intro depth rest
  rw [List.append_assoc, front, back]
  omega

theorem cons (plain : isPlain character = true) (behind : Nests text levels) :
    Nests (character :: text) levels := by
  intro depth rest
  simp only [isPlain, Bool.not_eq_true', Bool.or_eq_false_iff, decide_eq_false_iff_not] at plain
  obtain ⟨⟨noOpening, noClosing⟩, noQuote⟩ := plain
  have same : Place.outside.depthAfter character depth = depth := by
    simp [Place.depthAfter, noOpening, noClosing]
  have stays : Place.outside.after character = .outside := if_neg noQuote
  rw [List.cons_append, deepest_cons_of_depthAfter same, stays, behind]

theorem of_plain (plain : text.all isPlain = true) : Nests text 0 := by
  induction text with
  | nil => exact nil
  | cons character tail ih =>
      rw [List.all_cons, Bool.and_eq_true] at plain
      exact cons plain.1 (ih plain.2)

/-- A pair of brackets is one level more than what it encloses. -/
theorem enclose {opening closing : Char} (inner : Nests text levels)
    (opened : opens opening = true ∧ opening ≠ '"')
    (closed : opens closing = false ∧ closes closing = true ∧ closing ≠ '"') :
    Nests (opening :: (text ++ [closing])) (levels + 1) := by
  intro depth rest
  have entered : deepest .outside depth (opening :: (text ++ closing :: rest)) =
      max depth (deepest .outside (depth + 1) (text ++ closing :: rest)) := by
    rw [deepest, Place.after, if_neg opened.2, Place.depthAfter, if_pos opened.1]
  have left : deepest .outside (depth + 1) (closing :: rest) =
      max (depth + 1) (deepest .outside depth rest) := by
    rw [deepest, Place.after, if_neg closed.2.2, Place.depthAfter, closed.1,
      if_neg Bool.false_ne_true, if_pos closed.2.1, Nat.add_sub_cancel]
  rw [List.cons_append, List.append_assoc, List.singleton_append, entered, inner, left]
  omega

end Nests

/-! ## Strings -/

/-- What stands for a character between quotes ends between quotes, whatever that character is. -/
private theorem deepest_escape (character : Char) (depth : Nat) (rest : List Char) :
    deepest .quoted depth (escape character ++ rest) = deepest .quoted depth rest := by
  have backslash (letter : Char) (tail : List Char) :
      deepest .quoted depth ('\\' :: letter :: tail) = deepest .quoted depth tail := by
    rw [deepest_cons_of_depthAfter rfl, deepest_cons_of_depthAfter rfl]
    rfl
  have other (plain : Char) (tail : List Char) (noQuote : plain ≠ '"') (noEscape : plain ≠ '\\') :
      deepest .quoted depth (plain :: tail) = deepest .quoted depth tail := by
    rw [deepest_cons_of_depthAfter rfl, Place.after, if_neg noQuote, if_neg noEscape]
  have hexDigit_other (value : Nat) (small : value < 16) :
      hexDigit value ≠ '"' ∧ hexDigit value ≠ '\\' := by
    interval_cases value <;> decide
  unfold escape
  split
  case h_8 noQuote noEscape _ _ _ _ _ =>
    split
    · next control =>
      obtain ⟨highQuote, highEscape⟩ := hexDigit_other (character.toNat / 16) (by omega)
      obtain ⟨lowQuote, lowEscape⟩ := hexDigit_other (character.toNat % 16) (by omega)
      simp only [List.cons_append, List.nil_append]
      rw [backslash, other _ _ (by decide) (by decide), other _ _ (by decide) (by decide),
        other _ _ highQuote highEscape, other _ _ lowQuote lowEscape]
    · exact other character rest noQuote noEscape
  all_goals exact backslash _ rest

private theorem nests_quote (text : String) : Nests (quote text) 0 := by
  intro depth rest
  have inside (characters : List Char) :
      deepest .quoted depth (characters.flatMap escape ++ '"' :: rest) =
        deepest .outside depth rest := by
    induction characters with
    | nil => exact deepest_cons_of_depthAfter rfl rest
    | cons character others ih =>
        rw [List.flatMap_cons, List.append_assoc, deepest_escape, ih]
  unfold quote
  rw [List.cons_append, deepest_cons_of_depthAfter rfl, List.append_assoc]
  exact (inside text.toList).trans (Nat.max_eq_right (le_deepest .outside depth rest)).symm

/-! ## Numbers -/

private theorem isPlain_of_isDigit {character : Char} (digit : character.isDigit = true) :
    isPlain character = true := by
  have different : ∀ other : Char, other.isDigit = false → character ≠ other := by
    rintro other noDigit rfl
    rw [digit] at noDigit
    cases noDigit
  simp [isPlain, opens, closes, different '[' rfl, different ']' rfl, different '\x7b' rfl,
    different '\x7d' rfl, different '"' rfl]

private theorem nests_digits {digits : List Char} (written : IsDigits digits) : Nests digits 0 :=
  .of_plain (List.all_eq_true.mpr fun digit member => isPlain_of_isDigit (written.2 digit member))

private theorem nests_number {number : Lexeme.NumberText} (regular : number.Regular) :
    Nests ((Decimal.signText number.negative).toList ++ number.text) 0 := by
  have sign : Nests (Decimal.signText number.negative).toList 0 := by
    cases number.negative with
    | false => exact .nil
    | true => exact .cons rfl .nil
  have fraction : Nests (Lexeme.NumberText.fractionText number.fraction) 0 := by
    cases written : number.fraction with
    | none => exact .nil
    | some digits =>
        exact .cons rfl (nests_digits (regular.fraction digits written))
  have exponent : Nests (Lexeme.NumberText.exponentText number.exponent) 0 := by
    cases number.exponent with
    | none => exact .nil
    | some power =>
        refine .cons rfl (.cons ?_ (nests_digits (isDigits_toDigits _)))
        split <;> rfl
  exact sign.append ((nests_digits regular.whole).append (fraction.append exponent))

private theorem nests_integer (number : Int) : Nests (Int.repr number).toList 0 := by
  rw [Lexeme.repr_eq_wholeText]
  exact nests_number (Lexeme.regular_wholeText number)

private theorem nests_decimal {number : Decimal} (finite : number.isFinite = true) :
    Nests number.toSavedText.toList 0 := by
  obtain ⟨written, sign, text, carries, saved⟩ := Lexeme.carries_shortest number finite
  rw [saved, ← carries.text, ← sign]
  exact nests_number carries.regular

/-! ## Values -/

private theorem nests_newLine (indent : Nat) : Nests (newLine indent) 0 := by
  have blanks : (List.replicate (2 * indent) ' ').all isPlain = true := by
    rw [List.all_replicate]
    split <;> rfl
  exact .cons rfl (.of_plain blanks)

private theorem nests_field {text : List Char} {levels : Nat} (indent : Nat) (name : String)
    (value : Nests text levels) :
    Nests (newLine indent ++ quote name ++ ':' :: ' ' :: text) levels := by
  have named := (nests_newLine indent).append (nests_quote name)
  have behind : Nests (':' :: ' ' :: text) levels := .cons rfl (.cons rfl value)
  simpa using named.append behind

mutual

/-- The text of a value nests as deep as the value. -/
theorem nests_write {json : Json} (writable : Writable json) (indent : Nat) :
    Nests (write indent json) json.nesting := by
  cases writable with
  | null =>
      simp only [write, nesting]
      exact .of_plain rfl
  | @boolean truth =>
      cases truth <;> simp only [write, nesting] <;> exact .of_plain rfl
  | integer within =>
      simp only [write, nesting]
      exact nests_integer _
  | decimal finite =>
      simp only [write, nesting]
      exact nests_decimal finite
  | string =>
      simp only [write, nesting]
      exact nests_quote _
  | array elements =>
      cases elements with
      | nil => exact Nests.nil.enclose ⟨rfl, by decide⟩ ⟨rfl, rfl, by decide⟩
      | cons first others =>
          have front := (nests_newLine (indent + 1)).append (nests_write first (indent + 1))
          have inner := (front.append (nests_writeElements others (indent + 1))).append
            (nests_newLine indent)
          rw [Nat.zero_max, Nat.max_zero] at inner
          simp only [write, nesting, nestingOfElements]
          exact inner.enclose ⟨rfl, by decide⟩ ⟨rfl, rfl, by decide⟩
  | object fields =>
      cases fields with
      | nil => exact Nests.nil.enclose ⟨rfl, by decide⟩ ⟨rfl, rfl, by decide⟩
      | @cons name _ _ first others =>
          have front := nests_field (indent + 1) name (nests_write first (indent + 1))
          have inner := (front.append (nests_writeFields others (indent + 1))).append
            (nests_newLine indent)
          rw [Nat.max_zero] at inner
          simp only [write, nesting, nestingOfFields]
          exact inner.enclose ⟨rfl, by decide⟩ ⟨rfl, rfl, by decide⟩

private theorem nests_writeElements {others : List Json} (writable : WritableElements others)
    (indent : Nat) : Nests (writeElements indent others) (nestingOfElements others) := by
  cases writable with
  | nil => exact .nil
  | cons element more =>
      have front := (nests_newLine indent).append (nests_write element indent)
      rw [Nat.zero_max] at front
      simp only [writeElements, nestingOfElements]
      exact .cons rfl (front.append (nests_writeElements more indent))

private theorem nests_writeFields {others : List (String × Json)} (writable : WritableFields others)
    (indent : Nat) : Nests (writeFields indent others) (nestingOfFields others) := by
  cases writable with
  | nil => exact .nil
  | @cons name _ _ value more =>
      have front := nests_field indent name (nests_write value indent)
      simp only [writeFields, nestingOfFields]
      exact .cons rfl (front.append (nests_writeFields more indent))

end

private theorem textNesting_toText {json : Json} (writable : Writable json) :
    textNesting json.toText = json.nesting := by
  have nested := nests_write writable 0 0 []
  unfold textNesting toText
  rw [String.toList_ofList, ← List.append_nil (write 0 json), nested]
  simp [deepest]

end Json

namespace Saved

open Json (textNesting textNesting_toText)

theorem textNesting_text {program : Program} (storable : Statement.StorableAll program) :
    textNesting (text program) = (encodeProgram program).nesting :=
  textNesting_toText (writable_encodeProgram storable)

/-- The text of any program, whatever its trees look like, is read back as that program if it nests
at most 127 levels deep, and refused if it nests deeper. -/
theorem readText_text_eq_ite {program : Program} (storable : Statement.StorableAll program) :
    readText (text program) =
      if textNesting (text program) ≤ 127 then .ok program else .error .malformed := by
  rw [textNesting_text storable]
  exact readText_text storable

/-- A tree inside so many pairs of parentheses. -/
def grouped (tree : Expression) : Nat → Expression
  | 0 => tree
  | pairs + 1 => .group (grouped tree pairs)

private theorem grouped_storable {tree : Expression} (storable : tree.Storable) (pairs : Nat) :
    (grouped tree pairs).Storable := by
  induction pairs with
  | zero => exact storable
  | succ pairs ih => exact .group ih

/-- A text that holds a bracket, a backslash and a control character. -/
def quotedBracket : Expression :=
  .literal (.string "\\\x00[") 2

/-- A loop outside of any block that starts by printing an assignment: no source reads as it. -/
def bareLoop (condition : Expression) : Program :=
  [.loop (some (.print (.assign "é\n\"" (.literal (.decimal ⟨9223372036854775808⟩) 0) 1) true))
    condition none (.expression (.literal (.int Int64.minValue) 18446744073709551615))]

private theorem bareLoop_storable {condition : Expression} (storable : condition.Storable) :
    Statement.StorableAll (bareLoop condition) := by
  have bounded {line : Nat} (small : line < UInt64.size) : StorableLine line := small
  have start : Expression.Storable
      (.assign "é\n\"" (.literal (.decimal ⟨9223372036854775808⟩) 0) 1) :=
    .assign (.literal (by decide : Decimal.isFinite _ = true) (bounded (by decide)))
      (bounded (by decide))
  have body : Expression.Storable (.literal (.int Int64.minValue) 18446744073709551615) :=
    .literal trivial (bounded (by decide))
  exact .cons (.loop (.present (.print start)) storable .absent (.expression body)) .nil

/-- A text 127 levels deep is read back, and one 128 levels deep is refused. -/
theorem readText_bareLoop :
    (textNesting (text (bareLoop (grouped quotedBracket 60))) = 127 ∧
      readText (text (bareLoop (grouped quotedBracket 60))) =
        .ok (bareLoop (grouped quotedBracket 60))) ∧
    (textNesting (text (bareLoop (grouped (.reference "x" 2) 61))) = 128 ∧
      readText (text (bareLoop (grouped (.reference "x" 2) 61))) = .error .malformed) := by
  have bounded : StorableLine 2 := (by decide : 2 < UInt64.size)
  have bracket : quotedBracket.Storable := .literal trivial bounded
  have name : Expression.Storable (.reference "x" 2) := .reference bounded
  have atLimit := bareLoop_storable (grouped_storable bracket 60)
  have beyond := bareLoop_storable (grouped_storable name 61)
  have atLimitDepth : textNesting (text (bareLoop (grouped quotedBracket 60))) = 127 := by
    rw [textNesting_text atLimit]
    decide +kernel
  have beyondDepth : textNesting (text (bareLoop (grouped (.reference "x" 2) 61))) = 128 := by
    rw [textNesting_text beyond]
    decide +kernel
  refine ⟨⟨atLimitDepth, ?_⟩, beyondDepth, ?_⟩
  · rw [readText_text_eq_ite atLimit, atLimitDepth]
    rfl
  · rw [readText_text_eq_ite beyond, beyondDepth]
    rfl

end Saved

end LineScript
