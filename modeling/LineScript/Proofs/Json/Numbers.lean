import LineScript.Json.Lexeme
import LineScript.Proofs.Decimal.Shortest
import LineScript.Proofs.Digits

/-!
Written numbers are read back.

A number is written as digits, perhaps a point and more digits, and perhaps a power of ten.  Reading
that text takes exactly these parts again, whatever stands behind it, as long as that cannot be taken
for more of the number.
-/

set_option autoImplicit false

namespace LineScript

namespace Json.Lexeme

/-! ## The parts of a number -/

/-- What may stand behind a number: nothing that would be taken for more of it. -/
def EndsNumber (rest : List Char) : Prop :=
  ∀ head ∈ rest.head?, head.isDigit = false ∧ head ≠ '.' ∧ head ≠ 'e' ∧ head ≠ 'E'

private theorem takeDigits?_append {digits rest : List Char} (written : IsDigits digits)
    (ends : ∀ head ∈ rest.head?, head.isDigit = false) :
    takeDigits? (digits ++ rest) = some (digits, rest) := by
  unfold takeDigits?
  rw [takeWhile_span written.2 ends, dropWhile_span written.2 ends]
  obtain ⟨first, others, rfl⟩ := List.exists_cons_of_ne_nil written.1
  rfl

namespace NumberText

def fractionText : Option (List Char) → List Char
  | none => []
  | some digits => '.' :: digits

/-- The text of the power of ten, its sign always written. -/
def exponentText : Option Int → List Char
  | none => []
  | some power => 'e' :: (if power < 0 then '-' else '+') :: Nat.toDigits 10 power.natAbs

def text (number : NumberText) : List Char :=
  number.whole ++ (fractionText number.fraction ++ exponentText number.exponent)

/-- A number whose text is allowed: digits where digits are due, and no zero in front of others. -/
structure Regular (number : NumberText) : Prop where
  whole : IsDigits number.whole
  leading : number.whole = ['0'] ∨ number.whole.head? ≠ some '0'
  fraction : ∀ digits ∈ number.fraction, IsDigits digits

end NumberText

private theorem takeWhole?_append {digits rest : List Char} (written : IsDigits digits)
    (leading : digits = ['0'] ∨ digits.head? ≠ some '0')
    (ends : ∀ head ∈ rest.head?, head.isDigit = false) :
    takeWhole? (digits ++ rest) = some (digits, rest) := by
  unfold takeWhole?
  rw [takeDigits?_append written ends]
  split
  · next found =>
    obtain ⟨rfl, _⟩ : digits = _ ∧ _ := by simpa using found
    rcases leading with zero | nonzero
    · simp at zero
    · simp at nonzero
  · rfl

private theorem takeFraction?_append {fraction : Option (List Char)} {rest : List Char}
    (written : ∀ digits ∈ fraction, IsDigits digits)
    (ends : ∀ head ∈ rest.head?, head.isDigit = false ∧ head ≠ '.') :
    takeFraction? (NumberText.fractionText fraction ++ rest) = some (fraction, rest) := by
  cases fraction with
  | none =>
      cases rest with
      | nil => rfl
      | cons head tail =>
          have stop : head ≠ '.' := (ends head rfl).2
          unfold NumberText.fractionText takeFraction?
          split
          · next point => exact absurd (List.cons.inj point).1 stop
          · rfl
  | some digits =>
      have taken := takeDigits?_append (written digits rfl) (fun head first => (ends head first).1)
      simp only [NumberText.fractionText, List.cons_append, takeFraction?, taken, Option.map_some]

private theorem takePower?_append (power : Int) {rest : List Char} (ends : EndsNumber rest) :
    takePower? (if power < 0 then -1 else 1) (Nat.toDigits 10 power.natAbs ++ rest) =
      some (some power, rest) := by
  unfold takePower?
  rw [takeDigits?_append ⟨Nat.toDigits_ne_nil, fun _ => isDigit_of_mem_toDigits⟩
    (fun head first => (ends head first).1)]
  simp only [Option.map_some, digitsValue_toDigits, Option.some.injEq, Prod.mk.injEq, and_true]
  split <;> omega

private theorem takeExponent?_append {exponent : Option Int} {rest : List Char}
    (ends : EndsNumber rest) :
    takeExponent? (NumberText.exponentText exponent ++ rest) = some (exponent, rest) := by
  cases exponent with
  | none =>
      cases rest with
      | nil => rfl
      | cons head tail =>
          obtain ⟨_, _, lower, upper⟩ := ends head rfl
          unfold NumberText.exponentText takeExponent?
          rw [List.nil_append]
          split <;> first
            | rfl
            | next letter => exact absurd (List.cons.inj letter).1 lower
            | next letter => exact absurd (List.cons.inj letter).1 upper
  | some power =>
      have taken := takePower?_append power ends
      unfold takeExponent?
      split at taken
      · next negative =>
        simp only [NumberText.exponentText, if_pos negative]
        exact taken
      · next nonnegative =>
        simp only [NumberText.exponentText, if_neg nonnegative]
        exact taken

private theorem endsDigits_exponentText (exponent : Option Int) {rest : List Char}
    (ends : EndsNumber rest) :
    ∀ head ∈ (NumberText.exponentText exponent ++ rest).head?, head.isDigit = false ∧ head ≠ '.' := by
  cases exponent with
  | none => exact fun head first => ⟨(ends head first).1, (ends head first).2.1⟩
  | some power =>
      intro head first
      obtain rfl : 'e' = head := by simpa [NumberText.exponentText] using first
      decide

private theorem endsDigits_fractionText (fraction : Option (List Char)) {rest : List Char}
    (ends : ∀ head ∈ rest.head?, head.isDigit = false) :
    ∀ head ∈ (NumberText.fractionText fraction ++ rest).head?, head.isDigit = false := by
  cases fraction with
  | none => exact ends
  | some digits =>
      intro head first
      obtain rfl : '.' = head := by simpa [NumberText.fractionText] using first
      decide

/-- The text of a number is taken as that number. -/
theorem takeNumber?_text {number : NumberText} {rest : List Char} (regular : number.Regular)
    (ends : EndsNumber rest) :
    takeNumber? number.negative (number.text ++ rest) = some (ofNumber number, rest) := by
  have behindFraction := endsDigits_exponentText number.exponent ends
  have behindWhole := endsDigits_fractionText number.fraction
    (fun head first => (behindFraction head first).1)
  unfold takeNumber? NumberText.text
  rw [List.append_assoc, List.append_assoc, takeWhole?_append regular.whole regular.leading behindWhole]
  dsimp only
  rw [takeFraction?_append regular.fraction behindFraction]
  dsimp only
  rw [takeExponent?_append ends]

/-! ## Decimals -/

namespace NumberText

/-- The number in base ten that a text stands for, its sign left out. -/
def numeral (number : NumberText) : Decimal.Numeral :=
  ⟨digitsValue (number.whole ++ number.fraction.getD []),
    number.exponent.getD 0 - ((number.fraction.getD []).length : Int)⟩

private theorem toDecimal_eq (number : NumberText) :
    number.toDecimal = Decimal.ofNumeral number.negative number.numeral :=
  rfl

/-- A text writes a number in base ten: it is allowed, has the value, and is not taken for a whole
number. -/
structure Carries (number : NumberText) (written : Decimal.Numeral) (text : List Char) : Prop where
  regular : number.Regular
  value : number.numeral.value = written.value
  text : number.text = text
  notWhole : number.toInteger? = none

end NumberText

open Decimal (Numeral)

private theorem isDigits_replicate {count : Nat} {digit : Char}
    (member : digit ∈ List.replicate count '0') : digit.isDigit = true := by
  rw [List.eq_of_mem_replicate member]
  decide

private theorem carries_positional_of_nonneg {numeral : Numeral} (negative : Bool)
    (proper : numeral = ⟨0, 0⟩ ∨ 0 < numeral.digits) (nonnegative : 0 ≤ numeral.exponent) :
    NumberText.Carries
      ⟨negative, Nat.toDigits 10 numeral.digits ++ List.replicate numeral.exponent.toNat '0',
        some ['0'], none⟩
      numeral numeral.positional.toList where
  regular := by
    constructor
    · refine ⟨by simp, fun digit member => ?_⟩
      rcases List.mem_append.mp member with shown | added
      · exact isDigit_of_mem_toDigits shown
      · exact isDigits_replicate added
    · rcases proper with rfl | positive
      · exact .inl rfl
      · right
        dsimp only
        rw [List.head?_append_of_ne_nil _ Nat.toDigits_ne_nil]
        exact head_toDigits_ne_zero positive
    · rintro digits ⟨⟩
      exact ⟨by simp, by simp⟩
  value := by
    obtain ⟨power, same⟩ := Int.eq_ofNat_of_zero_le nonnegative
    have digits : digitsValue (Nat.toDigits 10 numeral.digits ++ List.replicate power '0' ++ ['0']) =
        numeral.digits * 10 ^ (power + 1) := by
      rw [List.append_assoc, show ['0'] = List.replicate 1 '0' from rfl,
        List.replicate_append_replicate, digitsValue_append_replicate, digitsValue_toDigits]
    simp only [NumberText.numeral, Numeral.value, same, Int.toNat_natCast, Option.getD_some, digits,
      Option.getD_none, List.length_singleton]
    rw [show (0 : Int) - (1 : Nat) = -1 from rfl, zpow_neg_one, zpow_natCast, Nat.cast_mul,
      Nat.cast_pow, pow_succ]
    push_cast
    ring
  text := by
    simp [NumberText.text, NumberText.fractionText, NumberText.exponentText, Numeral.positional,
      nonnegative]
  notWhole := rfl

/-- The digits of a number, with zeros in front until there are `width` of them. -/
def paddedDigits (width number : Nat) : List Char :=
  List.replicate (width - (Nat.toDigits 10 number).length) '0' ++ Nat.toDigits 10 number

private theorem le_length_paddedDigits (width number : Nat) :
    width ≤ (paddedDigits width number).length := by
  unfold paddedDigits
  rw [List.length_append, List.length_replicate]
  omega

private theorem isDigit_of_mem_paddedDigits {width number : Nat} {digit : Char}
    (member : digit ∈ paddedDigits width number) : digit.isDigit = true := by
  rcases List.mem_append.mp member with added | shown
  · exact isDigits_replicate added
  · exact isDigit_of_mem_toDigits shown

private theorem digitsValue_paddedDigits (width number : Nat) :
    digitsValue (paddedDigits width number) = number := by
  unfold paddedDigits
  rw [digitsValue_replicate_append, digitsValue_toDigits]

private theorem leading_paddedDigits {number : Nat} (positive : 0 < number) (places : Nat) :
    let padded := paddedDigits (places + 1) number
    padded.take (padded.length - places) = ['0'] ∨
      (padded.take (padded.length - places)).head? ≠ some '0' := by
  dsimp only
  rcases Nat.lt_or_ge (Nat.toDigits 10 number).length (places + 1) with short | enough
  · -- padding leaves exactly one digit before the point, and it is a zero
    left
    obtain ⟨zeros, count⟩ := Nat.exists_eq_add_of_lt short
    have front : paddedDigits (places + 1) number =
        '0' :: (List.replicate zeros '0' ++ Nat.toDigits 10 number) := by
      unfold paddedDigits
      rw [show places + 1 - (Nat.toDigits 10 number).length = zeros + 1 by omega,
        List.replicate_succ, List.cons_append]
    have one : (paddedDigits (places + 1) number).length - places = 1 := by
      rw [front, List.length_cons, List.length_append, List.length_replicate]
      omega
    rw [one, front]
    rfl
  · right
    have unpadded : paddedDigits (places + 1) number = Nat.toDigits 10 number := by
      unfold paddedDigits
      rw [Nat.sub_eq_zero_of_le enough]
      rfl
    rw [List.head?_take, unpadded, if_neg (by omega)]
    exact head_toDigits_ne_zero positive

private theorem carries_positional_of_neg {numeral : Numeral} (negative : Bool)
    (positive : 0 < numeral.digits) (below : numeral.exponent < 0) :
    ∃ number : NumberText, number.negative = negative ∧
      number.Carries numeral numeral.positional.toList := by
  obtain ⟨places, same⟩ := Int.eq_ofNat_of_zero_le (a := -numeral.exponent) (by omega)
  have leading := leading_paddedDigits positive places
  have digits := digitsValue_paddedDigits (places + 1) numeral.digits
  have long := le_length_paddedDigits (places + 1) numeral.digits
  have allDigits {digit : Char} := @isDigit_of_mem_paddedDigits (places + 1) numeral.digits digit
  have shown : numeral.positional =
      let padded := paddedDigits (places + 1) numeral.digits
      let point := padded.length - places
      String.ofList (padded.take point ++ '.' :: padded.drop point) := by
    unfold Numeral.positional
    simp only [if_neg (Int.not_le.mpr below), same, Int.toNat_natCast]
    rfl
  -- what the padded digits are made of no longer matters
  generalize paddedDigits (places + 1) numeral.digits = padded at *
  refine ⟨⟨negative, padded.take (padded.length - places),
    some (padded.drop (padded.length - places)), none⟩, rfl, ⟨⟨⟨?_, ?_⟩, leading, ?_⟩, ?_, ?_, rfl⟩⟩
  · rw [← List.length_pos_iff, List.length_take]
    omega
  · exact fun digit member => allDigits (List.mem_of_mem_take member)
  · rintro digits ⟨⟩
    refine ⟨?_, fun digit member => allDigits (List.mem_of_mem_drop member)⟩
    rw [← List.length_pos_iff, List.length_drop]
    omega
  · have width : padded.length - (padded.length - places) = places := by omega
    simp only [NumberText.numeral, Numeral.value, Option.getD_some, List.take_append_drop, digits,
      List.length_drop, width, Option.getD_none]
    congr 2
    omega
  · rw [shown]
    simp [NumberText.text, NumberText.fractionText, NumberText.exponentText]

private theorem leading_singleton (digit : Char) : [digit] = ['0'] ∨ [digit].head? ≠ some '0' := by
  by_cases zero : digit = '0'
  · exact .inl (by rw [zero])
  · exact .inr (by simpa using zero)

private theorem toList_exponent (power : Int) :
    (if power < 0 then "e-" ++ Nat.repr power.natAbs else "e+" ++ Nat.repr power.natAbs).toList =
      NumberText.exponentText (some power) := by
  unfold NumberText.exponentText
  split
  · next negative => simp [negative]
  · next nonnegative => simp [Int.not_lt.mp nonnegative]

/-- One digit before the point: the power of ten moves with the point. -/
private theorem carries_scientific {numeral : Numeral} (negative : Bool) :
    ∃ number : NumberText, number.negative = negative ∧
      number.Carries numeral numeral.scientific.toList := by
  obtain ⟨first, others, shown⟩ := List.exists_cons_of_ne_nil
    (Nat.toDigits_ne_nil (n := numeral.digits) (b := 10))
  have allDigits : ∀ digit ∈ first :: others, digit.isDigit = true := by
    rw [← shown]
    exact fun _ => isDigit_of_mem_toDigits
  have digits : digitsValue (first :: others) = numeral.digits := by
    rw [← shown, digitsValue_toDigits]
  have power : numeral.leadingExponent = numeral.exponent + others.length := by
    unfold Numeral.leadingExponent Decimal.countDigits
    rw [shown, List.length_cons]
    omega
  have wholeDigits : IsDigits [first] :=
    ⟨by simp, fun digit member => allDigits digit (by simp [List.mem_singleton.mp member])⟩
  unfold Numeral.scientific
  dsimp only
  rw [shown]
  cases others with
  | nil =>
      refine ⟨⟨negative, [first], none, some numeral.leadingExponent⟩, rfl,
        ⟨⟨wholeDigits, leading_singleton first, by simp⟩, ?_, ?_, rfl⟩⟩
      · simp only [NumberText.numeral, Numeral.value, Option.getD_none, List.append_nil, digits, power,
          List.length_nil, Option.getD_some]
        simp
      · dsimp only
        rw [String.toList_append, toList_exponent]
        simp [NumberText.text, NumberText.fractionText]
  | cons second more =>
      refine ⟨⟨negative, [first], some (second :: more), some numeral.leadingExponent⟩, rfl,
        ⟨⟨wholeDigits, leading_singleton first, ?_⟩, ?_, ?_, rfl⟩⟩
      · rintro fraction ⟨⟩
        exact ⟨by simp, fun digit member => allDigits digit (List.mem_cons_of_mem _ member)⟩
      · simp only [NumberText.numeral, Numeral.value, Option.getD_some, List.singleton_append, digits,
          power]
        congr 2
        omega
      · dsimp only
        rw [String.toList_append, toList_exponent]
        simp [NumberText.text, NumberText.fractionText]

end Json.Lexeme

theorem Decimal.ofMagnitude_self (decimal : Decimal) :
    ofMagnitude decimal.isNegative decimal.magnitude = decimal := by
  obtain ⟨word⟩ := decimal
  have bound := word.toNat_lt
  unfold ofMagnitude isNegative magnitude signWeight
  congr 1
  apply UInt64.toNat_inj.mp
  simp only [Nat.reduceShiftLeft, decide_eq_true_eq, UInt64.toNat_ofNat']
  split <;> omega

namespace Json.Lexeme

open Decimal (Numeral)

theorem carries_shortest (decimal : Decimal) (finite : decimal.isFinite = true) :
    ∃ number : NumberText, number.negative = decimal.isNegative ∧ ∃ text : List Char,
      number.Carries (Decimal.shortestNumeral .even decimal.magnitude) text ∧
      decimal.toSavedText.toList = (Decimal.signText decimal.isNegative).toList ++ text := by
  have bound : decimal.magnitude < Decimal.infiniteMagnitude := of_decide_eq_true finite
  have proper := Decimal.shortestNumeral_zero_or .even bound
  unfold Decimal.toSavedText
  dsimp only
  simp only [String.toList_append]
  split
  · rcases lt_or_ge (Decimal.shortestNumeral .even decimal.magnitude).exponent 0 with below | above
    · have positive : 0 < (Decimal.shortestNumeral .even decimal.magnitude).digits := by
        rcases proper with zero | positive
        · rw [zero] at below
          cases below
        · exact positive
      obtain ⟨number, sign, carries⟩ := carries_positional_of_neg decimal.isNegative positive below
      exact ⟨number, sign, _, carries, rfl⟩
    · exact ⟨_, rfl, _, carries_positional_of_nonneg decimal.isNegative proper above, rfl⟩
  · obtain ⟨number, sign, carries⟩ := carries_scientific decimal.isNegative
    exact ⟨number, sign, _, carries, rfl⟩

/-- A text that carries the numeral of a finite decimal is read as that decimal. -/
theorem ofNumber_carries {decimal : Decimal} {number : NumberText} {text : List Char}
    (finite : decimal.isFinite = true) (sign : number.negative = decimal.isNegative)
    (carries : number.Carries (Decimal.shortestNumeral .even decimal.magnitude) text) :
    ofNumber number = .decimal decimal := by
  have same : number.toDecimal = decimal := by
    rw [NumberText.toDecimal_eq, Decimal.ofNumeral, Numeral.nearestMagnitude_congr carries.value,
      Decimal.shortestNumeral_readsBack .even (of_decide_eq_true finite), sign,
      Decimal.ofMagnitude_self]
  unfold ofNumber
  rw [carries.notWhole, same]
  dsimp only
  rw [if_pos finite]

/-! ## Whole numbers -/

def wholeText (number : Int) : NumberText :=
  ⟨decide (number < 0), Nat.toDigits 10 number.natAbs, none, none⟩

theorem regular_wholeText (number : Int) : (wholeText number).Regular where
  whole := isDigits_toDigits _
  leading := by
    unfold wholeText
    rcases Nat.eq_zero_or_pos number.natAbs with zero | positive
    · left
      rw [zero]
      rfl
    · exact .inr (head_toDigits_ne_zero positive)
  fraction := by simp [wholeText]

theorem repr_eq_wholeText (number : Int) :
    (Int.repr number).toList =
      (Decimal.signText (wholeText number).negative).toList ++ (wholeText number).text := by
  cases number with
  | ofNat value =>
      simp [Int.repr, Decimal.signText, wholeText, NumberText.text, NumberText.fractionText,
        NumberText.exponentText]
  | negSucc value =>
      simp [Int.repr, Decimal.signText, wholeText, NumberText.text, NumberText.fractionText,
        NumberText.exponentText, Int.negSucc_lt_zero]

/-- The whole numbers that a text can carry: those of 64 bits, with or without sign. -/
def WithinWords (number : Int) : Prop :=
  -2 ^ 63 ≤ number ∧ number < 2 ^ 64

theorem ofNumber_wholeText {number : Int} (within : WithinWords number) :
    ofNumber (wholeText number) = .integer number := by
  obtain ⟨low, high⟩ := within
  have whole : (wholeText number).toInteger? = some number := by
    unfold wholeText NumberText.toInteger?
    dsimp only
    rw [digitsValue_toDigits]
    rcases lt_or_ge number 0 with negative | nonnegative
    · rw [if_pos (decide_eq_true negative), if_pos (by omega)]
      congr 1
      omega
    · rw [if_neg (by simpa using nonnegative), if_pos (by omega)]
      congr 1
      omega
  unfold ofNumber
  rw [whole]

end Json.Lexeme

end LineScript
