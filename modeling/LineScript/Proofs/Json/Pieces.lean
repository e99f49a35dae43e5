import LineScript.Proofs.Json.Numbers

/-!
Written values fall into the pieces they were made of.
-/

set_option autoImplicit false

namespace LineScript

namespace Json

namespace Lexeme

/-! ## Strings -/

private theorem hexValue?_hexDigit {value : Nat} (small : value < 16) :
    hexValue? (hexDigit value) = some value := by
  interval_cases value <;> decide

private theorem codeValue?_control {code : Nat} (small : code < 256) :
    codeValue? '0' '0' (hexDigit (code / 16)) (hexDigit (code % 16)) = some code := by
  unfold codeValue?
  rw [hexValue?_hexDigit (by omega), hexValue?_hexDigit (by omega),
    show hexValue? '0' = some 0 from rfl]
  simp only [Option.some.injEq]
  omega

/-- A code that is no half of a pair stands for a character of its own. -/
private theorem characters?_code {code : Nat} {items : List Item} (small : code < 0xD800) :
    characters? (.code code :: items) = (characters? items).map (Char.ofNat code :: ·) := by
  have leading : isLeadingSurrogate code = false := by simp [isLeadingSurrogate]; omega
  have trailing : isTrailingSurrogate code = false := by simp [isTrailingSurrogate]; omega
  cases items with
  | nil => simp [characters?, leading, trailing]
  | cons item others =>
      cases item <;> simp [characters?, leading, trailing]

/-- An item that stands for a character, whatever items follow. -/
def StandsFor (item : Item) (character : Char) : Prop :=
  ∀ items, characters? (item :: items) = (characters? items).map (character :: ·)

private theorem standsFor_character (character : Char) : StandsFor
    (.character character) character :=
  fun _ => rfl

private theorem takeItems_letter {letter character : Char} {tail behind : List Char}
    {items : List Item}
    (escaped : escapeValue? letter = some character) (taken : takeItems tail = some (items, behind)) :
    takeItems ('\\' :: letter :: tail) = some (.character character :: items, behind) := by
  have other : letter ≠ 'u' := by
    rintro rfl
    cases escaped
  rw [takeItems.eq_4 _ _ (fun _ _ _ _ _ same => absurd same other), escaped, taken]

private theorem takeItems_plain {character : Char} {tail behind : List Char} {items : List Item}
    (quote : character ≠ '"') (backslash : character ≠ '\\') (printed : ¬ character.toNat < 32)
    (taken : takeItems tail = some (items, behind)) :
    takeItems (character :: tail) = some (.character character :: items, behind) := by
  unfold takeItems
  split <;> simp_all

private theorem takeItems_escape (character : Char) :
    ∃ item, StandsFor item character ∧ ∀ {tail behind : List Char} {items : List Item},
      takeItems tail = some (items, behind) →
        takeItems (escape character ++ tail) = some (item :: items, behind) := by
  unfold escape
  split
  case h_8 =>
    split
    · next control =>
      refine ⟨.code character.toNat, fun items => ?_, fun taken => ?_⟩
      · rw [characters?_code (by omega), Char.ofNat_toNat]
      · simp only [List.cons_append, List.nil_append, takeItems]
        rw [codeValue?_control (by omega), taken]
    · next printed =>
      exact ⟨_, standsFor_character _, takeItems_plain (by assumption) (by assumption) printed⟩
  all_goals exact ⟨_, standsFor_character _, takeItems_letter rfl⟩

private theorem takeItems_escaped (text rest : List Char) :
    ∃ items, takeItems (text.flatMap escape ++ '"' :: rest) = some (items, rest) ∧
      characters? items = some text := by
  induction text with
  | nil => exact ⟨[], by simp [takeItems], rfl⟩
  | cons character others ih =>
      obtain ⟨items, taken, meant⟩ := ih
      obtain ⟨item, stands, takes⟩ := takeItems_escape character
      refine ⟨item :: items, ?_, ?_⟩
      · rw [List.flatMap_cons, List.append_assoc]
        exact takes taken
      · rw [stands, meant]
        rfl

/-! ## Pieces one after another -/

private theorem split?_of_blank {head : Char} {tail : List Char} (blank : isBlank head = true) :
    split? (head :: tail) = split? tail := by
  rw [split?, if_pos blank]

private theorem split?_of_first {head : Char} {tail behind : List Char} {lexeme : Lexeme}
    (solid : isBlank head = false) (taken : first? head tail = some (lexeme, behind)) :
    split? (head :: tail) = (split? behind).map (lexeme :: ·) := by
  rw [split?, if_neg (by rw [solid]; exact Bool.false_ne_true)]
  split
  · next missing => simp [taken] at missing
  · next found =>
    obtain ⟨rfl, rfl⟩ : lexeme = _ ∧ behind = _ := by simpa [taken] using found
    rfl

/-- In front of this rest, the text gives these pieces and no others. -/
def Splits (text : List Char) (lexemes : List Lexeme) (rest : List Char) : Prop :=
  split? (text ++ rest) = (split? rest).map (lexemes ++ ·)

theorem Splits.nil (rest : List Char) : Splits [] [] rest := by
  simp [Splits]

theorem Splits.append {first second rest : List Char} {lexemes others : List Lexeme}
    (front : Splits first lexemes (second ++ rest)) (back : Splits second others rest) :
    Splits (first ++ second) (lexemes ++ others) rest := by
  unfold Splits at *
  rw [List.append_assoc, front, back, Option.map_map]
  congr 1
  funext tail
  exact (List.append_assoc _ _ _).symm

theorem Splits.mark {head : Char} {lexeme : Lexeme} {text rest : List Char} {others : List Lexeme}
    (solid : isBlank head = false) (taken : ∀ tail, first? head tail = some (lexeme, tail))
    (back : Splits text others rest) : Splits (head :: text) (lexeme :: others) rest := by
  have front : Splits [head] [lexeme] (text ++ rest) := split?_of_first solid (taken _)
  exact front.append back

theorem Splits.blank {head : Char} {text rest : List Char} {others : List Lexeme}
    (blank : isBlank head = true) (back : Splits text others rest) :
    Splits (head :: text) others rest := by
  unfold Splits
  rw [List.cons_append, split?_of_blank blank]
  exact back

theorem Splits.newLine {indent : Nat} {text rest : List Char} {others : List Lexeme}
    (back : Splits text others rest) : Splits (newLine indent ++ text) others rest := by
  apply Splits.blank rfl
  induction 2 * indent with
  | zero => exact back
  | succ count ih => exact Splits.blank rfl ih

private theorem splits_quote (text : String) (rest : List Char) : Splits (quote text)
    [.string text] rest := by
  obtain ⟨items, taken, meant⟩ := takeItems_escaped text.toList rest
  have found : first? '"' (text.toList.flatMap escape ++ '"' :: rest) =
      some (.string text, rest) := by
    simp [first?, taken, ofItems, meant]
  unfold Splits quote
  rw [List.cons_append, List.append_assoc, List.singleton_append]
  exact split?_of_first rfl found

/-! ## Numbers among other pieces -/

private theorem isBlank_of_isDigit {head : Char}
    (digit : head.isDigit = true) : isBlank head = false := by
  have notBlank : ∀ blank : Char, blank.isDigit = false → head ≠ blank := by
    rintro blank other rfl
    rw [digit] at other
    cases other
  simp [isBlank, notBlank ' ' rfl, notBlank '\t' rfl, notBlank '\n' rfl, notBlank '\r' rfl]

private theorem splits_number {number : NumberText} {rest : List Char} (regular : number.Regular)
    (ends : EndsNumber rest) :
    Splits ((Decimal.signText number.negative).toList ++ number.text) [ofNumber number] rest := by
  have taken := takeNumber?_text regular ends
  unfold Splits
  cases sign : number.negative with
  | true =>
      rw [sign] at taken
      exact split?_of_first rfl taken
  | false =>
      rw [sign] at taken
      obtain ⟨digit, others, whole⟩ := List.exists_cons_of_ne_nil regular.whole.1
      have isDigit : digit.isDigit = true :=
        regular.whole.2 digit (by rw [whole]; exact List.mem_cons_self)
      have front : number.text = digit ::
          (others ++ (NumberText.fractionText number.fraction ++
            NumberText.exponentText number.exponent)) := by
        unfold NumberText.text
        rw [whole, List.cons_append]
      rw [front] at taken ⊢
      refine split?_of_first (isBlank_of_isDigit isDigit) ?_
      unfold first?
      rw [if_pos isDigit]
      exact taken

private theorem splits_integer {number : Int} {rest : List Char} (within : WithinWords number)
    (ends : EndsNumber rest) : Splits (Int.repr number).toList [.integer number] rest := by
  have pieces := splits_number (regular_wholeText number) ends
  rw [ofNumber_wholeText within] at pieces
  rw [repr_eq_wholeText]
  exact pieces

private theorem splits_decimal {number : Decimal} {rest : List Char}
    (finite : number.isFinite = true)
    (ends : EndsNumber rest) : Splits number.toSavedText.toList [.decimal number] rest := by
  obtain ⟨written, sign, text, carries, saved⟩ := carries_shortest number finite
  rw [saved, ← ofNumber_carries finite sign carries, ← carries.text, ← sign]
  exact splits_number carries.regular ends

end Lexeme

/-! ## Values -/

mutual

def lexemes : Json → List Lexeme
  | .null => [.null]
  | .boolean truth => [.boolean truth]
  | .integer number => [.integer number]
  | .decimal number => [.decimal number]
  | .string text => [.string text]
  | .array [] => [.openArray, .closeArray]
  | .array (first :: others) =>
    .openArray :: (lexemes first ++ (elementLexemes others ++ [.closeArray]))
  | .object [] => [.openObject, .closeObject]
  | .object ((name, first) :: others) =>
    .openObject :: .string name :: .colon ::
      (lexemes first ++ (fieldLexemes others ++ [.closeObject]))

def elementLexemes : List Json → List Lexeme
  | [] => []
  | element :: others => .comma :: (lexemes element ++ elementLexemes others)

def fieldLexemes : List (String × Json) → List Lexeme
  | [] => []
  | (name, value) :: others =>
    .comma :: .string name :: .colon :: (lexemes value ++ fieldLexemes others)

end

mutual

/-- Values with a written form that means them: whole numbers of 64 bits and finite decimals. -/
inductive Writable : Json → Prop where
  | null : Writable .null
  | boolean {truth : Bool} : Writable (.boolean truth)
  | integer {number : Int} : Lexeme.WithinWords number → Writable (.integer number)
  | decimal {number : Decimal} : number.isFinite = true → Writable (.decimal number)
  | string {text : String} : Writable (.string text)
  | array {elements : List Json} : WritableElements elements → Writable (.array elements)
  | object {fields : List (String × Json)} : WritableFields fields → Writable (.object fields)

inductive WritableElements : List Json → Prop where
  | nil : WritableElements []
  | cons {element : Json} {others : List Json} :
      Writable element → WritableElements others → WritableElements (element :: others)

inductive WritableFields : List (String × Json) → Prop where
  | nil : WritableFields []
  | cons {name : String} {value : Json} {others : List (String × Json)} :
      Writable value → WritableFields others → WritableFields ((name, value) :: others)

end

namespace Lexeme

private theorem endsNumber_newLine (indent : Nat) (rest : List Char) : EndsNumber
    (newLine indent ++ rest) := by
  intro head first
  obtain rfl : '\n' = head := by simpa [newLine] using first
  decide

private theorem endsNumber_comma (rest : List Char) : EndsNumber (',' :: rest) := by
  intro head first
  obtain rfl : ',' = head := by simpa using first
  decide

private theorem endsNumber_elements {indent : Nat} {others : List Json} {rest : List Char}
    (ends : EndsNumber rest) : EndsNumber (writeElements indent others ++ rest) := by
  cases others with
  | nil => simpa [writeElements] using ends
  | cons element more =>
      simp only [writeElements, List.cons_append]
      exact endsNumber_comma _

private theorem endsNumber_fields {indent : Nat} {others : List (String × Json)} {rest : List Char}
    (ends : EndsNumber rest) : EndsNumber (writeFields indent others ++ rest) := by
  cases others with
  | nil => simpa [writeFields] using ends
  | cons field more =>
      obtain ⟨name, value⟩ := field
      simp only [writeFields, List.cons_append]
      exact endsNumber_comma _

mutual

/-- The written form of a value gives its pieces. -/
theorem splits_write {json : Json} (writable : Writable json) (indent : Nat) {rest : List Char}
    (ends : EndsNumber rest) : Splits (write indent json) (lexemes json) rest := by
  cases writable with
  | null => exact split?_of_first rfl rfl
  | @boolean truth => cases truth <;> exact split?_of_first rfl rfl
  | integer within =>
      simp only [write, lexemes]
      exact splits_integer within ends
  | decimal finite =>
      simp only [write, lexemes]
      exact splits_decimal finite ends
  | string =>
      simp only [write, lexemes]
      exact splits_quote _ rest
  | array elements =>
      cases elements with
      | nil =>
          simp only [write, lexemes]
          exact .mark rfl (fun _ => rfl) (.mark rfl (fun _ => rfl) (.nil rest))
      | cons first others =>
          simp only [write, lexemes, List.append_assoc]
          refine .mark rfl (fun _ => rfl) (.newLine (.append ?_ (.append ?_
            (.newLine (.mark rfl (fun _ => rfl) (.nil rest))))))
          · rw [List.append_assoc, List.append_assoc]
            exact splits_write first _ (endsNumber_elements (endsNumber_newLine _ _))
          · rw [List.append_assoc]
            exact splits_writeElements others _ (endsNumber_newLine _ _)
  | object fields =>
      cases fields with
      | nil =>
          simp only [write, lexemes]
          exact .mark rfl (fun _ => rfl) (.mark rfl (fun _ => rfl) (.nil rest))
      | cons first others =>
          simp only [write, lexemes, List.append_assoc]
          refine .mark rfl (fun _ => rfl) (.newLine (.append (splits_quote _ _)
            (.mark rfl (fun _ => rfl) (.blank rfl (.append ?_ (.append ?_
              (.newLine (.mark rfl (fun _ => rfl) (.nil rest)))))))))
          · rw [List.append_assoc, List.append_assoc]
            exact splits_write first _ (endsNumber_fields (endsNumber_newLine _ _))
          · rw [List.append_assoc]
            exact splits_writeFields others _ (endsNumber_newLine _ _)

private theorem splits_writeElements {others : List Json} (writable : WritableElements others)
    (indent : Nat) {rest : List Char} (ends : EndsNumber rest) :
    Splits (writeElements indent others) (elementLexemes others) rest := by
  cases writable with
  | nil =>
      simp only [writeElements, elementLexemes]
      exact .nil rest
  | cons element more =>
      simp only [writeElements, elementLexemes, List.append_assoc]
      refine .mark rfl (fun _ => rfl) (.newLine (.append ?_ ?_))
      · exact splits_write element _ (endsNumber_elements ends)
      · exact splits_writeElements more _ ends

private theorem splits_writeFields {others : List (String × Json)}
    (writable : WritableFields others)
    (indent : Nat) {rest : List Char} (ends : EndsNumber rest) :
    Splits (writeFields indent others) (fieldLexemes others) rest := by
  cases writable with
  | nil =>
      simp only [writeFields, fieldLexemes]
      exact .nil rest
  | cons value more =>
      simp only [writeFields, fieldLexemes, List.append_assoc]
      refine .mark rfl (fun _ => rfl) (.newLine (.append (splits_quote _ _)
        (.mark rfl (fun _ => rfl) (.blank rfl (.append ?_ ?_)))))
      · exact splits_write value _ (endsNumber_fields ends)
      · exact splits_writeFields more _ ends

end

end Lexeme

end Json

end LineScript
