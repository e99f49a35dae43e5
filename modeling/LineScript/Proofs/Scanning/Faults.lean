import LineScript.Proofs.Scanning.Lines

/-!
Which errors a text has.

Every lexical error is one of four, and what stands in the text decides which: an integer or a
decimal too large, a string literal that runs across a line break or never ends, a character at which
nothing starts.  The rules below say so for the text from left to right.  Scanning follows them, but
takes a point that belongs to no number for a decimal that is too large.
-/

set_option autoImplicit false

namespace LineScript

namespace Lexeme

/-! ## Characters at which nothing starts -/

/-- A character that starts neither a token nor anything that is passed over, a number or a string
literal, given what stands behind it. -/
structure StartsNoToken (symbol : Char) (rest : List Char) : Prop where
  lineBreak : symbol ≠ '\n'
  blank : isBlank symbol = false
  digit : symbol.isDigit = false
  quote : symbol ≠ '"'
  comment : ¬ (symbol = '/' ∧ rest.head? = some '/')
  token : ∀ kind payload written behind, symbol :: rest = written ++ behind →
    ¬ Takes written behind (.token kind payload)

private theorem not_takes_token {symbol : Char} {rest : List Char}
    (other : ∀ kind payload, (first symbol rest).1 ≠ .token kind payload) :
    ∀ kind payload written behind, symbol :: rest = written ++ behind →
      ¬ Takes written behind (.token kind payload) := by
  intro kind payload written behind same taken
  obtain ⟨head, tail, rfl, found⟩ := taken.first_eq
  cases same
  exact other kind payload (congrArg Prod.fst found)

private theorem startsNoToken_point (rest : List Char) : StartsNoToken '.' rest :=
  ⟨by decide, rfl, rfl, by decide, by simp, not_takes_token nofun⟩

private theorem startsNoToken_exclamation {rest : List Char}
    (ends : ∀ character ∈ rest.head?, character ≠ '=') : StartsNoToken '!' rest := by
  refine ⟨by decide, rfl, rfl, by decide, by simp, not_takes_token fun kind payload => ?_⟩
  change (withEqual .notEqual (.unknownSymbol '!') rest).1 ≠ _
  rw [withEqual_of_ne ends]
  nofun

theorem StartsNothing.startsNoToken {symbol : Char} (nothing : StartsNothing symbol)
    (rest : List Char) : StartsNoToken symbol rest := by
  have found := first_of_startsNothing nothing rest
  obtain ⟨blank, _, digit, other⟩ := nothing
  simp only [List.mem_cons, not_or] at other
  refine ⟨other.1, blank, digit, other.2.1, fun comment => ?_, not_takes_token ?_⟩
  · simp_all
  · rw [found]
    nofun

private theorem not_endsDigits {digits : List Char} (isDigits : IsDigits digits)
    (behind : List Char) :
    ¬ EndsDigits (digits ++ behind) := by
  intro ends
  obtain ⟨head, tail, rfl⟩ := List.exists_cons_of_ne_nil isDigits.1
  have digit : head.isDigit = true := isDigits.2 head List.mem_cons_self
  rw [ends head rfl] at digit
  cases digit

theorem StartsNoToken.ne_digits {symbol : Char} {rest digits behind : List Char}
    (nothing : StartsNoToken symbol rest) (isDigits : IsDigits digits) :
    symbol :: rest ≠ digits ++ behind := by
  intro same
  refine not_endsDigits isDigits behind ?_
  rw [← same]
  rintro character ⟨⟩
  exact nothing.digit

/-- Only a point is not taken for an unknown symbol. -/
theorem StartsNoToken.takes {symbol : Char} {rest : List Char}
    (nothing : StartsNoToken symbol rest) :
    symbol = '.' ∨ Takes [symbol] rest (.unknownSymbol symbol) := by
  obtain ⟨written, same, taken⟩ := starts_first symbol rest
  generalize first symbol rest = found at same taken
  obtain ⟨lexeme, behind⟩ := found
  dsimp only at same taken
  cases taken with
  | lineBreak => exact absurd (List.cons.inj same).1 nothing.lineBreak
  | blanks nonempty inside _ =>
      obtain ⟨head, tail, rfl⟩ := List.exists_cons_of_ne_nil nonempty
      have blank : isBlank head = true := inside head List.mem_cons_self
      rw [← (List.cons.inj same).1, nothing.blank] at blank
      cases blank
  | comment _ _ =>
      obtain ⟨rfl, rfl⟩ := List.cons.inj same
      exact absurd ⟨rfl, rfl⟩ nothing.comment
  | @word head tail _ starts inside ends =>
      obtain ⟨kind, payload, token⟩ := exists_ofWord_eq (head :: tail)
      exact absurd (token ▸ .word starts inside ends) (nothing.token kind payload _ _ same)
  | digits digits _ _ => exact absurd same (nothing.ne_digits digits)
  | decimal whole _ _ =>
      rw [List.append_assoc] at same
      exact absurd same (nothing.ne_digits whole)
  | mark mark spelled ends => exact absurd (.mark mark spelled ends) (nothing.token _ _ _ _ same)
  | closed _ => exact absurd (List.cons.inj same).1 nothing.quote
  | unclosed _ _ => exact absurd (List.cons.inj same).1 nothing.quote
  | point => exact .inl (List.cons.inj same).1
  | exclamation ends =>
      obtain ⟨rfl, rfl⟩ := List.cons.inj same
      exact .inr (.exclamation ends)
  | unknown unknown =>
      obtain ⟨rfl, rfl⟩ := List.cons.inj same
      exact .inr (.unknown unknown)

/-! ## Numbers stand apart -/

/-- No digit stands in front of a place. -/
def FollowsNoDigit (before : List Char) : Prop :=
  ∀ character ∈ before.getLast?, character.isDigit = false

/-- Behind a piece that ends in a digit stands none. -/
theorem Takes.endsDigits {written rest : List Char} {lexeme : Lexeme}
    (taken : Takes written rest lexeme) : FollowsNoDigit written ∨ EndsDigits rest := by
  cases taken with
  | lineBreak | point | exclamation _ => exact .inl (by simp [FollowsNoDigit])
  | blanks _ inside _ =>
      refine .inl fun character last => ?_
      rcases eq_of_isBlank (inside character (List.mem_of_getLast? last)) with rfl | rfl | rfl <;> rfl
  | comment _ ends =>
      refine .inr fun character first => ?_
      rw [ends character first]
      rfl
  | word _ _ ends =>
      refine .inr fun character first => ?_
      have other := ends character first
      simp only [continuesName, Char.isAlphanum, Bool.or_eq_false_iff] at other
      exact other.1.2
  | digits _ ends _ => exact .inr ends
  | decimal _ _ ends => exact .inr ends
  | @mark kind _ _ mark spelled _ =>
      refine .inl fun character last => ?_
      cases kind <;> first
        | exact absurd mark (by decide)
        | (cases spelled; cases last; rfl)
  | closed _ =>
      refine .inl fun character last => ?_
      rw [← List.cons_append, List.getLast?_concat] at last
      cases last
      rfl
  | unclosed _ _ => exact .inr (by simp [EndsDigits])
  | unknown nothing => exact .inl (by simpa [FollowsNoDigit] using nothing.2.2.1)

/-- A piece that is no error: white space, a comment, a line break or a token. -/
def isSound : Lexeme → Bool
  | .blank | .lineBreak | .token _ _ => true
  | _ => false

private theorem errors_of_isSound {lexeme : Lexeme} (sound : lexeme.isSound = true) (line : Nat) :
    lexeme.errors line = [] := by
  cases lexeme with
  | blank | lineBreak | token _ _ => rfl
  | quoted _ | unknownSymbol _ | hugeInteger _ | hugeDecimal _ => cases sound

theorem Takes.split_append {written rest : List Char} {lexeme : Lexeme}
    (taken : Takes written rest lexeme) : split (written ++ rest) = lexeme :: split rest := by
  obtain ⟨head, tail, rfl, found⟩ := taken.first_eq
  rw [List.cons_append, split, found]

end Lexeme

/-- An error as it would be if a point that belongs to no number were a symbol like any other. -/
def LexicalError.pointAsSymbol : LexicalError → LexicalError
  | .decimalTooLarge literal line =>
    if literal = "." then .unrecognizedSymbol '.' line else .decimalTooLarge literal line
  | error => error

namespace Scan

open Lexeme (Takes EndsDigits FollowsNoDigit StartsNoToken)

/-! ## The errors of a text -/

/-- The line that the text behind `before` starts on. -/
def lineBehind (before : List Char) : Nat :=
  1 + before.count '\n'

/-- One error for each line break in the body of a string literal, on the line that it leads to. -/
def breakErrors (before body : List Char) : List LexicalError :=
  (List.range' (lineBehind before + 1) (body.count '\n')).map .unterminatedString

/-- The value of a decimal literal. -/
def decimalOf (whole fraction : List Char) : Decimal :=
  Decimal.ofNumeral false ⟨digitsValue (whole ++ fraction), -(fraction.length : Int)⟩

/-- What is wrong with the characters `written`, which stand between `before` and `rest`. -/
inductive ErrorsAt (before : List Char) : List Char → List Char → List LexicalError → Prop where
  | sound {written rest : List Char} {lexeme : Lexeme} :
      Takes written rest lexeme → lexeme.isSound = true → ErrorsAt before written rest []
  /-- Digits that stand together are one number, unless a point and more digits follow. -/
  | integer {digits rest : List Char} :
      FollowsNoDigit before → IsDigits digits → EndsDigits rest →
      (∀ digit more, rest = '.' :: digit :: more → digit.isDigit = false) →
      Int64.maxValue.toInt < digitsValue digits →
      ErrorsAt before digits rest [.integerTooLarge (String.ofList digits) (lineBehind before)]
  | decimal {whole fraction rest : List Char} :
      FollowsNoDigit before → IsDigits whole → IsDigits fraction → EndsDigits rest →
      (decimalOf whole fraction).isFinite = false →
      ErrorsAt before (whole ++ '.' :: fraction) rest
        [.decimalTooLarge (String.ofList (whole ++ '.' :: fraction)) (lineBehind before)]
  | string {body content rest : List Char} : Lexeme.Quoted.Spells body content →
      ErrorsAt before ('"' :: (body ++ ['"'])) rest (breakErrors before body)
  /-- A string literal that is open at the end, where a last backslash escapes nothing. -/
  | openString {body content ending : List Char} : Lexeme.Quoted.Spells body content →
      ending = [] ∨ ending = ['\\'] →
      ErrorsAt before ('"' :: (body ++ ending)) []
        (breakErrors before body ++ [.unterminatedString (lineBehind (before ++ body))])
  | symbol {symbol : Char} {rest : List Char} : StartsNoToken symbol rest →
      ErrorsAt before [symbol] rest [.unrecognizedSymbol symbol (lineBehind before)]

/-- All that is wrong with a text that stands behind `before`, from left to right. -/
inductive ErrorsIn : List Char → List Char → List LexicalError → Prop where
  | nil {before : List Char} : ErrorsIn before [] []
  | cons {before written rest : List Char} {here later : List LexicalError} :
      ErrorsAt before written rest here → ErrorsIn (before ++ written) rest later →
      ErrorsIn before (written ++ rest) (here ++ later)

/-! ### One piece -/

private theorem lineBehind_append (before written : List Char) :
    lineBehind (before ++ written) = lineBehind before + written.count '\n' := by
  rw [lineBehind, List.count_append, lineBehind, Nat.add_assoc]

private theorem quotedErrors_eq (before body content : List Char) (closed : Bool) :
    quotedErrors (lineBehind before) ⟨content, body.count '\n', closed⟩ =
      breakErrors before body ++
        if closed then [] else [.unterminatedString (lineBehind (before ++ body))] := by
  have onward (index : Nat) : lineBehind before + 1 + index = lineBehind before + index + 1 :=
    Nat.add_right_comm _ 1 index
  rw [quotedErrors, breakErrors, List.range'_eq_map_range, List.map_map, lineBehind_append]
  simp only [Function.comp_def, onward]

private theorem map_pointAsSymbol_breakErrors (before body : List Char) :
    (breakErrors before body).map LexicalError.pointAsSymbol = breakErrors before body := by
  rw [breakErrors, List.map_map]
  rfl

private theorem ofList_ne_point {whole : List Char} (isWhole : IsDigits whole)
    (fraction : List Char) :
    String.ofList (whole ++ '.' :: fraction) ≠ "." := by
  intro same
  have characters : whole ++ '.' :: fraction = ['.'] :=
    String.toList_ofList.symm.trans (congrArg String.toList same)
  obtain ⟨head, tail, rfl⟩ := List.exists_cons_of_ne_nil isWhole.1
  simp at characters

private theorem isSound_or_large (digits : List Char) :
    (Lexeme.ofDigits digits).isSound = true ∨ Int64.maxValue.toInt < digitsValue digits := by
  rw [Int64.toInt_maxValue]
  unfold Lexeme.ofDigits
  split
  · exact .inl rfl
  · next large =>
    rw [Nat.one_shiftLeft] at large
    exact .inr (by omega)

private theorem ofDigits_of_large {digits : List Char}
    (large : Int64.maxValue.toInt < digitsValue digits) :
    Lexeme.ofDigits digits = .hugeInteger digits := by
  rw [Int64.toInt_maxValue] at large
  refine if_neg ?_
  rw [Nat.one_shiftLeft]
  omega

private theorem isSound_or_infinite (whole fraction : List Char) :
    (Lexeme.ofDecimalDigits whole fraction).isSound = true ∨
      (decimalOf whole fraction).isFinite = false := by
  unfold Lexeme.ofDecimalDigits
  dsimp only
  split
  · exact .inl rfl
  · next infinite => exact .inr (Bool.eq_false_iff.mpr infinite)

private theorem ofDecimalDigits_of_infinite {whole fraction : List Char}
    (infinite : (decimalOf whole fraction).isFinite = false) :
    Lexeme.ofDecimalDigits whole fraction = .hugeDecimal (whole ++ '.' :: fraction) :=
  if_neg (Bool.eq_false_iff.mp infinite)

/-- The errors of a piece behind `before`, with points as symbols. -/
def pieceErrors (before : List Char) (lexeme : Lexeme) : List LexicalError :=
  (lexeme.errors (lineBehind before)).map LexicalError.pointAsSymbol

private theorem pieceErrors_hugeDecimal {whole : List Char} (before fraction : List Char)
    (isWhole : IsDigits whole) :
    pieceErrors before (.hugeDecimal (whole ++ '.' :: fraction)) =
      [.decimalTooLarge (String.ofList (whole ++ '.' :: fraction)) (lineBehind before)] := by
  exact congrArg (fun error => [error]) (if_neg (ofList_ne_point isWhole fraction))

private theorem pieceErrors_quoted (before body content : List Char) (closed : Bool) :
    pieceErrors before (.quoted ⟨content, body.count '\n', closed⟩) =
      breakErrors before body ++
        if closed then [] else [.unterminatedString (lineBehind (before ++ body))] := by
  rw [pieceErrors, Lexeme.errors, quotedErrors_eq, List.map_append, map_pointAsSymbol_breakErrors]
  cases closed <;> rfl

/-- What is wrong with a piece is what is reported of it. -/
theorem ErrorsAt.takes {before written rest : List Char} {errors : List LexicalError}
    (wrong : ErrorsAt before written rest errors) :
    ∃ lexeme, Takes written rest lexeme ∧ pieceErrors before lexeme = errors := by
  cases wrong with
  | sound taken sound =>
      refine ⟨_, taken, ?_⟩
      rw [pieceErrors, Lexeme.errors_of_isSound sound]
      rfl
  | integer _ digits ends noFraction large =>
      refine ⟨_, .digits digits ends noFraction, ?_⟩
      rw [ofDigits_of_large large]
      rfl
  | decimal _ whole fraction ends infinite =>
      refine ⟨_, .decimal whole fraction ends, ?_⟩
      rw [ofDecimalDigits_of_infinite infinite, pieceErrors_hugeDecimal before _ whole]
  | string spells =>
      refine ⟨_, .closed spells, ?_⟩
      rw [pieceErrors_quoted]
      exact List.append_nil _
  | openString spells ending => exact ⟨_, .unclosed spells ending, pieceErrors_quoted _ _ _ false⟩
  | symbol nothing =>
      rcases nothing.takes with rfl | taken
      · exact ⟨_, .point, rfl⟩
      · exact ⟨_, taken, rfl⟩

/-- Every piece is sound or wrong in one of these ways.  That a number has no digit in front of it
comes from the piece before. -/
theorem errorsAt_of_takes {before written rest : List Char} {lexeme : Lexeme}
    (taken : Takes written rest lexeme)
    (apart : FollowsNoDigit before ∨ EndsDigits (written ++ rest)) :
    ErrorsAt before written rest (pieceErrors before lexeme) := by
  have follows {digits : List Char} (isDigits : IsDigits digits) (more : List Char)
      (same : written = digits ++ more) : FollowsNoDigit before := by
    rw [same, List.append_assoc] at apart
    exact apart.resolve_right (Lexeme.not_endsDigits isDigits _)
  have sound (isSound : lexeme.isSound = true) :
      ErrorsAt before written rest (pieceErrors before lexeme) := by
    rw [pieceErrors, Lexeme.errors_of_isSound isSound]
    exact .sound taken isSound
  cases taken with
  | lineBreak | blanks _ _ _ | comment _ _ | mark _ _ _ => exact sound rfl
  | @word head tail _ _ _ _ =>
      obtain ⟨kind, payload, same⟩ := Lexeme.exists_ofWord_eq (head :: tail)
      exact sound (by rw [same]; rfl)
  | digits digits ends noFraction =>
      rcases isSound_or_large written with isSound | large
      · exact sound isSound
      · rw [ofDigits_of_large large]
        exact .integer (follows digits [] (List.append_nil _).symm) digits ends noFraction large
  | @decimal whole fraction _ isWhole isFraction ends =>
      rcases isSound_or_infinite whole fraction with isSound | infinite
      · exact sound isSound
      · rw [ofDecimalDigits_of_infinite infinite, pieceErrors_hugeDecimal before _ isWhole]
        exact .decimal (follows isWhole _ rfl) isWhole isFraction ends infinite
  | @closed body content _ spells =>
      rw [pieceErrors_quoted, if_pos rfl, List.append_nil]
      exact .string spells
  | unclosed spells ending =>
      rw [pieceErrors_quoted]
      exact .openString spells ending
  | point => exact .symbol (Lexeme.startsNoToken_point rest)
  | exclamation ends => exact .symbol (Lexeme.startsNoToken_exclamation ends)
  | unknown nothing => exact .symbol (nothing.startsNoToken rest)

/-! ### The whole text -/

private theorem followsNoDigit_append {before written rest : List Char} {lexeme : Lexeme}
    (taken : Takes written rest lexeme) :
    FollowsNoDigit (before ++ written) ∨ EndsDigits rest := by
  refine taken.endsDigits.imp_left fun follows => ?_
  obtain ⟨head, tail, rfl, _⟩ := taken.first_eq
  unfold FollowsNoDigit
  rw [List.getLast?_append_of_ne_nil _ (List.cons_ne_nil head tail)]
  exact follows

private theorem map_pointAsSymbol_reports {before written rest : List Char} {lexeme : Lexeme}
    (taken : Takes written rest lexeme) :
    (reports (lineBehind before) (Lexeme.split (written ++ rest))).map LexicalError.pointAsSymbol =
      pieceErrors before lexeme ++
        (reports (lineBehind (before ++ written)) (Lexeme.split rest)).map
          LexicalError.pointAsSymbol := by
  rw [taken.split_append, reports, List.map_append, taken.lineBreaks_eq, lineBehind_append]
  rfl

theorem ErrorsIn.eq_reports {before text : List Char} {errors : List LexicalError}
    (wrong : ErrorsIn before text errors) :
    errors = (reports (lineBehind before) (Lexeme.split text)).map LexicalError.pointAsSymbol := by
  induction wrong with
  | nil => rw [Lexeme.split, reports, List.map_nil]
  | cons here _ ih =>
      obtain ⟨lexeme, taken, rfl⟩ := here.takes
      rw [map_pointAsSymbol_reports taken, ih]

private theorem errorsIn_reports {text : List Char} {lexemes : List Lexeme}
    (divides : Lexeme.Divides text lexemes) {before : List Char}
    (apart : FollowsNoDigit before ∨ EndsDigits text) :
    ErrorsIn before text
      ((reports (lineBehind before) (Lexeme.split text)).map LexicalError.pointAsSymbol) := by
  induction divides generalizing before with
  | nil =>
      rw [Lexeme.split]
      exact .nil
  | cons taken _ ih =>
      rw [map_pointAsSymbol_reports taken]
      exact .cons (errorsAt_of_takes taken apart) (ih (followsNoDigit_append taken))

private theorem symbol_ne_point {written rest : List Char} {symbol : Char}
    (taken : Takes written rest (.unknownSymbol symbol)) : symbol ≠ '.' := by
  generalize same : Lexeme.unknownSymbol symbol = lexeme at taken
  have unsound : lexeme.isSound = false := by rw [← same]; rfl
  cases taken with
  | lineBreak | blanks _ _ _ | comment _ _ | mark _ _ _ | closed _ | unclosed _ _ | point =>
      cases same
  | @word head tail _ _ _ _ =>
      obtain ⟨kind, payload, token⟩ := Lexeme.exists_ofWord_eq (head :: tail)
      cases same.trans token
  | digits _ _ _ =>
      rcases isSound_or_large written with sound | large
      · simp [sound] at unsound
      · cases same.trans (ofDigits_of_large large)
  | @decimal whole fraction _ _ _ _ =>
      rcases isSound_or_infinite whole fraction with sound | infinite
      · simp [sound] at unsound
      · cases same.trans (ofDecimalDigits_of_infinite infinite)
  | exclamation _ =>
      cases same
      decide
  | unknown nothing =>
      cases same
      rintro rfl
      exact nothing.2.2.2 (by decide)

/-- A point is never reported as a symbol. -/
private theorem point_not_mem_reports {text : List Char} {lexemes : List Lexeme}
    (divides : Lexeme.Divides text lexemes) (line place : Nat) :
    .unrecognizedSymbol '.' place ∉ reports line lexemes := by
  induction divides generalizing line with
  | nil => exact List.not_mem_nil
  | @cons written rest lexeme lexemes taken _ ih =>
      intro member
      rcases List.mem_append.mp member with here | later
      · cases lexeme with
        | blank | lineBreak | token _ _ => cases here
        | hugeInteger _ | hugeDecimal _ => simp [Lexeme.errors] at here
        | quoted literal =>
            rw [Lexeme.errors, quotedErrors] at here
            split at here <;> simp at here
        | unknownSymbol symbol =>
            cases List.mem_singleton.mp here
            exact symbol_ne_point taken rfl
      · exact ih _ later

/-- The errors that scanning reports are those that the text has, in order, but for the name that it
gives to a point that belongs to no number: a decimal too large, never a symbol. -/
theorem errorsIn_iff_ofText (source : String) :
    (∀ errors, ErrorsIn [] source.toList errors ↔
      errors = (ofText source).errors.map LexicalError.pointAsSymbol) ∧
    ∀ line, .unrecognizedSymbol '.' line ∉ (ofText source).errors := by
  have divides := Lexeme.divides_split source.toList
  rw [errors_ofText]
  refine ⟨fun errors => ⟨fun wrong => wrong.eq_reports, ?_⟩, point_not_mem_reports divides 1⟩
  rintro rfl
  exact errorsIn_reports divides (.inl nofun)

/-- A point alone has one error, but not the one that it should have. -/
theorem not_errorsIn_point :
    (ofText ".").errors = [.decimalTooLarge "." 1] ∧
    ErrorsIn [] ".".toList [.unrecognizedSymbol '.' 1] ∧
    ¬ ErrorsIn [] ".".toList (ofText ".").errors := by
  have reported : (ofText ".").errors = [.decimalTooLarge "." 1] := by decide +kernel
  have symbol : ErrorsIn [] ".".toList [.unrecognizedSymbol '.' 1] :=
    .cons (.symbol (Lexeme.startsNoToken_point [])) .nil
  refine ⟨reported, symbol, fun wrong => ?_⟩
  have same := wrong.eq_reports.trans symbol.eq_reports.symm
  rw [reported] at same
  cases same

end Scan

end LineScript
