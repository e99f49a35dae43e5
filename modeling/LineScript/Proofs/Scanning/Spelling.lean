import LineScript.Proofs.Digits
import LineScript.Proofs.Scanning

/-!
How the pieces of a text are written.

`Lexeme.Takes` says which characters a piece is written with and what may stand behind them.  Nothing
is said about how a piece is found, but every piece goes on as far as it can: what stands behind it
never continues it.  A text falls into its pieces in exactly one way.
-/

set_option autoImplicit false

namespace LineScript

namespace Lexeme

/-! ## String literals -/

namespace Quoted

/-- What a backslash and the character behind it stand for. -/
def escaped : Char → List Char
  | 'n' => ['\n']
  | 't' => ['\t']
  | '"' => ['"']
  | '\\' => ['\\']
  | '\n' => ['\n']
  | other => ['\\', other]

/-- The characters between the quotes of a string literal, and the content they stand for. -/
inductive Spells : List Char → List Char → Prop where
  | nil : Spells [] []
  | plain {character : Char} {body content : List Char} :
      character ≠ '"' → character ≠ '\\' → Spells body content →
      Spells (character :: body) (character :: content)
  | escape {character : Char} {body content : List Char} :
      Spells body content → Spells ('\\' :: character :: body) (escaped character ++ content)

/-- A string literal behind its opening quote: closed by the next quote that no backslash escapes, or
open to the end of the text, where a last backslash stands for nothing. -/
inductive Reads : List Char → QuotedText → List Char → Prop where
  | closed {body content rest : List Char} : Spells body content →
      Reads (body ++ '"' :: rest) ⟨content, body.count '\n', true⟩ rest
  | unclosed {body content ending : List Char} : Spells body content →
      ending = [] ∨ ending = ['\\'] → Reads (body ++ ending) ⟨content, body.count '\n', false⟩ []

/-- The literal with more characters in front. -/
def prepend (written content : List Char) (literal : QuotedText) : QuotedText :=
  ⟨content ++ literal.content, written.count '\n' + literal.lineBreaks, literal.closed⟩

private theorem prepend_prepend (written content more inner : List Char) (literal : QuotedText) :
    prepend written content (prepend more inner literal) =
      prepend (written ++ more) (content ++ inner) literal := by
  simp [prepend, Nat.add_assoc]

private theorem takeQuoted_plain {character : Char} (quote : character ≠ '"')
    (escape : character ≠ '\\')
    (rest : List Char) :
    takeQuoted (character :: rest) =
      (takeQuoted rest).map (prepend [character] [character]) id := by
  by_cases lineBreak : character = '\n'
  · subst lineBreak
    rw [takeQuoted]
    simp [Prod.map, prepend, pushLineBreak, Nat.add_comm]
  · rw [takeQuoted] <;> simp_all [Prod.map, prepend, push]

private theorem takeQuoted_escape (character : Char) (rest : List Char) :
    takeQuoted ('\\' :: character :: rest) =
      (takeQuoted rest).map (prepend ['\\', character] (escaped character)) id := by
  fun_cases escaped character <;>
    rw [takeQuoted] <;> simp_all [Prod.map, prepend, push, pushLineBreak, Nat.add_comm]

theorem Spells.takeQuoted_append {body content : List Char} (spells : Spells body content)
    (text : List Char) :
    takeQuoted (body ++ text) = (takeQuoted text).map (prepend body content) id := by
  induction spells with
  | nil => simp [prepend, Prod.map]
  | plain quote escape _ ih =>
      rw [List.cons_append, takeQuoted_plain quote escape, ih]
      simp [Prod.map, prepend_prepend]
  | escape _ ih =>
      rw [List.cons_append, List.cons_append, takeQuoted_escape, ih]
      simp [Prod.map, prepend_prepend]

theorem Reads.takeQuoted_eq {text rest : List Char} {literal : QuotedText}
    (reads : Reads text literal rest) : takeQuoted text = (literal, rest) := by
  cases reads with
  | closed spells =>
      rw [spells.takeQuoted_append, takeQuoted]
      simp [prepend]
  | unclosed spells ending =>
      rw [spells.takeQuoted_append]
      rcases ending with rfl | rfl <;> simp [takeQuoted, prepend]

theorem Reads.append (written content : List Char) {text rest : List Char} {literal : QuotedText}
    (longer : ∀ {body inner}, Spells body inner → Spells (written ++ body) (content ++ inner))
    (reads : Reads text literal rest) :
    Reads (written ++ text) (prepend written content literal) rest := by
  cases reads with
  | closed spells =>
      have whole := @Reads.closed _ _ rest (longer spells)
      rwa [List.append_assoc, List.count_append] at whole
  | unclosed spells ending =>
      have whole := Reads.unclosed (longer spells) ending
      rwa [List.append_assoc, List.count_append] at whole

private theorem reads_takeQuoted (text : List Char) :
    Reads text (takeQuoted text).1 (takeQuoted text).2 := by
  match text with
  | [] => exact .unclosed .nil (.inl rfl)
  | character :: rest =>
      by_cases quote : character = '"'
      · subst quote
        exact .closed .nil
      by_cases escape : character = '\\'
      · subst escape
        match rest with
        | [] => exact .unclosed .nil (.inr rfl)
        | next :: others =>
            rw [takeQuoted_escape]
            exact Reads.append ['\\', next] (escaped next) .escape (reads_takeQuoted others)
      · rw [takeQuoted_plain quote escape]
        exact Reads.append [character] [character] (.plain quote escape) (reads_takeQuoted rest)
termination_by text.length

end Quoted

/-! ## All pieces -/

/-- The kinds that are written with marks, not with letters. -/
def isMark : TokenKind → Bool
  | .leftParen | .rightParen | .leftBrace | .rightBrace | .semicolon | .equal | .plus | .minus
  | .star | .slash | .percent | .less | .lessEqual | .greater | .greaterEqual | .equalEqual
  | .notEqual => true
  | _ => false

/-- The characters that make something longer of a mark: another kind, or a comment. -/
def continuesMark : TokenKind → Char → Bool
  | .equal, '=' | .less, '=' | .greater, '=' | .slash, '/' => true
  | _, _ => false

/-- What may stand behind digits: no other digit. -/
def EndsDigits (rest : List Char) : Prop :=
  ∀ character ∈ rest.head?, character.isDigit = false

/-- A character that no piece but that of an unknown symbol starts with. -/
def StartsNothing (symbol : Char) : Prop :=
  isBlank symbol = false ∧ startsName symbol = false ∧ symbol.isDigit = false ∧
    symbol ∉ ['\n', '"', '(', ')', '\x7b', '\x7d', ';', '+', '-', '*', '/', '%', '=', '!', '<', '>',
      '.']

/-- A piece written with the characters `written`, in front of `rest`. -/
inductive Takes : List Char → List Char → Lexeme → Prop where
  | lineBreak {rest : List Char} : Takes ['\n'] rest .lineBreak
  | blanks {written rest : List Char} :
      written ≠ [] → (∀ character ∈ written, isBlank character = true) →
      (∀ character ∈ rest.head?, isBlank character = false) → Takes written rest .blank
  | comment {written rest : List Char} :
      '\n' ∉ written → (∀ character ∈ rest.head?, character = '\n') →
      Takes ('/' :: '/' :: written) rest .blank
  | word {head : Char} {tail rest : List Char} :
      startsName head = true → (∀ character ∈ tail, continuesName character = true) →
      (∀ character ∈ rest.head?, continuesName character = false) →
      Takes (head :: tail) rest (ofWord (head :: tail))
  | digits {digits rest : List Char} : IsDigits digits → EndsDigits rest →
      (∀ digit more, rest = '.' :: digit :: more → digit.isDigit = false) →
      Takes digits rest (ofDigits digits)
  | decimal {whole fraction rest : List Char} : IsDigits whole → IsDigits fraction →
      EndsDigits rest → Takes (whole ++ '.' :: fraction) rest (ofDecimalDigits whole fraction)
  | mark {kind : TokenKind} {written rest : List Char} :
      isMark kind = true → kind.spelling?.map String.toList = some written →
      (∀ character ∈ rest.head?, continuesMark kind character = false) →
      Takes written rest (.token kind none)
  | closed {body content rest : List Char} : Quoted.Spells body content →
      Takes ('"' :: (body ++ ['"'])) rest (.quoted ⟨content, body.count '\n', true⟩)
  | unclosed {body content ending : List Char} : Quoted.Spells body content →
      ending = [] ∨ ending = ['\\'] →
      Takes ('"' :: (body ++ ending)) [] (.quoted ⟨content, body.count '\n', false⟩)
  | point {rest : List Char} : Takes ['.'] rest (.hugeDecimal ['.'])
  | exclamation {rest : List Char} : (∀ character ∈ rest.head?, character ≠ '=') →
      Takes ['!'] rest (.unknownSymbol '!')
  | unknown {symbol : Char} {rest : List Char} : StartsNothing symbol →
      Takes [symbol] rest (.unknownSymbol symbol)

private theorem takeNumber_digits {digits rest : List Char} (written : IsDigits digits)
    (ends : EndsDigits rest)
    (noFraction : ∀ digit more, rest = '.' :: digit :: more → digit.isDigit = false) :
    takeNumber (digits ++ rest) = (ofDigits digits, rest) := by
  unfold takeNumber
  rw [takeWhile_span written.2 ends, dropWhile_span written.2 ends]
  dsimp only
  split
  · next digit more =>
    have := noFraction digit more rfl
    simp [this]
  · rfl

private theorem takeNumber_decimal {whole fraction rest : List Char} (written : IsDigits whole)
    (behind : IsDigits fraction) (ends : EndsDigits rest) :
    takeNumber (whole ++ '.' :: fraction ++ rest) = (ofDecimalDigits whole fraction, rest) := by
  obtain ⟨digit, more, rfl⟩ := List.exists_cons_of_ne_nil behind.1
  have point : ∀ character ∈ ('.' :: digit :: (more ++ rest)).head?, character.isDigit = false := by
    simp
  unfold takeNumber
  rw [List.append_assoc, List.cons_append, List.cons_append, takeWhile_span written.2 point,
    dropWhile_span written.2 point]
  have isDigit : digit.isDigit = true := behind.2 digit List.mem_cons_self
  change (if digit.isDigit = true then _ else _) = _
  rw [if_pos isDigit, ← List.cons_append, takeWhile_span behind.2 ends, dropWhile_span behind.2 ends]

theorem eq_of_isBlank {character : Char} (blank : isBlank character = true) :
    character = ' ' ∨ character = '\t' ∨ character = '\r' := by
  simpa [isBlank, or_assoc] using blank

private theorem startsName_of_isDigit {character : Char} (digit : character.isDigit = true) :
    startsName character = false := by
  obtain ⟨lower, upper⟩ : 48 ≤ character.toNat ∧ character.toNat ≤ 57 :=
    Char.isDigit_iff_toNat.mp digit
  rw [← Char.ofNat_toNat character]
  generalize character.toNat = code at lower upper
  interval_cases code <;> decide

theorem isBlank_of_startsName {character : Char} (starts : startsName character = true) :
    isBlank character = false := by
  refine Bool.eq_false_iff.mpr fun blank => ?_
  rcases eq_of_isBlank blank with rfl | rfl | rfl <;> exact absurd starts (by decide)

theorem isBlank_of_isDigit {character : Char} (digit : character.isDigit = true) :
    isBlank character = false := by
  refine Bool.eq_false_iff.mpr fun blank => ?_
  rcases eq_of_isBlank blank with rfl | rfl | rfl <;> exact absurd digit (by decide)

private theorem first_of_isBlank {head : Char} (blank : isBlank head = true) (tail : List Char) :
    first head tail = (.blank, tail.dropWhile isBlank) := by
  rcases eq_of_isBlank blank with rfl | rfl | rfl <;> rfl

private theorem first_of_startsName {head : Char} (starts : startsName head = true)
    (tail : List Char) :
    first head tail =
      (ofWord (head :: tail.takeWhile continuesName), tail.dropWhile continuesName) := by
  have lineBreak : head ≠ '\n' := by
    rintro rfl
    exact absurd starts (by decide)
  unfold first
  rw [if_neg lineBreak, if_neg (by simp [isBlank_of_startsName starts]), if_pos starts]

private theorem first_of_isDigit {head : Char} (digit : head.isDigit = true) (tail : List Char) :
    first head tail = takeNumber (head :: tail) := by
  have lineBreak : head ≠ '\n' := by
    rintro rfl
    exact absurd digit (by decide)
  unfold first
  rw [if_neg lineBreak, if_neg (by simp [isBlank_of_isDigit digit]),
    if_neg (by simp [startsName_of_isDigit digit]), if_pos digit]

theorem first_of_startsNothing {symbol : Char} (nothing : StartsNothing symbol) (tail : List Char) :
    first symbol tail = (.unknownSymbol symbol, tail) := by
  obtain ⟨blank, name, digit, other⟩ := nothing
  simp only [List.mem_cons, List.not_mem_nil, or_false, not_or] at other
  obtain ⟨lineBreak, others⟩ := other
  unfold first
  rw [if_neg lineBreak, if_neg (by simp [blank]), if_neg (by simp [name]),
    if_neg (by simp [digit])]
  split <;> simp_all

theorem withEqual_of_ne {longer : TokenKind} {shorter : Lexeme} {rest : List Char}
    (ends : ∀ character ∈ rest.head?, character ≠ '=') :
    withEqual longer shorter rest = (shorter, rest) := by
  unfold withEqual
  split
  · exact absurd rfl (ends '=' rfl)
  · rfl

private theorem first_slash {rest : List Char} (ends : ∀ character ∈ rest.head?, character ≠ '/') :
    first '/' rest = (.token .slash none, rest) := by
  cases rest with
  | nil => rfl
  | cons head tail =>
      have other : head ≠ '/' := ends head rfl
      rw [first, if_neg (by decide), if_neg (by decide), if_neg (by decide), if_neg (by decide)]
      exact fun comment same => other (List.cons.inj same).1

private theorem first_mark {kind : TokenKind} {written rest : List Char} (mark : isMark kind = true)
    (spelled : kind.spelling?.map String.toList = some written)
    (ends : ∀ character ∈ rest.head?, continuesMark kind character = false) :
    ∃ head tail, written = head :: tail ∧ first head (tail ++ rest) = (.token kind none, rest) := by
  have other {sign : Char} (continues : continuesMark kind sign = true) :
      ∀ character ∈ rest.head?, character ≠ sign := by
    rintro _ first rfl
    simp [ends _ first] at continues
  cases kind <;> first
    | exact absurd mark (by decide)
    | (cases spelled
       first
       | exact ⟨_, [], rfl, rfl⟩
       | exact ⟨_, [_], rfl, rfl⟩
       | exact ⟨_, [], rfl, withEqual_of_ne (other rfl)⟩
       | exact ⟨_, [], rfl, first_slash (other rfl)⟩)

theorem Takes.first_eq {written rest : List Char} {lexeme : Lexeme}
    (taken : Takes written rest lexeme) :
    ∃ head tail, written = head :: tail ∧ first head (tail ++ rest) = (lexeme, rest) := by
  cases taken with
  | lineBreak => exact ⟨_, _, rfl, rfl⟩
  | blanks nonempty inside ends =>
      obtain ⟨head, tail, rfl⟩ := List.exists_cons_of_ne_nil nonempty
      obtain ⟨blank, inside⟩ := List.forall_mem_cons.mp inside
      exact ⟨head, tail, rfl, by rw [first_of_isBlank blank, dropWhile_span inside ends]⟩
  | @comment written _ noBreak ends =>
      refine ⟨'/', '/' :: written, rfl, ?_⟩
      change (Lexeme.blank, (written ++ rest).dropWhile (· != '\n')) = _
      rw [dropWhile_span]
      · intro character member
        simp only [bne_iff_ne]
        rintro rfl
        exact noBreak member
      · intro character first
        simp [ends character first]
  | word starts inside ends =>
      exact ⟨_, _, rfl, by rw [first_of_startsName starts, takeWhile_span inside ends,
        dropWhile_span inside ends]⟩
  | digits written ends noFraction =>
      obtain ⟨head, tail, rfl⟩ := List.exists_cons_of_ne_nil written.1
      refine ⟨head, tail, rfl, ?_⟩
      rw [first_of_isDigit (written.2 head List.mem_cons_self), ← List.cons_append]
      exact takeNumber_digits written ends noFraction
  | decimal written behind ends =>
      obtain ⟨head, tail, rfl⟩ := List.exists_cons_of_ne_nil written.1
      refine ⟨head, _, rfl, ?_⟩
      rw [first_of_isDigit (written.2 head List.mem_cons_self), ← List.cons_append]
      exact takeNumber_decimal written behind ends
  | mark mark spelled ends => exact first_mark mark spelled ends
  | @closed body content _ spells =>
      refine ⟨_, _, rfl, ?_⟩
      change (takeQuoted _).map Lexeme.quoted id = _
      have reads := @Quoted.Reads.closed _ _ rest spells
      rw [List.append_assoc, List.singleton_append, reads.takeQuoted_eq]
      rfl
  | unclosed spells ending =>
      refine ⟨_, _, rfl, ?_⟩
      change (takeQuoted _).map Lexeme.quoted id = _
      rw [List.append_nil, (Quoted.Reads.unclosed spells ending).takeQuoted_eq]
      rfl
  | point => exact ⟨_, _, rfl, rfl⟩
  | exclamation ends => exact ⟨_, [], rfl, withEqual_of_ne ends⟩
  | unknown nothing => exact ⟨_, [], rfl, first_of_startsNothing nothing rest⟩

/-- A text starts with a piece, behind which the rest stands. -/
def Starts (text : List Char) (taken : Lexeme × List Char) : Prop :=
  ∃ written, text = written ++ taken.2 ∧ Takes written taken.2 taken.1

private theorem starts_takeNumber {head : Char} {tail : List Char} (digit : head.isDigit = true) :
    Starts (head :: tail) (takeNumber (head :: tail)) := by
  have whole := @isDigits_takeWhile _ tail digit
  have ends := head_dropWhile Char.isDigit (head :: tail)
  have both := (@List.takeWhile_append_dropWhile _ Char.isDigit (head :: tail)).symm
  unfold takeNumber
  dsimp only
  split
  · next next more behind =>
    rw [behind] at both
    split
    · next isDigit =>
      refine ⟨_, ?_, .decimal whole (isDigits_takeWhile isDigit) (head_dropWhile _ _)⟩
      rw [List.append_assoc, List.cons_append, List.takeWhile_append_dropWhile]
      exact both
    · next noDigit =>
      refine ⟨_, ?_, .digits whole ends ?_⟩
      · rw [behind]
        exact both
      · intro digit others same
        rw [behind] at same
        cases same
        simpa using noDigit
  · next noPoint =>
    exact ⟨_, both, .digits whole ends fun digit more same => absurd same (noPoint _ _)⟩

private theorem starts_withEqual {head : Char} {longer : TokenKind} {shorter : Lexeme}
    {tail : List Char}
    (long : ∀ rest, Takes [head, '='] rest (.token longer none))
    (short : (∀ character ∈ tail.head?, character ≠ '=') → Takes [head] tail shorter) :
    Starts (head :: tail) (withEqual longer shorter tail) := by
  unfold withEqual
  split
  · next rest => exact ⟨_, rfl, long rest⟩
  · next other =>
    refine ⟨_, rfl, short ?_⟩
    rintro _ first rfl
    obtain ⟨rest, same⟩ := List.head?_eq_some_iff.mp first
    exact other rest same

theorem Quoted.Reads.starts {text rest : List Char} {literal : QuotedText}
    (reads : Quoted.Reads text literal rest) : Starts ('"' :: text) (.quoted literal, rest) := by
  cases reads with
  | closed spells => exact ⟨_, by simp, .closed spells⟩
  | unclosed spells ending => exact ⟨_, by simp, .unclosed spells ending⟩

private theorem starts_slash (tail : List Char) : Starts ('/' :: tail) (first '/' tail) := by
  by_cases comment : tail.head? = some '/'
  · obtain ⟨text, rfl⟩ := List.head?_eq_some_iff.mp comment
    refine ⟨'/' :: '/' :: text.takeWhile (· != '\n'), ?_, .comment ?_ ?_⟩
    · exact congrArg _ (congrArg _ (List.takeWhile_append_dropWhile).symm)
    · intro member
      simpa using List.mem_takeWhile_imp member
    · intro character first
      simpa using head_dropWhile _ _ character first
  · have other : ∀ character ∈ tail.head?, character ≠ '/' := by
      rintro _ first rfl
      exact comment first
    rw [first_slash other]
    exact ⟨['/'], rfl, .mark rfl rfl fun _ first => by simp [continuesMark, other _ first]⟩

theorem starts_first (head : Char) (tail : List Char) : Starts (head :: tail) (first head tail) := by
  by_cases lineBreak : head = '\n'
  · subst lineBreak
    exact ⟨_, rfl, .lineBreak⟩
  by_cases blank : isBlank head = true
  · rw [first_of_isBlank blank]
    refine ⟨head :: tail.takeWhile isBlank, ?_, .blanks nofun ?_ (head_dropWhile _ _)⟩
    · rw [List.cons_append, List.takeWhile_append_dropWhile]
    · exact List.forall_mem_cons.mpr ⟨blank, fun _ member => List.mem_takeWhile_imp member⟩
  by_cases name : startsName head = true
  · rw [first_of_startsName name]
    refine ⟨_, ?_, .word name (fun _ member => List.mem_takeWhile_imp member) (head_dropWhile _ _)⟩
    rw [List.cons_append, List.takeWhile_append_dropWhile]
  by_cases digit : head.isDigit = true
  · rw [first_of_isDigit digit]
    exact starts_takeNumber digit
  by_cases slash : head = '/'
  · subst slash
    exact starts_slash tail
  · unfold first
    rw [if_neg lineBreak, if_neg blank, if_neg name, if_neg digit]
    split <;> first
      | exact (Quoted.reads_takeQuoted tail).starts
      | exact absurd rfl slash
      | exact ⟨[_], rfl, .mark rfl rfl fun _ _ => rfl⟩
      | exact ⟨_, rfl, .point⟩
      | exact starts_withEqual (fun _ => .mark rfl rfl fun _ _ => rfl) .exclamation
      | exact starts_withEqual (fun _ => .mark rfl rfl fun _ _ => rfl)
          fun ends => .mark rfl rfl fun _ first => by simp [continuesMark, ends _ first]
      | exact ⟨_, rfl, .unknown (by simp_all [StartsNothing])⟩

/-! ## Whole texts -/

/-- A text and the pieces it falls into, in order. -/
inductive Divides : List Char → List Lexeme → Prop where
  | nil : Divides [] []
  | cons {written rest : List Char} {lexeme : Lexeme} {lexemes : List Lexeme} :
      Takes written rest lexeme → Divides rest lexemes →
      Divides (written ++ rest) (lexeme :: lexemes)

theorem divides_split (text : List Char) : Divides text (split text) := by
  fun_induction split text with
  | case1 => exact .nil
  | case2 head tail ih =>
      obtain ⟨written, same, taken⟩ := starts_first head tail
      rw [same]
      exact .cons taken ih

theorem Divides.split_eq {text : List Char} {lexemes : List Lexeme} (divides : Divides text lexemes) :
    split text = lexemes := by
  induction divides with
  | nil => rw [split]
  | cons taken _ ih =>
      obtain ⟨head, tail, rfl, found⟩ := taken.first_eq
      rw [List.cons_append, split, found, ih]

section Cut

variable {written rest more : List Char} {lexeme : Lexeme}

private theorem mem_head_append {character : Char} (first : character ∈ rest.head?) :
    character ∈ (rest ++ more).head? := by
  cases rest with
  | nil => cases first
  | cons head tail => exact first

/-- A piece stays what it is if the text behind it is cut short. -/
theorem Takes.of_append (taken : Takes written (rest ++ more) lexeme) :
    Takes written rest lexeme := by
  generalize whole : rest ++ more = behind at taken
  cases taken with
  | lineBreak => exact .lineBreak
  | blanks nonempty inside ends =>
      subst whole
      exact .blanks nonempty inside fun _ first => ends _ (mem_head_append first)
  | comment noBreak ends =>
      subst whole
      exact .comment noBreak fun _ first => ends _ (mem_head_append first)
  | word starts inside ends =>
      subst whole
      exact .word starts inside fun _ first => ends _ (mem_head_append first)
  | digits digits ends noFraction =>
      subst whole
      refine .digits digits (fun _ first => ends _ (mem_head_append first)) fun digit others same => ?_
      exact noFraction digit (others ++ more) (by rw [same]; rfl)
  | decimal whole' fraction ends =>
      subst whole
      exact .decimal whole' fraction fun _ first => ends _ (mem_head_append first)
  | mark mark spelled ends =>
      subst whole
      exact .mark mark spelled fun _ first => ends _ (mem_head_append first)
  | closed spells => exact .closed spells
  | unclosed spells ending =>
      obtain ⟨rfl, _⟩ := List.append_eq_nil_iff.mp whole
      exact .unclosed spells ending
  | point => exact .point
  | exclamation ends =>
      subst whole
      exact .exclamation fun _ first => ends _ (mem_head_append first)
  | unknown nothing => exact .unknown nothing

end Cut

/-- Where one of the pieces ends, the text can be cut in two. -/
theorem Divides.of_append {text : List Char} {lexemes others : List Lexeme}
    (divides : Divides text (lexemes ++ others)) :
    ∃ before behind, text = before ++ behind ∧ Divides before lexemes ∧ Divides behind others := by
  induction lexemes generalizing text with
  | nil => exact ⟨[], text, rfl, .nil, divides⟩
  | cons lexeme lexemes ih =>
      cases divides with
      | cons taken rest =>
          obtain ⟨before, behind, rfl, front, back⟩ := ih rest
          exact ⟨_, behind, (List.append_assoc ..).symm, .cons taken.of_append front, back⟩

/-! ## Lines -/

private theorem count_lineBreak {keep : Char → Bool} {written : List Char}
    (inside : ∀ character ∈ written, keep character = true) (other : keep '\n' = false) :
    written.count '\n' = 0 := by
  refine List.count_eq_zero.mpr fun member => ?_
  simp [inside _ member] at other

theorem Takes.lineBreaks_eq {written rest : List Char} {lexeme : Lexeme}
    (taken : Takes written rest lexeme) : lexeme.lineBreaks = written.count '\n' := by
  cases taken with
  | lineBreak | point | exclamation _ => rfl
  | blanks _ inside _ => exact (count_lineBreak inside rfl).symm
  | comment noBreak _ =>
      rw [List.count_cons_of_ne (by decide), List.count_cons_of_ne (by decide)]
      exact (List.count_eq_zero.mpr noBreak).symm
  | @word head tail _ starts inside _ =>
      have first : head ≠ '\n' := by
        rintro rfl
        exact absurd starts (by decide)
      rw [lineBreaks_ofWord, List.count_cons_of_ne first, count_lineBreak inside rfl]
  | digits digits _ _ => rw [lineBreaks_ofDigits, count_lineBreak digits.2 rfl]
  | decimal whole fraction _ =>
      rw [lineBreaks_ofDecimalDigits, List.count_append, List.count_cons_of_ne (by decide),
        count_lineBreak whole.2 rfl, count_lineBreak fraction.2 rfl]
  | @mark kind _ _ mark spelled _ =>
      cases kind <;> first
        | exact absurd mark (by decide)
        | (cases spelled; rfl)
  | closed _ => simp [lineBreaks]
  | unclosed _ ending => rcases ending with rfl | rfl <;> simp [lineBreaks]
  | unknown nothing =>
      have other := List.ne_of_not_mem_cons nothing.2.2.2
      exact (List.count_eq_zero.mpr (by simpa using other.symm)).symm

theorem Divides.totalLineBreaks_eq {text : List Char} {lexemes : List Lexeme}
    (divides : Divides text lexemes) : totalLineBreaks lexemes = text.count '\n' := by
  induction divides with
  | nil => rfl
  | cons taken _ ih => rw [totalLineBreaks, List.count_append, taken.lineBreaks_eq, ih]

end Lexeme

end LineScript
