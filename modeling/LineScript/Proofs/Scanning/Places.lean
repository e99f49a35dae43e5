import LineScript.Proofs.Scanning.Spelling
import Mathlib.Data.List.Chain

/-!
Where the tokens of a text stand.

Every token is written somewhere in the text, the tokens in the order they have, and its line is one
more than the number of line breaks in front of it.  Lines are counted piece by piece while a text is
scanned; here they are counted in the text itself.
-/

set_option autoImplicit false

namespace LineScript

/-! ## How tokens are written -/

/-- The texts that stand for a token in a source. -/
inductive Token.Spelled : Token → List Char → Prop where
  | lineEnd {line : Nat} : Spelled (.plain .lineEnd line) ['\n']
  | fixed {kind : TokenKind} {written : List Char} {line : Nat} :
      kind.spelling?.map String.toList = some written → Spelled (.plain kind line) written
  | identifier {head : Char} {tail : List Char} {line : Nat} :
      Lexeme.startsName head = true → (∀ character ∈ tail, Lexeme.continuesName character = true) →
      Lexeme.wordKind? (head :: tail) = none →
      Spelled ⟨.identifier, some (.text (String.ofList (head :: tail))), line⟩ (head :: tail)
  | string {body content : List Char} {line : Nat} : Lexeme.Quoted.Spells body content →
      Spelled ⟨.stringLiteral, some (.text (String.ofList content)), line⟩ ('"' :: (body ++ ['"']))
  | integer {digits : List Char} {value : Int64} {line : Nat} : IsDigits digits →
      value.toInt = digitsValue digits → Spelled ⟨.integerLiteral, some (.integer value), line⟩ digits
  | decimal {whole fraction : List Char} {value : Decimal} {line : Nat} :
      IsDigits whole → IsDigits fraction →
      value = Decimal.ofNumeral false ⟨digitsValue (whole ++ fraction), -(fraction.length : Int)⟩ →
      value.isFinite = true →
      Spelled ⟨.decimalLiteral, some (.decimal value), line⟩ (whole ++ '.' :: fraction)

/-- Whether a token carries a payload of its own sort if it is a literal or a name, no infinite
decimal, and none at all if it is anything else. -/
def Token.carriesOwnPayloadOnly (token : Token) : Bool :=
  match token.kind, token.payload with
  | .integerLiteral, some (.integer _) => true
  | .decimalLiteral, some (.decimal value) => value.isFinite
  | .stringLiteral, some (.text _) => true
  | .identifier, some (.text _) => true
  | .integerLiteral, _ | .decimalLiteral, _ | .stringLiteral, _ | .identifier, _ => false
  | _, payload => payload.isNone

namespace Token.Spelled

variable {token : Token} {written : List Char}

theorem carriesOwnPayloadOnly (spelled : token.Spelled written) :
    token.carriesOwnPayloadOnly = true := by
  cases spelled with
  | lineEnd | identifier _ _ _ | string _ | integer _ _ => rfl
  | @fixed kind _ _ spelling => cases kind <;> first | rfl | cases spelling
  | decimal _ _ _ finite => exact finite

theorem ne_inputEnd (spelled : token.Spelled written) : token.kind ≠ .inputEnd := by
  cases spelled with
  | lineEnd | identifier _ _ _ | string _ | integer _ _ | decimal _ _ _ _ => nofun
  | fixed spelling =>
      rintro rfl
      cases spelling

theorem eq_of_lineEnd (spelled : token.Spelled written) (lineEnd : token.kind = .lineEnd) :
    written = ['\n'] := by
  cases spelled with
  | lineEnd => rfl
  | identifier _ _ _ | string _ | integer _ _ | decimal _ _ _ _ => cases lineEnd
  | fixed spelling =>
      obtain rfl : _ = TokenKind.lineEnd := lineEnd
      cases spelling

end Token.Spelled

/-! ## What one piece gives -/

namespace Lexeme

/-- The token of a piece that starts on `line`.  A line break gives one only if the line is open. -/
def token? (line : Nat) (lineOpen : Bool) : Lexeme → Option Token
  | .lineBreak => if lineOpen then some (.plain .lineEnd line) else none
  | .token kind payload => some ⟨kind, payload, line⟩
  | .quoted literal =>
    if literal.closed then some ⟨.stringLiteral, some (.text (String.ofList literal.content)), line⟩
    else none
  | _ => none

/-- Whether a line is open behind a piece. -/
def opensLine (lineOpen : Bool) : Lexeme → Bool
  | .lineBreak => false
  | .token _ _ => true
  | .quoted literal => literal.closed || lineOpen
  | _ => lineOpen

def errors (line : Nat) : Lexeme → List LexicalError
  | .quoted literal => Scan.quotedErrors line literal
  | .unknownSymbol symbol => [.unrecognizedSymbol symbol line]
  | .hugeInteger digits => [.integerTooLarge (String.ofList digits) line]
  | .hugeDecimal literal => [.decimalTooLarge (String.ofList literal) line]
  | _ => []

private theorem spelling?_of_wordKind? {word : List Char} {kind : TokenKind}
    (reserved : wordKind? word = some kind) : kind.spelling?.map String.toList = some word := by
  revert reserved
  fun_cases wordKind? word <;> intro reserved <;> cases reserved <;> rfl

theorem Takes.spelled {written rest : List Char} {lexeme : Lexeme} {line : Nat} {lineOpen : Bool}
    {token : Token} (taken : Takes written rest lexeme)
    (gives : lexeme.token? line lineOpen = some token) :
    token.Spelled written ∧ token.line = line := by
  cases taken with
  | blanks _ _ _ | comment _ _ | unclosed _ _ | point | exclamation _ | unknown _ => cases gives
  | lineBreak =>
      rw [token?] at gives
      split at gives <;> cases gives
      exact ⟨.lineEnd, rfl⟩
  | word starts inside _ =>
      unfold ofWord at gives
      split at gives <;> cases gives
      · next reserved => exact ⟨.fixed (spelling?_of_wordKind? reserved), rfl⟩
      · next free => exact ⟨.identifier starts inside free, rfl⟩
  | digits digits _ _ =>
      unfold ofDigits at gives
      split at gives <;> cases gives
      next small => exact ⟨.integer digits (Int64.toInt_ofInt_of_le (by omega) (by omega)), rfl⟩
  | decimal whole fraction _ =>
      unfold ofDecimalDigits at gives
      dsimp only at gives
      split at gives <;> cases gives
      next finite => exact ⟨.decimal whole fraction rfl finite, rfl⟩
  | mark mark spelled _ =>
      cases gives
      exact ⟨.fixed spelled, rfl⟩
  | closed spells =>
      cases gives
      exact ⟨.string spells, rfl⟩

/-- Only a line break ends a line, and only an open one. -/
theorem Takes.eq_lineBreak {written rest : List Char} {lexeme : Lexeme} {line : Nat} {lineOpen : Bool}
    {token : Token} (taken : Takes written rest lexeme)
    (gives : lexeme.token? line lineOpen = some token) (lineEnd : token.kind = .lineEnd) :
    lexeme = .lineBreak ∧ lineOpen = true := by
  obtain rfl := (taken.spelled gives).1.eq_of_lineEnd lineEnd
  obtain ⟨head, tail, same, found⟩ := taken.first_eq
  cases same
  cases found
  cases lineOpen with
  | true => exact ⟨rfl, rfl⟩
  | false => cases gives

private theorem opensLine_eq_false {lexeme : Lexeme} {line : Nat}
    (gives : lexeme.token? line false = none) : lexeme.opensLine false = false := by
  cases lexeme with
  | blank | lineBreak | unknownSymbol symbol | hugeInteger digits | hugeDecimal literal => rfl
  | token kind payload => cases gives
  | quoted literal =>
      rw [token?] at gives
      split at gives
      · cases gives
      · next unclosed => simpa [opensLine] using unclosed

end Lexeme

/-! ## What all pieces give -/

namespace Scan

open Lexeme (Divides Takes totalLineBreaks)

/-- The tokens of pieces that start on `line`, up to the end of input. -/
def body (line : Nat) (lineOpen : Bool) : List Lexeme → List Token
  | [] => []
  | lexeme :: rest =>
    (lexeme.token? line lineOpen).toList ++
      body (line + lexeme.lineBreaks) (lexeme.opensLine lineOpen) rest

theorem ofLexemes_cons (line : Nat) (lineOpen : Bool) (lexeme : Lexeme) (rest : List Lexeme) :
    ofLexemes line lineOpen (lexeme :: rest) =
      ⟨(lexeme.token? line lineOpen).toList ++
          (ofLexemes (line + lexeme.lineBreaks) (lexeme.opensLine lineOpen) rest).tokens,
        lexeme.errors line ++
          (ofLexemes (line + lexeme.lineBreaks) (lexeme.opensLine lineOpen) rest).errors⟩ := by
  cases lexeme with
  | blank | unknownSymbol symbol | hugeInteger digits | hugeDecimal literal => rfl
  | token kind payload => rfl
  | lineBreak => cases lineOpen <;> rfl
  | quoted literal =>
      rw [ofLexemes]
      cases closed : literal.closed <;>
        simp [addErrors, addToken, Lexeme.token?, Lexeme.opensLine, Lexeme.errors,
          Lexeme.lineBreaks, closed]

theorem tokens_ofLexemes (line : Nat) (lineOpen : Bool) (lexemes : List Lexeme) :
    (ofLexemes line lineOpen lexemes).tokens =
      body line lineOpen lexemes ++ [.plain .inputEnd (line + totalLineBreaks lexemes)] := by
  induction lexemes generalizing line lineOpen with
  | nil => rfl
  | cons lexeme rest ih =>
      rw [ofLexemes_cons, ih, body, totalLineBreaks, List.append_assoc, Nat.add_assoc]

/-- A token behind `earlier` is that of one piece, and `earlier` are the tokens of the pieces in front
of that one. -/
def Found (line : Nat) (lineOpen : Bool) (lexemes : List Lexeme) (earlier : List Token)
    (token : Token) : Prop :=
  ∃ before lexeme behind lineOpenThere, lexemes = before ++ lexeme :: behind ∧
    body line lineOpen before = earlier ∧
    body line lineOpen (before ++ [lexeme]) = earlier ++ [token] ∧
    lexeme.token? (line + totalLineBreaks before) lineOpenThere = some token

theorem Found.behind {line : Nat} {lineOpen : Bool} {lexeme : Lexeme} {rest : List Lexeme}
    {earlier : List Token} {token : Token}
    (found : Found (line + lexeme.lineBreaks) (lexeme.opensLine lineOpen) rest earlier token) :
    Found line lineOpen (lexeme :: rest) ((lexeme.token? line lineOpen).toList ++ earlier) token := by
  obtain ⟨before, piece, behind, openThere, rfl, front, whole, gives⟩ := found
  refine ⟨lexeme :: before, piece, behind, openThere, rfl, ?_, ?_, ?_⟩
  · rw [body, front]
  · rw [List.cons_append, body, whole, List.append_assoc]
  · rwa [totalLineBreaks, ← Nat.add_assoc]

private theorem found_of_body {line : Nat} {lineOpen : Bool} {lexemes : List Lexeme}
    {earlier later : List Token} {token : Token}
    (tokens : body line lineOpen lexemes = earlier ++ token :: later) :
    Found line lineOpen lexemes earlier token := by
  induction lexemes generalizing line lineOpen earlier with
  | nil => simp [body] at tokens
  | cons lexeme rest ih =>
      have behind {others : List Token} := @Found.behind line lineOpen lexeme rest others token
      rw [body] at tokens
      cases gives : lexeme.token? line lineOpen with
      | none =>
          rw [gives] at tokens behind
          exact behind (ih tokens)
      | some first =>
          rw [gives] at tokens behind
          cases earlier with
          | nil =>
              obtain ⟨rfl, _⟩ := List.cons.inj tokens
              exact ⟨[], lexeme, rest, lineOpen, rfl, rfl, by simp [body, gives], gives⟩
          | cons other earlier =>
              obtain ⟨rfl, others⟩ := List.cons.inj tokens
              exact behind (ih others)

/-! ## The order of tokens -/

/-- The tokens of a part of a text that starts on `line`. -/
structure Orderly (line : Nat) (lineOpen : Bool) (tokens : List Token) : Prop where
  spelled : ∀ token ∈ tokens, ∃ written, token.Spelled written
  begins : lineOpen = false → ∀ token ∈ tokens.head?, token.kind ≠ .lineEnd
  lineEndsApart : tokens.IsChain fun token next => token.kind = .lineEnd → next.kind ≠ .lineEnd
  below : ∀ token ∈ tokens, line ≤ token.line
  lines : tokens.Pairwise fun token next => token.line ≤ next.line

theorem Orderly.passed {line breaks : Nat} {lineOpen openBehind : Bool} {tokens : List Token}
    (orderly : Orderly (line + breaks) openBehind tokens)
    (keeps : lineOpen = false → openBehind = false) : Orderly line lineOpen tokens where
  spelled := orderly.spelled
  begins closed := orderly.begins (keeps closed)
  lineEndsApart := orderly.lineEndsApart
  below token member := Nat.le_trans (Nat.le_add_right line breaks) (orderly.below token member)
  lines := orderly.lines

theorem Orderly.cons {breaks : Nat} {lineOpen openBehind : Bool} {token : Token}
    {tokens : List Token} (orderly : Orderly (token.line + breaks) openBehind tokens)
    (spelled : ∃ written, token.Spelled written)
    (ends : token.kind = .lineEnd → lineOpen = true ∧ openBehind = false) :
    Orderly token.line lineOpen (token :: tokens) where
  spelled := List.forall_mem_cons.mpr ⟨spelled, orderly.spelled⟩
  begins := by
    intro closed first member lineEnd
    cases member
    simp [(ends lineEnd).1] at closed
  lineEndsApart := by
    refine List.isChain_cons.mpr ⟨fun next first lineEnd => ?_, orderly.lineEndsApart⟩
    exact orderly.begins (ends lineEnd).2 next first
  below := by
    refine List.forall_mem_cons.mpr ⟨Nat.le_refl _, fun next member => ?_⟩
    exact Nat.le_trans (Nat.le_add_right _ breaks) (orderly.below next member)
  lines := by
    refine List.pairwise_cons.mpr ⟨fun next member => ?_, orderly.lines⟩
    exact Nat.le_trans (Nat.le_add_right _ breaks) (orderly.below next member)

theorem orderly_body {text : List Char} {lexemes : List Lexeme} (divides : Divides text lexemes)
    (line : Nat) (lineOpen : Bool) : Orderly line lineOpen (body line lineOpen lexemes) := by
  induction divides generalizing line lineOpen with
  | nil => exact ⟨nofun, nofun, .nil, nofun, .nil⟩
  | @cons written rest lexeme lexemes taken _ ih =>
      have later := ih (line + lexeme.lineBreaks) (lexeme.opensLine lineOpen)
      rw [body]
      cases gives : lexeme.token? line lineOpen with
      | none =>
          refine later.passed ?_
          rintro rfl
          exact Lexeme.opensLine_eq_false gives
      | some token =>
          obtain ⟨spelled, rfl⟩ := taken.spelled gives
          refine later.cons ⟨written, spelled⟩ fun lineEnd => ?_
          obtain ⟨rfl, isOpen⟩ := taken.eq_lineBreak gives lineEnd
          exact ⟨isOpen, rfl⟩

/-! ## The tokens of a source -/

theorem tokens_ofText (source : String) :
    (ofText source).tokens = body 1 false (Lexeme.split source.toList) ++
      [.plain .inputEnd (1 + source.toList.count '\n')] := by
  rw [ofText, tokens_ofLexemes, (Lexeme.divides_split source.toList).totalLineBreaks_eq]

private theorem tokens_ofText_of_divides {text : List Char} {lexemes : List Lexeme}
    (divides : Divides text lexemes) :
    (ofText (String.ofList text)).tokens =
      body 1 false lexemes ++ [.plain .inputEnd (1 + text.count '\n')] := by
  rw [tokens_ofText, String.toList_ofList, divides.split_eq]

/-- A token written in a source behind the text that gives the tokens `earlier`: with its own
characters the text gives this token as well.  Its line counts the line breaks in front. -/
def Stands (source : String) (earlier : List Token) (token : Token) : Prop :=
  ∃ before written behind, source.toList = before ++ (written ++ behind) ∧
    token.Spelled written ∧ token.line = 1 + before.count '\n' ∧
    (ofText (String.ofList before)).tokens = earlier ++ [.plain .inputEnd token.line] ∧
    (ofText (String.ofList (before ++ written))).tokens =
      earlier ++ [token, .plain .inputEnd (1 + (before ++ written).count '\n')]

private theorem stands_of_found {source : String} {earlier : List Token} {token : Token}
    (found : Found 1 false (Lexeme.split source.toList) earlier token) :
    Stands source earlier token := by
  obtain ⟨front, lexeme, back, lineOpen, same, tokens, longer, gives⟩ := found
  have divides := Lexeme.divides_split source.toList
  rw [same, ← List.singleton_append, ← List.append_assoc] at divides
  obtain ⟨whole, behind, text, dividesWhole, _⟩ := divides.of_append
  obtain ⟨before, last, rfl, dividesFront, dividesLast⟩ := dividesWhole.of_append
  have written : ∃ rest, Takes last rest lexeme := by
    cases dividesLast with
    | cons taken nothing =>
        cases nothing
        exact ⟨[], by simpa using taken⟩
  obtain ⟨_, taken⟩ := written
  obtain ⟨spelled, line⟩ := taken.spelled gives
  rw [dividesFront.totalLineBreaks_eq] at line
  refine ⟨before, last, behind, by rw [text, List.append_assoc], spelled, line, ?_, ?_⟩
  · rw [tokens_ofText_of_divides dividesFront, tokens, line]
  · rw [tokens_ofText_of_divides dividesWhole, longer, List.append_assoc]
    rfl

theorem Stands.line_le {source : String} {earlier : List Token} {token : Token}
    (stands : Stands source earlier token) : token.line ≤ 1 + source.toList.count '\n' := by
  obtain ⟨before, written, behind, text, _, line, _⟩ := stands
  rw [line, text, List.count_append]
  omega

/-- What is true of the tokens of every source. -/
structure WellPlaced (source : String) (tokens : List Token) : Prop where
  /-- The end of input stands last, on the last line, and nowhere else. -/
  ends : ∃ others, tokens = others ++ [.plain .inputEnd (1 + source.toList.count '\n')] ∧
    ∀ token ∈ others, token.kind ≠ .inputEnd
  begins : ∀ token ∈ tokens.head?, token.kind ≠ .lineEnd
  lineEndsApart : tokens.IsChain fun token next => token.kind = .lineEnd → next.kind ≠ .lineEnd
  payloads : ∀ token ∈ tokens, token.carriesOwnPayloadOnly = true
  places : ∀ earlier token later, tokens = earlier ++ token :: later → token.kind ≠ .inputEnd →
    Stands source earlier token
  lines : tokens.Pairwise fun token next => token.line ≤ next.line

/-- Whatever a source holds, errors included, its tokens are well placed. -/
theorem ofText_wellPlaced (source : String) : WellPlaced source (ofText source).tokens := by
  have orderly := orderly_body (Lexeme.divides_split source.toList) 1 false
  have stands {earlier later : List Token} {token : Token}
      (tokens : body 1 false (Lexeme.split source.toList) = earlier ++ token :: later) :
      Stands source earlier token := stands_of_found (found_of_body tokens)
  rw [tokens_ofText]
  constructor
  case ends =>
    refine ⟨_, rfl, fun token member => ?_⟩
    obtain ⟨written, spelled⟩ := orderly.spelled token member
    exact spelled.ne_inputEnd
  case begins =>
    intro token first
    rw [List.head?_append] at first
    rcases Option.or_eq_some_iff.mp first with inside | ⟨_, last⟩
    · exact orderly.begins rfl token inside
    · cases last
      nofun
  case lineEndsApart =>
    refine List.isChain_append.mpr ⟨orderly.lineEndsApart, .singleton _, ?_⟩
    intro token _ last first _
    cases first
    nofun
  case payloads =>
    refine List.forall_mem_append.mpr
      ⟨fun token member => ?_, by simp [Token.carriesOwnPayloadOnly, Token.plain]⟩
    obtain ⟨written, spelled⟩ := orderly.spelled token member
    exact spelled.carriesOwnPayloadOnly
  case places =>
    intro earlier token later tokens notEnd
    rcases List.eq_nil_or_concat later with rfl | ⟨others, last, rfl⟩
    · obtain ⟨_, same⟩ := List.append_inj' tokens rfl
      cases same
      exact absurd rfl notEnd
    · rw [List.concat_eq_append, ← List.cons_append, ← List.append_assoc] at tokens
      exact stands (List.append_inj' tokens rfl).1
  case lines =>
    refine List.pairwise_append.mpr ⟨orderly.lines, List.pairwise_singleton _ _, ?_⟩
    intro token member last same
    obtain rfl := List.mem_singleton.mp same
    obtain ⟨earlier, later, tokens⟩ := List.append_of_mem member
    exact (stands tokens).line_le

end Scan

end LineScript
