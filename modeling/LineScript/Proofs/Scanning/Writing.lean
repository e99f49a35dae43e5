import LineScript.Proofs.Scanning.Places

/-!
Tokens written out and scanned again.

Any list of tokens that a source can have is written out by writing one token after another, with
spaces between them.  Scanning that text reports nothing and gives the same tokens.
-/

set_option autoImplicit false

namespace LineScript

/-! ## Writing tokens -/

namespace Lexeme.Quoted

/-- How a character of a string is written between the quotes. -/
def written : Char → List Char
  | '"' => ['\\', '"']
  | '\\' => ['\\', '\\']
  | '\n' => ['\\', 'n']
  | '\t' => ['\\', 't']
  | other => [other]

theorem Spells.written_append {body content : List Char} (character : Char)
    (spells : Spells body content) : Spells (written character ++ body) (character :: content) := by
  fun_cases written character with
  | case1 | case2 | case3 | case4 => exact spells.escape
  | case5 other quote backslash _ _ => exact spells.plain quote backslash

private theorem spells_flatMap_written (content : List Char) : Spells
    (content.flatMap written) content := by
  induction content with
  | nil => exact .nil
  | cons character content ih => exact ih.written_append character

private theorem not_mem_written (character : Char) : '\n' ∉ written character := by
  fun_cases written character <;> simp_all [eq_comm]

private theorem count_flatMap_written (content : List Char) :
    (content.flatMap written).count '\n' = 0 := by
  refine List.count_eq_zero.mpr fun member => ?_
  obtain ⟨character, _, inside⟩ := List.mem_flatMap.mp member
  exact not_mem_written character inside

end Lexeme.Quoted

/-- A token and the text it is written as.  A decimal may have any digits in front of its point and
behind it, as long as its value is finite; a negative integer is no single token. -/
inductive Token.Written : Token → List Char → Prop where
  | lineEnd {line : Nat} : Written (.plain .lineEnd line) ['\n']
  | fixed {kind : TokenKind} {text : List Char} {line : Nat} :
      kind.spelling?.map String.toList = some text → Written (.plain kind line) text
  | identifier {head : Char} {tail : List Char} {line : Nat} :
      Lexeme.startsName head = true → (∀ character ∈ tail, Lexeme.continuesName character = true) →
      Lexeme.wordKind? (head :: tail) = none →
      Written ⟨.identifier, some (.text (String.ofList (head :: tail))), line⟩ (head :: tail)
  | string {content : String} {line : Nat} :
      Written ⟨.stringLiteral, some (.text content), line⟩
        ('"' :: (content.toList.flatMap Lexeme.Quoted.written ++ ['"']))
  | integer {value : Int64} {line : Nat} : 0 ≤ value →
      Written ⟨.integerLiteral, some (.integer value), line⟩ (Nat.toDigits 10 value.toInt.toNat)
  | decimal {whole fraction : List Char} {value : Decimal} {line : Nat} :
      IsDigits whole → IsDigits fraction →
      value = Decimal.ofNumeral false ⟨digitsValue (whole ++ fraction), -(fraction.length : Int)⟩ →
      value.isFinite = true →
      Written ⟨.decimalLiteral, some (.decimal value), line⟩ (whole ++ '.' :: fraction)

/-- Tokens and the text they are written out as: one space stands between two tokens.  Next to a line
end, which is written as a line break, the space may be left out. -/
inductive Token.WrittenOut : List Token → List Char → Prop where
  | nil : WrittenOut [] []
  | single {token : Token} {text : List Char} : token.Written text → WrittenOut [token] text
  | spaced {token next : Token} {tokens : List Token} {text rest : List Char} :
      token.Written text → WrittenOut (next :: tokens) rest →
      WrittenOut (token :: next :: tokens) (text ++ ' ' :: rest)
  | joined {token next : Token} {tokens : List Token} {text rest : List Char} :
      token.kind = .lineEnd ∨ next.kind = .lineEnd → token.Written text →
      WrittenOut (next :: tokens) rest → WrittenOut (token :: next :: tokens) (text ++ rest)

/-! ## Scanning what is written -/

/-- What a token is, apart from its line. -/
def Token.content (token : Token) : TokenKind × Option Payload :=
  (token.kind, token.payload)

namespace Lexeme

/-- A piece that gives a token and nothing else. -/
structure Gives (lexeme : Lexeme) (token : Token) : Prop where
  errors : ∀ line, lexeme.errors line = []
  gives : ∀ line lineOpen, (token.kind = .lineEnd → lineOpen = true) →
    lexeme.token? line lineOpen = some ⟨token.kind, token.payload, line⟩
  opensLine : ∀ lineOpen, token.kind ≠ .lineEnd → lexeme.opensLine lineOpen = true

private theorem gives_token (token : Token) : Gives (.token token.kind token.payload) token :=
  ⟨fun _ => rfl, fun _ _ _ => rfl, fun _ _ => rfl⟩

/-- What may stand behind a token that is written out. -/
def EndsToken (rest : List Char) : Prop :=
  ∀ character ∈ rest.head?, character = ' ' ∨ character = '\n'

private theorem endsToken_nil : EndsToken [] := by
  simp [EndsToken]

private theorem endsToken_cons {head : Char} (rest : List Char) (ends : head = ' ' ∨ head = '\n') :
    EndsToken (head :: rest) := by
  simpa [EndsToken] using ends

theorem EndsToken.imp {rest : List Char} {holds : Char → Prop} (ends : EndsToken rest)
    (space : holds ' ') (lineBreak : holds '\n') : ∀ character ∈ rest.head?, holds character := by
  intro character first
  rcases ends character first with rfl | rfl
  · exact space
  · exact lineBreak

private theorem takes_fixed {kind : TokenKind} {text rest : List Char}
    (spelled : kind.spelling?.map String.toList = some text) (ends : EndsToken rest) :
    Takes text rest (.token kind none) := by
  have endsName : ∀ character ∈ rest.head?, continuesName character = false := ends.imp rfl rfl
  by_cases mark : isMark kind = true
  · refine .mark mark spelled (ends.imp ?_ ?_) <;> cases kind <;> rfl
  · cases kind <;> first
      | exact absurd rfl mark
      | (cases spelled; exact .word rfl (List.all_eq_true.mp rfl) endsName)
      | cases spelled

private theorem ofDigits_toDigits {value : Int64} (natural : 0 ≤ value) :
    ofDigits (Nat.toDigits 10 value.toInt.toNat) =
      .token .integerLiteral (some (.integer value)) := by
  have lower : 0 ≤ value.toInt := Int64.le_iff_toInt_le.mp natural
  have upper := value.toInt_lt
  have back : ((value.toInt.toNat : Nat) : Int) = value.toInt := Int.toNat_of_nonneg lower
  have small : value.toInt.toNat < 1 <<< 63 := by
    rw [Nat.one_shiftLeft]
    omega
  rw [ofDigits, digitsValue_toDigits, if_pos small, back, Int64.ofInt_toInt]

/-- Every token is written as a piece that gives it, whatever ends it. -/
theorem takes_of_written {token : Token} {text rest : List Char} (written : token.Written text)
    (ends : token.kind = .lineEnd ∨ EndsToken rest) :
    ∃ lexeme, Takes text rest lexeme ∧ lexeme.Gives token := by
  have endsToken (other : token.kind ≠ .lineEnd) : EndsToken rest := ends.resolve_left other
  cases written with
  | lineEnd =>
      refine ⟨.lineBreak, .lineBreak, fun _ => rfl, ?_, ?_⟩
      · intro line lineOpen isOpen
        simp [token?, isOpen rfl, Token.plain]
      · intro lineOpen other
        exact absurd rfl other
  | fixed spelled =>
      have ends := endsToken (by rintro rfl; cases spelled)
      exact ⟨_, takes_fixed spelled ends, gives_token (.plain _ _)⟩
  | @identifier head tail _ starts inside free =>
      have same : ofWord (head :: tail) =
          .token .identifier (some (.text (String.ofList (head :: tail)))) := by
        rw [ofWord, free]
      have taken := Takes.word starts inside ((endsToken (by rintro ⟨⟩)).imp rfl rfl)
      exact ⟨_, same ▸ taken, gives_token _⟩
  | @string content line =>
      refine ⟨_, .closed (Quoted.spells_flatMap_written content.toList), fun line => ?_, ?_, ?_⟩
      · simp [errors, Scan.quotedErrors, Quoted.count_flatMap_written]
      · intro line lineOpen _
        simp [token?]
      · intro lineOpen _
        simp [opensLine]
  | @integer value _ natural =>
      have ends := endsToken (by rintro ⟨⟩)
      have noFraction : ∀ digit more, rest = '.' :: digit :: more → digit.isDigit = false := by
        rintro digit more rfl
        rcases ends '.' rfl with point | point <;> simp at point
      have taken := Takes.digits (isDigits_toDigits value.toInt.toNat) (ends.imp rfl rfl) noFraction
      exact ⟨_, ofDigits_toDigits natural ▸ taken, gives_token _⟩
  | @decimal whole fraction value _ isWhole isFraction same finite =>
      have given : ofDecimalDigits whole fraction =
          .token .decimalLiteral (some (.decimal value)) := by
        rw [ofDecimalDigits, ← same]
        exact if_pos finite
      have taken := Takes.decimal isWhole isFraction ((endsToken (by rintro ⟨⟩)).imp rfl rfl)
      exact ⟨_, given ▸ taken, gives_token _⟩

end Lexeme

namespace Token

theorem Written.spelled {token : Token} {text : List Char} (written : token.Written text) :
    token.Spelled text := by
  cases written with
  | lineEnd => exact .lineEnd
  | fixed spelled => exact .fixed spelled
  | identifier starts inside free => exact .identifier starts inside free
  | @string content line =>
      have spelled :=
        @Spelled.string _ _ line (Lexeme.Quoted.spells_flatMap_written content.toList)
      rwa [String.ofList_toList] at spelled
  | integer natural =>
      refine .integer (isDigits_toDigits _) ?_
      rw [digitsValue_toDigits]
      exact (Int.toNat_of_nonneg (Int64.le_iff_toInt_le.mp natural)).symm
  | decimal whole fraction same finite => exact .decimal whole fraction same finite

theorem Spelled.begins {token : Token} {text : List Char} (spelled : token.Spelled text) :
    ∃ head tail, text = head :: tail ∧ Lexeme.isBlank head = false := by
  have begins {digits : List Char} (isDigits : IsDigits digits) :
      ∃ head tail, digits = head :: tail ∧ Lexeme.isBlank head = false := by
    obtain ⟨head, tail, rfl⟩ := List.exists_cons_of_ne_nil isDigits.1
    exact ⟨head, tail, rfl, Lexeme.isBlank_of_isDigit (isDigits.2 head List.mem_cons_self)⟩
  cases spelled with
  | lineEnd | string _ => exact ⟨_, _, rfl, rfl⟩
  | @fixed kind _ _ spelling =>
      cases kind <;> cases spelling <;> exact ⟨_, _, rfl, rfl⟩
  | identifier starts _ _ => exact ⟨_, _, rfl, Lexeme.isBlank_of_startsName starts⟩
  | integer digits _ => exact begins digits
  | decimal whole _ _ _ =>
      obtain ⟨head, tail, rfl, blank⟩ := begins whole
      exact ⟨head, _, rfl, blank⟩

theorem WrittenOut.begins {token : Token} {tokens : List Token} {text : List Char}
    (written : WrittenOut (token :: tokens) text) :
    ∃ first rest, token.Written first ∧ text = first ++ rest := by
  cases written with
  | single first => exact ⟨_, [], first, (List.append_nil _).symm⟩
  | spaced first _ => exact ⟨_, _, first, rfl⟩
  | joined _ first _ => exact ⟨_, _, first, rfl⟩

end Token

namespace Scan

open Lexeme (Divides)

/-- Pieces that give tokens and report nothing, wherever they start. -/
def Yields (lexemes : List Lexeme) (tokens : List Token) : Prop :=
  ∀ line lineOpen, (∀ token ∈ tokens.head?, token.kind = .lineEnd → lineOpen = true) →
    (ofLexemes line lineOpen lexemes).errors = [] ∧
      (ofLexemes line lineOpen lexemes).tokens.map Token.content =
        tokens.map Token.content ++ [(.inputEnd, none)]

private theorem yields_nil : Yields [] [] :=
  fun _ _ _ => ⟨rfl, rfl⟩

theorem Yields.blank {lexemes : List Lexeme} {tokens : List Token} (yields : Yields lexemes tokens) :
    Yields (.blank :: lexemes) tokens :=
  yields

theorem Yields.cons {lexeme : Lexeme} {lexemes : List Lexeme} {token : Token} {tokens : List Token}
    (yields : Yields lexemes tokens) (gives : lexeme.Gives token)
    (apart : ∀ next ∈ tokens.head?, token.kind = .lineEnd → next.kind ≠ .lineEnd) :
    Yields (lexeme :: lexemes) (token :: tokens) := by
  intro line lineOpen begins
  have later := yields (line + lexeme.lineBreaks) (lexeme.opensLine lineOpen) (by
    intro next first lineEnd
    exact gives.opensLine lineOpen fun ended => apart next first ended lineEnd)
  rw [ofLexemes_cons, gives.errors, gives.gives line lineOpen (begins token rfl)]
  exact ⟨later.1, congrArg (token.content :: ·) later.2⟩

/-- Written tokens fall into pieces of their own, with a blank for each space between them. -/
theorem divides_of_writtenOut {tokens : List Token} {text : List Char}
    (written : Token.WrittenOut tokens text)
    (apart : tokens.IsChain fun token next => token.kind = .lineEnd → next.kind ≠ .lineEnd) :
    ∃ lexemes, Divides text lexemes ∧ Yields lexemes tokens := by
  induction written with
  | nil => exact ⟨[], .nil, yields_nil⟩
  | single written =>
      obtain ⟨lexeme, taken, gives⟩ := Lexeme.takes_of_written written (.inr Lexeme.endsToken_nil)
      have divides := Divides.cons taken .nil
      rw [List.append_nil] at divides
      exact ⟨[lexeme], divides, yields_nil.cons gives nofun⟩
  | @spaced token next tokens text rest written behind ih =>
      obtain ⟨lexemes, divides, yields⟩ := ih apart.of_cons
      obtain ⟨lexeme, taken, gives⟩ :=
        Lexeme.takes_of_written written (.inr (Lexeme.endsToken_cons rest (.inl rfl)))
      -- the space is a piece of its own because no token starts with a blank
      have space : Lexeme.Takes [' '] rest .blank := by
        obtain ⟨first, others, nextWritten, rfl⟩ := behind.begins
        obtain ⟨head, tail, rfl, notBlank⟩ := nextWritten.spelled.begins
        exact .blanks nofun (by simp [Lexeme.isBlank]) (by simpa using notBlank)
      refine ⟨lexeme :: .blank :: lexemes, .cons taken (.cons space divides), ?_⟩
      exact yields.blank.cons gives (List.isChain_cons.mp apart).1
  | @joined token next tokens text rest lineEnd written behind ih =>
      obtain ⟨lexemes, divides, yields⟩ := ih apart.of_cons
      have ends : token.kind = .lineEnd ∨ Lexeme.EndsToken rest := by
        refine lineEnd.imp_right fun nextEnds => ?_
        obtain ⟨first, others, nextWritten, rfl⟩ := behind.begins
        rw [nextWritten.spelled.eq_of_lineEnd nextEnds]
        exact Lexeme.endsToken_cons others (.inr rfl)
      obtain ⟨lexeme, taken, gives⟩ := Lexeme.takes_of_written written ends
      exact ⟨lexeme :: lexemes, .cons taken divides, yields.cons gives (List.isChain_cons.mp apart).1⟩

/-- Scanning undoes writing: no error is reported, and the tokens are those that were written out,
with the end of input behind them. -/
theorem ofText_writtenOut {tokens : List Token} {text : List Char}
    (written : Token.WrittenOut tokens text)
    (begins : ∀ token ∈ tokens.head?, token.kind ≠ .lineEnd)
    (apart : tokens.IsChain fun token next => token.kind = .lineEnd → next.kind ≠ .lineEnd) :
    (ofText (String.ofList text)).diagnostics = [] ∧
      (ofText (String.ofList text)).tokens.map Token.content =
        tokens.map Token.content ++ [(.inputEnd, none)] := by
  obtain ⟨lexemes, divides, yields⟩ := divides_of_writtenOut written apart
  obtain ⟨noErrors, same⟩ :=
    yields 1 false fun token first lineEnd => absurd lineEnd (begins token first)
  rw [ofText, String.toList_ofList, divides.split_eq, diagnostics, noErrors]
  exact ⟨rfl, same⟩

/-- Two lines with a name that a reserved word starts and a string with every escape. -/
def orderTokens : List Token :=
  [.plain .printlnWord 1, ⟨.stringLiteral, some (.text "\\n\"\t\n"), 1⟩, .plain .lineEnd 1,
    ⟨.identifier, some (.text "order"), 2⟩, .plain .slash 2,
    ⟨.integerLiteral, some (.integer Int64.maxValue), 2⟩, .plain .lessEqual 2,
    ⟨.decimalLiteral, some (.decimal ⟨0x4004000000000000⟩), 2⟩]

def orderSource : String :=
  "println \"\\\\n\\\"\\t\\n\"\norder / 9223372036854775807 <= 2.50"

private theorem writtenOut_orderTokens : Token.WrittenOut orderTokens orderSource.toList := by
  have name : Token.Written ⟨.identifier, some (.text "order"), 2⟩ "order".toList :=
    .identifier rfl (List.all_eq_true.mp rfl) rfl
  have whole : IsDigits ['2'] := by simp [IsDigits]
  have fraction : IsDigits ['5', '0'] := by simp [IsDigits]
  have decimal : Token.Written ⟨.decimalLiteral, some (.decimal ⟨0x4004000000000000⟩), 2⟩
      "2.50".toList :=
    .decimal whole fraction (by decide +kernel) (by decide +kernel)
  have bound : Token.WrittenOut (orderTokens.drop 6) ("<=".toList ++ ' ' :: "2.50".toList) :=
    .spaced (.fixed rfl) (.single decimal)
  have second : Token.WrittenOut (orderTokens.drop 3) ("order".toList ++ ' ' :: ("/".toList ++ ' ' ::
      ("9223372036854775807".toList ++ ' ' :: ("<=".toList ++ ' ' :: "2.50".toList)))) :=
    .spaced name (.spaced (.fixed rfl) (.spaced (.integer (by decide)) bound))
  have first : Token.WrittenOut orderTokens ("println".toList ++ ' ' ::
      ("\"\\\\n\\\"\\t\\n\"".toList ++ (['\n'] ++ _))) :=
    .spaced (.fixed rfl) (.joined (.inr rfl) .string (.joined (.inl rfl) .lineEnd second))
  exact first

theorem ofText_orderSource :
    Token.WrittenOut orderTokens orderSource.toList ∧ (ofText orderSource).diagnostics = [] ∧
      (ofText orderSource).tokens.map Token.content =
        orderTokens.map Token.content ++ [(.inputEnd, none)] := by
  have scanned := ofText_writtenOut writtenOut_orderTokens (by decide) (by decide)
  rw [String.ofList_toList] at scanned
  exact ⟨writtenOut_orderTokens, scanned⟩

end Scan

end LineScript
