import LineScript.Proofs.Grammar
import LineScript.Token.Scan

/-!
The tokens of a source text.

Every token that scanning gives carries the payload of its kind, no decimal among them is infinite,
and no token stands on a line that the text does not have.  The tokens reach an end of input.
-/

set_option autoImplicit false

namespace LineScript

namespace Lexeme

/-! ## Single pieces -/

/-- A piece whose token, if it is one, carries what its kind asks for. -/
def Proper : Lexeme → Prop
  | .token kind payload =>
    (Token.mk kind payload 0).hasOwnPayload = true ∧
      ∀ number, payload = some (.decimal number) → number.isFinite = true
  | _ => True

private theorem proper_plain {kind : TokenKind}
    (own : (Token.mk kind none 0).hasOwnPayload = true) :
    (token kind none).Proper :=
  ⟨own, nofun⟩

private theorem proper_ofWord (word : List Char) : (ofWord word).Proper := by
  unfold ofWord
  split
  · next kind found =>
    apply proper_plain
    revert found
    fun_cases wordKind? word <;> intro found <;> cases found <;> rfl
  · exact ⟨rfl, nofun⟩

private theorem takeNumber_cases (text : List Char) :
    (∃ digits, (takeNumber text).1 = ofDigits digits) ∨
      ∃ whole fraction, (takeNumber text).1 = ofDecimalDigits whole fraction := by
  unfold takeNumber
  dsimp only
  split
  · split
    · exact .inr ⟨_, _, rfl⟩
    · exact .inl ⟨_, rfl⟩
  · exact .inl ⟨_, rfl⟩

private theorem proper_takeNumber (text : List Char) : (takeNumber text).1.Proper := by
  rcases takeNumber_cases text with ⟨digits, same⟩ | ⟨whole, fraction, same⟩
  · rw [same]
    unfold ofDigits
    split
    · exact ⟨rfl, nofun⟩
    · trivial
  · rw [same]
    unfold ofDecimalDigits
    dsimp only
    split
    · next finite =>
      refine ⟨rfl, fun number decimal => ?_⟩
      cases decimal
      exact finite
    · trivial

private theorem proper_withEqual {longer : TokenKind} {shorter : Lexeme} {tail : List Char}
    (own : (Token.mk longer none 0).hasOwnPayload = true) (proper : shorter.Proper) :
    (withEqual longer shorter tail).1.Proper := by
  unfold withEqual
  split
  · exact proper_plain own
  · exact proper

private theorem proper_first (head : Char) (tail : List Char) : (first head tail).1.Proper := by
  unfold first
  split
  · trivial
  split
  · trivial
  split
  · exact proper_ofWord _
  split
  · exact proper_takeNumber _
  split <;> first
    | exact proper_plain rfl
    | exact proper_withEqual rfl (proper_plain rfl)
    | exact proper_withEqual rfl trivial
    | (split <;> first | trivial | exact proper_plain rfl)
    | trivial

def lineBreaks : Lexeme → Nat
  | .lineBreak => 1
  | .quoted literal => literal.lineBreaks
  | _ => 0

private theorem lineBreaks_takeQuoted (text : List Char) :
    (takeQuoted text).1.lineBreaks + (takeQuoted text).2.length ≤ text.length := by
  fun_induction takeQuoted text <;>
    simp only [Prod.map, id, Quoted.push, Quoted.pushLineBreak, List.length_cons, List.length_nil,
      Nat.le_refl] at * <;> omega

theorem lineBreaks_ofWord (word : List Char) : (ofWord word).lineBreaks = 0 := by
  unfold ofWord
  split <;> rfl

theorem lineBreaks_ofDigits (digits : List Char) : (ofDigits digits).lineBreaks = 0 := by
  unfold ofDigits
  split <;> rfl

theorem lineBreaks_ofDecimalDigits (whole fraction : List Char) :
    (ofDecimalDigits whole fraction).lineBreaks = 0 := by
  unfold ofDecimalDigits
  dsimp only
  split <;> rfl

private theorem lineBreaks_takeNumber (text : List Char) : (takeNumber text).1.lineBreaks = 0 := by
  rcases takeNumber_cases text with ⟨digits, same⟩ | ⟨whole, fraction, same⟩
  · rw [same, lineBreaks_ofDigits]
  · rw [same, lineBreaks_ofDecimalDigits]

/-- Only line breaks and string literals end lines. -/
private theorem lineBreaks_first_eq_zero {head : Char} {tail : List Char} (lineBreak : head ≠ '\n')
    (quote : head ≠ '"') : (first head tail).1.lineBreaks = 0 := by
  unfold first
  rw [if_neg lineBreak]
  split
  · rfl
  split
  · exact lineBreaks_ofWord _
  split
  · exact lineBreaks_takeNumber _
  split <;> first
    | rfl
    | exact absurd rfl quote
    | (unfold withEqual; split <;> rfl)
    | (split <;> rfl)

/-- A piece has at least one character for every line it ends. -/
theorem lineBreaks_first (head : Char) (tail : List Char) :
    (first head tail).1.lineBreaks + (first head tail).2.length ≤ tail.length + 1 := by
  by_cases lineBreak : head = '\n'
  · subst lineBreak
    simp only [first, if_true, lineBreaks]
    omega
  by_cases quote : head = '"'
  · subst quote
    exact Nat.le_succ_of_le (lineBreaks_takeQuoted tail)
  · have := length_first_le head tail
    rw [lineBreaks_first_eq_zero lineBreak quote]
    omega

def totalLineBreaks : List Lexeme → Nat
  | [] => 0
  | lexeme :: rest => lexeme.lineBreaks + totalLineBreaks rest

private theorem split_proper (text : List Char) :
    (∀ lexeme ∈ split text, lexeme.Proper) ∧ totalLineBreaks (split text) ≤ text.length := by
  fun_induction split text with
  | case1 => exact ⟨by simp, by simp [totalLineBreaks]⟩
  | case2 head tail ih =>
      obtain ⟨proper, lines⟩ := ih
      constructor
      · intro lexeme member
        rcases List.mem_cons.mp member with rfl | later
        · exact proper_first head tail
        · exact proper lexeme later
      · have here := lineBreaks_first head tail
        simp only [totalLineBreaks, List.length_cons] at lines ⊢
        omega

end Lexeme

/-! ## Whole texts -/

/-- What holds of a token of a text: it carries the payload of its kind, a finite one, and stands on
one of the text's lines. -/
structure Token.Scanned (lastLine : Nat) (token : Token) : Prop where
  own : token.hasOwnPayload = true
  finite : ∀ number, token.payload = some (.decimal number) → number.isFinite = true
  line : token.line ≤ lastLine

theorem Token.scanned_plain {kind : TokenKind} {line lastLine : Nat}
    (own : (Token.plain kind line).hasOwnPayload = true) (bounded : line ≤ lastLine) :
    (Token.plain kind line).Scanned lastLine :=
  ⟨own, nofun, bounded⟩

namespace Scan

private theorem scanned_addToken {token : Token} {scan : Scan} {lastLine : Nat}
    (first : token.Scanned lastLine) (others : ∀ other ∈ scan.tokens, other.Scanned lastLine) :
    ∀ other ∈ (addToken token scan).tokens, other.Scanned lastLine := by
  intro other member
  rcases List.mem_cons.mp member with rfl | later
  · exact first
  · exact others other later

private theorem scanned_ofLexemes {lexemes : List Lexeme} {line lastLine : Nat} {lineOpen : Bool}
    (proper : ∀ lexeme ∈ lexemes, lexeme.Proper)
    (lines : line + Lexeme.totalLineBreaks lexemes ≤ lastLine) :
    ∀ token ∈ (ofLexemes line lineOpen lexemes).tokens, token.Scanned lastLine := by
  induction lexemes generalizing line lineOpen with
  | nil =>
      intro token member
      obtain rfl := List.mem_singleton.mp member
      exact Token.scanned_plain rfl (by omega)
  | cons lexeme rest ih =>
      have here := proper lexeme List.mem_cons_self
      have later (line : Nat) (lineOpen : Bool)
          (lines : line + Lexeme.totalLineBreaks rest ≤ lastLine) :
          ∀ token ∈ (ofLexemes line lineOpen rest).tokens, token.Scanned lastLine :=
        ih (fun other member => proper other (List.mem_cons_of_mem _ member)) lines
      rw [Lexeme.totalLineBreaks] at lines
      cases lexeme with
      | blank | unknownSymbol symbol | hugeInteger digits | hugeDecimal literal =>
          simp only [ofLexemes, addErrors]
          exact later line lineOpen (by omega)
      | lineBreak =>
          have next := later (line + 1) false (by simp only [Lexeme.lineBreaks] at lines; omega)
          simp only [ofLexemes]
          split
          · exact scanned_addToken (Token.scanned_plain rfl (by omega)) next
          · exact next
      | token kind payload =>
          simp only [ofLexemes]
          exact scanned_addToken ⟨here.1, here.2, by dsimp only; omega⟩ (later line true (by omega))
      | quoted literal =>
          simp only [Lexeme.lineBreaks] at lines
          simp only [ofLexemes, addErrors]
          split
          · refine scanned_addToken ⟨rfl, nofun, by dsimp only; omega⟩ ?_
            exact later _ true (by omega)
          · exact later _ lineOpen (by omega)

/-- The tokens of a text carry what their kinds ask for, and stand on lines of the text. -/
theorem scanned_ofText (source : String) :
    ∀ token ∈ (ofText source).tokens, token.Scanned (source.length + 1) := by
  obtain ⟨proper, lines⟩ := Lexeme.split_proper source.toList
  rw [String.length_toList] at lines
  exact scanned_ofLexemes proper (by omega)

private theorem exists_inputEnd_ofLexemes (line : Nat) (lineOpen : Bool) (lexemes : List Lexeme) :
    ∃ token ∈ (ofLexemes line lineOpen lexemes).tokens, token.kind = .inputEnd := by
  have addToken_ends (token : Token) {scan : Scan}
      (ends : ∃ other ∈ scan.tokens, other.kind = .inputEnd) :
      ∃ other ∈ (addToken token scan).tokens, other.kind = .inputEnd := by
    obtain ⟨other, member, kind⟩ := ends
    exact ⟨other, List.mem_cons_of_mem token member, kind⟩
  induction lexemes generalizing line lineOpen with
  | nil => exact ⟨_, List.mem_singleton_self _, rfl⟩
  | cons lexeme rest ih =>
      cases lexeme with
      | blank | unknownSymbol symbol | hugeInteger digits | hugeDecimal literal =>
          exact ih line lineOpen
      | lineBreak =>
          simp only [ofLexemes]
          split
          · exact addToken_ends _ (ih (line + 1) false)
          · exact ih (line + 1) false
      | token kind payload => exact addToken_ends _ (ih line true)
      | quoted literal =>
          simp only [ofLexemes, addErrors]
          split
          · exact addToken_ends _ (ih _ true)
          · exact ih _ lineOpen

/-- The tokens of every text reach an end of input. -/
theorem exists_inputEnd_ofText (source : String) :
    ∃ token ∈ (ofText source).tokens, token.kind = .inputEnd :=
  exists_inputEnd_ofLexemes 1 false _

end Scan

end LineScript
