import LineScript.Proofs.Scanning.Places

/-!
Scanning goes line by line.

Outside of string literals no piece of a text reaches across a line break.  A text that is cut at
such a break falls into the pieces of its two parts, and scanning the second part alone gives the
same tokens and errors, on lines that count from one again.
-/

set_option autoImplicit false

namespace LineScript

/-! ## Pieces -/

namespace Lexeme

/-- A string literal that is open to the end of the text. -/
def isUnclosed : Lexeme → Bool
  | .quoted literal => !literal.closed
  | _ => false

/-- Whether the end of a text stands inside a string literal. -/
def endsInString (text : List Char) : Bool :=
  (split text).getLast?.any isUnclosed

private theorem head_append_lineBreak {rest more : List Char} {holds : Char → Prop}
    (inside : ∀ character ∈ rest.head?, holds character) (lineBreak : holds '\n') :
    ∀ character ∈ (rest ++ '\n' :: more).head?, holds character := by
  intro character first
  cases rest with
  | nil =>
      cases first
      exact lineBreak
  | cons head tail => exact inside character first

/-- A line break ends every piece that is not an open string literal. -/
theorem Takes.append_lineBreak {written rest : List Char} {lexeme : Lexeme}
    (taken : Takes written rest lexeme) (closed : lexeme.isUnclosed = false) (more : List Char) :
    Takes written (rest ++ '\n' :: more) lexeme := by
  cases taken with
  | lineBreak => exact .lineBreak
  | blanks nonempty inside ends => exact .blanks nonempty inside (head_append_lineBreak ends rfl)
  | comment noBreak ends => exact .comment noBreak (head_append_lineBreak ends rfl)
  | word starts inside ends => exact .word starts inside (head_append_lineBreak ends rfl)
  | digits digits ends noFraction =>
      refine .digits digits (head_append_lineBreak ends rfl) fun digit others same => ?_
      -- a point at the very end has the line break behind it, which is no digit
      match rest with
      | [] => cases same
      | [head] =>
          cases same
          rfl
      | head :: next :: tail =>
          cases same
          exact noFraction digit tail rfl
  | decimal whole fraction ends => exact .decimal whole fraction (head_append_lineBreak ends rfl)
  | @mark kind _ _ mark spelled ends =>
      refine .mark mark spelled (head_append_lineBreak ends ?_)
      cases kind <;> rfl
  | closed spells => exact .closed spells
  | unclosed _ _ => cases closed
  | point => exact .point
  | exclamation ends => exact .exclamation (head_append_lineBreak ends (by decide))
  | unknown nothing => exact .unknown nothing

theorem exists_ofWord_eq (word : List Char) :
    ∃ kind payload, ofWord word = .token kind payload := by
  unfold ofWord
  split
  · exact ⟨_, _, rfl⟩
  · exact ⟨_, _, rfl⟩

theorem Takes.rest_eq_nil {written rest : List Char} {lexeme : Lexeme}
    (taken : Takes written rest lexeme) (unclosed : lexeme.isUnclosed = true) : rest = [] := by
  cases taken with
  | unclosed _ _ => rfl
  | lineBreak | blanks _ _ _ | comment _ _ | mark _ _ _ | closed _ | point | exclamation _
  | unknown _ => cases unclosed
  | @word head tail _ _ _ _ =>
      obtain ⟨kind, payload, token⟩ := exists_ofWord_eq (head :: tail)
      rw [token] at unclosed
      cases unclosed
  | digits _ _ _ =>
      unfold ofDigits at unclosed
      split at unclosed <;> cases unclosed
  | decimal _ _ _ =>
      unfold ofDecimalDigits at unclosed
      dsimp only at unclosed
      split at unclosed <;> cases unclosed

/-- An open string literal is the last piece of its text. -/
theorem Divides.mem_getLast {text : List Char} {lexemes : List Lexeme} {lexeme : Lexeme}
    (divides : Divides text lexemes) (member : lexeme ∈ lexemes)
    (unclosed : lexeme.isUnclosed = true) : lexeme ∈ lexemes.getLast? := by
  induction divides with
  | nil => cases member
  | @cons written rest first lexemes taken others ih =>
      rcases List.mem_cons.mp member with rfl | later
      · obtain rfl := taken.rest_eq_nil unclosed
        have nothing : lexemes = [] := by rw [← others.split_eq, split]
        rw [nothing]
        rfl
      · rw [List.getLast?_cons, Option.mem_def.mp (ih later)]
        rfl

private theorem isUnclosed_of_endsInString {text : List Char} (closed : endsInString text = false) :
    ∀ lexeme ∈ split text, lexeme.isUnclosed = false := by
  intro lexeme member
  refine Bool.eq_false_iff.mpr fun unclosed => ?_
  have last := (divides_split text).mem_getLast member unclosed
  rw [endsInString, Option.mem_def.mp last, Option.any_some, unclosed] at closed
  cases closed

theorem Divides.append_lineBreak {first second : List Char} {lexemes others : List Lexeme}
    (divides : Divides first lexemes) (closed : ∀ lexeme ∈ lexemes, lexeme.isUnclosed = false)
    (behind : Divides second others) :
    Divides (first ++ '\n' :: second) (lexemes ++ .lineBreak :: others) := by
  induction divides with
  | nil =>
      have broken : Divides (['\n'] ++ second) (.lineBreak :: others) := .cons .lineBreak behind
      exact broken
  | cons taken _ ih =>
      obtain ⟨here, later⟩ := List.forall_mem_cons.mp closed
      rw [List.append_assoc]
      exact .cons (taken.append_lineBreak here second) (ih later)

/-- A line break outside of string literals cuts a text into two. -/
theorem split_append_lineBreak {first : List Char} (closed : endsInString first = false)
    (second : List Char) :
    split (first ++ '\n' :: second) = split first ++ .lineBreak :: split second :=
  ((divides_split first).append_lineBreak (isUnclosed_of_endsInString closed)
    (divides_split second)).split_eq

end Lexeme

/-! ## Tokens and errors further down -/

/-- The token as it stands if more lines are put in front of the text. -/
def Token.movedDown (lines : Nat) (token : Token) : Token :=
  { token with line := token.line + lines }

def LexicalError.movedDown (lines : Nat) : LexicalError → LexicalError
  | unrecognizedSymbol symbol line => unrecognizedSymbol symbol (line + lines)
  | unterminatedString line => unterminatedString (line + lines)
  | integerTooLarge literal line => integerTooLarge literal (line + lines)
  | decimalTooLarge literal line => decimalTooLarge literal (line + lines)

def Diagnostic.movedDown (lines : Nat) (diagnostic : Diagnostic) : Diagnostic :=
  { diagnostic with line := diagnostic.line.map (· + lines) }

theorem LexicalError.toDiagnostic_movedDown (lines : Nat) (error : LexicalError) :
    (error.movedDown lines).toDiagnostic = error.toDiagnostic.movedDown lines := by
  cases error <;> rfl

namespace Lexeme

private theorem token?_movedDown (line lines : Nat) (lineOpen : Bool) (lexeme : Lexeme) :
    lexeme.token? (line + lines) lineOpen =
      (lexeme.token? line lineOpen).map (Token.movedDown lines) := by
  cases lexeme with
  | blank | token _ _ | unknownSymbol _ | hugeInteger _ | hugeDecimal _ => rfl
  | lineBreak => cases lineOpen <;> rfl
  | quoted literal =>
      rw [token?, token?]
      split <;> rfl

private theorem errors_movedDown (line lines : Nat) (lexeme : Lexeme) :
    lexeme.errors (line + lines) = (lexeme.errors line).map (LexicalError.movedDown lines) := by
  cases lexeme with
  | blank | lineBreak | token _ _ | unknownSymbol _ | hugeInteger _ | hugeDecimal _ => rfl
  | quoted literal =>
      have onward (index : Nat) : line + lines + index = line + index + lines := by omega
      simp only [errors, Scan.quotedErrors, List.map_append, List.map_map, Function.comp_def,
        LexicalError.movedDown]
      congr 1
      · simp only [Nat.add_right_comm _ lines]
      · split
        · rfl
        · rw [onward]
          rfl

end Lexeme

namespace Scan

open Lexeme (Divides Takes totalLineBreaks)

/-- The errors of pieces that start on `line`. -/
def reports (line : Nat) : List Lexeme → List LexicalError
  | [] => []
  | lexeme :: rest => lexeme.errors line ++ reports (line + lexeme.lineBreaks) rest

private theorem errors_ofLexemes (line : Nat) (lineOpen : Bool) (lexemes : List Lexeme) :
    (ofLexemes line lineOpen lexemes).errors = reports line lexemes := by
  induction lexemes generalizing line lineOpen with
  | nil => rfl
  | cons lexeme rest ih => rw [ofLexemes_cons, reports, ih]

theorem errors_ofText (source : String) :
    (ofText source).errors = reports 1 (Lexeme.split source.toList) :=
  errors_ofLexemes 1 false _

private theorem reports_append (line : Nat) (front back : List Lexeme) :
    reports line (front ++ back) =
      reports line front ++ reports (line + totalLineBreaks front) back := by
  induction front generalizing line with
  | nil => rfl
  | cons lexeme front ih =>
      rw [List.cons_append, reports, reports, ih, totalLineBreaks, List.append_assoc, Nat.add_assoc]

private theorem reports_movedDown (line lines : Nat) (lexemes : List Lexeme) :
    reports (line + lines) lexemes = (reports line lexemes).map (LexicalError.movedDown lines) := by
  induction lexemes generalizing line with
  | nil => rfl
  | cons lexeme rest ih =>
      rw [reports, reports, Lexeme.errors_movedDown, Nat.add_right_comm, ih, List.map_append]

private theorem body_movedDown (line lines : Nat) (lineOpen : Bool) (lexemes : List Lexeme) :
    body (line + lines) lineOpen lexemes =
      (body line lineOpen lexemes).map (Token.movedDown lines) := by
  induction lexemes generalizing line lineOpen with
  | nil => rfl
  | cons lexeme rest ih =>
      rw [body, body, Lexeme.token?_movedDown, Nat.add_right_comm, ih, List.map_append,
        Option.toList_map]

/-! ## The line end between two texts -/

/-- Whether a line is open behind pieces. -/
def opensBehind (lineOpen : Bool) (lexemes : List Lexeme) : Bool :=
  lexemes.foldl (fun lineOpen lexeme => lexeme.opensLine lineOpen) lineOpen

private theorem body_append (line : Nat) (lineOpen : Bool) (front back : List Lexeme) :
    body line lineOpen (front ++ back) =
      body line lineOpen front ++
        body (line + totalLineBreaks front) (opensBehind lineOpen front) back := by
  induction front generalizing line lineOpen with
  | nil => rfl
  | cons lexeme front ih =>
      rw [List.cons_append, body, body, ih, totalLineBreaks, List.append_assoc, Nat.add_assoc]
      rfl

/-- Whether a line is open behind tokens: the last of them is no line end.  Without any it is as it
was before. -/
def opensAfter (lineOpen : Bool) (tokens : List Token) : Bool :=
  tokens.getLast?.elim lineOpen fun last => last.kind ≠ .lineEnd

private theorem opensAfter_append (lineOpen : Bool) (front back : List Token) :
    opensAfter lineOpen (front ++ back) = opensAfter (opensAfter lineOpen front) back := by
  unfold opensAfter
  rw [List.getLast?_append]
  cases back.getLast? <;> rfl

private theorem opensLine_eq {written rest : List Char} {lexeme : Lexeme}
    (taken : Takes written rest lexeme) (line : Nat) (lineOpen : Bool) :
    lexeme.opensLine lineOpen = opensAfter lineOpen (lexeme.token? line lineOpen).toList := by
  have endsLine {token : Token} (gives : lexeme.token? line lineOpen = some token) :=
    taken.eq_lineBreak gives
  cases lexeme with
  | blank | unknownSymbol _ | hugeInteger _ | hugeDecimal _ => rfl
  | lineBreak => cases lineOpen <;> rfl
  | token kind payload =>
      have other : kind ≠ .lineEnd := fun lineEnd => nomatch (endsLine rfl lineEnd).1
      simp [Lexeme.opensLine, Lexeme.token?, opensAfter, other]
  | quoted literal => cases closed : literal.closed <;>
      simp [Lexeme.opensLine, Lexeme.token?, opensAfter, closed]

/-- The tokens alone tell whether a line is open. -/
private theorem opensBehind_eq {text : List Char} {lexemes : List Lexeme}
    (divides : Divides text lexemes)
    (line : Nat) (lineOpen : Bool) :
    opensBehind lineOpen lexemes = opensAfter lineOpen (body line lineOpen lexemes) := by
  induction divides generalizing line lineOpen with
  | nil => rfl
  | @cons _ _ lexeme lexemes taken _ ih =>
      rw [body, opensAfter_append, ← opensLine_eq taken, ← ih]
      rfl

/-- The line end that a line break on `line` gives behind tokens. -/
def lineEndBehind (line : Nat) (tokens : List Token) : List Token :=
  if opensAfter false tokens then [.plain .lineEnd line] else []

private theorem body_lineBreak (line : Nat) (lineOpen : Bool) (lexemes : List Lexeme) :
    body line lineOpen (.lineBreak :: lexemes) =
      (if lineOpen then [.plain .lineEnd line] else []) ++ body (line + 1) false lexemes := by
  cases lineOpen <;> rfl

/-! ## Two texts with a line break between them -/

section Cut

variable {first : List Char} (second : List Char)

private theorem body_split_append (closed : Lexeme.endsInString first = false) :
    body 1 false (Lexeme.split (first ++ '\n' :: second)) =
      body 1 false (Lexeme.split first) ++
        lineEndBehind (1 + first.count '\n') (body 1 false (Lexeme.split first)) ++
        (body 1 false (Lexeme.split second)).map (Token.movedDown (1 + first.count '\n')) := by
  have divides := Lexeme.divides_split first
  have onward : 1 + first.count '\n' + 1 = 1 + (1 + first.count '\n') := Nat.add_comm _ 1
  rw [Lexeme.split_append_lineBreak closed, body_append, divides.totalLineBreaks_eq,
    opensBehind_eq divides 1, body_lineBreak, onward, body_movedDown, List.append_assoc]
  rfl

private theorem reports_split_append (closed : Lexeme.endsInString first = false) :
    reports 1 (Lexeme.split (first ++ '\n' :: second)) =
      reports 1 (Lexeme.split first) ++
        (reports 1 (Lexeme.split second)).map
          (LexicalError.movedDown (1 + first.count '\n')) := by
  have divides := Lexeme.divides_split first
  have onward : 1 + first.count '\n' + 1 = 1 + (1 + first.count '\n') := Nat.add_comm _ 1
  rw [Lexeme.split_append_lineBreak closed, reports_append, divides.totalLineBreaks_eq,
    ← reports_movedDown, ← onward]
  rfl

end Cut

/-- Scanning goes line by line: behind a text that does not end inside a string literal, a line
break ends the line if there is one to end, and what follows is scanned as if it stood alone. -/
theorem ofText_lineBreak {first : String} (closed : Lexeme.endsInString first.toList = false)
    (second : String) :
    (ofText (first ++ "\n" ++ second)).tokens =
      (ofText first).tokens.dropLast ++
        lineEndBehind (1 + first.toList.count '\n') (ofText first).tokens.dropLast ++
        (ofText second).tokens.map (Token.movedDown (1 + first.toList.count '\n')) ∧
    (ofText (first ++ "\n" ++ second)).diagnostics =
      (ofText first).diagnostics ++
        (ofText second).diagnostics.map (Diagnostic.movedDown (1 + first.toList.count '\n')) := by
  have text : (first ++ "\n" ++ second).toList = first.toList ++ '\n' :: second.toList := by
    rw [String.toList_append, String.toList_append, List.append_assoc]
    rfl
  constructor
  · have last : 1 + (first.toList ++ '\n' :: second.toList).count '\n' =
        1 + second.toList.count '\n' + (1 + first.toList.count '\n') := by
      rw [List.count_append, List.count_cons_self]
      omega
    rw [tokens_ofText, text, body_split_append second.toList closed, last, tokens_ofText first,
      List.dropLast_concat, tokens_ofText second, List.map_append, List.append_assoc]
    rfl
  · simp only [diagnostics, errors_ofText, text, reports_split_append second.toList closed,
      List.map_append, List.map_map, Function.comp_def, LexicalError.toDiagnostic_movedDown]

/-- A string that runs into a second line, which ends in a number too large and a comment with a
quote in it. -/
def spoiltLines : String :=
  "print \"a\nb\" ! 99999999999999999999 // \""

/-- The quote in the comment opens nothing.  The line is ended once, and the empty line behind it
gives no token. -/
theorem ofText_spoiltLines :
    Lexeme.endsInString spoiltLines.toList = false ∧
    (ofText (spoiltLines ++ "\n" ++ "\n#x")).tokens =
      [.plain .printWord 1, ⟨.stringLiteral, some (.text "a\nb"), 1⟩, .plain .lineEnd 2,
        ⟨.identifier, some (.text "x"), 4⟩, .plain .inputEnd 4] ∧
    (ofText (spoiltLines ++ "\n" ++ "\n#x")).diagnostics =
      [.unterminatedString 2, .unrecognizedSymbol '!' 2,
        .integerTooLarge "99999999999999999999" 2, .unrecognizedSymbol '#' 4].map
        LexicalError.toDiagnostic := by
  have closed : Lexeme.endsInString spoiltLines.toList = false := by decide +kernel
  have before : (ofText spoiltLines).errors = [.unterminatedString 2, .unrecognizedSymbol '!' 2,
      .integerTooLarge "99999999999999999999" 2] := by decide +kernel
  have behind : (ofText "\n#x").errors = [.unrecognizedSymbol '#' 2] := by decide +kernel
  obtain ⟨tokens, diagnostics⟩ := ofText_lineBreak closed "\n#x"
  refine ⟨closed, tokens.trans (by decide +kernel), diagnostics.trans ?_⟩
  rw [Scan.diagnostics, Scan.diagnostics, before, behind]
  rfl

end Scan

end LineScript
