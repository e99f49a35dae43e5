import LineScript.Proofs.Json.Nesting
import LineScript.Proofs.Saved.Accepted
import LineScript.Saved.Text

/-!
Saved programs are read back, down to the level of nesting that reading allows.

Writing has no limit: any tree has a text.  Reading has one, so a program that nests too deep is
saved and then refused; it is never read as another program.
-/

set_option autoImplicit false

namespace LineScript

namespace Saved

open Json (Writable WritableElements WritableFields)

/-! ## Encodings can be written -/

private theorem writable_line {line : Nat} (bounded : StorableLine line) :
    Writable (.integer (line : Int)) := by
  unfold StorableLine UInt64.size at bounded
  exact .integer ⟨by omega, by omega⟩

private theorem writable_tagged {tag : String} {fields : List (String × Json)}
    (parts : WritableFields fields) : Writable (tagged tag fields) :=
  .object (.cons (.object parts) .nil)

private theorem writable_encodeValue {value : Value} (storable : value.Storable) :
    Writable (encodeValue value) := by
  have content : ∀ {name : String} {json : Json}, Writable json → Writable (.object [(name, json)]) :=
    fun part => .object (.cons part .nil)
  cases value with
  | int number =>
      have low := number.le_toInt
      have high := number.toInt_lt
      exact content (.integer ⟨low, by omega⟩)
  | decimal number =>
      have finite : number.isFinite = true := storable
      simp only [encodeValue, if_pos finite]
      exact content (.decimal finite)
  | boolean truth => exact content .boolean
  | string text => exact content .string

private theorem writable_encodeExpression {tree : Expression} (storable : tree.Storable) :
    Writable (encodeExpression tree) := by
  induction storable with
  | literal value bounded =>
      exact writable_tagged (.cons (writable_encodeValue value) (.cons (writable_line bounded) .nil))
  | reference bounded => exact writable_tagged (.cons .string (.cons (writable_line bounded) .nil))
  | assign _ bounded value =>
      exact writable_tagged (.cons .string (.cons value (.cons (writable_line bounded) .nil)))
  | unary _ bounded operand =>
      exact writable_tagged (.cons .string (.cons operand (.cons (writable_line bounded) .nil)))
  | binary _ _ bounded left right =>
      exact writable_tagged
        (.cons left (.cons .string (.cons right (.cons (writable_line bounded) .nil))))
  | group _ inner => exact writable_tagged (.cons inner .nil)

mutual

private theorem writable_encodeStatement {statement : Statement} (storable : statement.Storable) :
    Writable (encodeStatement statement) := by
  cases storable with
  | expression root => exact writable_tagged (.cons (writable_encodeExpression root) .nil)
  | declare initializer bounded =>
      exact writable_tagged (.cons .string (.cons (writable_encodeExpression initializer)
        (.cons (writable_line bounded) .nil)))
  | print root =>
      exact writable_tagged (.cons (writable_encodeExpression root) (.cons .boolean .nil))
  | block statements =>
      exact writable_tagged (.cons (.array (writable_encodeStatements statements)) .nil)
  | branch condition thenBranch elseBranch =>
      exact writable_tagged (.cons (writable_encodeExpression condition)
        (.cons (writable_encodeStatement thenBranch) (.cons (writable_encodeOptional elseBranch) .nil)))
  | loop start condition step body =>
      exact writable_tagged (.cons (writable_encodeOptional start)
        (.cons (writable_encodeExpression condition) (.cons (writable_encodeOptional step)
          (.cons (writable_encodeStatement body) .nil))))

private theorem writable_encodeStatements {statements : List Statement}
    (storable : Statement.StorableAll statements) :
    WritableElements (encodeStatements statements) := by
  cases storable with
  | nil => exact .nil
  | cons first others =>
      exact .cons (writable_encodeStatement first) (writable_encodeStatements others)

private theorem writable_encodeOptional {part : Option Statement}
    (storable : Statement.StorableOptional part) : Writable (encodeOptional part) := by
  cases storable with
  | absent => exact .null
  | present statement => exact writable_encodeStatement statement

end

theorem writable_encodeProgram {program : Program} (storable : Statement.StorableAll program) :
    Writable (encodeProgram program) := by
  refine .object (.cons (.integer ?_) (.cons (.array (writable_encodeStatements storable)) .nil))
  exact ⟨by decide, by decide⟩

/-! ## The text of a program -/

private theorem split?_text {program : Program} (storable : Statement.StorableAll program) :
    Json.Lexeme.split? (text program).toList = some (encodeProgram program).lexemes := by
  have pieces : Json.Lexeme.Splits ((encodeProgram program).write 0) (encodeProgram program).lexemes
      [] := Json.Lexeme.splits_write (writable_encodeProgram storable) 0 nofun
  unfold Json.Lexeme.Splits at pieces
  rw [List.append_nil] at pieces
  unfold text Json.toText
  rw [String.toList_ofList, pieces]
  simp [Json.Lexeme.split?]

def envelopeFields (program : Program) : List (String × Json) :=
  [("version", .integer formatVersion), ("statements", .array (encodeStatements program))]

def envelopeTail (program : Program) : List Json.Lexeme :=
  .string "version" :: .colon :: ((Json.integer formatVersion).lexemes ++
    (Json.fieldLexemes [("statements", .array (encodeStatements program))] ++ [.closeObject]))

private theorem readObject?_envelopeTail (program : Program) :
    Json.result? (Json.readObject? partReading envelopeReading (envelopeTail program)) =
      Json.within nestingLimit (encodeProgram program).nesting (envelopeFields program) [] := by
  have meant : ∀ field ∈ envelopeFields program,
      envelopeReading field.1 = .meant (nestingLimit - 1) := by
    simp [envelopeFields, envelopeReading, partReading]
  exact (Json.readObject?_lexemes meant (fun field _ => Json.readsWithin field.2 _) []).trans
    (Json.within_succ (nestingLimit - 1) _ _ _).symm

/-- The text of a program is an envelope of this version around it, if it does not nest too deep. -/
theorem readEnvelope?_lexemes (program : Program) :
    readEnvelope? (encodeProgram program).lexemes =
      if (encodeProgram program).nesting ≤ nestingLimit then
        some ⟨formatVersion, .array (encodeStatements program)⟩
      else none := by
  have shape : (encodeProgram program).lexemes = .openObject :: envelopeTail program := rfl
  have read := readObject?_envelopeTail program
  rw [shape, readEnvelope?]
  rcases Nat.lt_or_ge nestingLimit (encodeProgram program).nesting with exceeds | fits
  · rw [Json.within_of_lt exceeds] at read
    rw [if_neg (Nat.not_le.mpr exceeds), Json.result?_eq_none.mp read]
  · rw [Json.within_of_le fits] at read
    obtain ⟨shorter, found⟩ := Json.result?_eq_some.mp read
    rw [if_pos fits, found]
    rfl

/-- What reading makes of the text of a program: the same program, or nothing if it nests too
deep. -/
theorem readText_text {program : Program} (storable : Statement.StorableAll program) :
    readText (text program) =
      if (encodeProgram program).nesting ≤ nestingLimit then .ok program else .error .malformed := by
  unfold readText
  rw [split?_text storable, Option.bind_some, readEnvelope?_lexemes]
  rcases Nat.lt_or_ge nestingLimit (encodeProgram program).nesting with exceeds | fits
  · rw [if_neg (Nat.not_le.mpr exceeds), if_neg (Nat.not_le.mpr exceeds)]
  · rw [if_pos fits, if_pos fits]
    dsimp only
    rw [if_pos rfl, decodeProgram?, decodeStatements?_encodeStatements storable]

/-! ## Accepted programs -/

/-- An accepted program is read back from its text, equal to what was saved, exactly if the text
nests within the limit, and is refused otherwise; whatever is read back runs as the program does.

A source has fewer than `2 ^ 63` characters, as every text in memory has: a line number beyond 64
bits could not be read back. -/
theorem readText_compiled {source : String} {prior : Diagnostics} {program : Program}
    (short : source.length < 2 ^ 63) (accepted : (compile source prior).1 = some program) :
    (readText (text program) = .ok program ↔ (encodeProgram program).nesting ≤ nestingLimit) ∧
      (nestingLimit < (encodeProgram program).nesting →
        readText (text program) = .error .malformed) ∧
      ∀ reloaded, readText (text program) = .ok reloaded → reloaded = program ∧
        ∀ passLimit sink, reloaded.execute passLimit sink = program.execute passLimit sink := by
  have read := readText_text (compile_storable short accepted)
  rcases Nat.lt_or_ge nestingLimit (encodeProgram program).nesting with exceeds | fits
  · rw [if_neg (Nat.not_le.mpr exceeds)] at read
    rw [read]
    exact ⟨⟨nofun, fun fits => absurd fits (Nat.not_le.mpr exceeds)⟩, fun _ => rfl, nofun⟩
  · rw [if_pos fits] at read
    rw [read]
    refine ⟨⟨fun _ => fits, fun _ => rfl⟩, fun exceeds => absurd fits (Nat.not_le.mpr exceeds), ?_⟩
    intro reloaded same
    obtain rfl : program = reloaded := Except.ok.inj same
    exact ⟨rfl, fun _ _ => rfl⟩

/-- A decimal without an exact binary form survives. -/
theorem readText_tenth : ∃ program, (compile "print 0.1" []).1 = some program ∧
    readText (text program) = .ok program := by
  have accepted : (compile "print 0.1" []).1 =
      some [.print (.literal (.decimal ⟨4591870180066957722⟩) 1) false] := by
    have scanned : Scan.ofText "print 0.1" = ⟨[.plain .printWord 1,
        ⟨.decimalLiteral, some (.decimal ⟨4591870180066957722⟩), 1⟩, .plain .inputEnd 1], []⟩ := by
      decide +kernel
    exact compile_of_stages scanned rfl (by decide +kernel) (by cbv) (by decide +kernel)
  exact ⟨_, accepted, (readText_compiled (by decide) accepted).1.mpr (by decide)⟩

/-- A source that prints a sum of ones. -/
def sumSource (additions : Nat) : String :=
  String.ofList ("print ".toList ++ '1' :: (List.replicate additions ['+', '1']).flatten)

private def sumTokens (additions : Nat) : List Token :=
  .plain .printWord 1 :: ⟨.integerLiteral, some (.integer 1), 1⟩ ::
    (List.replicate additions [.plain .plus 1, ⟨.integerLiteral, some (.integer 1), 1⟩]).flatten ++
      [.plain .inputEnd 1]

def sumTree : Nat → Expression
  | 0 => .literal (.int 1) 1
  | additions + 1 => .binary (.arithmetic .add) (sumTree additions) (.literal (.int 1) 1) 1

private theorem split_ones (additions : Nat) :
    Lexeme.split ('1' :: (List.replicate additions ['+', '1']).flatten) =
      .token .integerLiteral (some (.integer 1)) :: (List.replicate additions
        [.token .plus none, .token .integerLiteral (some (.integer 1))]).flatten := by
  induction additions with
  | zero => decide +kernel
  | succ additions ih =>
      have digit (rest : List Char) : Lexeme.first '1' ('+' :: rest) =
          (.token .integerLiteral (some (.integer 1)), '+' :: rest) := rfl
      rw [List.replicate_succ, List.flatten_cons, List.replicate_succ, List.flatten_cons,
        List.cons_append, Lexeme.split, digit, Lexeme.split]
      exact congrArg _ (congrArg _ ih)

private theorem split_sumSource (additions : Nat) :
    Lexeme.split (sumSource additions).toList =
      .token .printWord none :: .blank :: .token .integerLiteral (some (.integer 1)) ::
        (List.replicate additions
          [.token .plus none, .token .integerLiteral (some (.integer 1))]).flatten := by
  have word (rest : List Char) : Lexeme.first 'p' ('r' :: 'i' :: 'n' :: 't' :: ' ' :: '1' :: rest) =
      (.token .printWord none, ' ' :: '1' :: rest) := rfl
  have blank (rest : List Char) : Lexeme.first ' ' ('1' :: rest) = (.blank, '1' :: rest) := rfl
  unfold sumSource
  rw [String.toList_ofList, show "print ".toList = ['p', 'r', 'i', 'n', 't', ' '] from rfl]
  simp only [List.cons_append, List.nil_append]
  rw [Lexeme.split, word, Lexeme.split, blank, split_ones]

/-- Each operator of a chain nests two levels deeper, so a sum of sixty-two numbers is accepted and
saved, and then refused. -/
theorem readText_longSum : ∃ program, (compile (sumSource 61) []).1 = some program ∧
    readText (text program) = .error .malformed := by
  have accepted : (compile (sumSource 61) []).1 = some [.print (sumTree 61) false] := by
    have scanned : Scan.ofText (sumSource 61) = ⟨sumTokens 61, []⟩ := by
      rw [Scan.ofText, split_sumSource]
      decide +kernel
    have read : Program.read (sumTokens 61) = ([.print (sumTree 61) false], []) := by cbv
    exact compile_of_stages scanned rfl (by decide +kernel) read (by decide +kernel)
  refine ⟨_, accepted, ?_⟩
  rw [readText_text (compile_storable (by decide +kernel) accepted)]
  exact if_neg (by decide +kernel)

end Saved

end LineScript
