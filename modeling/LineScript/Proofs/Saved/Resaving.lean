import LineScript.Proofs.Json.Readings
import LineScript.Proofs.Saved.TextNesting

/-!
Saving a loaded program changes nothing.

Reading is lenient: a text may be laid out in many ways, leave out what may be missing and hold
fields that nobody asks for.  The tree that comes of it holds no more than the text does, so its own
text is written in full, nests no deeper, and is read as the same tree.
-/

set_option autoImplicit false

namespace LineScript

/-! ## Trees within a depth -/

/-- A tree that can be saved and nests so many levels deep at most when it is. -/
structure Expression.SavedWithin (levels : Nat) (tree : Expression) : Prop where
  storable : tree.Storable
  nesting : (Saved.encodeExpression tree).nesting ≤ levels

namespace Statement

structure SavedWithin (levels : Nat) (statement : Statement) : Prop where
  storable : statement.Storable
  nesting : (Saved.encodeStatement statement).nesting ≤ levels

structure AllSavedWithin (levels : Nat) (statements : List Statement) : Prop where
  storable : StorableAll statements
  nesting : Json.nestingOfElements (Saved.encodeStatements statements) ≤ levels

structure OptionalSavedWithin (levels : Nat) (part : Option Statement) : Prop where
  storable : StorableOptional part
  nesting : (Saved.encodeOptional part).nesting ≤ levels

end Statement

namespace Saved

private theorem nesting_tagged (tag : String) (fields : List (String × Json)) :
    (tagged tag fields).nesting = Json.nestingOfFields fields + 2 := by
  simp [tagged, Json.nesting, Json.nestingOfFields]

theorem nesting_tagged_le_iff {tag : String} {fields : List (String × Json)} {levels : Nat} :
    (tagged tag fields).nesting ≤ levels + 2 ↔ ∀ field ∈ fields, field.2.nesting ≤ levels := by
  rw [nesting_tagged, Nat.add_le_add_iff_right, Json.nestingOfFields_le_iff]

end Saved

namespace Expression.SavedWithin

open Saved (nesting_tagged_le_iff)

variable {levels line : Nat} {operand left right : Expression}

theorem literal {value : Value} (storable : value.Storable)
    (fits : (Saved.encodeValue value).nesting ≤ levels) (bounded : StorableLine line) :
    SavedWithin (levels + 2) (.literal value line) :=
  ⟨.literal storable bounded, nesting_tagged_le_iff.mpr (by simp [fits, Json.nesting])⟩

theorem reference (name : String) (bounded : StorableLine line) :
    SavedWithin (levels + 2) (.reference name line) :=
  ⟨.reference bounded, nesting_tagged_le_iff.mpr (by simp [Json.nesting])⟩

theorem assign (name : String) (value : operand.SavedWithin levels) (bounded : StorableLine line) :
    SavedWithin (levels + 2) (.assign name operand line) :=
  ⟨.assign value.storable bounded,
    nesting_tagged_le_iff.mpr (by simp [value.nesting, Json.nesting])⟩

theorem unary (operator : UnaryOperator) (inner : operand.SavedWithin levels)
    (bounded : StorableLine line) : SavedWithin (levels + 2) (.unary operator operand line) :=
  ⟨.unary inner.storable bounded,
    nesting_tagged_le_iff.mpr (by simp [inner.nesting, Json.nesting])⟩

theorem binary (operator : BinaryOperator) (leftWithin : left.SavedWithin levels)
    (rightWithin : right.SavedWithin levels) (bounded : StorableLine line) :
    SavedWithin (levels + 2) (.binary operator left right line) :=
  ⟨.binary leftWithin.storable rightWithin.storable bounded,
    nesting_tagged_le_iff.mpr (by simp [leftWithin.nesting, rightWithin.nesting, Json.nesting])⟩

theorem group (inner : operand.SavedWithin levels) : SavedWithin (levels + 2) (.group operand) :=
  ⟨.group inner.storable, nesting_tagged_le_iff.mpr (by simp [inner.nesting])⟩

end Expression.SavedWithin

namespace Statement

open Saved (nesting_tagged_le_iff)

variable {levels : Nat} {root condition : Expression}

namespace SavedWithin

theorem expression (inner : root.SavedWithin levels) :
    SavedWithin (levels + 2) (.expression root) :=
  ⟨.expression inner.storable, nesting_tagged_le_iff.mpr (by simp [inner.nesting])⟩

theorem declare {line : Nat} (name : String) (inner : root.SavedWithin levels)
    (bounded : StorableLine line) : SavedWithin (levels + 2) (.declare name root line) :=
  ⟨.declare inner.storable bounded,
    nesting_tagged_le_iff.mpr (by simp [inner.nesting, Json.nesting])⟩

theorem print (newline : Bool) (inner : root.SavedWithin levels) :
    SavedWithin (levels + 2) (.print root newline) :=
  ⟨.print inner.storable, nesting_tagged_le_iff.mpr (by simp [inner.nesting, Json.nesting])⟩

theorem block {statements : List Statement} (inner : AllSavedWithin levels statements) :
    SavedWithin (levels + 3) (.block statements) :=
  ⟨.block inner.storable, nesting_tagged_le_iff.mpr (by simp [inner.nesting, Json.nesting])⟩

theorem branch {thenBranch : Statement} {elseBranch : Option Statement}
    (conditionWithin : condition.SavedWithin levels) (thenWithin : thenBranch.SavedWithin levels)
    (elseWithin : OptionalSavedWithin levels elseBranch) :
    SavedWithin (levels + 2) (.branch condition thenBranch elseBranch) :=
  ⟨.branch conditionWithin.storable thenWithin.storable elseWithin.storable,
    nesting_tagged_le_iff.mpr
      (by simp [conditionWithin.nesting, thenWithin.nesting, elseWithin.nesting])⟩

theorem loop {start step : Option Statement} {body : Statement}
    (startWithin : OptionalSavedWithin levels start)
    (conditionWithin : condition.SavedWithin levels)
    (stepWithin : OptionalSavedWithin levels step) (bodyWithin : body.SavedWithin levels) :
    SavedWithin (levels + 2) (.loop start condition step body) :=
  ⟨.loop startWithin.storable conditionWithin.storable stepWithin.storable bodyWithin.storable,
    nesting_tagged_le_iff.mpr (by
      simp [startWithin.nesting, conditionWithin.nesting, stepWithin.nesting, bodyWithin.nesting])⟩

end SavedWithin

theorem AllSavedWithin.nil : AllSavedWithin levels [] :=
  ⟨.nil, Nat.zero_le levels⟩

theorem AllSavedWithin.cons {statement : Statement} {others : List Statement}
    (first : statement.SavedWithin levels) (rest : AllSavedWithin levels others) :
    AllSavedWithin levels (statement :: others) :=
  ⟨.cons first.storable rest.storable, Nat.max_le.mpr ⟨first.nesting, rest.nesting⟩⟩

theorem OptionalSavedWithin.absent : OptionalSavedWithin levels none :=
  ⟨.absent, Nat.zero_le levels⟩

theorem OptionalSavedWithin.present {statement : Statement}
    (within : statement.SavedWithin levels) : OptionalSavedWithin levels (some statement) :=
  ⟨.present within.storable, within.nesting⟩

end Statement

namespace Saved

open Json (Fits)

/-! ## Fields -/

/-- The fields of a node whose parts are within a depth. -/
def FieldsFit (levels : Nat) (fields : List (String × Json)) : Prop :=
  ∀ field ∈ fields, Fits levels field.2

private theorem mem_of_field? {name : String} {fields : List (String × Json)}
    {found : Within (sizeOf fields)} (read : field? name fields = some found) :
    (name, found.val) ∈ fields := by
  induction fields with
  | nil => cases read
  | cons field others ih =>
      obtain ⟨candidate, value⟩ := field
      rw [field?] at read
      split at read
      · next later =>
        cases read
        exact List.mem_cons_of_mem _ (ih later)
      · split at read
        · next same =>
          cases read
          exact same ▸ List.mem_cons_self
        · cases read

theorem FieldsFit.field? {levels : Nat} {name : String} {fields : List (String × Json)}
    {found : Within (sizeOf fields)} (parts : FieldsFit levels fields)
    (read : field? name fields = some found) : Fits levels found.val :=
  parts _ (mem_of_field? read)

private theorem soleField?_fits {levels : Nat} {json : Json} {name : String}
    {found : Within (sizeOf json)} (fits : Fits levels json)
    (read : soleField? json = some (name, found)) :
    ∃ inner, levels = inner + 1 ∧ Fits inner found.val := by
  unfold soleField? at read
  split at read
  · next first value others =>
    obtain ⟨inner, rfl, parts⟩ := fits.object
    split at read
    · split at read
      · next found _ later =>
        cases read
        exact ⟨inner, rfl, parts _ (mem_of_field? later)⟩
      · cases read
    · cases read
  · cases read

private theorem node?_fits {levels : Nat} {json : Json} {tag : String}
    {fields : List (String × Json)}
    {smaller : sizeOf fields < sizeOf json} (fits : Fits levels json)
    (read : node? json = some (tag, ⟨fields, smaller⟩)) :
    ∃ inner, levels = inner + 2 ∧ FieldsFit inner fields := by
  unfold node? at read
  split at read
  · next sole =>
    cases read
    obtain ⟨outer, rfl, content⟩ := soleField?_fits fits sole
    obtain ⟨inner, rfl, parts⟩ := content.object
    exact ⟨inner, rfl, parts⟩
  · cases read

private theorem lineField?_storable {name : String} {fields : List (String × Json)} {line : Nat}
    (read : lineField? name fields = some line) : StorableLine line := by
  obtain ⟨found, _, lineRead⟩ := Option.bind_eq_some_iff.mp read
  unfold line? at lineRead
  unfold StorableLine
  split at lineRead
  · split at lineRead
    · cases lineRead
      omega
    · cases lineRead
  · cases lineRead

/-! ## Values -/

private theorem nesting_encodeValue (value : Value) : (encodeValue value).nesting = 1 := by
  cases value with
  | int | boolean | string => rfl
  | decimal number =>
      rw [encodeValue]
      split <;> rfl

private theorem decodeValue?_nesting {levels : Nat} {json : Json} {value : Value}
    (fits : Fits levels json) (read : decodeValue? json = some value) :
    (encodeValue value).nesting ≤ levels := by
  rw [nesting_encodeValue]
  unfold decodeValue? at read
  split at read
  case h_6 => cases read
  all_goals
    rename_i sole
    obtain ⟨inner, rfl, _⟩ := soleField?_fits fits sole
    exact Nat.le_add_left 1 inner

/-- A loaded decimal is finite, also where a whole number stands for it. -/
private theorem decodeValue?_storable {levels : Nat} {json : Json} {value : Value}
    (fits : Fits levels json) (read : decodeValue? json = some value) : value.Storable := by
  unfold decodeValue? at read
  split at read
  · obtain ⟨_, _, rfl⟩ := Option.map_eq_some_iff.mp read
    trivial
  · next number smaller sole =>
    cases read
    obtain ⟨_, _, content⟩ := soleField?_fits fits sole
    cases content.writable with
    | decimal finite => exact finite
  · next number smaller sole =>
    cases read
    obtain ⟨_, _, content⟩ := soleField?_fits fits sole
    cases content.writable with
    | integer within =>
        obtain ⟨low, high⟩ := within
        exact Decimal.isFinite_ofInt (by omega)
  · cases read
    trivial
  · cases read
    trivial
  · cases read

/-! ## Expressions -/

private theorem decodeExpression?_savedWithin {levels : Nat} {json : Json} {tree : Expression}
    (fits : Fits levels json) (read : decodeExpression? json = some tree) :
    tree.SavedWithin levels := by
  rw [decodeExpression?] at read
  split at read
  · cases read
  next tag fields smaller node =>
  -- a node takes two levels from its parts, and its encoding adds no more than these again
  obtain ⟨inner, rfl, parts⟩ := node?_fits fits node
  have partWithin {name : String} {part : Expression}
      (partRead : ∃ found, field? name fields = some found ∧
        decodeExpression? found.val = some part) : part.SavedWithin inner := by
    obtain ⟨found, foundRead, decoded⟩ := partRead
    have closer : sizeOf found.val < sizeOf json := Nat.lt_trans found.property smaller
    exact decodeExpression?_savedWithin (parts.field? foundRead) decoded
  dsimp only at read
  split at read
  all_goals
    simp only [Option.bind_eq_bind, Option.bind_eq_some_iff, Option.pure_def, Option.some.injEq,
      reduceCtorEq] at read
  · obtain ⟨value, ⟨found, foundRead, valueRead⟩, line, lineRead, rfl⟩ := read
    have content := parts.field? foundRead
    exact .literal (decodeValue?_storable content valueRead)
      (decodeValue?_nesting content valueRead) (lineField?_storable lineRead)
  · obtain ⟨name, _, line, lineRead, rfl⟩ := read
    exact .reference name (lineField?_storable lineRead)
  · obtain ⟨name, _, value, valueRead, line, lineRead, rfl⟩ := read
    exact .assign name (partWithin (exists_field?_of_part valueRead)) (lineField?_storable lineRead)
  · obtain ⟨operator, _, operand, operandRead, line, lineRead, rfl⟩ := read
    exact .unary operator (partWithin (exists_field?_of_part operandRead))
      (lineField?_storable lineRead)
  · obtain ⟨operator, _, left, leftRead, right, rightRead, line, lineRead, rfl⟩ := read
    exact .binary operator (partWithin (exists_field?_of_part leftRead))
      (partWithin (exists_field?_of_part rightRead)) (lineField?_storable lineRead)
  · obtain ⟨operand, operandRead, rfl⟩ := read
    exact .group (partWithin (exists_field?_of_part operandRead))
termination_by sizeOf json
decreasing_by
  exact closer

/-! ## Statements -/

theorem FieldsFit.expressionField? {levels : Nat} {name : String} {fields : List (String × Json)}
    {root : Expression} (parts : FieldsFit levels fields)
    (read : expressionField? name fields = some root) : root.SavedWithin levels := by
  obtain ⟨found, foundRead, rootRead⟩ := Option.bind_eq_some_iff.mp read
  exact decodeExpression?_savedWithin (parts.field? foundRead) rootRead

mutual

private theorem decodeStatement?_savedWithin {levels : Nat} {json : Json} {statement : Statement}
    (fits : Fits levels json) (read : decodeStatement? json = some statement) :
    statement.SavedWithin levels := by
  rw [decodeStatement?] at read
  split at read
  · cases read
  next tag fields smaller node =>
  obtain ⟨inner, rfl, parts⟩ := node?_fits fits node
  have partWithin {name : String} {part : Statement}
      (partRead : ∃ found, field? name fields = some found ∧
        decodeStatement? found.val = some part) : part.SavedWithin inner := by
    obtain ⟨found, foundRead, decoded⟩ := partRead
    have closer : sizeOf found.val < sizeOf json := Nat.lt_trans found.property smaller
    exact decodeStatement?_savedWithin (parts.field? foundRead) decoded
  -- an optional part that is missing is written as null, which takes no level either
  have optionalWithin {name : String} {part : Option Statement}
      (partRead : ∀ present, part = some present → ∃ found, field? name fields = some found ∧
        decodeStatement? found.val = some present) :
      Statement.OptionalSavedWithin inner part := by
    cases part with
    | none => exact .absent
    | some present => exact .present (partWithin (partRead present rfl))
  dsimp only at read
  split at read
  case h_4 =>
    split at read
    · next elements inside found =>
      have closer : sizeOf elements < sizeOf json := by
        have within := Nat.lt_trans inside smaller
        simp only [Json.array.sizeOf_spec] at within
        omega
      obtain ⟨statements, statementsRead, rfl⟩ := Option.map_eq_some_iff.mp read
      obtain ⟨innermost, rfl, elementsFit⟩ := (parts.field? found).array
      exact .block (decodeStatements?_allSavedWithin elementsFit statementsRead)
    · cases read
  all_goals
    simp only [Option.bind_eq_bind, Option.bind_eq_some_iff, Option.pure_def, Option.some.injEq,
      reduceCtorEq] at read
  · obtain ⟨root, rootRead, rfl⟩ := read
    exact .expression (parts.expressionField? rootRead)
  · obtain ⟨name, _, root, rootRead, line, lineRead, rfl⟩ := read
    exact .declare name (parts.expressionField? rootRead) (lineField?_storable lineRead)
  · obtain ⟨root, rootRead, newline, _, rfl⟩ := read
    exact .print newline (parts.expressionField? rootRead)
  · obtain ⟨condition, conditionRead, thenBranch, thenRead, elseBranch, elseRead, rfl⟩ := read
    have thenWithin := partWithin (exists_field?_of_part thenRead)
    have elseWithin := optionalWithin (exists_field?_of_optionalPart elseRead)
    exact .branch (parts.expressionField? conditionRead) thenWithin elseWithin
  · obtain ⟨start, startRead, condition, conditionRead, step, stepRead, body, bodyRead, rfl⟩ :=
      read
    have startWithin := optionalWithin (exists_field?_of_optionalPart startRead)
    have stepWithin := optionalWithin (exists_field?_of_optionalPart stepRead)
    have bodyWithin := partWithin (exists_field?_of_part bodyRead)
    exact .loop startWithin (parts.expressionField? conditionRead) stepWithin bodyWithin
termination_by sizeOf json
decreasing_by
  all_goals exact closer

private theorem decodeStatements?_allSavedWithin {levels : Nat} {elements : List Json}
    {statements : List Statement} (fits : ∀ element ∈ elements, Fits levels element)
    (read : decodeStatements? elements = some statements) :
    Statement.AllSavedWithin levels statements := by
  match elements with
  | [] =>
      rw [decodeStatements?] at read
      cases read
      exact .nil
  | element :: others =>
      rw [decodeStatements?] at read
      simp only [Option.bind_eq_bind, Option.bind_eq_some_iff, Option.pure_def,
        Option.some.injEq] at read
      obtain ⟨first, firstRead, rest, restRead, rfl⟩ := read
      obtain ⟨firstFits, restFit⟩ := List.forall_mem_cons.mp fits
      exact .cons (decodeStatement?_savedWithin firstFits firstRead)
        (decodeStatements?_allSavedWithin restFit restRead)
termination_by sizeOf elements

end

/-! ## Loaded programs -/

private theorem mem_of_onlyField? {name : String} {fields : List (String × Json)} {value : Json}
    (read : onlyField? name fields = some value) : (name, value) ∈ fields := by
  unfold onlyField? at read
  split at read
  · next field single =>
    cases read
    have member : field ∈ fields.filter fun field => field.1 = name := by simp [single]
    obtain ⟨listed, same⟩ := List.mem_filter.mp member
    exact of_decide_eq_true same ▸ listed
  · cases read

/-- An envelope takes one level of what a text may have, in either of its forms. -/
private theorem readEnvelope?_fits {lexemes : List Json.Lexeme} {envelope : Envelope}
    (bounded : Json.Lexeme.AllBounded lexemes) (read : readEnvelope? lexemes = some envelope) :
    Fits (nestingLimit - 1) envelope.statements := by
  unfold readEnvelope? at read
  split at read
  · next tail =>
    split at read
    · next version statements shorter found =>
      obtain ⟨elements, _⟩ := Json.readArray?_delivers partReading tail bounded.cons.2 _ found
      simp only [Option.bind_eq_bind, Option.bind_eq_some_iff, Option.pure_def,
        Option.some.injEq] at read
      obtain ⟨_, _, rfl⟩ := read
      exact elements statements (by simp)
    · cases read
  · next tail =>
    split at read
    · next fields shorter found =>
      obtain ⟨values, _⟩ :=
        Json.readObject?_delivers partReading envelopeReading tail bounded.cons.2 _ found
      simp only [Option.bind_eq_bind, Option.bind_eq_some_iff, Option.pure_def,
        Option.some.injEq] at read
      obtain ⟨_, _, statements, only, rfl⟩ := read
      exact values _ (mem_of_onlyField? only)
    · cases read
  · cases read

/-- What a text is loaded as can be saved, and nests no deeper than a text may. -/
theorem readText_savedWithin {content : String} {program : Program}
    (loaded : readText content = .ok program) :
    Statement.StorableAll program ∧ (encodeProgram program).nesting ≤ nestingLimit := by
  unfold readText at loaded
  split at loaded
  · cases loaded
  · next envelope found =>
    obtain ⟨lexemes, pieces, enveloped⟩ := Option.bind_eq_some_iff.mp found
    have fits := readEnvelope?_fits (Json.Lexeme.split?_bounded pieces) enveloped
    split at loaded
    · split at loaded
      · next decoded =>
        cases loaded
        unfold decodeProgram? at decoded
        split at decoded
        · next elements shape =>
          rw [shape] at fits
          have within := decodeStatements?_allSavedWithin (Json.fits_array_iff.mp fits) decoded
          refine ⟨within.storable, ?_⟩
          have deep := within.nesting
          simp only [encodeProgram, Json.nesting, Json.nestingOfFields]
          unfold nestingLimit
          omega
        · cases decoded
      · cases loaded
    · cases loaded

/-- Saving what was loaded loses nothing, however the text was laid out that it was loaded from: the
program has only finite decimals and lines of 64 bits, its own text is within the limit, and that
text is read as the same program. -/
theorem readText_resaved {content : String} {program : Program}
    (loaded : readText content = .ok program) :
    Statement.StorableAll program ∧ Json.textNesting (text program) ≤ nestingLimit ∧
      readText (text program) = .ok program := by
  obtain ⟨storable, fits⟩ := readText_savedWithin loaded
  refine ⟨storable, ?_, ?_⟩
  · rw [textNesting_text storable]
    exact fits
  · rw [readText_text storable, if_pos fits]

/-- A text that no program is saved as: an array for an envelope, fields in another order, one too
many, one twice, one left out, and a whole number for a decimal. -/
def lenientText : String :=
  "[1,[ \x7b\"If\":\x7b\"then_branch\":\x7b\"Block\":\x7b\"statements\":[]\x7d\x7d,\"x\":0,
    \"condition\":\x7b\"Literal\":\x7b\"line\":3,\"line\":2,\"value\":\x7b\"Decimal\":2\x7d\x7d\x7d\x7d\x7d]]"

private def lenientTree : Json :=
  .array [.object [("If", .object
    [("then_branch", .object [("Block", .object [("statements", .array [])])]),
      ("x", .integer 0),
      ("condition", .object [("Literal", .object
        [("line", .integer 3), ("line", .integer 2),
          ("value", .object [("Decimal", .integer 2)])])])])]]

private def lenientPieces : List Json.Lexeme :=
  (Json.array [.integer 1, lenientTree]).lexemes

def lenientProgram : Program :=
  [.branch (.literal (.decimal (Decimal.ofInt 2)) 2) (.block []) none]

private theorem readEnvelope?_lenientPieces :
    readEnvelope? lenientPieces = some ⟨formatVersion, lenientTree⟩ := by
  have elements : Json.result? (Json.readArray? partReading lenientPieces.tail) =
      some ([.integer 1, lenientTree], []) := by
    cbv
  obtain ⟨shorter, found⟩ := Json.result?_eq_some.mp elements
  have shape : lenientPieces = .openArray :: lenientPieces.tail := rfl
  rw [shape, readEnvelope?, found]
  rfl

theorem readText_lenientText :
    text lenientProgram ≠ lenientText ∧ readText lenientText = .ok lenientProgram ∧
      readText (text lenientProgram) = .ok lenientProgram := by
  have split : Json.Lexeme.split? lenientText.toList = some lenientPieces := by decide +kernel
  have decoded : decodeProgram? lenientTree = some lenientProgram := by with_unfolding_all rfl
  have loaded : readText lenientText = .ok lenientProgram := by
    rw [readText, split, Option.bind_some, readEnvelope?_lenientPieces]
    dsimp only
    rw [if_pos rfl, decoded]
  have brace : (text lenientProgram).toList.head? = some '\x7b' := by
    rw [text, Json.toText, String.toList_ofList, encodeProgram, Json.write, List.head?_cons]
  have bracket : lenientText.toList.head? = some '[' := by cbv
  obtain ⟨_, _, again⟩ := readText_resaved loaded
  refine ⟨fun same => ?_, loaded, again⟩
  rw [same, bracket] at brace
  cases brace

end Saved

end LineScript
