import LineScript.Json.Reader
import LineScript.Saved.Decoding

/-!
The text of a saved program.

Around the statements stands an envelope with the version of the format.  A text is read in three
steps, and each failure is that of the first step that fails: the whole text as an envelope, the
version, the statements.
-/

set_option autoImplicit false

namespace LineScript

namespace Saved

def text (program : Program) : String :=
  (encodeProgram program).toText

inductive TextError where
  | malformed
  | unsupportedVersion (found : Nat)
deriving DecidableEq, Repr

/-- How many levels of arrays and objects a saved text may have. -/
def nestingLimit : Nat := 127

structure Envelope where
  version : Nat
  statements : Json

/-- A version number: a whole number of 32 bits without sign. -/
def version? : Json → Option Nat
  | .integer number => if 0 ≤ number ∧ number < UInt32.size then some number.toNat else none
  | _ => none

/-- How the parts of an envelope are read: one of its levels is used up. -/
def partReading : Json.Reading :=
  .meant (nestingLimit - 1)

/-- How the field of an envelope is read.  Only two are of interest. -/
def envelopeReading (name : String) : Json.Reading :=
  if name = "version" ∨ name = "statements" then partReading else .skipped

/-- The value of a field that is there exactly once. -/
def onlyField? (name : String) (fields : List (String × Json)) : Option Json :=
  match fields.filter fun field => field.1 = name with
  | [field] => some field.2
  | _ => none

/-- An envelope: an object with both of its fields, or an array of both values and nothing else. -/
def readEnvelope? (lexemes : List Json.Lexeme) : Option Envelope :=
  match lexemes with
  | .openArray :: tail =>
    match Json.readArray? partReading tail with
    | some ⟨[version, statements], [], _⟩ => return ⟨← version? version, statements⟩
    | _ => none
  | .openObject :: tail =>
    match Json.readObject? partReading envelopeReading tail with
    | some ⟨fields, [], _⟩ =>
      return ⟨← (onlyField? "version" fields).bind version?, ← onlyField? "statements" fields⟩
    | _ => none
  | _ => none

def readText (text : String) : Except TextError Program :=
  match (Json.Lexeme.split? text.toList).bind readEnvelope? with
  | none => .error .malformed
  | some envelope =>
    if envelope.version = formatVersion then
      match decodeProgram? envelope.statements with
      | some program => .ok program
      | none => .error .malformed
    else .error (.unsupportedVersion envelope.version)

end Saved

end LineScript
