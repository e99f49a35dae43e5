import LineScript.Evaluation.Machine
import LineScript.Program.Statement
import LineScript.Token.Scan
import LineScript.Validation.Validator

/-!
From source text to a checked program.

The stages are scanning, validation, reading and the check of kinds.  Each stage appends its errors
to the diagnostics it is given, and the next one only starts if there is no error among them, old
ones included.
-/

set_option autoImplicit false

namespace LineScript

/-- How far the stages got, and everything reported. -/
structure Compilation where
  /-- The program read; empty if reading was not reached. -/
  program : Program
  accepted : Bool
  diagnostics : Diagnostics

/-- Validates, reads and checks tokens.  Validation and the check judge by what they report
themselves; before reading and before the check, errors from earlier stages count as well. -/
def compileTokens (tokens : List Token) (prior : Diagnostics) : Compilation :=
  let validated := prior ++ (validate tokens).map GrammarError.toDiagnostic
  if validated.errorsSince prior ≠ 0 || validated.hasError then ⟨[], false, validated⟩
  else
    let (program, errors) := Program.read tokens
    let read := validated ++ errors.map GrammarError.toDiagnostic
    if read.hasError then ⟨program, false, read⟩
    else
      let checked := read ++ program.check.map RuntimeError.toDiagnostic
      ⟨program, checked.errorsSince read = 0, checked⟩

/-- Compiles a source text: the program if it was accepted, and the diagnostics in any case. -/
def compile (source : String) (prior : Diagnostics) : Option Program × Diagnostics :=
  let scan := Scan.ofText source
  let compilation := compileTokens scan.tokens (prior ++ scan.diagnostics)
  (if compilation.accepted then some compilation.program else none, compilation.diagnostics)

inductive InterpretError where
  | rejected (diagnostics : Diagnostics)
  | runtime (error : RuntimeError)
  /-- A loop reached its pass limit. -/
  | unfinished

def interpret (passLimit : Nat) (source : String) : Except InterpretError String :=
  match compile source [] with
  | (none, diagnostics) => .error (.rejected diagnostics)
  | (some program, _) =>
    match program.execute passLimit .unbounded with
    | (.completed, sink) => .ok sink.text
    | (.failed error, _) => .error (.runtime error)
    | (.unfinished, _) => .error .unfinished

end LineScript
