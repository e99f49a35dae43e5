/-!
Messages about a source text.

Every stage appends its messages to one list that is handed from stage to stage; a stage looks at
the errors already in it to decide whether to go on.
-/

set_option autoImplicit false

namespace LineScript

inductive Severity where
  | info
  | warning
  | error
deriving DecidableEq, Repr

def Severity.label : Severity → String
  | .info => "Info"
  | .warning => "Warning"
  | .error => "Error"

structure Diagnostic where
  severity : Severity
  message : String
  line : Option Nat
deriving DecidableEq, Repr

/-- The messages reported so far, oldest first. -/
abbrev Diagnostics := List Diagnostic

namespace Diagnostic

def isError (diagnostic : Diagnostic) : Bool :=
  diagnostic.severity = .error

def toText (diagnostic : Diagnostic) : String :=
  "[" ++ diagnostic.severity.label ++ "]: " ++ diagnostic.message ++
    match diagnostic.line with
    | some line => " on line " ++ Nat.repr line
    | none => ""

end Diagnostic

namespace Diagnostics

def errors (diagnostics : Diagnostics) : List Diagnostic :=
  diagnostics.filter Diagnostic.isError

def errorCount (diagnostics : Diagnostics) : Nat :=
  diagnostics.countP Diagnostic.isError

def hasError (diagnostics : Diagnostics) : Bool :=
  diagnostics.any Diagnostic.isError

/-- How many errors have been reported since the diagnostics were `earlier`. -/
def errorsSince (diagnostics earlier : Diagnostics) : Nat :=
  diagnostics.errorCount - earlier.errorCount

/-- One message a line, with no line break after the last. -/
def toText (diagnostics : Diagnostics) : String :=
  "\n".intercalate (diagnostics.map Diagnostic.toText)

end Diagnostics

end LineScript
