import LineScript.Files.Access
import LineScript.Saved.Text

/-!
Saved programs in files.
-/

set_option autoImplicit false

namespace LineScript

namespace Saved

inductive StoreError where
  | inaccessible (path : String) (fault : AccessFault)
  | text (error : TextError)
deriving DecidableEq, Repr

namespace StoreError

def message : StoreError → String
  | inaccessible path fault => "Could not access " ++ path ++ ": " ++ fault.message
  | text .malformed => "Malformed compiled program"
  | text (.unsupportedVersion found) =>
    "Unsupported compiled program version " ++ Nat.repr found ++ " (expected " ++
      Nat.repr formatVersion ++ ")"

/-- The message followed by that of its cause, if there is one. -/
def fullMessage (error : StoreError) : String :=
  match error with
  | inaccessible _ fault => error.message ++ ": " ++ fault.message
  | text _ => error.message

end StoreError

variable {m : Type → Type} [Monad m] [FileAccess m]

def save (path : String) (program : Program) : m (Except StoreError Unit) := do
  match ← FileAccess.writeText path (text program) with
  | .ok () => return .ok ()
  | .error fault => return .error (.inaccessible path fault)

def load (path : String) : m (Except StoreError Program) := do
  match ← FileAccess.readText path with
  | .error fault => return .error (.inaccessible path fault)
  | .ok content =>
    match readText content with
    | .ok program => return .ok program
    | .error error => return .error (.text error)

end Saved

end LineScript
