import LineScript.Evaluation.RuntimeError
import LineScript.Scope

/-!
Variables and their values.

A variable is pinned to the kind of its first value; its scope binds each name at most once.
-/

set_option autoImplicit false

namespace LineScript

structure Binding where
  /-- The kind of the value the variable was defined with. -/
  pinned : Kind
  value : Value
deriving DecidableEq, Repr

/-- The bindings of one scope, latest first. -/
abbrev Frame := List (String × Binding)

namespace Frame

def find? (name : String) (frame : Frame) : Option Binding :=
  frame.lookup name

def update (name : String) (value : Value) (frame : Frame) : Frame :=
  frame.map fun entry =>
    if entry.1 = name then (entry.1, { entry.2 with value := value }) else entry

end Frame

abbrev Environment := ScopeStack Frame

namespace Environment

def empty : Environment :=
  ScopeStack.single []

def find? (name : String) (environment : Environment) : Option Binding :=
  environment.toList.findSome? fun frame => frame.find? name

def get (name : String) (line : Nat) (environment : Environment) : Except RuntimeError Value :=
  match environment.find? name with
  | some binding => .ok binding.value
  | none => .error (.unknownVariable name line)

/-- Binds a new name in the innermost scope.  Outer bindings of the same name are shadowed. -/
def define (name : String) (value : Value) (line : Nat) (environment : Environment) :
    Except RuntimeError Environment :=
  match environment.innermost.find? name with
  | some _ => .error (.alreadyDefined name line)
  | none =>
    .ok { environment with innermost := (name, ⟨value.kind, value⟩) :: environment.innermost }

def updateFrames (name : String) (value : Value) : List Frame → List Frame
  | [] => []
  | frame :: others =>
    match frame.find? name with
    | some _ => frame.update name value :: others
    | none => frame :: updateFrames name value others

def update (name : String) (value : Value) (environment : Environment) : Environment :=
  match environment.innermost.find? name with
  | some _ => { environment with innermost := environment.innermost.update name value }
  | none => { environment with enclosing := updateFrames name value environment.enclosing }

/-- Stores a value in the innermost binding of a name, if its pinned kind accepts the value. -/
def assign (name : String) (value : Value) (line : Nat) (environment : Environment) :
    Except RuntimeError Environment :=
  match environment.find? name with
  | none => .error (.unknownVariable name line)
  | some binding =>
    if binding.pinned.accepts value.kind then .ok (environment.update name value)
    else .error (.kindMismatch name binding.pinned value.kind line)

end Environment

end LineScript
