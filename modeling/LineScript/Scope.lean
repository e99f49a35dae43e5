/-!
Nested scopes.

A stack of scopes always has an outermost one, which is never left.
-/

set_option autoImplicit false

namespace LineScript

/-- Scopes from the innermost outwards. -/
structure ScopeStack (α : Type) where
  innermost : α
  enclosing : List α
deriving DecidableEq, Repr

namespace ScopeStack

variable {α : Type}

def single (scope : α) : ScopeStack α :=
  ⟨scope, []⟩

def toList (scopes : ScopeStack α) : List α :=
  scopes.innermost :: scopes.enclosing

def depth (scopes : ScopeStack α) : Nat :=
  scopes.enclosing.length + 1

def enter (scope : α) (scopes : ScopeStack α) : ScopeStack α :=
  ⟨scope, scopes.toList⟩

/-- Closes the innermost scope, unless it is the outermost one too. -/
def leave (scopes : ScopeStack α) : ScopeStack α :=
  match scopes.enclosing with
  | [] => scopes
  | next :: others => ⟨next, others⟩

def unwind (scopes : ScopeStack α) : ScopeStack α :=
  ⟨scopes.enclosing.getLastD scopes.innermost, []⟩

@[simp] theorem toList_enter (scope : α) (scopes : ScopeStack α) :
    (scopes.enter scope).toList = scope :: scopes.toList := rfl

@[simp] theorem leave_enter (scope : α) (scopes : ScopeStack α) :
    (scopes.enter scope).leave = scopes := rfl

@[simp] theorem depth_enter (scope : α) (scopes : ScopeStack α) :
    (scopes.enter scope).depth = scopes.depth + 1 := rfl

@[simp] theorem depth_unwind (scopes : ScopeStack α) : scopes.unwind.depth = 1 := rfl

end ScopeStack

abbrev NameScopes := ScopeStack (List String)

namespace NameScopes

def empty : NameScopes :=
  ScopeStack.single []

def declaredHere (name : String) (scopes : NameScopes) : Bool :=
  scopes.innermost.contains name

def isVisible (name : String) (scopes : NameScopes) : Bool :=
  scopes.toList.any fun names => names.contains name

/-- Declares a name in the innermost scope; a second declaration there changes nothing. -/
def declare (name : String) (scopes : NameScopes) : NameScopes :=
  if scopes.declaredHere name then scopes
  else { scopes with innermost := name :: scopes.innermost }

end NameScopes

end LineScript
