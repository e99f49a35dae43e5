import LineScript.Program.GrammarError

/-!
Results of reading from the front of a token list.

A result says what is left of the tokens, also after an error, and carries the proof that this is
less than a given limit (no more than it, after an error).  Recursion on what is left therefore
ends without any further argument.
-/

set_option autoImplicit false

namespace LineScript

/-! ## Bounds on what is left

Stated about the tokens themselves, so that a definition can give them by name. -/

theorem length_nil_le : ([] : List Token).length ≤ ([] : List Token).length :=
  Nat.le_refl _

theorem length_le_self (tokens : List Token) : tokens.length ≤ tokens.length :=
  Nat.le_refl _

theorem length_le_of_lt {tokens : List Token} {limit : Nat} (shorter : tokens.length < limit) :
    tokens.length ≤ limit :=
  Nat.le_of_lt shorter

theorem length_tail_lt (token : Token) (tail : List Token) :
    tail.length < (token :: tail).length :=
  Nat.lt_succ_self _

/-! ## Results -/

/-- Something read from fewer than `limit` further tokens, or the error that stopped it. -/
inductive Parsed (α : Type) (limit : Nat) where
  | success (value : α) (rest : List Token) (shorter : rest.length < limit)
  | failure (error : GrammarError) (rest : List Token) (bounded : rest.length ≤ limit)

namespace Parsed

variable {α β : Type} {inner limit : Nat}

def within (fits : inner ≤ limit) : Parsed α inner → Parsed α limit
  | success value rest shorter => success value rest (Nat.lt_of_lt_of_le shorter fits)
  | failure error rest bounded => failure error rest (Nat.le_trans bounded fits)

def map (change : α → β) : Parsed α limit → Parsed β limit
  | success value rest shorter => success (change value) rest shorter
  | failure error rest bounded => failure error rest bounded

/-- Goes on after a success, under a limit that covers both parts. -/
def andThen (first : Parsed α inner) (fits : inner ≤ limit)
    (next : (value : α) → (rest : List Token) → rest.length < inner → Parsed β limit) :
    Parsed β limit :=
  match first with
  | success value rest shorter => next value rest shorter
  | failure error rest bounded => failure error rest (Nat.le_trans bounded fits)

/-- Goes on after a success with a second part that is bounded by what the first left. -/
def bind (first : Parsed α limit)
    (next : (value : α) → (rest : List Token) → rest.length < limit → Parsed β rest.length) :
    Parsed β limit :=
  first.andThen (Nat.le_refl limit) fun value rest shorter =>
    (next value rest shorter).within (Nat.le_of_lt shorter)

end Parsed

/-- A result together with the errors recorded on the way to it, which did not stop it. -/
structure Recorded (α : Type) (limit : Nat) where
  outcome : Parsed α limit
  errors : List GrammarError

def Parsed.record {α : Type} {limit : Nat} (outcome : Parsed α limit) : Recorded α limit :=
  ⟨outcome, []⟩

namespace Recorded

variable {α β : Type} {inner limit : Nat}

def within (fits : inner ≤ limit) (result : Recorded α inner) : Recorded α limit :=
  ⟨result.outcome.within fits, result.errors⟩

def map (change : α → β) (result : Recorded α limit) : Recorded β limit :=
  ⟨result.outcome.map change, result.errors⟩

def andThen (first : Recorded α inner) (fits : inner ≤ limit)
    (next : (value : α) → (rest : List Token) → rest.length < inner → Recorded β limit) :
    Recorded β limit :=
  match first.outcome with
  | .success value rest shorter =>
    let second := next value rest shorter
    ⟨second.outcome, first.errors ++ second.errors⟩
  | .failure error rest bounded =>
    ⟨.failure error rest (Nat.le_trans bounded fits), first.errors⟩

def bind (first : Recorded α limit)
    (next : (value : α) → (rest : List Token) → rest.length < limit → Recorded β rest.length) :
    Recorded β limit :=
  first.andThen (Nat.le_refl limit) fun value rest shorter =>
    (next value rest shorter).within (Nat.le_of_lt shorter)

end Recorded

/-! ## Single tokens -/

/-- Takes a token of the given kind; any other is left where it is. -/
def expect (kind : TokenKind) (tokens : List Token) : Parsed Token tokens.length :=
  match tokens with
  | [] => .failure .unexpectedEndOfInput [] (Nat.le_refl _)
  | token :: tail =>
    if token.kind = kind then .success token tail (Nat.lt_succ_self _)
    else
      .failure
        (.expected (if kind = .identifier then .variableName else .token kind) token.kind token.line)
        (token :: tail) (Nat.le_refl _)

def nextKind? (tokens : List Token) : Option TokenKind :=
  tokens.head?.map Token.kind

end LineScript
