import LineScript.Evaluation.RuntimeError

/-!
Where printed text goes.
-/

set_option autoImplicit false

namespace LineScript

/-- A text handed to a sink, and whether the sink took it. -/
structure Attempt where
  text : String
  taken : Bool
deriving DecidableEq, Repr

structure Sink where
  /-- How many more bytes fit, if there is a bound. -/
  room : Option Nat
  /-- Whether everything written can be delivered at the end. -/
  flushes : Bool
  /-- The texts handed over, latest first.  None is empty. -/
  attempts : List Attempt
deriving DecidableEq, Repr

namespace Sink

def unbounded : Sink :=
  ⟨none, true, []⟩

/-- The texts taken, in order. -/
def written (sink : Sink) : List String :=
  (sink.attempts.reverse.filter Attempt.taken).map Attempt.text

def text (sink : Sink) : String :=
  String.join sink.written

def roomAfter? (room : Option Nat) (bytes : Nat) : Option (Option Nat) :=
  match room with
  | none => some none
  | some room => if bytes ≤ room then some (some (room - bytes)) else none

/-- Writes a text as a whole or not at all.  Writing the empty text is no write. -/
def write (text : String) (sink : Sink) : Except RuntimeError Unit × Sink :=
  if text.isEmpty then (.ok (), sink)
  else
    match roomAfter? sink.room text.utf8ByteSize with
    | some room => (.ok (), { sink with room := room, attempts := ⟨text, true⟩ :: sink.attempts })
    | none => (.error (.output .closed), { sink with attempts := ⟨text, false⟩ :: sink.attempts })

def flush (sink : Sink) : Except RuntimeError Unit :=
  if sink.flushes then .ok () else .error (.output .flushFailed)

end Sink

end LineScript
