import LineScript.Proofs.Reading.Forks
import LineScript.Proofs.Validation.Coherence
import Mathlib.Data.List.Permutation

/-!
The end of input as a barrier.

Neither reading nor validation passes the first end-of-input token, however broken the tokens in
front of it are.  What stands behind it does not matter, and reading never finds that the tokens
have run out.
-/

set_option autoImplicit false

namespace LineScript

/-- The tokens up to the first end of input, with it. -/
def tokensToEnd (tokens : List Token) : List Token :=
  tokens.take ((tokensBeforeEnd tokens).length + 1)

private theorem exists_tokensToEnd {tokens : List Token}
    (ended : ∃ token ∈ tokens, token.kind = .inputEnd) :
    ∃ front ending behind, ending.kind = .inputEnd ∧ tokens = front ++ ending :: behind ∧
      tokensToEnd tokens = front ++ [ending] := by
  induction tokens with
  | nil =>
      obtain ⟨_, member, _⟩ := ended
      cases member
  | cons token tail ih =>
      by_cases ends : token.kind = .inputEnd
      · exact ⟨[], token, tail, ends, rfl, by simp [tokensToEnd, tokensBeforeEnd, ends]⟩
      · obtain ⟨last, member, lastEnds⟩ := ended
        have later : last ∈ tail := by
          rcases List.mem_cons.mp member with rfl | later
          · exact absurd lastEnds ends
          · exact later
        obtain ⟨front, ending, behind, inputEnd, split, cut⟩ := ih ⟨last, later, lastEnds⟩
        have longer : tokensToEnd (token :: tail) = token :: tokensToEnd tail := by
          simp [tokensToEnd, tokensBeforeEnd, ends]
        exact ⟨token :: front, ending, behind, inputEnd, by rw [split, List.cons_append],
          by rw [longer, cut, List.cons_append]⟩

/-- The end of input with one or the other list behind it, and anything in front. -/
def Fork.atEnd (ending : Token) (ends : ending.kind = .inputEnd) (behind other : List Token) :
    Fork where
  stop := ending
  behind := behind
  other := other
  admits _ := True
  ends := .inl ends

theorem Fork.aligned_atEnd {ending : Token} (ends : ending.kind = .inputEnd)
    (front behind other : List Token) :
    (Fork.atEnd ending ends behind other).Aligned (front ++ ending :: behind)
      (front ++ ending :: other) :=
  Aligned.of_append (Fork.atEnd ending ends behind other) fun _ _ => trivial

/-! ## Reading -/

theorem Program.read_atEnd {ending : Token} (ends : ending.kind = .inputEnd)
    (front behind other : List Token) :
    Program.read (front ++ ending :: behind) = Program.read (front ++ ending :: other) ∧
      .unexpectedEndOfInput ∉ (Program.read (front ++ ending :: behind)).2 := by
  have aligned := Fork.aligned_atEnd ends front behind other
  have mirrors := (Statement.readers_mirror _).2.2.2.1 false _ ends _ aligned
  exact ⟨Prod.ext mirrors.statements_eq mirrors.errors_eq, mirrors.notExhausted⟩

/-! ## Validation -/

namespace Validation

namespace Validator

variable {fork : Fork} {all tokens others : List Token} {validator : Validator}

/-- A line is given up to the same place, or all of the tokens are. -/
private theorem skipLine_aligned (validator : Validator) (ends : fork.stop.kind = .inputEnd)
    (aligned : fork.Aligned tokens others) :
    (validator.skipLine tokens).1 = (validator.skipLine others).1 ∧
      (fork.Aligned (validator.skipLine tokens).2 (validator.skipLine others).2 ∨
        (validator.skipLine tokens).2 = [] ∧ (validator.skipLine others).2 = []) := by
  induction aligned generalizing validator with
  | stop =>
      simp only [skipLine, ends]
      exact ⟨trivial, .inr ⟨trivial, trivial⟩⟩
  | cons _ aligned ih =>
      simp only [skipLine]
      split
      · exact ⟨rfl, .inl aligned⟩
      · exact ⟨rfl, .inr ⟨rfl, rfl⟩⟩
      · exact ih _
      · split
        · exact ih _
        · exact ih _
      · exact ih _

/-- An end of input that is not refused ends the validation. -/
theorem Reaches.done_of_inputEnd {next : Validator} {token : Token} {tail : List Token}
    (reached : Reaches all validator (token :: tail)) (stepped : validator.step token = .ok next)
    (ends : token.kind = .inputEnd) : next.position = .done := by
  by_cases done : validator.position = .done
  · rw [step_of_done done] at stepped
    cases stepped
    exact done
  · obtain ⟨_, _, finishes⟩ := takes_of_step reached.coherent.1 done stepped
    exact finishes.mpr ends

/-- Validation reports the same from every state that it can come to. -/
theorem errors_aligned (ends : fork.stop.kind = .inputEnd) (reached : Reaches all validator tokens)
    (aligned : fork.Aligned tokens others) : validator.errors tokens = validator.errors others := by
  fun_induction errors validator tokens generalizing others with
  | case1 validator => cases aligned
  | case2 validator token tail next stepped done =>
      obtain ⟨otherTail, rfl⟩ := aligned.head
      rw [errors]
      simp only [stepped, if_pos done]
  | case3 validator token tail next stepped running ih =>
      obtain ⟨otherTail, rfl⟩ := aligned.head
      have inside : token ≠ fork.stop := by
        rintro rfl
        exact running (reached.done_of_inputEnd stepped ends)
      rw [errors]
      simp only [stepped, if_neg running]
      exact ih (reached.taken stepped running) (aligned.tail inside)
  | case4 validator token tail error refused ih =>
      obtain ⟨otherTail, rfl⟩ := aligned.head
      obtain ⟨same, rests⟩ := skipLine_aligned validator.abandon ends aligned
      have behind :
          (validator.recover (token :: tail)).1.errors (validator.recover (token :: tail)).2 =
            (validator.recover (token :: tail)).1.errors
              (validator.recover (token :: otherTail)).2 := by
        rcases rests with rests | ⟨rest, otherRest⟩
        · exact ih (reached.recovered refused) rests
        · rw [recover, recover, rest, otherRest]
      rw [errors]
      simp only [refused]
      rw [behind, recover, recover, same]

end Validator

private theorem validate_atEnd {ending : Token} (ends : ending.kind = .inputEnd)
    (front behind other : List Token) :
    validate (front ++ ending :: behind) = validate (front ++ ending :: other) :=
  Validator.errors_aligned ends .start (Fork.aligned_atEnd ends front behind other)

end Validation

/-! ## Both -/

/-- From tokens that have an end of input, reading and validation get the same with anything behind
them, and without all that stands behind the first end.  Reading never runs out of tokens. -/
theorem read_validate_toEnd (tokens junk : List Token)
    (ended : ∃ token ∈ tokens, token.kind = .inputEnd) :
    (Program.read (tokens ++ junk) = Program.read tokens ∧
      Program.read (tokensToEnd tokens) = Program.read tokens ∧
      .unexpectedEndOfInput ∉ (Program.read tokens).2) ∧
    validate (tokens ++ junk) = validate tokens ∧
      validate (tokensToEnd tokens) = validate tokens := by
  obtain ⟨front, ending, behind, ends, rfl, cut⟩ := exists_tokensToEnd ended
  rw [cut, List.append_assoc, List.cons_append]
  refine ⟨⟨?_, ?_, ?_⟩, ?_, ?_⟩
  · exact (Program.read_atEnd ends front (behind ++ junk) behind).1
  · exact (Program.read_atEnd ends front [] behind).1
  · exact (Program.read_atEnd ends front behind behind).2
  · exact Validation.validate_atEnd ends front (behind ++ junk) behind
  · exact Validation.validate_atEnd ends front [] behind

/-- The tokens of `{ print (` up to an end of input, and behind it `) }` up to another. -/
def closedTooLate : List Token :=
  [⟨.leftBrace, none, 1⟩, ⟨.printWord, none, 1⟩, ⟨.leftParen, none, 1⟩, ⟨.inputEnd, none, 1⟩,
    ⟨.rightParen, none, 2⟩, ⟨.rightBrace, none, 2⟩, ⟨.inputEnd, none, 2⟩]

/-- What is left open in front of the first end of input is not closed behind it. -/
theorem read_validate_closedTooLate :
    (∃ token ∈ closedTooLate, token.kind = .inputEnd) ∧
    (Program.read (closedTooLate ++ closedTooLate)).2 =
      [.expectedExpression .inputEnd 1, .unbalanced .rightBrace 1] ∧
    Program.read (tokensToEnd closedTooLate) = Program.read closedTooLate ∧
    validate (closedTooLate ++ closedTooLate) = [.expectedExpression .inputEnd 1] ∧
    validate (tokensToEnd closedTooLate) = [.expectedExpression .inputEnd 1] := by
  have ended : ∃ token ∈ closedTooLate, token.kind = .inputEnd := by decide
  have recorded : (Program.read closedTooLate).2 =
      [.expectedExpression .inputEnd 1, .unbalanced .rightBrace 1] := by
    cbv
  have reported : validate closedTooLate = [.expectedExpression .inputEnd 1] := by
    decide +kernel
  obtain ⟨⟨longer, shorter, _⟩, longerReported, shorterReported⟩ :=
    read_validate_toEnd closedTooLate closedTooLate ended
  exact ⟨ended, longer ▸ recorded, shorter, longerReported.trans reported,
    shorterReported.trans reported⟩

end LineScript
