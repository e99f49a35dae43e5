import LineScript.Digits
import Mathlib.Data.List.TakeWhile
import Mathlib.Tactic.IntervalCases

/-!
Runs of characters of one class, and runs of digits with the number they write.
-/

set_option autoImplicit false

namespace LineScript

/-! ## Runs -/

section Spans

variable {keep : Char → Bool} {written rest : List Char}

theorem takeWhile_span (inside : ∀ character ∈ written, keep character = true)
    (ends : ∀ character ∈ rest.head?, keep character = false) :
    (written ++ rest).takeWhile keep = written := by
  rw [List.takeWhile_append_of_pos inside]
  cases rest with
  | nil => simp
  | cons head tail => simp [ends head rfl]

theorem dropWhile_span (inside : ∀ character ∈ written, keep character = true)
    (ends : ∀ character ∈ rest.head?, keep character = false) :
    (written ++ rest).dropWhile keep = rest := by
  rw [List.dropWhile_append_of_pos inside]
  cases rest with
  | nil => rfl
  | cons head tail => simp [ends head rfl]

theorem head_dropWhile (keep : Char → Bool) (text : List Char) :
    ∀ character ∈ (text.dropWhile keep).head?, keep character = false := by
  intro character first
  have stops := List.head?_dropWhile_not keep text
  rw [Option.mem_def.mp first] at stops
  simpa using stops

end Spans

/-! ## Digits -/

private theorem digitsValue_eq
    (digits : List Char) : digitsValue digits = Nat.ofDigitChars 10 digits 0 :=
  rfl

theorem digitsValue_toDigits (number : Nat) : digitsValue (Nat.toDigits 10 number) = number :=
  Nat.ofDigitChars_ten_toDigits

theorem digitsValue_replicate_append (count : Nat) (digits : List Char) :
    digitsValue (List.replicate count '0' ++ digits) = digitsValue digits := by
  rw [digitsValue_eq, Nat.ofDigitChars_append, Nat.ofDigitChars_replicate_zero, Nat.mul_zero,
    digitsValue_eq]

theorem digitsValue_append_replicate (digits : List Char) (count : Nat) :
    digitsValue (digits ++ List.replicate count '0') = digitsValue digits * 10 ^ count := by
  rw [digitsValue_eq, Nat.ofDigitChars_append, Nat.ofDigitChars_replicate_zero, Nat.mul_comm,
    digitsValue_eq]

theorem isDigit_of_mem_toDigits {number : Nat} {digit : Char}
    (member : digit ∈ Nat.toDigits 10 number) : digit.isDigit = true :=
  Nat.isDigit_of_mem_toDigits (by decide) (by decide) member

/-- At least one digit, and nothing else. -/
def IsDigits (digits : List Char) : Prop :=
  digits ≠ [] ∧ ∀ digit ∈ digits, digit.isDigit = true

theorem isDigits_toDigits (number : Nat) : IsDigits (Nat.toDigits 10 number) :=
  ⟨Nat.toDigits_ne_nil, fun _ => isDigit_of_mem_toDigits⟩

theorem isDigits_takeWhile {head : Char} {tail : List Char} (digit : head.isDigit = true) :
    IsDigits ((head :: tail).takeWhile Char.isDigit) := by
  rw [List.takeWhile_cons_of_pos digit]
  exact ⟨nofun, List.forall_mem_cons.mpr ⟨digit, fun _ member => List.mem_takeWhile_imp member⟩⟩

theorem head_toDigits_ne_zero {number : Nat} (positive : 0 < number) :
    (Nat.toDigits 10 number).head? ≠ some '0' := by
  induction number using Nat.strongRecOn with
  | ind number ih =>
      rw [Nat.toDigits_eq_if (by decide)]
      split
      · next small =>
        clear ih
        interval_cases number <;> decide
      · next large =>
        have inner := ih (number / 10) (by omega) (by omega)
        rw [List.head?_append]
        cases front : (Nat.toDigits 10 (number / 10)).head? with
        | none => exact absurd (List.head?_eq_none_iff.mp front) Nat.toDigits_ne_nil
        | some digit =>
            rw [front] at inner
            simpa using inner

end LineScript
