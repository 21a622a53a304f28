/-
Module: MarkPress.Proofs.Text.Numeral
Purpose: Numbers written in decimal digits.
Main exports:
  IsNumeral, isDigit_iff, IsNumeral.isDigit
-/
import Mathlib.Data.Nat.Digits.Lemmas
import MarkPress.Text.Basic

namespace MarkPress

/-- Digits from 0 to 9, and the number that they stand for. -/
structure IsNumeral (digits : Text) (n : ℕ) : Prop where
  ascii : ∀ c ∈ digits, '0' ≤ c ∧ c ≤ '9'
  value : n = Nat.ofDigits 10 (digits.reverse.map fun c => c.toNat - '0'.toNat)

instance (digits : Text) (n : ℕ) : Decidable (IsNumeral digits n) :=
  haveI : Decidable (∀ c ∈ digits, '0' ≤ c ∧ c ≤ '9') :=
    List.decidableBAll (fun c => '0' ≤ c ∧ c ≤ '9') digits
  decidable_of_iff
    ((∀ c ∈ digits, '0' ≤ c ∧ c ≤ '9')
      ∧ n = Nat.ofDigits 10 (digits.reverse.map fun c => c.toNat - '0'.toNat))
    ⟨fun ⟨ascii, value⟩ => ⟨ascii, value⟩, fun numeral => ⟨numeral.ascii, numeral.value⟩⟩

variable {c : Char} {digits : Text} {n : ℕ}

theorem isDigit_iff : c.isDigit = true ↔ '0' ≤ c ∧ c ≤ '9' := by
  simp [Char.isDigit, Char.le_def]

theorem IsNumeral.isDigit (numeral : IsNumeral digits n) : ∀ c ∈ digits, c.isDigit = true :=
  fun c member => isDigit_iff.mpr (numeral.ascii c member)

end MarkPress
