/-
Module: MarkPress.Proofs.Number.Reading
Purpose: Reading a numeral.
  Digits are read as the number that they stand for, however many there are and however many of them
  are zeros at the beginning. White space around them does not count.
Main exports:
  SpacedNumeral, Binary64.integer?_numeral, Binary64.ofText_spacedNumeral
-/
import MarkPress.Number.Reading
import MarkPress.Proofs.Text.Numeral
import MarkPress.Proofs.Text.Trim

namespace MarkPress

/-- Digits with white space before and behind them, and the number that they stand for. -/
inductive SpacedNumeral : Text → ℕ → Prop where
  | spaced {before digits behind : Text} {n : ℕ} (start : ∀ c ∈ before, Text.isBlank c = true)
      (nonempty : digits ≠ []) (numeral : IsNumeral digits n)
      (ending : ∀ c ∈ behind, Text.isBlank c = true) :
      SpacedNumeral (before ++ digits ++ behind) n

variable {c : Char} {digits text : Text} {n : ℕ}

theorem not_isBlank_of_isDigit (digit : c.isDigit = true) : Text.isBlank c = false := by
  have range : 48 ≤ c.toNat ∧ c.toNat ≤ 57 := isDigit_iff.mp digit
  simp only [Text.isBlank, Bool.or_eq_false_iff, Bool.and_eq_false_iff, decide_eq_false_iff_not,
    beq_eq_false_iff_ne]
  omega

theorem IsNumeral.trim_eq (numeral : IsNumeral digits n) : digits.trim = digits := by
  rw [Text.trim_eq_iff, Text.trimStart_eq_iff, Text.trimEnd_eq_iff]
  constructor <;> intro c member <;> apply not_isBlank_of_isDigit <;> apply numeral.isDigit
  · exact List.mem_of_mem_head? member
  · exact List.mem_of_mem_getLast? member

theorem IsNumeral.trim_spaced {before behind : Text} (numeral : IsNumeral digits n)
    (start : ∀ c ∈ before, Text.isBlank c = true) (ending : ∀ c ∈ behind, Text.isBlank c = true) :
    (before ++ digits ++ behind).trim = digits := by
  rw [Text.trim_append_blanks ending, Text.trim_append start, numeral.trim_eq]

namespace Binary64

/-! ### Digits -/

theorem digitValue?_of_isDigit (digit : c.isDigit = true) :
    digitValue? 10 c = some (c.toNat - '0'.toNat) := by
  have range : 48 ≤ c.toNat ∧ c.toNat ≤ 57 := isDigit_iff.mp digit
  have small : c.toNat - 48 < 10 := by omega
  rw [digitValue?, if_pos digit, Option.filter_some]
  exact if_pos (decide_eq_true small)

/-- Behind digits already read, the number shifts by the digits that follow. -/
theorem integerFrom?_eq (ascii : ∀ c ∈ digits, c.isDigit = true) (read : ℕ) :
    integerFrom? 10 read digits
      = some (10 ^ digits.length * read
        + Nat.ofDigits 10 (digits.reverse.map fun c => c.toNat - '0'.toNat)) := by
  induction digits generalizing read with
  | nil => simp [integerFrom?]
  | cons c rest ih =>
      rw [integerFrom?, digitValue?_of_isDigit (ascii c List.mem_cons_self)]
      dsimp only
      rw [ih fun d member => ascii d (List.mem_cons_of_mem c member), List.reverse_cons,
        List.map_append, Nat.ofDigits_append, List.length_map, List.length_reverse,
        List.map_singleton, Nat.ofDigits_singleton, List.length_cons, Nat.pow_succ]
      congr 1
      ring

theorem integer?_numeral (nonempty : digits ≠ []) (numeral : IsNumeral digits n) :
    integer? 10 digits = some n := by
  rw [integer?, if_neg (by simpa using nonempty), integerFrom?_eq numeral.isDigit, Nat.mul_zero,
    Nat.zero_add, ← numeral.value]

/-- Digits ask for no other base: the letter that asks for one is none. -/
theorem based?_numeral (ascii : ∀ c ∈ digits, c.isDigit = true) : based? digits = none := by
  rw [based?.eq_def]
  split
  · rename_i c rest
    have digit := ascii c (by simp)
    rw [if_neg, if_neg, if_neg] <;> rintro (rfl | rfl) <;> revert digit <;> decide
  · rfl

theorem takeSign_numeral (ascii : ∀ c ∈ digits, c.isDigit = true) :
    takeSign digits = (false, digits) := by
  rw [takeSign.eq_def]
  split
  · exact absurd (ascii '-' List.mem_cons_self) (by decide)
  · exact absurd (ascii '+' List.mem_cons_self) (by decide)
  · rfl

theorem decimal?_numeral (nonempty : digits ≠ []) (numeral : IsNumeral digits n) :
    decimal? false digits = some (ofDecimal false n 0) := by
  have whole : digits.takeWhile Char.isDigit = digits :=
    List.takeWhile_eq_self_iff.mpr numeral.isDigit
  have behind : digits.dropWhile Char.isDigit = [] :=
    List.dropWhile_eq_nil_iff.mpr numeral.isDigit
  rw [decimal?, whole, behind]
  simp [integer?_numeral nonempty numeral, power?]

/-- A text of digits is read as the number that they stand for. -/
theorem ofText_spacedNumeral (spaced : SpacedNumeral text n) :
    ofText text = ofDecimal false n 0 := by
  obtain ⟨start, nonempty, numeral, ending⟩ := spaced
  rw [ofText, numeral.trim_spaced start ending]
  dsimp only
  rw [if_neg (by simpa using nonempty), based?_numeral numeral.isDigit]
  dsimp only
  rw [takeSign_numeral numeral.isDigit]
  dsimp only
  rw [if_neg, decimal?_numeral nonempty numeral]
  · rfl
  · rintro rfl
    exact absurd (numeral.isDigit 'I' (by simp)) (by decide)

end Binary64

end MarkPress
