/-
Module: MarkPress.Proofs.Settings.ServerPort
Purpose: Which texts name a port, and what a refusal says.
  A numeral with white space around it is the port that it stands for, unless it stands for too
  large a number; then it is refused, however large the number is. Of any other text a port comes
  only if the number that is read is equal to one.
Main exports:
  ServerPort.ofText_eq_ok_iff, ServerPort.ofText_reads
-/
import MarkPress.Proofs.Number.Reading
import MarkPress.Proofs.Number.Whole
import MarkPress.Settings.ServerPort

namespace MarkPress.ServerPort

variable {text : Text} {n port : ℕ} {error : ServerPortError}

theorem ofText_eq_ok_iff :
    ofText text = .ok port ↔ port ≤ 65535 ∧ (Binary64.ofText text).toNat? = some port := by
  rw [ofText, largest]
  cases (Binary64.ofText text).toNat? with
  | none => simp
  | some number =>
      dsimp only
      split
      · rename_i small
        simp only [Except.ok.injEq, Option.some.injEq]
        exact ⟨fun same => ⟨same ▸ small, same⟩, And.right⟩
      · rename_i large
        simp only [reduceCtorEq, Option.some.injEq, false_iff, not_and]
        rintro small rfl
        exact large small

theorem text_of_ofText_eq_error (refused : ofText text = .error error) : error.text = text := by
  rw [ofText] at refused
  split at refused
  · cases refused
    rfl
  · split at refused
    · cases refused
    · cases refused
      rfl

theorem exists_error (refused : ∀ port, ofText text ≠ .ok port) : ofText text = .error ⟨text⟩ := by
  cases read : ofText text with
  | ok port => exact absurd read (refused port)
  | error error => rw [← text_of_ofText_eq_error read]

/-- A numeral is read as its number or refused, whatever its length. -/
theorem ofText_spacedNumeral (spaced : SpacedNumeral text n) :
    ofText text = if n ≤ 65535 then .ok n else .error ⟨text⟩ := by
  have read := Binary64.ofText_spacedNumeral spaced
  split
  · rename_i small
    rw [ofText_eq_ok_iff, read]
    exact ⟨small, Binary64.toNat?_ofDecimal (by omega)⟩
  · rename_i large
    refine exists_error fun port accepted => ?_
    rw [ofText_eq_ok_iff, read] at accepted
    rcases Nat.lt_or_ge n (2 ^ 53) with exact | rounded
    · rw [Binary64.toNat?_ofDecimal exact] at accepted
      cases accepted.2
      exact large accepted.1
    · have := Binary64.le_of_toNat?_ofDecimal rounded accepted.2
      omega

/-- A numeral with white space around it names the port with its number if that is not too large,
and else is refused. Whatever the text, a port that it names is a whole number in range, the one
that the number read from it is equal to, and a refusal shows the text as it was given. -/
theorem ofText_reads (text : Text) :
    (∀ n, SpacedNumeral text n → ofText text = if n ≤ 65535 then .ok n else .error ⟨text⟩)
      ∧ (∀ port, ofText text = .ok port ↔
        port ≤ 65535 ∧ (Binary64.ofText text).value? = some (port : ℚ))
      ∧ ∀ error, ofText text = .error error → error.message = "invalid port: ".toList ++ text := by
  refine ⟨fun n spaced => ofText_spacedNumeral spaced, fun port => ?_, fun error refused => ?_⟩
  · rw [ofText_eq_ok_iff, Binary64.toNat?_eq_some_iff]
  · exact congrArg ("invalid port: ".toList ++ ·) (text_of_ofText_eq_error refused)

/-- Zeros before the number and white space of two kinds around it, and a number that 53 binary
digits do not hold. -/
theorem ofText_reads_numerals :
    SpacedNumeral "\t00080\u2028".toList 80 ∧ ofText "\t00080\u2028".toList = .ok 80
      ∧ SpacedNumeral "18446744073709551617 ".toList 18446744073709551617
      ∧ ofText "18446744073709551617 ".toList = .error ⟨"18446744073709551617 ".toList⟩ := by
  have small : SpacedNumeral "\t00080\u2028".toList 80 :=
    @SpacedNumeral.spaced ['\t'] "00080".toList ['\u2028'] 80 (List.forall_mem_singleton.mpr rfl)
      (by decide) (by decide) (List.forall_mem_singleton.mpr rfl)
  have large : SpacedNumeral "18446744073709551617 ".toList 18446744073709551617 :=
    @SpacedNumeral.spaced [] "18446744073709551617".toList [' '] 18446744073709551617
      (List.forall_mem_nil _) (by decide) (by decide) (List.forall_mem_singleton.mpr rfl)
  refine ⟨small, ?_, large, ?_⟩
  · rw [(ofText_reads _).1 80 small, if_pos (by decide)]
  · rw [(ofText_reads _).1 _ large, if_neg (by decide)]

end MarkPress.ServerPort
