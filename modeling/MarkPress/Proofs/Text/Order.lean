/-
Module: MarkPress.Proofs.Text.Order
Purpose: The order of texts is the dictionary order of their 16-bit units.
  The rank of a character says how its units compare with those of any other one, whatever stands
  behind them. So comparing texts is comparing lists of numbers.
Main exports:
  Text.codeUnits, Text.precedes_iff, Text.codeUnits_injective, Text.compare_compares
-/
import Mathlib.Data.List.Lex
import Mathlib.Order.Compare
import MarkPress.Text.Order

namespace MarkPress.Text

variable {left right : Text}

/-- The 16-bit units of a text. -/
def codeUnits (text : Text) : List ℕ := text.flatMap units

/-- The units of the lesser character come first, whatever stands behind them. -/
theorem units_append_lt {a b : Char} (lesser : rank a < rank b) (behind other : List ℕ) :
    units a ++ behind < units b ++ other := by
  have validA := a.valid
  have validB := b.valid
  simp only [UInt32.isValidChar, Nat.isValidChar, rank, Char.toNat] at validA validB lesser
  simp only [units, Char.toNat]
  split <;> split <;>
    simp only [List.cons_append, List.nil_append, List.cons_lt_cons_iff] <;>
    split at lesser <;> split at lesser <;> omega

theorem codeUnits_lt_of_precedes (before : precedes left right = true) :
    left.codeUnits < right.codeUnits := by
  induction left generalizing right with
  | nil =>
      cases right with
      | nil => simp [precedes] at before
      | cons b right =>
          simp only [codeUnits, List.flatMap_nil, List.flatMap_cons, units]
          split <;> exact List.nil_lt_cons _ _
  | cons a left ih =>
      cases right with
      | nil => simp [precedes] at before
      | cons b right =>
          simp only [precedes, Bool.or_eq_true, Bool.and_eq_true, decide_eq_true_eq,
            beq_iff_eq] at before
          simp only [codeUnits, List.flatMap_cons]
          rcases before with lesser | ⟨rfl, later⟩
          · exact units_append_lt lesser _ _
          · exact List.append_left_lt (ih later)

/-- A text comes before another one if its units do. -/
theorem precedes_iff : precedes left right = true ↔ left.codeUnits < right.codeUnits := by
  constructor
  · exact codeUnits_lt_of_precedes
  · intro lesser
    rcases precedes_total left right with before | rfl | behind
    · exact before
    · exact absurd lesser (lt_irrefl _)
    · exact absurd lesser (lt_asymm (codeUnits_lt_of_precedes behind))

/-- Different texts have different units. -/
theorem codeUnits_injective : Function.Injective codeUnits := by
  intro left right same
  rcases precedes_total left right with before | equal | behind
  · exact absurd same (codeUnits_lt_of_precedes before).ne
  · exact equal
  · exact absurd same (codeUnits_lt_of_precedes behind).ne'

/-- Texts compare as their units do. -/
theorem compare_compares (left right : Text) :
    (compare left right).Compares left.codeUnits right.codeUnits := by
  rw [compare]
  split
  · rename_i before
    exact precedes_iff.mp before
  · split
    · rename_i behind
      exact precedes_iff.mp behind
    · rename_i notBefore notBehind
      rcases precedes_total left right with before | equal | behind
      · exact absurd before notBefore
      · exact congrArg codeUnits equal
      · exact absurd behind notBehind

end MarkPress.Text
