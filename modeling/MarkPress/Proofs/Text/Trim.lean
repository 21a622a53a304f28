/-
Module: MarkPress.Proofs.Text.Trim
Purpose: Texts that trimming leaves alone.
  Trimming takes a beginning and an end away. So a text that it leaves alone has no white space at
  either end, and only the last character of a text decides what trimming its end does.
Main exports:
  Text.exists_append_trimStart, Text.trimStart_eq_iff, Text.trimEnd_eq_iff, Text.trim_eq_iff,
  Text.not_isBlankText, Text.trim_append, Text.trim_append_blanks, Text.trim_eq_nil_iff
-/
import Mathlib.Data.List.TakeWhile
import MarkPress.Text.Blank

namespace MarkPress.Text

variable {text : Text} {c : Char}

theorem trimStart_suffix (text : Text) : text.trimStart <:+ text := List.dropWhile_suffix _

/-- What trimming the start of a text takes away is white space. -/
theorem exists_append_trimStart (text : Text) :
    ∃ gap, (∀ c ∈ gap, isBlank c = true) ∧ text = gap ++ text.trimStart :=
  ⟨text.takeWhile isBlank, fun _ => List.mem_takeWhile_imp, List.takeWhile_append_dropWhile.symm⟩

theorem trimEnd_begins (text : Text) : text.trimEnd <+: text := by
  rw [← List.reverse_suffix, trimEnd, List.reverse_reverse]
  exact trimStart_suffix text.reverse

theorem mem_of_mem_trim (member : c ∈ text.trim) : c ∈ text :=
  (trimStart_suffix text).subset ((trimEnd_begins text.trimStart).subset member)

/-- Trimming its start changes nothing of a text that is empty or begins with a visible character.
-/
theorem trimStart_eq_iff : text.trimStart = text ↔ ∀ c ∈ text.head?, isBlank c = false := by
  cases text with
  | nil => simp [trimStart]
  | cons c rest =>
      have shorter : (rest.dropWhile isBlank).length ≤ rest.length :=
        (List.dropWhile_suffix isBlank).length_le
      cases blank : isBlank c with
      | false => simp [trimStart, blank]
      | true =>
          simp only [trimStart, List.dropWhile_cons, blank, if_true, List.head?_cons,
            Option.mem_some_iff, forall_eq', Bool.true_eq_false, iff_false]
          intro same
          have long := congrArg List.length same
          rw [List.length_cons] at long
          omega

theorem trimEnd_eq_iff : text.trimEnd = text ↔ ∀ c ∈ text.getLast?, isBlank c = false := by
  rw [trimEnd, List.reverse_eq_iff, trimStart_eq_iff, List.head?_reverse]

/-- A text stays as it is if trimming changes neither end. -/
theorem trim_eq_iff : text.trim = text ↔ text.trimStart = text ∧ text.trimEnd = text := by
  constructor
  · intro trimmed
    have started : text.trimStart = text := by
      refine (trimStart_suffix text).eq_of_length (Nat.le_antisymm ?_ ?_)
      · exact (trimStart_suffix text).length_le
      · have shorter := (trimEnd_begins text.trimStart).length_le
        rwa [← trim, trimmed] at shorter
    rw [trim, started] at trimmed
    exact ⟨started, trimmed⟩
  · rintro ⟨started, ended⟩
    rw [trim, started, ended]

/-- A text with a visible character is not blank. -/
theorem not_isBlankText (member : c ∈ text) (visible : isBlank c = false) :
    text.isBlankText = false := by
  rw [isBlankText, List.all_eq_false]
  exact ⟨c, member, by simp [visible]⟩

theorem isBlank_of_isGap (gap : isGap c = true) : isBlank c = true := by
  simp only [isGap, Bool.or_eq_true, beq_iff_eq] at gap
  rcases gap with rfl | rfl <;> rfl

/-- White space in front of a text does not matter to trimming. -/
theorem trim_append {gap : Text} (blanks : ∀ c ∈ gap, isBlank c = true) (text : Text) :
    (gap ++ text).trim = text.trim := by
  rw [trim, trimStart, List.dropWhile_append_of_pos blanks]
  rfl

theorem trimEnd_append {gap : Text} (blanks : ∀ c ∈ gap, isBlank c = true) (text : Text) :
    (text ++ gap).trimEnd = text.trimEnd := by
  rw [trimEnd, trimEnd, List.reverse_append, trimStart, List.dropWhile_append_of_pos]
  · rfl
  · simpa using blanks

/-- Nor does white space behind it. -/
theorem trim_append_blanks {gap : Text} (blanks : ∀ c ∈ gap, isBlank c = true) (text : Text) :
    (text ++ gap).trim = text.trim := by
  rw [trim, trim, trimStart, trimStart, List.dropWhile_append]
  split
  · rename_i nothing
    rw [List.isEmpty_iff.mp nothing, List.dropWhile_eq_nil_iff.mpr blanks]
  · exact trimEnd_append blanks _

/-- Trimming leaves nothing of a text that is blank, and of no other. -/
theorem trim_eq_nil_iff : text.trim = [] ↔ text.isBlankText = true := by
  have ended : text.trim = [] ↔ ∀ c ∈ text.trimStart, isBlank c = true := by
    rw [trim, trimEnd, List.reverse_eq_nil_iff, trimStart, List.dropWhile_eq_nil_iff]
    simp only [List.mem_reverse]
  rw [ended, isBlankText, List.all_eq_true]
  refine ⟨fun behind c member => ?_, fun all c member =>
    all c ((trimStart_suffix text).subset member)⟩
  obtain ⟨gap, blanks, whole⟩ := exists_append_trimStart text
  rw [whole, List.mem_append] at member
  rcases member with start | later
  · exact blanks c start
  · exact behind c later

end MarkPress.Text
