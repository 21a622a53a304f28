/-
Module: MarkPress.Proofs.Document.Fields
Purpose: Fields of a header, written as lines and read back.
  The line of a field begins with a letter, so it is neither blank nor a separator, and ends with a
  visible character, so trimming its end changes nothing. Where its key ends a space stands or
  nothing, so the key and the value are found again.
Main exports:
  IsValue, HeaderField, HeaderField.line, HeaderField.readLine?_line, Header.splitLines_fields
-/
import MarkPress.Proofs.Document.Line
import MarkPress.Proofs.Text.Breaks

namespace MarkPress

/-- A value is not empty, has no white space around it and stands on one line. -/
def IsValue (value : Text) : Prop :=
  value ≠ [] ∧ value.trim = value
    ∧ '\n' ∉ value ∧ '\r' ∉ value ∧ '\u2028' ∉ value ∧ '\u2029' ∉ value

instance (value : Text) : Decidable (IsValue value) :=
  inferInstanceAs (Decidable (_ ∧ _ ∧ _ ∧ _ ∧ _ ∧ _))

/-- A field of a header: a key with a value or without one. -/
structure HeaderField where
  key : Text
  value : Option Text
  isKey : IsKey key
  isValue : ∀ v ∈ value, IsValue v

namespace HeaderField

variable (field : HeaderField)

theorem key_eq_cons : ∃ c rest, field.key = c :: rest ∧ 'a' ≤ c ∧ c ≤ 'z' := by
  obtain ⟨c, head, letter⟩ := field.isKey.1
  obtain ⟨rest, keyEq⟩ := List.head?_eq_some_iff.mp head
  exact ⟨c, rest, keyEq, letter⟩

theorem chars : ∀ c ∈ field.key, IsKeyChar c := field.isKey.2

/-- The line of a field: the key, and behind a space the value. -/
def line : Text := field.key ++ (field.value.map (' ' :: ·)).getD []

/-- What ends a line stands neither in a key nor in a value. -/
theorem not_mem_line {c : Char} (blank : Text.isBlank c = true) (space : c ≠ ' ')
    (absent : ∀ v ∈ field.value, c ∉ v) : c ∉ field.line := by
  rw [line, List.mem_append, not_or]
  constructor
  · intro member
    rw [(field.chars c member).visible] at blank
    cases blank
  · cases value : field.value with
    | none => simp
    | some v => simpa [space] using absent v value

theorem noBreak_line : '\n' ∉ field.line :=
  field.not_mem_line rfl (by decide) fun v member => (field.isValue v member).2.2.1

theorem noReturn_line : '\r' ∉ field.line :=
  field.not_mem_line rfl (by decide) fun v member => (field.isValue v member).2.2.2.1

/-! ### A line among others -/

theorem not_isSeparator_line : Header.isSeparator field.line = false := by
  obtain ⟨c, rest, keyEq, letter, -⟩ := field.key_eq_cons
  have differs : '-' ≠ c := by
    rintro rfl
    revert letter
    decide
  rw [Header.isSeparator, line, keyEq]
  simp [Text.after?, differs]

theorem not_isBlankText_line : field.line.isBlankText = false := by
  obtain ⟨c, rest, keyEq, -⟩ := field.key_eq_cons
  have inKey : c ∈ field.key := by simp [keyEq]
  exact Text.not_isBlankText (List.mem_append_left _ inKey) (field.chars c inKey).visible

theorem trimEnd_line : field.line.trimEnd = field.line := by
  rw [Text.trimEnd_eq_iff]
  intro c last
  rw [line] at last
  cases value : field.value with
  | none =>
      simp only [value, Option.map_none, Option.getD_none, List.append_nil] at last
      exact (field.chars c (List.mem_of_getLast? last)).visible
  | some v =>
      obtain ⟨filled, trimmed, -⟩ := field.isValue v value
      have lastOfValue : c ∈ v.getLast? := by
        cases v with
        | nil => exact absurd rfl filled
        | cons d rest => simpa [value, List.getLast?_append] using last
      exact Text.trimEnd_eq_iff.mp (Text.trim_eq_iff.mp trimmed).2 c lastOfValue

/-! ### Reading a line -/

/-- The line of a field says its key and its value. -/
theorem tells_line : Header.Tells field.line field.key field.value := by
  rw [line]
  cases value : field.value with
  | none =>
      simp only [Option.map_none, Option.getD_none, List.append_nil]
      exact .alone field.isKey
  | some v =>
      obtain ⟨filled, trimmed, oneLine⟩ := field.isValue v value
      have told := Header.Tells.valued field.isKey (List.cons_ne_nil ' ' [])
        (List.forall_mem_singleton.mpr rfl) oneLine
      rw [trimmed, if_neg filled, List.append_assoc] at told
      exact told

/-- The key and the value of a field are read back from its line. -/
theorem readLine?_line : Header.readLine? field.line = some (field.key, field.value) :=
  Header.readLine?_of_tells field.tells_line

end HeaderField

/-! ### The lines of a header -/

namespace Header

/-- The header lines of fields, the first of which stands on the line of a number. -/
def fieldLines (number : Nat) : List HeaderField → List HeaderLine
  | [] => []
  | field :: rest => ⟨field.line, number⟩ :: fieldLines (number + 1) rest

/-- The lines of fields are found before the separator, and all lines behind it. -/
theorem splitLines_fields (number : Nat) (fields : List HeaderField) (behind : List Text) :
    splitLines number (fields.map HeaderField.line ++ "---".toList :: behind)
      = some (fieldLines number fields, behind) := by
  induction fields generalizing number with
  | nil => rfl
  | cons field rest ih =>
      rw [List.map_cons, List.cons_append, splitLines, field.not_isSeparator_line,
        field.not_isBlankText_line, field.trimEnd_line, field.readLine?_line, ih]
      rfl

end Header

end MarkPress
