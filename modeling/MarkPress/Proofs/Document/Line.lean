/-
Module: MarkPress.Proofs.Document.Line
Purpose: The form of a header line, and what a line of that form says.
  A line says a key and perhaps a value. The key reaches as far as its characters do, so a line says
  one key and one value at most, and reading it finds them whenever it has the form.
Main exports:
  IsKeyChar, IsKey, Text.OneLine, Header.Tells, Header.readLine?_eq_some_iff
-/
import MarkPress.Header.Basic
import MarkPress.Proofs.Text.Ends
import MarkPress.Proofs.Text.Trim

namespace MarkPress

/-- A character of a key: a small letter, a digit, an underscore or a hyphen. -/
def IsKeyChar (c : Char) : Prop := ('a' ≤ c ∧ c ≤ 'z') ∨ ('0' ≤ c ∧ c ≤ '9') ∨ c = '_' ∨ c = '-'

instance (c : Char) : Decidable (IsKeyChar c) := inferInstanceAs (Decidable (_ ∨ _))

/-- A key begins with a small letter. -/
def IsKey (key : Text) : Prop :=
  (∃ c ∈ key.head?, 'a' ≤ c ∧ c ≤ 'z') ∧ ∀ c ∈ key, IsKeyChar c

-- The quantifiers range over the text, so they are not decided by trying all characters.
instance (key : Text) : Decidable (IsKey key) :=
  @instDecidableAnd _ _ (Option.decidableExistsMem _) (List.decidableBAll _ _)

/-- No character of the text ends a line. -/
def Text.OneLine (text : Text) : Prop :=
  '\n' ∉ text ∧ '\r' ∉ text ∧ '\u2028' ∉ text ∧ '\u2029' ∉ text

/-! ### Characters -/

section Characters

variable {c : Char} {text : Text}

theorem isLower_iff : c.isLower = true ↔ 'a' ≤ c ∧ c ≤ 'z' := by
  change (decide ('a' ≤ c) && decide (c ≤ 'z')) = true ↔ _
  rw [Bool.and_eq_true, decide_eq_true_iff, decide_eq_true_iff]

theorem isKeyChar_iff : Header.isKeyChar c = true ↔ IsKeyChar c := by
  rw [Header.isKeyChar, IsKeyChar, Bool.or_eq_true, Bool.or_eq_true, Bool.or_eq_true, isLower_iff]
  simp [Char.isDigit, Char.le_def, or_assoc]

theorem IsKeyChar.visible (char : IsKeyChar c) : Text.isBlank c = false := by
  have range : (97 ≤ c.toNat ∧ c.toNat ≤ 122) ∨ (48 ≤ c.toNat ∧ c.toNat ≤ 57) ∨ c.toNat = 95
      ∨ c.toNat = 45 := by
    rcases char with letter | digit | rfl | rfl
    · exact .inl letter
    · exact .inr (.inl digit)
    · decide
    · decide
  simp only [Text.isBlank, Bool.or_eq_false_iff, Bool.and_eq_false_iff, decide_eq_false_iff_not,
    beq_eq_false_iff_ne]
  omega

theorem not_isKeyChar_of_isGap (gap : Text.isGap c = true) : Header.isKeyChar c = false := by
  simp only [Text.isGap, Bool.or_eq_true, beq_iff_eq] at gap
  rcases gap with rfl | rfl <;> decide

theorem not_isTerminator_of_isGap (gap : Text.isGap c = true) : Text.isTerminator c = false := by
  simp only [Text.isGap, Bool.or_eq_true, beq_iff_eq] at gap
  rcases gap with rfl | rfl <;> decide

theorem isTerminator_iff :
    Text.isTerminator c = true ↔ c = '\n' ∨ c = '\r' ∨ c = '\u2028' ∨ c = '\u2029' := by
  have line : c.toNat = 0x2028 ↔ c = '\u2028' := Char.toNat_inj (d := '\u2028')
  have paragraph : c.toNat = 0x2029 ↔ c = '\u2029' := Char.toNat_inj (d := '\u2029')
  simp [Text.isTerminator, line, paragraph, or_assoc]

theorem Text.oneLine_iff : text.OneLine ↔ text.any Text.isTerminator = false := by
  have absent : text.any Text.isTerminator = false ↔ ∀ c ∈ text,
      ¬ (c = '\n' ∨ c = '\r' ∨ c = '\u2028' ∨ c = '\u2029') := by
    rw [List.any_eq_false]
    exact forall₂_congr fun c _ => not_congr isTerminator_iff
  rw [absent, OneLine]
  constructor
  · rintro ⟨noBreak, noReturn, noLine, noParagraph⟩ c member (rfl | rfl | rfl | rfl)
    · exact noBreak member
    · exact noReturn member
    · exact noLine member
    · exact noParagraph member
  · intro none
    exact ⟨fun member => none _ member (.inl rfl), fun member => none _ member (.inr (.inl rfl)),
      fun member => none _ member (.inr (.inr (.inl rfl))),
      fun member => none _ member (.inr (.inr (.inr rfl)))⟩

end Characters

namespace Header

variable {line key : Text} {value : Option Text}

/-- What a line says that has the form of a header line: its key, and behind spaces and tabs a
value, which counts without the white space around it, and only if anything is left of it. -/
inductive Tells : Text → Text → Option Text → Prop where
  | alone {key : Text} (isKey : IsKey key) : Tells key key none
  | valued {key gap value : Text} (isKey : IsKey key) (spaced : gap ≠ [])
      (gaps : ∀ c ∈ gap, Text.isGap c = true) (oneLine : value.OneLine) :
      Tells (key ++ gap ++ value) key (if value.trim = [] then none else some value.trim)

/-- Spaces and tabs before a value do not count. -/
theorem nonblank?_append {gap : Text} (gaps : ∀ c ∈ gap, Text.isGap c = true) (value : Text) :
    nonblank? (gap ++ value) = if value.trim = [] then none else some value.trim := by
  have blanks : ∀ c ∈ gap, Text.isBlank c = true := fun c member =>
    Text.isBlank_of_isGap (gaps c member)
  have allBlank : (gap ++ value).isBlankText = true ↔ value.trim = [] := by
    rw [Text.trim_eq_nil_iff, Text.isBlankText, Text.isBlankText, List.all_append,
      List.all_eq_true.mpr blanks, Bool.true_and]
  simp only [nonblank?, allBlank, Text.trim_append blanks]

/-- A line that begins with the characters of a key, and goes on with another one if at all. -/
theorem readLine?_append {behind : Text} (isKey : IsKey key)
    (ends : ∀ c ∈ behind.head?, isKeyChar c = false) :
    readLine? (key ++ behind) = match behind with
      | [] => some (key, none)
      | c :: rest =>
          if Text.isGap c ∧ ¬ rest.any Text.isTerminator then some (key, nonblank? rest)
          else none := by
  obtain ⟨⟨first, head, letter⟩, chars⟩ := isKey
  obtain ⟨others, rfl⟩ := List.head?_eq_some_iff.mp head
  have keyChars : ∀ c ∈ first :: others, isKeyChar c = true := fun c member =>
    isKeyChar_iff.mpr (chars c member)
  have lower : first.isLower = true := isLower_iff.mpr letter
  rw [readLine?, Text.takeWhile_append keyChars ends, Text.dropWhile_append keyChars ends]
  cases behind with
  | nil => simp [lower]
  | cons c rest => simp [lower]

theorem readLine?_of_tells (told : Tells line key value) : readLine? line = some (key, value) := by
  cases told with
  | alone isKey =>
      have read : readLine? (line ++ []) = some (line, none) :=
        readLine?_append isKey fun c member => by cases member
      rwa [List.append_nil] at read
  | @valued key gap value isKey spaced gaps oneLine =>
      obtain ⟨c, gap, rfl⟩ := List.exists_cons_of_ne_nil spaced
      have isGap := gaps c List.mem_cons_self
      have later : ∀ d ∈ gap, Text.isGap d = true := fun d member => gaps d (.tail _ member)
      have oneLine' : (gap ++ value).any Text.isTerminator = false := by
        rw [List.any_append, Text.oneLine_iff.mp oneLine, Bool.or_false, List.any_eq_false]
        exact fun d member => by simp [not_isTerminator_of_isGap (later d member)]
      rw [List.append_assoc, List.cons_append, readLine?_append isKey (by
        rintro d ⟨⟩
        exact not_isKeyChar_of_isGap isGap)]
      simp [isGap, oneLine', nonblank?_append later]

/-- Reading a line finds what it says, and nothing in a line that has not the form of one. -/
theorem readLine?_eq_some_iff : readLine? line = some (key, value) ↔ Tells line key value := by
  refine ⟨fun read => ?_, readLine?_of_tells⟩
  have chars : ∀ c ∈ line.takeWhile isKeyChar, IsKeyChar c := fun c member =>
    isKeyChar_iff.mp (List.mem_takeWhile_imp member)
  have whole := List.takeWhile_append_dropWhile (p := isKeyChar) (l := line)
  rw [readLine?] at read
  generalize line.takeWhile isKeyChar = found at read chars whole
  generalize line.dropWhile isKeyChar = behind at read whole
  subst whole
  cases found with
  | nil => cases read
  | cons first others =>
      have isKey : first.isLower = true → IsKey (first :: others) := fun lower =>
        ⟨⟨first, rfl, isLower_iff.mp lower⟩, chars⟩
      cases behind with
      | nil =>
          obtain ⟨lower, same⟩ := Option.ite_none_right_eq_some.mp read
          cases same
          rw [List.append_nil]
          exact .alone (isKey lower)
      | cons c rest =>
          obtain ⟨⟨lower, isGap, oneLine⟩, same⟩ := Option.ite_none_right_eq_some.mp read
          cases same
          have told := Tells.valued (isKey lower) (List.cons_ne_nil c [])
            (List.forall_mem_singleton.mpr isGap) (Text.oneLine_iff.mpr (by simpa using oneLine))
          rw [← nonblank?_append (List.forall_mem_nil _)] at told
          rwa [List.append_assoc] at told

end Header

end MarkPress
