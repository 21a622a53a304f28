/-
Module: MarkPress.Text.Blank
Purpose: White space and line terminators, and trimming.
  White space is a wider class than the space and tab of the markup: it has the line terminators,
  the Unicode space separators and the byte order mark. U+0085 and U+200B are not in it.
Main exports:
  Text.isBlank, Text.isTerminator, Text.trimStart, Text.trimEnd, Text.trim, Text.isBlankText
-/
import MarkPress.Text.Basic

namespace MarkPress.Text

/-- White space, as trimming and the separator line of a header see it. -/
def isBlank (c : Char) : Bool :=
  let n := c.toNat
  (9 ≤ n && n ≤ 13) || n == 0x20 || n == 0xA0 || n == 0x1680 || (0x2000 ≤ n && n ≤ 0x200A)
    || n == 0x2028 || n == 0x2029 || n == 0x202F || n == 0x205F || n == 0x3000 || n == 0xFEFF

/-- The characters that end a line for a value that has to stand on one line. -/
def isTerminator (c : Char) : Bool :=
  c == '\n' || c == '\r' || c.toNat == 0x2028 || c.toNat == 0x2029

/-- The white space that separates words of the markup. -/
def isGap (c : Char) : Bool := c == ' ' || c == '\t'

/-- A text without the white space before it. -/
def trimStart (text : Text) : Text := text.dropWhile isBlank

/-- A text without the white space behind it. -/
def trimEnd (text : Text) : Text := (trimStart text.reverse).reverse

/-- A text without the white space around it. -/
def trim (text : Text) : Text := trimEnd (trimStart text)

/-- Whether a text holds nothing but white space. -/
def isBlankText (text : Text) : Bool := text.all isBlank

/-- Every character that core calls white space is white space here too. -/
theorem isBlank_of_isWhitespace {c : Char} (h : c.isWhitespace = true) : isBlank c = true := by
  simp only [Char.isWhitespace, Bool.or_eq_true, decide_eq_true_eq] at h
  rcases h with ((rfl | rfl) | rfl) | rfl <;> rfl

/-- Every line terminator is white space. -/
theorem isBlank_of_isTerminator {c : Char} (h : isTerminator c = true) : isBlank c = true := by
  simp only [isTerminator, Bool.or_eq_true, beq_iff_eq] at h
  rcases h with ((rfl | rfl) | h) | h
  · rfl
  · rfl
  · simp [isBlank, h]
  · simp [isBlank, h]

end MarkPress.Text
